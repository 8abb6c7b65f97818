import BlockScript.Machine.Heap
import Mathlib.Data.List.Forall2

/-! Code and values of two runs that are alike. The runs give out identities of their own and may
differ in the code of their functions, but make cells in the same order. -/

namespace BlockScript

open Program

/-- In what the code of two runs may differ. -/
structure Setting where
  /-- A name that only the module binds, to an object of the runtime kind that no code has. -/
  hidden? : Option (String × ObjectRef) := none
  /-- What the second run has in the place of some statements of the first. -/
  special? : Stmt → Option Stmt := fun _ => none

namespace Setting

variable (S : Setting)

/-- The name may be used and bound. -/
def Allows (name : String) : Prop := ∀ h ∈ S.hidden?, name ≠ h.1

/-- Code may have the object. -/
def Shows (o : ObjectRef) : Prop := S.hidden?.isSome → o.kind ≠ .runtime

def AllowsIn (e : Expr) : Prop := ∀ name ∈ e.names, S.Allows name

variable {S}

theorem Shows.allows {o : ObjectRef} (ho : S.Shows o) (hkind : o.kind = .runtime) (name : String) :
    S.Allows name := fun _ hh => (ho (Option.isSome_of_mem hh) hkind).elim

end Setting

namespace Program

def Stmt.isPlain : Stmt → Bool
  | .ifElse .. | .whileLoop .. | .forLoop .. | .withBlock .. | .tryBlock .. | .functionDef ..
  | .classDef .. => false
  | _ => true

/-- The names that a statement binds other than by assigning to an expression. -/
def Stmt.declares : Stmt → List String
  | .imports _ names | .importsFrom _ _ names => names.map Alias.binding
  | .tryBlock _ _ handlers _ => handlers.filterMap Handler.name
  | .functionDef _ name params _ _ => name :: params.names
  | .classDef _ name _ _ _ => [name]
  | _ => []

/-- The second run has the statement too, and it keeps to the names it may use and bind. -/
structure Stmt.AllowedBy (S : Setting) (s : Stmt) : Prop where
  kept : S.special? s = none
  exprs : ∀ e ∈ s.exprs, S.AllowsIn e
  declares : ∀ name ∈ s.declares, S.Allows name

mutual

/-- Statements that differ only in special ones. -/
inductive Stmt.Alike (S : Setting) : Stmt → Stmt → Prop
  | special {s s' : Stmt} : S.special? s = some s' → (∀ e ∈ s.exprs, S.AllowsIn e) →
    s'.span = s.span → s'.isYielding = s.isYielding → Stmt.Alike S s s'
  | plain {s : Stmt} : s.isPlain = true → s.AllowedBy S → Stmt.Alike S s s
  | ifElse {span : Span} {test : Expr} {body body' orelse orelse' : List Stmt} :
    Stmt.AllowedBy S (.ifElse span test body orelse) → Stmt.AllAlike S body body' →
    Stmt.AllAlike S orelse orelse' →
    Stmt.Alike S (.ifElse span test body orelse) (.ifElse span test body' orelse')
  | whileLoop {span : Span} {test : Expr} {body body' : List Stmt} :
    Stmt.AllowedBy S (.whileLoop span test body) → Stmt.AllAlike S body body' →
    Stmt.Alike S (.whileLoop span test body) (.whileLoop span test body')
  | forLoop {span : Span} {target source : Expr} {body body' : List Stmt} :
    Stmt.AllowedBy S (.forLoop span target source body) → Stmt.AllAlike S body body' →
    Stmt.Alike S (.forLoop span target source body) (.forLoop span target source body')
  | withBlock {span : Span} {context : Expr} {target : Option Expr} {body body' : List Stmt} :
    Stmt.AllowedBy S (.withBlock span context target body) → Stmt.AllAlike S body body' →
    Stmt.Alike S (.withBlock span context target body) (.withBlock span context target body')
  | tryBlock {span : Span} {body body' : List Stmt} {handlers handlers' : List Handler}
      {finalBody finalBody' : List Stmt} :
    Stmt.AllowedBy S (.tryBlock span body handlers finalBody) → Stmt.AllAlike S body body' →
    Handler.AllAlike S handlers handlers' → Stmt.AllAlike S finalBody finalBody' →
    Stmt.Alike S (.tryBlock span body handlers finalBody)
      (.tryBlock span body' handlers' finalBody')
  | functionDef {span : Span} {name : String} {params : Params} {body body' : List Stmt}
      {decorators : List Expr} :
    Stmt.AllowedBy S (.functionDef span name params body decorators) → Stmt.AllAlike S body body' →
    Stmt.Alike S (.functionDef span name params body decorators)
      (.functionDef span name params body' decorators)
  | classDef {span : Span} {name : String} {bases : List Expr} {body body' : List Stmt}
      {decorators : List Expr} :
    Stmt.AllowedBy S (.classDef span name bases body decorators) → Stmt.AllAlike S body body' →
    Stmt.Alike S (.classDef span name bases body decorators)
      (.classDef span name bases body' decorators)

inductive Stmt.AllAlike (S : Setting) : List Stmt → List Stmt → Prop
  | nil : Stmt.AllAlike S [] []
  | cons {s s' : Stmt} {ss ss' : List Stmt} : Stmt.Alike S s s' → Stmt.AllAlike S ss ss' →
    Stmt.AllAlike S (s :: ss) (s' :: ss')

inductive Handler.AllAlike (S : Setting) : List Handler → List Handler → Prop
  | nil : Handler.AllAlike S [] []
  | cons {span : Span} {kind : Option Expr} {name : Option String} {body body' : List Stmt}
      {hs hs' : List Handler} :
    Stmt.AllAlike S body body' → Handler.AllAlike S hs hs' →
    Handler.AllAlike S (.mk span kind name body :: hs) (.mk span kind name body' :: hs')

end

end Program

/-! ## Values -/

open List

/-- What two runs have made so far: the kinds of their frames, and which identities correspond. -/
structure World where
  globals : FrameRef
  frames : List FrameKind
  first : Nat
  second : Nat
  ids : Nat → Nat → Prop
  kind_globals : globals.kind = .module
  lt_of_ids {a b : Nat} : ids a b → a < first ∧ b < second
  ids_iff {a b c d : Nat} : ids a b → ids c d → (a = c ↔ b = d)

namespace World

/-- Later in the runs. -/
structure Le (w w' : World) : Prop where
  globals : w'.globals = w.globals
  frames : w.frames <+: w'.frames
  ids {a b : Nat} : w.ids a b → w'.ids a b

instance : LE World := ⟨Le⟩

protected theorem le_refl (w : World) : w ≤ w := ⟨rfl, prefix_rfl, id⟩

protected theorem le_trans {w1 w2 w3 : World} (h : w1 ≤ w2) (h' : w2 ≤ w3) : w1 ≤ w3 :=
  ⟨h'.globals.trans h.globals, h.frames.trans h'.frames, fun hi => h'.ids (h.ids hi)⟩

def HasFrame (w : World) (r : FrameRef) : Prop := w.frames[r.index]? = some r.kind

/-- Frames that code can see: each was made after those around it, and the module is among them. -/
structure HasEnv (w : World) (env : Env) : Prop where
  frames : ∀ r ∈ env, w.HasFrame r
  sorted : env.Pairwise fun r s => s.index < r.index
  module : w.globals ∈ env

variable {w w' : World}

theorem HasFrame.mono (h : w ≤ w') {r : FrameRef} (hr : w.HasFrame r) : w'.HasFrame r := by
  obtain ⟨rest, hrest⟩ := h.frames
  obtain ⟨hlt, -⟩ := List.getElem?_eq_some_iff.1 hr
  rw [HasFrame, ← hrest, getElem?_append_left hlt]
  exact hr

theorem HasEnv.mono (h : w ≤ w') {env : Env} (he : w.HasEnv env) : w'.HasEnv env :=
  ⟨fun r hr => (he.frames r hr).mono h, he.sorted, h.globals ▸ he.module⟩

end World

mutual

/-- Values that are the same but for identities and code. -/
inductive Value.Alike (S : Setting) (w : World) : Value → Value → Prop
  | none : Value.Alike S w .none .none
  | bool (b : Bool) : Value.Alike S w (.bool b) (.bool b)
  | int (i : Int64) : Value.Alike S w (.int i) (.int i)
  | float (f : Float) : Value.Alike S w (.float f) (.float f)
  | str (s : String) : Value.Alike S w (.str s) (.str s)
  | list (r : ListRef) : Value.Alike S w (.list r) (.list r)
  | tuple {i j : Nat} {items items' : List Value} : w.ids i j →
    List.Forall₂ (Value.Alike S w) items items' → Value.Alike S w (.tuple i items) (.tuple j items')
  | dict (r : DictRef) : Value.Alike S w (.dict r) (.dict r)
  | function {f f' : Function} :
      Function.Alike S w f f' → Value.Alike S w (.function f) (.function f')
  | closure {f f' : Function} : Function.Alike S w f f' → Value.Alike S w (.closure f) (.closure f')
  | native {i j : Nat} (fn : Native) : w.ids i j → Value.Alike S w (.native i fn) (.native j fn)
  | method {i j : Nat} {v v' : Value} {m m' : Method} : w.ids i j → Value.Alike S w v v' →
    Method.Alike S w m m' → Value.Alike S w (.method i v m) (.method j v' m')
  | cls (c : Class) : Value.Alike S w (.cls c) (.cls c)
  | inst (r : InstanceRef) (c : Class) : Value.Alike S w (.inst r c) (.inst r c)
  | space (r : SpaceRef) : Value.Alike S w (.space r) (.space r)
  | object {o : ObjectRef} : S.Shows o → Value.Alike S w (.object o) (.object o)

inductive Function.Alike (S : Setting) (w : World) : Function → Function → Prop
  | mk {i j : Nat} {name : String} {params : Params} {body body' : List Stmt} {env : Env}
      {defaults defaults' : List Value} : w.ids i j → (∀ p ∈ params.names, S.Allows p) →
    Stmt.AllAlike S body body' → w.HasEnv env →
    List.Forall₂ (Value.Alike S w) defaults defaults' →
    Function.Alike S w (.mk i name params body env defaults) (.mk j name params body' env defaults')

inductive Method.Alike (S : Setting) (w : World) : Method → Method → Prop
  | function {f f' : Function} :
      Function.Alike S w f f' → Method.Alike S w (.function f) (.function f')
  | native {i j : Nat} (fn : Native) : w.ids i j → Method.Alike S w (.native i fn) (.native j fn)
  | named (name : String) : Method.Alike S w (.named name) (.named name)

end

abbrev Values.Alike (S : Setting) (w : World) : List Value → List Value → Prop :=
  List.Forall₂ (Value.Alike S w)

variable {S : Setting} {w w' : World} {f f' : Function} {v v' : Value}

mutual

theorem Value.Alike.mono (h : w ≤ w') : ∀ {v v' : Value}, v.Alike S w v' → v.Alike S w' v'
  | _, _, .none => .none
  | _, _, .bool b => .bool b
  | _, _, .int i => .int i
  | _, _, .float f => .float f
  | _, _, .str s => .str s
  | _, _, .list r => .list r
  | _, _, .tuple hi hs => .tuple (h.ids hi) (Value.Alike.mono_all h hs)
  | _, _, .dict r => .dict r
  | _, _, .function hf => .function (Function.Alike.mono h hf)
  | _, _, .closure hf => .closure (Function.Alike.mono h hf)
  | _, _, .native fn hi => .native fn (h.ids hi)
  | _, _, .method hi hv hm => .method (h.ids hi) (Value.Alike.mono h hv) (Method.Alike.mono h hm)
  | _, _, .cls c => .cls c
  | _, _, .inst r c => .inst r c
  | _, _, .space r => .space r
  | _, _, .object ho => .object ho

theorem Value.Alike.mono_all (h : w ≤ w') : ∀ {vs vs' : List Value},
    Values.Alike S w vs vs' → Values.Alike S w' vs vs'
  | _, _, .nil => .nil
  | _, _, .cons hv hvs => .cons (Value.Alike.mono h hv) (Value.Alike.mono_all h hvs)

theorem Function.Alike.mono (h : w ≤ w') : ∀ {f f' : Function}, f.Alike S w f' → f.Alike S w' f'
  | _, _, .mk hi hp hb he hd =>
    .mk (h.ids hi) hp hb (he.mono h) (Value.Alike.mono_all h hd)

theorem Method.Alike.mono (h : w ≤ w') : ∀ {m m' : Method}, m.Alike S w m' → m.Alike S w' m'
  | _, _, .function hf => .function (Function.Alike.mono h hf)
  | _, _, .native fn hi => .native fn (h.ids hi)
  | _, _, .named name => .named name

end

/-- A property of values that are alike: tuples have it if their items do. -/
structure Value.Alike.Hereditary (S : Setting) (w : World) (P : Value → Value → Prop) : Prop where
  tuple {i j : Nat} {items items' : List Value} : w.ids i j → Values.Alike S w items items' →
    List.Forall₂ P items items' → P (.tuple i items) (.tuple j items')
  other {v v' : Value} : v.Alike S w v' → (∀ i items, v ≠ .tuple i items) → P v v'

mutual

theorem Value.Alike.Hereditary.all {P : Value → Value → Prop} (h : Hereditary S w P) :
    ∀ {v v' : Value}, v.Alike S w v' → P v v'
  | _, _, .tuple hi hs => h.tuple hi hs (h.forall₂ hs)
  | _, _, .none | _, _, .bool _ | _, _, .int _ | _, _, .float _ | _, _, .str _ | _, _, .list _
  | _, _, .dict _ | _, _, .function _ | _, _, .closure _ | _, _, .native _ _ | _, _, .method ..
  | _, _, .cls _ | _, _, .inst .. | _, _, .space _ | _, _, .object _ =>
    h.other (by constructor <;> assumption) nofun

theorem Value.Alike.Hereditary.forall₂ {P : Value → Value → Prop} (h : Hereditary S w P) :
    ∀ {vs vs' : List Value}, Values.Alike S w vs vs' → List.Forall₂ P vs vs'
  | _, _, .nil => .nil
  | _, _, .cons hv hvs => .cons (h.all hv) (h.forall₂ hvs)

end

namespace Value.Alike

variable {v v' u u' : Value}

variable (h : v.Alike S w v')

include h

theorem typeName_eq : v'.typeName = v.typeName := by
  cases h <;> rfl

theorem isNone_eq : v'.isNone = v.isNone := by
  cases h <;> rfl

theorem asStr?_eq : v'.asStr? = v.asStr? := by
  cases h <;> rfl

theorem asInt?_eq : v'.asInt? = v.asInt? := by
  cases h <;> rfl

theorem asFloat?_eq : v'.asFloat? = v.asFloat? := by
  cases h <;> rfl

theorem isNumber_eq : v'.isNumber = v.isNumber := by
  cases h <;> rfl

end Value.Alike

theorem World.beq_eq {a b c d : Nat} (h : w.ids a b) (h' : w.ids c d) : (b == d) = (a == c) := by
  rw [Bool.eq_iff_iff, beq_iff_eq, beq_iff_eq, w.ids_iff h h']

theorem Function.Alike.ids (h : f.Alike S w f') : w.ids f.id f'.id := by
  cases h
  assumption

theorem Value.Alike.isSame_eq {u u' : Value} (hv : v.Alike S w v') (hu : u.Alike S w u') :
    v'.isSame u' = v.isSame u := by
  cases hv <;> cases hu <;> first
    | rfl
    | exact World.beq_eq ‹_› ‹_›
    | exact World.beq_eq (Function.Alike.ids ‹_›) (Function.Alike.ids ‹_›)

mutual

theorem Program.Stmt.Alike.isYielding_eq :
    ∀ {s s' : Stmt}, s.Alike S s' → s'.isYielding = s.isYielding
  | _, _, .special _ _ _ h => h
  | _, _, .plain _ _ => rfl
  | _, _, .ifElse _ hbody horelse => by
    rw [Stmt.isYielding, Stmt.isYielding, Stmt.AllAlike.areYielding_eq hbody,
      Stmt.AllAlike.areYielding_eq horelse]
  | _, _, .whileLoop _ hbody => by
    rw [Stmt.isYielding, Stmt.isYielding, Stmt.AllAlike.areYielding_eq hbody]
  | _, _, .forLoop _ hbody => by
    rw [Stmt.isYielding, Stmt.isYielding, Stmt.AllAlike.areYielding_eq hbody]
  | _, _, .withBlock _ hbody => by
    rw [Stmt.isYielding, Stmt.isYielding, Stmt.AllAlike.areYielding_eq hbody]
  | _, _, .tryBlock _ hbody hhandlers hfinal => by
    rw [Stmt.isYielding, Stmt.isYielding, Stmt.AllAlike.areYielding_eq hbody,
      Handler.AllAlike.areYielding_eq hhandlers, Stmt.AllAlike.areYielding_eq hfinal]
  | _, _, .functionDef _ _ => rfl
  | _, _, .classDef _ _ => rfl

theorem Program.Stmt.AllAlike.areYielding_eq : ∀ {ss ss' : List Stmt}, Stmt.AllAlike S ss ss' →
    Stmt.areYielding ss' = Stmt.areYielding ss
  | _, _, .nil => rfl
  | _, _, .cons hs hss => by
    rw [Stmt.areYielding, Stmt.areYielding, Stmt.Alike.isYielding_eq hs,
      Stmt.AllAlike.areYielding_eq hss]

theorem Program.Handler.AllAlike.areYielding_eq : ∀ {hs hs' : List Handler},
    Handler.AllAlike S hs hs' → Stmt.areYieldingHandlers hs' = Stmt.areYieldingHandlers hs
  | _, _, .nil => rfl
  | _, _, .cons hbody hhs => by
    rw [Stmt.areYieldingHandlers, Stmt.areYieldingHandlers, Stmt.AllAlike.areYielding_eq hbody,
      Handler.AllAlike.areYielding_eq hhs]

end

theorem Program.Stmt.Alike.span_eq {s s' : Stmt} (h : s.Alike S s') : s'.span = s.span := by
  cases h with
  | special _ _ hspan _ => exact hspan
  | _ => rfl

theorem Function.Alike.isGenerator_eq (h : f.Alike S w f') : f'.isGenerator = f.isGenerator := by
  cases h with
  | mk _ _ hbody _ _ => exact hbody.areYielding_eq

/-! ## Maps -/

namespace OrderedMap

variable {κ α β : Type} [BEq κ]

def AlikeBy (R : κ → α → β → Prop) (m : OrderedMap κ α) (m' : OrderedMap κ β) : Prop :=
  List.Forall₂ (fun e e' => e'.1 = e.1 ∧ R e.1 e.2 e'.2) m.entries m'.entries

variable {R R' : κ → α → β → Prop} {m : OrderedMap κ α} {m' : OrderedMap κ β}

namespace AlikeBy

theorem empty : AlikeBy R .empty .empty := .nil

theorem imp (himp : ∀ k a b, R k a b → R' k a b) (h : AlikeBy R m m') : AlikeBy R' m m' :=
  List.Forall₂.imp (fun _ _ he => ⟨he.1, himp _ _ _ he.2⟩) h

theorem size_eq (h : AlikeBy R m m') : m'.size = m.size := (List.Forall₂.length_eq h).symm

theorem isEmpty_eq (h : AlikeBy R m m') : m'.isEmpty = m.isEmpty := by
  obtain ⟨entries, _⟩ := m
  obtain ⟨entries', _⟩ := m'
  cases h <;> rfl

theorem keys_eq (h : AlikeBy R m m') : m'.keys = m.keys := by
  have hkeys : List.Forall₂ (· = ·) m.keys m'.keys := rel_map (fun _ _ he => he.1.symm) h
  rw [forall₂_eq_eq_eq] at hkeys
  exact hkeys.symm

theorem filter {p : κ → α → Bool} {q : κ → β → Bool}
    (hpq : ∀ k a b, R k a b → (p k a = true ↔ q k b = true)) (h : AlikeBy R m m') :
    AlikeBy R (m.filter p) (m'.filter q) := by
  refine rel_filter (fun e e' he => ?_) h
  obtain ⟨k, a⟩ := e
  obtain ⟨k', b⟩ := e'
  obtain ⟨rfl, hab⟩ := he
  exact hpq _ _ _ hab

theorem get? (h : AlikeBy R m m') (key : κ) :
    Option.Rel (fun a b => ∃ k, (key == k) = true ∧ R k a b) (m.get? key) (m'.get? key) := by
  rw [OrderedMap.get?, OrderedMap.get?]
  unfold AlikeBy at h
  generalize m.entries = entries, m'.entries = entries' at h ⊢
  induction h with
  | nil => exact .none
  | @cons e e' es es' he _ ih =>
    obtain ⟨k, a⟩ := e
    obtain ⟨k', b⟩ := e'
    obtain ⟨rfl, hab⟩ := he
    rw [lookup_cons, lookup_cons]
    cases hk : key == k' with
    | true => exact .some ⟨_, hk, hab⟩
    | false => exact ih

theorem contains_eq (h : AlikeBy R m m') (key : κ) : m'.contains key = m.contains key := by
  rw [contains, contains]
  have hfound := h.get? key
  generalize m.get? key = found, m'.get? key = found' at hfound ⊢
  cases hfound <;> rfl

theorem insert {key : κ} {a : α} {b : β} (hab : ∀ k, (key == k) = true ∨ k = key → R k a b)
    (h : AlikeBy R m m') : AlikeBy R (m.insert key a) (m'.insert key b) := by
  change List.Forall₂ _ (insertEntry key a m.entries) (insertEntry key b m'.entries)
  unfold AlikeBy at h
  generalize m.entries = entries, m'.entries = entries' at h ⊢
  induction h with
  | nil => exact .cons ⟨rfl, hab key (.inr rfl)⟩ .nil
  | @cons e e' es es' he hes ih =>
    obtain ⟨k, x⟩ := e
    obtain ⟨k', y⟩ := e'
    obtain ⟨rfl, hxy⟩ := he
    unfold insertEntry
    split
    · next hk => exact .cons ⟨rfl, hab _ (.inl hk)⟩ hes
    · exact .cons ⟨rfl, hxy⟩ ih

theorem erase (h : AlikeBy R m m') (key : κ) : AlikeBy R (m.erase key) (m'.erase key) := by
  change List.Forall₂ _ (m.entries.eraseP _) (m'.entries.eraseP _)
  unfold AlikeBy at h
  generalize m.entries = entries, m'.entries = entries' at h ⊢
  induction h with
  | nil => exact .nil
  | @cons e e' es es' he hes ih =>
    obtain ⟨k, x⟩ := e
    obtain ⟨k', y⟩ := e'
    obtain ⟨rfl, hxy⟩ := he
    rw [eraseP_cons, eraseP_cons]
    dsimp only
    cases key == k' with
    | true => exact hes
    | false => exact .cons ⟨rfl, hxy⟩ ih

end AlikeBy

end OrderedMap

def MapAlike {κ : Type} [BEq κ] (S : Setting) (w : World) (m m' : OrderedMap κ Value) : Prop :=
  m.AlikeBy (fun _ => Value.Alike S w) m'

namespace MapAlike

variable {κ : Type} [BEq κ] {m m' n n' : OrderedMap κ Value} {entries entries' : List (κ × Value)}

theorem empty : MapAlike S w (.empty : OrderedMap κ Value) .empty := OrderedMap.AlikeBy.empty

theorem mono (hw : w ≤ w') (h : MapAlike S w m m') : MapAlike S w' m m' :=
  h.imp fun _ _ _ hv => hv.mono hw

theorem values (h : MapAlike S w m m') : Values.Alike S w m.values m'.values :=
  rel_map (fun _ _ he => he.2) h

theorem get? (h : MapAlike S w m m') (key : κ) :
    Option.Rel (Value.Alike S w) (m.get? key) (m'.get? key) := by
  match m.get? key, m'.get? key, OrderedMap.AlikeBy.get? h key with
  | _, _, .none => exact .none
  | _, _, .some hab => exact .some hab.choose_spec.2

theorem insert (h : MapAlike S w m m') (key : κ) (hv : v.Alike S w v') :
    MapAlike S w (m.insert key v) (m'.insert key v') :=
  OrderedMap.AlikeBy.insert (fun _ _ => hv) h

abbrev Entries (S : Setting) (w : World) {κ : Type} : List (κ × Value) → List (κ × Value) → Prop :=
  List.Forall₂ fun e e' => e'.1 = e.1 ∧ e.2.Alike S w e'.2

theorem insertAll (h : MapAlike S w m m') (he : Entries S w entries entries') :
    MapAlike S w (m.insertAll entries) (m'.insertAll entries') := by
  refine rel_foldl (R := fun e e' => e'.1 = e.1 ∧ e.2.Alike S w e'.2) ?_ h he
  rintro n n' hn ⟨k, v⟩ ⟨k', v'⟩ ⟨hk, hv⟩
  cases hk
  exact hn.insert k hv

theorem ofList (he : Entries S w entries entries') :
    MapAlike S w (.ofList entries) (.ofList entries') :=
  empty.insertAll he

end MapAlike

end BlockScript
