import BlockScript.Proofs.Alike.Run
import BlockScript.Script

/-! New machines are alike, and stay so when the runtime object is installed. -/

namespace BlockScript

variable {S : Setting} {w : World} {h h' : Heap} {names names' : Attrs}

namespace World

/-- Both runs give out `n` more identities. -/
def nextMany (w : World) : Nat → World
  | 0 => w
  | n + 1 => (w.nextMany n).next

theorem le_nextMany (w : World) : ∀ n, w ≤ w.nextMany n
  | 0 => World.le_refl w
  | n + 1 => World.le_trans (le_nextMany w n) (le_next _)

theorem counts_nextMany (w : World) (n : Nat) :
    (w.nextMany n).first = w.first + n ∧ (w.nextMany n).second = w.second + n ∧
      (w.nextMany n).frames = w.frames := by
  induction n with
  | zero => exact ⟨rfl, rfl, rfl⟩
  | succ n ih =>
    obtain ⟨hfirst, hsecond, hframes⟩ := ih
    exact ⟨congrArg (· + 1) hfirst, congrArg (· + 1) hsecond, hframes⟩

theorem ids_nextMany (w : World) {i n : Nat} (h : i < n) :
    (w.nextMany n).ids (w.first + i) (w.second + i) := by
  induction n with
  | zero => cases h
  | succ n ih =>
    rcases Nat.lt_succ_iff_lt_or_eq.1 h with h | rfl
    · exact .inl (ih h)
    · obtain ⟨hfirst, hsecond, -⟩ := w.counts_nextMany i
      exact .inr ⟨hfirst.symm, hsecond.symm⟩

def start : World where
  globals := ⟨0, .module⟩
  frames := [.module]
  first := 0
  second := 0
  ids _ _ := False
  kind_globals := rfl
  lt_of_ids := False.elim
  ids_iff h _ := h.elim

end World

/-! ## The names every program can use -/

def defineExceptions (h : Heap) (names : Attrs) (classes : List (String × String)) : Heap × Attrs :=
  classes.foldl (fun (h, names) (name, base) => defineException h names name base) (h, names)

theorem builtinNames_eq (h : Heap) :
    builtinNames h = defineExceptions { h with fresh := h.fresh + Native.builtins.length }
      (.ofList (Native.builtins.zipIdx.map fun (fn, i) => (fn.name, .native (h.fresh + i) fn)))
      exceptionClasses := rfl

theorem Heap.Alike.defineException (hh : h.Alike S w h') (hnames : MapAlike S w names names')
    (name base : String) :
    (defineException h names name base).1.Alike S w.next (defineException h' names' name base).1 ∧
      MapAlike S w.next (defineException h names name base).2
        (defineException h' names' name base).2 := by
  have hlater : Heap.Alike S w.next { h with fresh := h.fresh + 1 }
      { h' with fresh := h'.fresh + 1 } := by
    rw [hh.fresh, hh.fresh']
    exact hh.later w.le_next rfl
  have hinit : w.next.ids h.fresh h'.fresh := by
    rw [hh.fresh, hh.fresh']
    exact w.ids_next
  have hbase := hnames.get? base
  unfold BlockScript.defineException
  generalize names.get? base = found, names'.get? base = found' at hbase
  have hroot : MapAlike S w.next
      (.ofList [("__exception__", .bool true), ("__init__", .native h.fresh .exceptionInit)] :
      Attrs)
      (.ofList [("__exception__", .bool true), ("__init__", .native h'.fresh .exceptionInit)]) :=
    .ofList (.cons ⟨rfl, .bool true⟩ (.cons ⟨rfl, .native _ hinit⟩ .nil))
  have hdefined : ∀ (bases : List Class) {attrs attrs' : Attrs}, MapAlike S w.next attrs attrs' →
      ({ h with fresh := h.fresh + 1 }.newClass name bases attrs).2.Alike S w.next
          ({ h' with fresh := h'.fresh + 1 }.newClass name bases attrs').2 ∧
        MapAlike S w.next
          (names.insert name (.cls ({ h with fresh := h.fresh + 1 }.newClass name bases attrs).1))
          (names'.insert name (.cls
            ({ h' with fresh := h'.fresh + 1 }.newClass name bases attrs').1)) := by
    intro bases attrs attrs' hattrs
    obtain ⟨hclass, hheap⟩ := hlater.newClass name bases hattrs
    rw [hclass]
    exact ⟨hheap, (hnames.mono w.le_next).insert name (.cls _)⟩
  cases hbase with
  | none => exact hdefined [] hroot
  | some hv =>
    cases hv with
    | cls c => exact hdefined [c] .nil
    | _ => exact hdefined [] hroot

theorem Heap.Alike.defineExceptions (hh : h.Alike S w h') (hnames : MapAlike S w names names')
    (classes : List (String × String)) :
    ∃ w', w ≤ w' ∧ (defineExceptions h names classes).1.Alike S w'
      (defineExceptions h' names' classes).1 ∧
      MapAlike S w' (defineExceptions h names classes).2
        (defineExceptions h' names' classes).2 := by
  induction classes generalizing w h h' names names' with
  | nil => exact ⟨w, World.le_refl w, hh, hnames⟩
  | cons entry rest ih =>
    obtain ⟨name, base⟩ := entry
    obtain ⟨hh, hnames⟩ := hh.defineException hnames name base
    obtain ⟨w', hle, hrest⟩ := ih hh hnames
    exact ⟨w', World.le_trans w.le_next hle, hrest⟩

theorem Heap.Alike.builtinNames (hh : h.Alike S w h') :
    ∃ w', w ≤ w' ∧ (builtinNames h).1.Alike S w' (builtinNames h').1 ∧
      MapAlike S w' (builtinNames h).2 (builtinNames h').2 := by
  obtain ⟨hfirst, hsecond, hframes⟩ := w.counts_nextMany Native.builtins.length
  have hle := w.le_nextMany Native.builtins.length
  have hheap : Heap.Alike S (w.nextMany Native.builtins.length)
      { h with fresh := h.fresh + Native.builtins.length }
      { h' with fresh := h'.fresh + Native.builtins.length } := by
    rw [hh.fresh, hh.fresh', ← hfirst, ← hsecond]
    exact hh.later hle hframes
  have hfunctions : MapAlike.Entries S (w.nextMany Native.builtins.length)
      (Native.builtins.zipIdx.map fun (fn, i) => (fn.name, .native (h.fresh + i) fn))
      (Native.builtins.zipIdx.map fun (fn, i) => (fn.name, .native (h'.fresh + i) fn)) := by
    unfold MapAlike.Entries
    rw [List.forall₂_map_left_iff, List.forall₂_map_right_iff, List.forall₂_same]
    rintro ⟨fn, i⟩ hmem
    have hi : i < Native.builtins.length := by
      obtain ⟨-, hi, -⟩ := List.mem_zipIdx hmem
      rwa [Nat.zero_add] at hi
    rw [hh.fresh, hh.fresh']
    exact ⟨rfl, .native fn (w.ids_nextMany hi)⟩
  rw [builtinNames_eq, builtinNames_eq]
  obtain ⟨w', hle', hall⟩ := hheap.defineExceptions (MapAlike.ofList hfunctions) exceptionClasses
  exact ⟨w', World.le_trans hle hle', hall⟩

theorem defineExceptions_with (h : Heap) (names : Attrs) (frames : Cells Frame)
    (objects : Cells Attrs) (classes : List (String × String)) :
    defineExceptions { h with frames, objects } names classes =
      ({ (defineExceptions h names classes).1 with frames, objects },
        (defineExceptions h names classes).2) := by
  induction classes generalizing h names with
  | nil => rfl
  | cons entry rest ih => exact ih (defineException h names entry.1 entry.2).1 _

theorem builtinNames_with (h : Heap) (frames : Cells Frame) (objects : Cells Attrs) :
    builtinNames { h with frames, objects } =
      ({ (builtinNames h).1 with frames, objects }, (builtinNames h).2) := by
  rw [builtinNames_eq, builtinNames_eq]
  -- Nothing here is to evaluate the tables.
  generalize Native.builtins = natives, exceptionClasses = classes
  exact defineExceptions_with { h with fresh := h.fresh + natives.length } _ frames objects classes

/-! ## Machines -/

def Heap.ofModule (vars : Attrs) (objects : Cells Attrs) : Heap where
  frames := ⟨#[{ vars }]⟩
  objects

/-- A machine that has not run anything but whose module has variables. -/
def Machine.ofModule (vars : Attrs) (objects : Cells Attrs) : Machine where
  heap := (builtinNames (.ofModule vars objects)).1
  builtins := (builtinNames (.ofModule vars objects)).2
  frames := [{ env := [⟨0, .module⟩] }]

theorem Machine.new_eq : Machine.new = .ofModule .empty {} := rfl

theorem Machine.Alike.ofModule {vars : Attrs} {objects : Cells Attrs}
    (hvars : vars.AlikeBy (VarAlike S .start True) vars)
    (hobjects : objects.AlikeBy (MapAlike S .start) objects)
    (hhidden : ∀ name o, S.hidden? = some (name, o) → vars.get? name = some (.object o)) :
    ∃ w, (Machine.ofModule vars objects).Alike S w (Machine.ofModule vars objects) := by
  have hheap : (Heap.ofModule vars objects).Alike S .start (Heap.ofModule vars objects) :=
    { lists := ⟨rfl, fun _ => .nil⟩
      dicts := ⟨rfl, fun _ => .empty⟩
      spaces := ⟨rfl, fun _ => .empty⟩
      instances := ⟨rfl, fun _ => .empty⟩
      classes := ⟨rfl, fun _ => ⟨rfl, .empty⟩⟩
      objects := hobjects
      frames := fun
        | 0 => ⟨hvars.imp fun _ _ _ hv => hv.imp id fun hv => ⟨rfl, hv.2⟩, rfl, rfl⟩
        | _ + 1 => ⟨.nil, rfl, rfl⟩
      frameCount := rfl
      frameCount' := rfl
      fresh := rfl
      fresh' := rfl
      module := rfl
      hidden := fun name o ho => ⟨hhidden name o ho, hhidden name o ho⟩ }
  obtain ⟨w, hle, hheap, hbuiltins⟩ := hheap.builtinNames
  have henv : w.HasEnv [⟨0, .module⟩] := by
    have hglobals : w.globals = ⟨0, .module⟩ := hle.globals
    refine ⟨fun r hr => ?_, List.pairwise_singleton .., ?_⟩
    · rw [List.mem_singleton.1 hr, ← hglobals]
      exact hheap.module
    · rw [hglobals]
      exact List.mem_singleton_self _
  exact ⟨w,
    { heap := hheap
      builtins := hbuiltins
      globals := hle.globals.symm
      globals' := hle.globals.symm
      frames := .cons ⟨rfl, henv, .none⟩ .nil
      scopes := .nil
      modules := .nil
      output_eq := rfl
      yields := .nil
      handling := .nil
      depth_eq := rfl
      errorLine := rfl }⟩

theorem Machine.new_alike (hhidden : S.hidden? = none) :
    ∃ w, Machine.new.Alike S w Machine.new := by
  refine Machine.new_eq ▸ Machine.Alike.ofModule .nil ⟨rfl, fun _ => .nil⟩ fun name o ho => ?_
  rw [hhidden] at ho
  cases ho

def firstRuntime : ObjectRef := ⟨0, .runtime⟩

def Machine.withRuntime (name : String) : Machine :=
  .ofModule (.ofList [(name, .object firstRuntime)]) ⟨#[.empty]⟩

theorem installRuntime_new (name : String) :
    installRuntime name Machine.new = .ok () (.withRuntime name) := by
  have hkept : ∀ vars objects, builtinNames (.ofModule vars objects) =
      ({ (builtinNames (.ofModule .empty {})).1 with frames := ⟨#[{ vars }]⟩, objects },
        (builtinNames (.ofModule .empty {})).2) :=
    fun vars objects => builtinNames_with (.ofModule .empty {}) _ objects
  rw [Machine.new_eq, Machine.withRuntime, Machine.ofModule, Machine.ofModule, hkept (.ofList _),
    hkept .empty]
  generalize builtinNames (.ofModule .empty {}) = builtins
  rfl

theorem Machine.withRuntime_alike {name : String}
    (hhidden : S.hidden? = some (name, firstRuntime)) :
    ∃ w, (Machine.withRuntime name).Alike S w (Machine.withRuntime name) := by
  refine Machine.Alike.ofModule ?_ ⟨rfl, fun | 0 => .nil | _ + 1 => .nil⟩ fun other o ho => ?_
  · exact .cons ⟨rfl, .inr ⟨trivial, firstRuntime, hhidden, rfl, rfl⟩⟩ .nil
  · rw [hhidden] at ho
    cases ho
    exact OrderedMap.get?_insert_self _ (beq_self_eq_true _) _

end BlockScript
