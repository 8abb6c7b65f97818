import BlockScript.Eval.Call
import BlockScript.Proofs.Alike.Builtins

/-! Calls of values that are alike. -/

namespace BlockScript

open Program List

variable {S : Pairing} {w w' : World} {v v' : Value} {args args' : Args}

/-! ## Parameters -/

abbrev VarsAlike (S : Setting) (w : World) (a a' : Attrs) : Prop :=
  a.AlikeBy (VarAlike S w False) a'

namespace VarsAlike

variable {a a' : Attrs}

theorem mono (hw : w ≤ w') (h : VarsAlike S w a a') : VarsAlike S w' a a' :=
  h.imp fun _ _ _ hv => hv.mono hw

theorem insert (h : VarsAlike S w a a') {name : String} (hname : S.Allows name)
    (hv : v.Alike S w v') : VarsAlike S w (a.insert name v) (a'.insert name v') := by
  refine OrderedMap.AlikeBy.insert (fun k hk => ?_) h
  have hk : name = k := hk.elim eq_of_beq Eq.symm
  exact .inl ⟨hk ▸ hname, hv⟩

theorem insertZip (h : VarsAlike S w a a') {names : List String} (hnames : ∀ n ∈ names, S.Allows n)
    {vs vs' : List Value} (hvs : Values.Alike S w vs vs') :
    VarsAlike S w (a.insertAll (names.zip vs)) (a'.insertAll (names.zip vs')) := by
  induction names generalizing a a' vs vs' with
  | nil => exact h
  | cons name names ih =>
    cases hvs with
    | nil => exact h
    | cons hv hvs =>
      exact ih (h.insert (hnames name mem_cons_self) hv) (fun n hn =>
        hnames n (mem_cons_of_mem name hn)) hvs

end VarsAlike

namespace Function.Alike

variable {f f' : Function}

variable (h : f.Alike S w f')

include h

theorem params_eq : f'.params = f.params := by
  cases h
  rfl

theorem allows : ∀ p ∈ f.params.names, S.Allows p := by
  cases h with
  | mk _ hp => exact hp

theorem allows_args : ∀ n ∈ f.params.args.map (·.name), S.Allows n :=
  fun n hn => h.allows n (mem_append_left _ (mem_append_left _ hn))

theorem defaults : Values.Alike S w f.defaults f'.defaults := by
  cases h with
  | mk _ _ _ _ hd => exact hd

theorem body : Stmt.AllAlike S f.body f'.body := by
  cases h with
  | mk _ _ hb => exact hb

theorem env_eq : f'.env = f.env := by
  cases h
  rfl

theorem env : w.HasEnv f.env := by
  cases h with
  | mk _ _ _ he => exact he

theorem bindKeyword {bound bound' : Attrs × Dict}
    (hb : VarsAlike S w bound.1 bound'.1 ∧ MapAlike S w bound.2 bound'.2)
    {arg arg' : String × Value} (ha : arg'.1 = arg.1 ∧ arg.2.Alike S w arg'.2) :
    ExceptAlike S w (fun b b' => VarsAlike S w b.1 b'.1 ∧ MapAlike S w b.2 b'.2)
      (f.bindKeyword bound arg) (f'.bindKeyword bound' arg') := by
  obtain ⟨vars, surplus⟩ := bound
  obtain ⟨vars', surplus'⟩ := bound'
  obtain ⟨name, v⟩ := arg
  obtain ⟨_, v'⟩ := arg'
  obtain ⟨hname, hv⟩ := ha
  cases hname
  unfold Function.bindKeyword
  dsimp only
  rw [h.params_eq, h.name_eq, hb.1.contains_eq]
  split
  · next hparam =>
    split
    · exact .error (.same rfl)
    · refine .ok ⟨hb.1.insert ?_ hv, hb.2⟩
      obtain ⟨param, hmem, hname⟩ := any_eq_true.1 hparam
      exact eq_of_beq hname ▸ h.allows_args _ (mem_map_of_mem hmem)
  · split
    · exact .ok ⟨hb.1, hb.2.insert _ hv⟩
    · exact .error (.same rfl)

theorem bindDefault {vars vars' : Attrs} (hvars : VarsAlike S w vars vars')
    {param param' : String × Option Value} (hp : param'.1 = param.1 ∧ S.Allows param.1 ∧
      Option.Rel (Value.Alike S w) param.2 param'.2) :
    ExceptAlike S w (VarsAlike S w) (f.bindDefault vars param) (f'.bindDefault vars' param') := by
  obtain ⟨name, v⟩ := param
  obtain ⟨_, v'⟩ := param'
  obtain ⟨hname, hallowed, hv⟩ := hp
  cases hname
  unfold Function.bindDefault
  dsimp only
  rw [hvars.contains_eq, h.name_eq]
  split
  · exact .ok hvars
  · cases hv with
    | none => exact .error (.same rfl)
    | some hv => exact .ok (hvars.insert hallowed hv)

theorem paramDefaults :
    List.Forall₂ (fun p p' => p'.1 = p.1 ∧ S.Allows p.1 ∧ Option.Rel (Value.Alike S w) p.2 p'.2)
      f.paramDefaults f'.paramDefaults := by
  unfold Function.paramDefaults
  rw [h.params_eq, ← h.defaults.length_eq]
  have hvalues : List.Forall₂ (Option.Rel (Value.Alike S w))
      (replicate (f.params.args.length - f.defaults.length) none ++ f.defaults.map some)
      (replicate (f.params.args.length - f.defaults.length) none ++ f'.defaults.map some) := by
    refine rel_append (forall₂_same.2 fun o ho => ?_) (rel_map ?_ h.defaults)
    · rw [(mem_replicate.1 ho).2]
      exact .none
    · exact fun _ _ hv => .some hv
  have hnames := h.allows_args
  dsimp only
  generalize f.params.args.map (·.name) = names at hnames
  generalize replicate _ none ++ f.defaults.map some = values,
    replicate _ none ++ f'.defaults.map some = values' at hvalues
  induction names generalizing values values' with
  | nil => exact .nil
  | cons name names ih =>
    cases hvalues with
    | nil => exact .nil
    | cons hv hrest =>
      exact .cons ⟨rfl, hnames name mem_cons_self, hv⟩
        (ih (fun n hn => hnames n (mem_cons_of_mem name hn)) _ _ hrest)

theorem bindParams (ha : args.Alike S w args') :
    Run.Alike S w (VarsAlike S) (f.bindParams args) (f'.bindParams args') := by
  unfold Function.bindParams
  rw [h.params_eq, h.name_eq, ← ha.positional.length_eq]
  extract_lets given vars finish named vars' finish' named'
  have hfinish : ∀ w', w ≤ w' → ∀ vars vars', VarsAlike S w' vars vars' →
      Run.Alike S w' (VarsAlike S) (finish vars) (finish' vars') := by
    intro w' hw vars vars' hvars
    refine .ofExcept (.foldlM hvars ((h.mono hw).paramDefaults) fun _ _ hvars _ _ hp => ?_)
    exact (h.mono hw).bindDefault hvars hp
  have hnamed : ∀ w', w ≤ w' → ∀ vars vars', VarsAlike S w' vars vars' →
      Run.Alike S w' (VarsAlike S) (named vars) (named' vars') := by
    intro w1 hw1 vars vars' hvars
    refine .bind (.ofExcept (Q := fun w b b' => VarsAlike S w b.1 b'.1 ∧ MapAlike S w b.2 b'.2)
      (.foldlM ⟨hvars, .empty⟩ (ha.mono hw1).keywords ?_)) fun w2 hw2 bound bound' hbound => ?_
    · exact fun _ _ hb _ _ he => (h.mono hw1).bindKeyword hb he
    · have hw := World.le_trans hw1 hw2
      obtain ⟨_, surplus⟩ := bound
      obtain ⟨_, surplus'⟩ := bound'
      dsimp only
      split
      · next name hname =>
        refine .bind (.newDict hbound.2) fun w3 hw3 d d' hd => ?_
        refine .bind (.pure ?_) fun w4 hw4 =>
          hfinish w4 (World.le_trans hw (World.le_trans hw3 hw4))
        refine (hbound.1.mono hw3).insert (h.allows _ (mem_append_right _ ?_)) hd
        exact hname ▸ mem_singleton_self name
      · exact .bind (.pure hbound.1) fun w3 hw3 => hfinish w3 (World.le_trans hw hw3)
  have hvars : VarsAlike S w vars vars' :=
    VarsAlike.insertZip OrderedMap.AlikeBy.empty h.allows_args ha.positional
  split
  · next name hname =>
    refine .bind (.newTuple (forall₂_drop _ ha.positional)) fun w1 hw1 items items' hitems => ?_
    refine .bind (.pure ?_) fun w2 hw2 => hnamed w2 (World.le_trans hw1 hw2)
    refine (hvars.mono hw1).insert (h.allows _ ?_) hitems
    refine mem_append_left _ (mem_append_right _ ?_)
    exact hname ▸ mem_singleton_self name
  · refine .ite (fun _ => .fail_bind (.same rfl)) fun _ => ?_
    exact .bind (.pure hvars) hnamed

end Function.Alike

/-! ## Functions -/

namespace Run.Alike

variable {α β : Type} {Q : World → α → β → Prop} {p : Run α} {q : Run β}

theorem deeper (h : Run.Alike S w Q p q) : Run.Alike S w Q (Run.deeper p) (Run.deeper q) := by
  intro m m' hm
  refine (ensuring h fun _ _ _ _ hm => ?_) _ _ ?_
  · exact { hm with depth_eq := congrArg (· - 1) hm.depth_eq }
  · exact { hm with depth_eq := congrArg (· + 1) hm.depth_eq }

theorem newFrame (kind : FrameKind) {frame frame' : Frame} (hf : frame.Alike S w False frame')
    {env : Env} (henv : w.HasEnv env) : Run.Alike S w
      (fun w' r r' => r' = r ∧ w'.HasEnv (r :: env) ∧ w'.globals.index < r.index)
      (Run.alloc (·.newFrame kind frame)) (Run.alloc (·.newFrame kind frame')) := by
  intro m m' hm
  have hw := w.le_addFrame kind
  refine .ok hw (hm.withHeap hw (hm.heap.newFrame kind hf)) ?_
  rw [hm.heap.frameCount, hm.heap.frameCount']
  exact ⟨rfl, henv.addFrame kind, hm.heap.module.lt⟩

/-- Both runs make a frame inside the frames of the running code. -/
theorem newFrame_get_bind {γ δ : Type} {R : World → γ → δ → Prop} (kind : FrameKind)
    {frame frame' : Frame} (hf : frame.Alike S w False frame') {f : FrameRef → Machine → Run γ}
    {g : FrameRef → Machine → Run δ}
    (h : ∀ w', w ≤ w' → ∀ r m m', m.Alike S w' m' S.marks → w'.HasEnv (r :: m.env) →
      w'.globals.index < r.index → Run.Alike S w' R (f r m) (g r m')) :
    Run.Alike S w R (Run.alloc (·.newFrame kind frame) >>= fun r => get >>= f r)
      (Run.alloc (·.newFrame kind frame') >>= fun r => get >>= g r) := by
  intro m m' hm
  have hw := w.le_addFrame kind
  have hmade := hm.withHeap hw (hm.heap.newFrame kind hf)
  have hrun := h _ hw ⟨w.frames.length, kind⟩ _ _ hmade (hm.env.addFrame kind) hm.heap.module.lt
  change Run.EndAlike S w R (f ⟨m.heap.frames.size, kind⟩ { m with heap :=
    (m.heap.newFrame kind frame).2 }
      { m with heap := (m.heap.newFrame kind frame).2 })
    (g ⟨m'.heap.frames.size, kind⟩ { m' with heap := (m'.heap.newFrame kind frame').2 }
      { m' with heap := (m'.heap.newFrame kind frame').2 })
  rw [hm.heap.frameCount, hm.heap.frameCount']
  exact (hrun _ _ hmade).le hw

theorem collecting (h : Run.Alike S w Q p q) :
    Run.Alike S w (Values.Alike S) (Run.collecting p) (Run.collecting q) := by
  intro m m' hm
  have hpushed : Machine.Alike S w { m with yields := [] :: m.yields }
      { m' with yields := [] :: m'.yields } S.marks := { hm with yields := .cons .nil hm.yields }
  unfold Run.collecting
  generalize p _ = r, q _ = r', h _ _ hpushed = hr
  cases hr with
  | @ok w' a b n n' hw hm hq =>
    have hyields := hm.yields
    refine .ok hw { hm with yields := rel_tail hyields } (rel_reverse ?_)
    generalize n.yields = yields, n'.yields = yields' at hyields
    cases hyields with
    | nil => exact .nil
    | cons hvs _ => exact hvs
  | error hw hm he => exact .error hw { hm with yields := rel_tail hm.yields } he
  | cut => exact .cut
  | firstCut h => exact .firstCut h
  | secondCut h =>
    cases r with
    | ok a m => exact .secondCut h
    | error e m => exact .secondCut h

end Run.Alike

namespace Flow.Alike

theorem result {flow flow' : Flow} (h : flow.Alike S w flow') :
    flow.result.Alike S w flow'.result := by
  cases h with
  | returns hv => exact hv
  | _ => exact .none

end Flow.Alike

namespace Evaluator.Alike

variable {ev ev' : Evaluator} {f f' : Function}

theorem callFunction (he : ev.Alike S ev') (hf : f.Alike S w f') (ha : args.Alike S w args')
    (kind : FrameKind) {delegate delegate' : Option Value}
    (hd : Option.Rel (Value.Alike S w) delegate delegate') :
    Run.ValueAlike S w (ev.callFunction f args kind delegate)
      (ev'.callFunction f' args' kind delegate') := by
  refine .get_bind fun m m' hm => ?_
  rw [hm.depth_eq, hf.isGenerator_eq]
  refine .ite (fun _ => .fail_bind (.same rfl)) fun _ => ?_
  refine .bind (hf.bindParams ha) fun w1 hw1 vars vars' hvars => ?_
  have hframe : Frame.Alike S w1 False { vars } { vars := vars' } := ⟨hvars, rfl, rfl⟩
  refine .bind (.newFrame kind hframe (hf.env.mono hw1)) ?_
  rintro w2 hw2 _ frame ⟨rfl, henv, -⟩
  have hw := World.le_trans hw1 hw2
  have hbody : Run.Alike S w2 (Flow.Alike S)
      (Run.deeper (Run.withFrame { env := frame :: f.env, delegate } (ev.block f.body)))
      (Run.deeper (Run.withFrame { env := frame :: f'.env, delegate := delegate' }
        (ev'.block f'.body))) := by
    refine .deeper (.withFrame ⟨congrArg (frame :: ·) hf.env_eq, henv, ?_⟩ (he.block w2 hf.body))
    exact hd.imp fun _ _ hv => hv.mono hw
  refine .ite (fun _ => ?_) fun _ => ?_
  · exact .bind (.collecting hbody) fun _ _ _ _ hitems => .newList hitems
  · exact .bind hbody fun _ _ _ _ hflow => .pure hflow.result

theorem callClosure (he : ev.Alike S ev') (hf : f.Alike S w f') (ha : args.Alike S w args') :
    Run.ValueAlike S w (ev.callClosure f args) (ev'.callClosure f' args') := by
  unfold Evaluator.callClosure
  rw [hf.params_eq, ← ha.positional.length_eq]
  refine .ite (fun _ => ?_) fun _ => .get_bind fun m m' hm => ?_
  · exact .withScope (.object (ha.get 0)) (he.callFunction hf ha _ (.some (ha.get 0)))
  · have htarget := (scopes_top? hm.scopes).getD .none
    exact he.callFunction hf (.cons htarget ha) _ (.some htarget)

theorem instantiate (he : ev.Alike S ev') (c : Class) (ha : args.Alike S w args') :
    Run.ValueAlike S w (ev.instantiate c args) (ev'.instantiate c args') := by
  refine .bind_eq (.alloc fun _ _ hh => (hh.newInst .empty).imp Eq.symm id) fun w1 hw1 r => ?_
  refine .heap_bind fun h h' hh => ?_
  have ha := ha.mono hw1
  match h.classAttr? c "__init__", h'.classAttr? c "__init__", hh.classAttr? c "__init__" with
  | _, _, .none =>
    dsimp only
    rw [ha.isEmpty_eq]
    exact .ite (fun _ => .pure (.inst r c)) fun _ => .typeError _
  | _, _, .some hi =>
    refine .bind (.bindAttr (.inst r c) hi) fun w2 hw2 _ _ hbound => ?_
    exact .bind (he.call hbound (ha.mono hw2)) fun _ _ _ _ _ => .pure (.inst r c)

theorem callValue (he : ev.Alike S ev') (hv : v.Alike S w v') (ha : args.Alike S w args') :
    Run.ValueAlike S w (ev.callValue v args) (ev'.callValue v' args') := by
  cases hv with
  | function hf => exact he.callFunction hf ha _ .none
  | closure hf => exact he.callClosure hf ha
  | native fn _ => exact he.callNative fn ha
  | method _ hr hm =>
    cases hm with
    | function hf => exact he.callFunction hf (.cons hr ha) _ .none
    | native fn _ => exact he.callNative fn (.cons hr ha)
    | named name => exact he.callMethod hr name ha
  | cls c => exact he.instantiate c ha
  | inst r c =>
    refine .heap_bind fun h h' hh => ?_
    match h.classAttr? c "__call__", h'.classAttr? c "__call__", hh.classAttr? c "__call__" with
    | _, _, .none => exact .typeError _
    | _, _, .some hm =>
      exact .bind (.bindAttr (.inst r c) hm) fun _ hw _ _ hbound => he.call hbound (ha.mono hw)
  | @object o _ =>
    change Run.ValueAlike S w (ev.host.objectCall ev.toCalls o args)
      (ev'.host.objectCall ev'.toCalls o args')
    rw [he.host_eq]
    unfold Host.objectCall
    split
    · exact .typeError _
    · exact he.uniform.call he.calls o ha
  | _ => exact .typeError _

end Evaluator.Alike

end BlockScript
