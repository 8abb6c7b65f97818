import BlockScript.Eval.Expr
import BlockScript.Proofs.Alike.Calls

/-! Expressions evaluated in machines that are alike. -/

namespace BlockScript

open Program List

variable {S : Pairing} {w : World} {v v' : Value} {args args' : Args} {a : Arg} {e : Expr}
  {p : FStringPart}

/-! ## Names in parts of expressions -/

namespace Program

/-- A list of names that is put together from those of each part has them all. -/
theorem names_subset {α : Type} {f : α → List String} {g : List α → List String} {a : α}
    {as : List α} (hg : ∀ a as, g (a :: as) = f a ++ g as) (h : a ∈ as) : f a ⊆ g as := by
  induction h with
  | head => exact hg .. ▸ subset_append_left ..
  | tail _ _ ih => exact hg .. ▸ subset_append_of_subset_right _ ih

end Program

theorem Value.alike_ofConstant (c : Constant) :
    (Value.ofConstant c).Alike S w (Value.ofConstant c) := by
  cases c <;> constructor

theorem sliceBound_alike (hv : v.Alike S w v') :
    Run.EqAlike S w (sliceBound v) (sliceBound v') := by
  cases hv with
  | none | bool | int => exact .pure rfl
  | _ => exact .typeError _

namespace Evaluator.Alike

variable {ev ev' : Evaluator}

theorem test (he : ev.Alike S ev') (hallow : S.AllowsIn e) :
    Run.EqAlike S w (ev.test e) (ev'.test e) :=
  .bind (he.eval w hallow) fun _ _ _ _ hv => .of_read (he.truthy_read hv)

/-! ## Assignment -/

mutual

theorem assign (he : ev.Alike S ev') : ∀ {w : World} {v v' : Value} (e : Expr), S.AllowsIn e →
    v.Alike S w v' → Run.EqAlike S w (ev.assign e v) (ev'.assign e v')
  | w, v, v', .name _ id, hallow, hv => by
    unfold Evaluator.assign
    exact .storeName (hallow id (mem_singleton_self id)) hv
  | w, v, v', .attribute _ object name, hallow, hv => by
    unfold Evaluator.assign
    exact .bind (he.eval w hallow) fun _ hw _ _ hu => he.setProperty hu name (hv.mono hw)
  | w, v, v', .subscript _ object index, hallow, hv => by
    unfold Evaluator.assign
    obtain ⟨hobject, hindex⟩ := forall_mem_append.1 hallow
    refine .bind (he.eval w hobject) fun w1 hw1 _ _ hu => ?_
    refine .bind (he.eval w1 hindex) fun w2 hw2 _ _ hi => ?_
    exact he.setItem (hu.mono hw2) hi (hv.mono (World.le_trans hw1 hw2))
  | w, v, v', .tuple _ targets, hallow, hv | w, v, v', .list _ targets, hallow, hv => by
    unfold Evaluator.assign
    refine .bind (he.iterate hv) fun w1 hw1 values values' hvalues => ?_
    rw [← hvalues.length_eq]
    refine .ite (fun _ => .fail_bind (.same rfl)) fun _ => ?_
    exact assignAll he targets (fun e hmem n hn =>
      hallow n (names_subset (g := namesInAll) (fun _ _ => rfl) hmem hn)) hvalues
  | w, v, v', .constant .., _, _ | w, v, v', .fstring .., _, _ | w, v, v', .dict .., _, _
  | w, v, v', .comprehension .., _, _ | w, v, v', .slice .., _, _ | w, v, v', .call .., _, _
  | w, v, v', .unary .., _, _ | w, v, v', .binary .., _, _ | w, v, v', .compare .., _, _
  | w, v, v', .logical .., _, _ | w, v, v', .ternary .., _, _ => by
    unfold Evaluator.assign
    exact .typeError _

theorem assignAll (he : ev.Alike S ev') : ∀ {w : World} {vs vs' : List Value} (es : List Expr),
    (∀ e ∈ es, S.AllowsIn e) → Values.Alike S w vs vs' →
    Run.EqAlike S w (ev.assignAll es vs) (ev'.assignAll es vs')
  | w, _, _, [], _, _ => by
    unfold Evaluator.assignAll
    exact .pure rfl
  | w, _, _, e :: es, hallow, hvs => by
    cases hvs with
    | nil =>
      unfold Evaluator.assignAll
      exact .pure rfl
    | cons hv hvs =>
      unfold Evaluator.assignAll
      refine .andThen (assign he e (hallow e mem_cons_self) hv) fun w' hw => ?_
      exact assignAll he es (fun d hd => hallow d (mem_cons_of_mem e hd))
        (Value.Alike.mono_all hw hvs)

end

/-! ## Parts of expressions -/

theorem converted (he : ev.Alike S ev') (hv : v.Alike S w v') (conversion : Option Char)
    {f g : Value → Run String}
    (hfg : ∀ w', w ≤ w' → ∀ v v', v.Alike S w' v' → Run.EqAlike S w' (f v) (g v')) :
    Run.EqAlike S w (do
        let v ← match conversion with
          | some 'r' | some 'a' => pure (Value.str (← ev.repr v))
          | some _ => pure (Value.str (← ev.toStr v))
          | none => pure v
        f v)
      (do
        let v ← match conversion with
          | some 'r' | some 'a' => pure (Value.str (← ev'.repr v'))
          | some _ => pure (Value.str (← ev'.toStr v'))
          | none => pure v'
        g v) := by
  split
  · exact .read_bind_eq (he.repr_read hv) fun text => .bind (.pure (Value.Alike.str text)) hfg
  · exact .read_bind_eq (he.repr_read hv) fun text => .bind (.pure (Value.Alike.str text)) hfg
  · refine .bind_eq (he.toStr hv) fun w1 hw1 text => ?_
    exact .bind (.pure (Value.Alike.str text)) fun w2 hw2 => hfg w2 (World.le_trans hw1 hw2)
  · exact .bind (.pure hv) hfg

theorem fieldText (he : ev.Alike S ev') (hv : v.Alike S w v') (conversion : Option Char)
    (spec : Option String) : Run.EqAlike S w (ev.fieldText v conversion spec)
      (ev'.fieldText v' conversion spec) := by
  unfold Evaluator.fieldText
  split
  · exact he.converted hv _ fun _ _ _ _ hv => he.toStr hv
  · exact he.converted hv _ fun _ _ _ _ hv => he.toStr hv
  · refine he.converted hv _ fun _ _ _ _ hv => .read_bind he.view_read fun _ _ hview => ?_
    exact .read_bind_eq (.ofExcept (Format.value_alike hview hv _)) fun _ => .pure rfl

theorem partText (he : ev.Alike S ev') (hallow : ∀ n ∈ p.names, S.Allows n) :
    Run.EqAlike S w (ev.partText p) (ev'.partText p) := by
  cases p with
  | text s => exact .pure rfl
  | field value conversion spec =>
    exact .bind (he.eval w hallow) fun _ _ _ _ hv => he.fieldText hv conversion spec

theorem dictEntry (he : ev.Alike S ev') {e : Entry} (hallow : ∀ n ∈ e.names, S.Allows n) :
    Run.Alike S w (fun w e e' => e'.1 = e.1 ∧ e.2.Alike S w e'.2) (ev.dictEntry e)
      (ev'.dictEntry e) := by
  obtain ⟨key, value⟩ := e
  obtain ⟨hkey, hvalue⟩ := forall_mem_append.1 hallow
  refine .bind (he.eval w hkey) fun w' _ _ _ hk => .read_bind_eq (.key hk) fun k => ?_
  exact .bind (he.eval w' hvalue) fun _ _ _ _ hv => .pure ⟨rfl, hv⟩

theorem elements (he : ev.Alike S ev') {element : Expr} (helement : S.AllowsIn element)
    {clauses : List Clause} (hclauses : ∀ n ∈ namesInClauses clauses, S.Allows n) :
    Run.Alike S w (Values.Alike S) (ev.elements element clauses)
      (ev'.elements element clauses) := by
  induction clauses generalizing w with
  | nil => exact .bind (he.eval w helement) fun _ _ _ _ hv => .pure (.cons hv .nil)
  | cons c rest ih =>
    obtain ⟨target, source, conditions⟩ := c
    simp only [namesInClauses, Clause.names, mem_append] at hclauses
    unfold Evaluator.elements
    refine .bind (he.eval w fun n hn => hclauses n (.inl (.inl (.inr hn)))) fun w1 hw1 _ _ hu => ?_
    refine .bind (he.iterate hu) fun w2 hw2 items items' hitems => ?_
    have hmono : World.Mono (Values.Alike S) := fun _ _ hw _ _ => Value.Alike.mono_all hw
    refine .bind (.mapM World.mono_value hmono hitems fun w3 _ item item' hitem => ?_)
      fun _ _ found found' hfound => .pure (rel_flatten hfound)
    refine .andThen (he.assign target (fun n hn => hclauses n (.inl (.inl (.inl hn)))) hitem)
      fun w4 _ => ?_
    refine .bind_eq (.allM fun _ _ e hmem => he.test fun n hn => ?_) fun w5 _ holds => ?_
    · exact hclauses n (.inl (.inr (names_subset (g := namesInAll) (fun _ _ => rfl) hmem hn)))
    · exact .ite (fun _ => ih fun n hn => hclauses n (.inr hn)) fun _ => .pure .nil

theorem keywordsOf (hv : v.Alike S w v') :
    Run.Alike S w (fun w => MapAlike.Entries S w) (keywordsOf v) (Evaluator.keywordsOf v') := by
  cases hv with
  | dict r =>
    refine .heap_bind fun h h' hh => ?_
    refine .mapM (R := fun w (e e' : Key × Value) => e'.1 = e.1 ∧ e.2.Alike S w e'.2) ?_ ?_
      (hh.dict r) ?_
    · exact fun _ _ hw _ _ h => ⟨h.1, h.2.mono hw⟩
    · exact fun _ _ hw _ _ h => ⟨h.1, h.2.mono hw⟩
    · rintro w' _ ⟨k, v⟩ ⟨_, v'⟩ ⟨hk, hv⟩
      cases hk
      cases k with
      | str name => exact .pure ⟨rfl, hv⟩
      | _ => exact .typeError _
  | space r => exact .heap_bind fun h h' hh => .pure (hh.space r)
  | _ => exact .typeError _

theorem addArg (he : ev.Alike S ev') (ha : args.Alike S w args')
    (hallow : ∀ n ∈ a.names, S.Allows n) :
    Run.Alike S w (Args.Alike S) (ev.addArg args a) (ev'.addArg args' a) := by
  cases a with
  | positional e =>
    refine .bind (he.eval w hallow) fun _ hw _ _ hv => .pure ?_
    exact ⟨rel_append (ha.mono hw).positional (.cons hv .nil), (ha.mono hw).keywords⟩
  | starred e =>
    refine .bind (he.eval w hallow) fun w1 hw1 _ _ hv => ?_
    refine .bind (he.iterate hv) fun w2 hw2 _ _ hitems => .pure ?_
    have ha := ha.mono (World.le_trans hw1 hw2)
    exact ⟨rel_append ha.positional hitems, ha.keywords⟩
  | keyword name e =>
    refine .bind (he.eval w hallow) fun _ hw _ _ hv => .pure ?_
    exact ⟨(ha.mono hw).positional, rel_append (ha.mono hw).keywords (.cons ⟨rfl, hv⟩ .nil)⟩
  | doubleStarred e =>
    refine .bind (he.eval w hallow) fun w1 hw1 _ _ hv => ?_
    refine .bind (keywordsOf hv) fun w2 hw2 _ _ hkeywords => .pure ?_
    have ha := ha.mono (World.le_trans hw1 hw2)
    exact ⟨ha.positional, rel_append ha.keywords hkeywords⟩

theorem evalBound (he : ev.Alike S ev') {e : Option Expr}
    (hallow : ∀ n ∈ namesInOption e, S.Allows n) :
    Run.EqAlike S w (ev.evalBound e) (ev'.evalBound e) := by
  cases e with
  | none => exact .pure rfl
  | some e => exact .bind (he.eval w hallow) fun _ _ _ _ hv => sliceBound_alike hv

theorem compareChain (he : ev.Alike S ev') (hv : v.Alike S w v') {rest : List Comparison}
    (hallow : ∀ n ∈ namesInComparisons rest, S.Allows n) :
    Run.EqAlike S w (ev.compareChain v rest) (ev'.compareChain v' rest) := by
  induction rest generalizing w v v' with
  | nil => exact .pure rfl
  | cons c rest ih =>
    obtain ⟨op, right⟩ := c
    unfold Evaluator.compareChain
    obtain ⟨hright, hrest⟩ := forall_mem_append.1 hallow
    refine .bind (he.eval w hright) fun w1 hw1 _ _ hr => ?_
    refine .bind_eq (he.compareOne op (hv.mono hw1) hr) fun w2 hw2 holds => ?_
    exact .ite (fun _ => ih (hr.mono hw2) hrest) fun _ => .pure rfl

/-! ## Expressions -/

theorem evalExpr (he : ev.Alike S ev') (hallow : S.AllowsIn e) :
    Run.ValueAlike S w (ev.evalExpr e) (ev'.evalExpr e) := by
  cases e with
  | constant _ c => exact .pure (Value.alike_ofConstant c)
  | fstring _ parts =>
    refine .bind (.mapM_mem World.mono_const fun w' _ p hp =>
      he.partText fun n hn => hallow n (names_subset (g := namesInParts) (fun _ _ => rfl) hp hn))
      fun _ _ texts texts' htexts => ?_
    rw [forall₂_eq_eq_eq] at htexts
    subst htexts
    exact .pure (.str _)
  | name _ id => exact .loadName (hallow id (mem_singleton_self id))
  | list _ items =>
    refine .bind (.mapM_mem World.mono_value fun w' _ e he' => he.eval w' fun n hn => ?_)
      fun _ _ _ _ hvs => .newList hvs
    exact hallow n (names_subset (g := namesInAll) (fun _ _ => rfl) he' hn)
  | tuple _ items =>
    refine .bind (.mapM_mem World.mono_value fun w' _ e he' => he.eval w' fun n hn => ?_)
      fun _ _ _ _ hvs => .newTuple hvs
    exact hallow n (names_subset (g := namesInAll) (fun _ _ => rfl) he' hn)
  | dict _ entries =>
    refine .bind (.mapM_mem ?_ fun w' _ e he' => he.dictEntry fun n hn => ?_)
      fun _ _ _ _ hentries => .newDict (.ofList hentries)
    · exact fun _ _ hw _ _ h => ⟨h.1, h.2.mono hw⟩
    · exact hallow n (names_subset (g := namesInEntries) (fun _ _ => rfl) he' hn)
  | comprehension _ element clauses =>
    obtain ⟨helement, hclauses⟩ := forall_mem_append.1 hallow
    exact .bind (he.elements helement hclauses) fun _ _ _ _ hvs => .newList hvs
  | «attribute» _ object name =>
    exact .bind (he.eval w hallow) fun _ _ _ _ hv => he.getAttr hv name
  | subscript _ object index =>
    obtain ⟨hobject, hindex⟩ : S.AllowsIn object ∧ S.AllowsIn index := forall_mem_append.1 hallow
    cases index with
    | slice _ lower upper step =>
      simp only [Setting.AllowsIn, Expr.names, mem_append] at hindex
      refine .bind (he.eval w hobject) fun w1 _ _ _ hv => ?_
      refine .bind_eq (he.evalBound fun n hn => hindex n (.inl (.inl hn))) fun w2 hw2 lower => ?_
      refine .bind_eq (he.evalBound fun n hn => hindex n (.inl (.inr hn))) fun w3 hw3 upper => ?_
      refine .bind_eq (he.evalBound fun n hn => hindex n (.inr hn)) fun w4 hw4 step => ?_
      exact slice (hv.mono (World.le_trans hw2 (World.le_trans hw3 hw4))) lower upper step
    | _ =>
      refine .bind (he.eval w hobject) fun w1 _ _ _ hv => ?_
      exact .bind (he.eval w1 hindex) fun _ hw _ _ hi => he.getItem (hv.mono hw) hi
  | slice => exact .typeError _
  | call _ callee args =>
    obtain ⟨hcallee, hargs⟩ := forall_mem_append.1 hallow
    refine .bind (he.eval w hcallee) fun w1 _ _ _ hf => ?_
    refine .bind (.foldlM_mem (P := Args.Alike S) (.of_positional .nil)
      fun w' _ _ _ ha a hmem => he.addArg ha fun n hn => ?_) fun w2 hw2 _ _ ha => ?_
    · exact hargs n (names_subset (g := namesInArgs) (fun _ _ => rfl) hmem hn)
    · exact he.call (hf.mono hw2) ha
  | unary _ op operand => exact .bind (he.eval w hallow) fun _ _ _ _ hv => he.unary op hv
  | binary _ op left right =>
    obtain ⟨hleft, hright⟩ := forall_mem_append.1 hallow
    refine .bind (he.eval w hleft) fun w1 _ _ _ hu => ?_
    exact .bind (he.eval w1 hright) fun _ hw _ _ hv => he.binary op (hu.mono hw) hv
  | compare _ first rest =>
    obtain ⟨hfirst, hrest⟩ := forall_mem_append.1 hallow
    refine .bind (he.eval w hfirst) fun w1 _ _ _ hu => ?_
    exact .bind_eq (he.compareChain hu hrest) fun _ _ _ => .pure (.bool _)
  | logical _ op left right =>
    obtain ⟨hleft, hright⟩ := forall_mem_append.1 hallow
    refine .bind (he.eval w hleft) fun w1 _ _ _ hu => ?_
    exact .read_bind_eq (he.truthy_read hu) fun b => .ite (fun _ => .pure hu) fun _ =>
      he.eval w1 hright
  | ternary _ test body orelse =>
    simp only [Setting.AllowsIn, Expr.names, mem_append] at hallow
    refine .bind_eq (he.test fun n hn => hallow n (.inl (.inr hn))) fun w1 _ b => ?_
    refine .ite (fun _ => he.eval w1 fun n hn => ?_) fun _ => he.eval w1 fun n hn => ?_
    · exact hallow n (.inl (.inl hn))
    · exact hallow n (.inr hn)

end Evaluator.Alike

end BlockScript
