import BlockScript.Proofs.Printable.Formed
import BlockScript.Proofs.RoundTrip

/-! What is printed of a compiled program can be parsed, unless an expression in it is not printed
as itself. Parsing gives programs that are formed, and each pass of the compiler keeps that. -/

namespace BlockScript.Program.Stmt

open List

/-! ## Statements with blocks -/

/-- What is put in the place of a block can be written if the block can, but for the names in it. -/
def FormsTo (ss ts : List Stmt) : Prop := (∀ t ∈ ss, t.Formed) → (ss ≠ [] → ts ≠ []) ∧
    ∀ t ∈ ts, t.Formed

theorem shape_of_handlers {hs hs' : List Handler}
    (hrebuilt : List.Forall₂ (Handler.Rebuilt FormsTo) hs hs')
    (hforms : ∀ h ∈ hs, ∀ t ∈ h.body, t.Formed) (hshapes : ∀ h ∈ hs, h.Shape) :
    ∀ h ∈ hs', h.Shape := by
  induction hrebuilt with
  | nil => exact hshapes
  | cons hh _ ih =>
    rw [forall_mem_cons] at *
    obtain ⟨hbody, hkind, hname⟩ := hshapes.1
    cases hh with
    | mk hinner => exact ⟨⟨(hinner hforms.1).1 hbody, hkind, hname⟩, ih hforms.2 hshapes.2⟩

variable {s t : Stmt}

theorem Rebuilt.shape (h : Rebuilt FormsTo s t) (hforms : ∀ b ∈ s.blocks, ∀ u ∈ b, u.Formed)
    (hshape : s.Shape) : t.Shape := by
  cases h with
  | ifElse hbody _ | whileLoop hbody => exact (hbody (hforms _ mem_cons_self)).1 hshape
  | forLoop hbody | withBlock hbody | classDef hbody =>
    exact ⟨hshape.1, (hbody (hforms _ mem_cons_self)).1 hshape.2⟩
  | functionDef hbody => exact ⟨hshape.1, hshape.2.1, (hbody (hforms _ mem_cons_self)).1 hshape.2.2⟩
  | tryBlock hbody hhandlers hfinal =>
    rw [blocks, forall_mem_cons, forall_mem_append, forall_mem_singleton, forall_mem_map] at hforms
    refine ⟨(hbody hforms.1).1 hshape.1, hshape.2.1.imp (fun hne => ?_) (hfinal hforms.2.2).1,
      shape_of_handlers hhandlers hforms.2.1 hshape.2.2⟩
    cases hhandlers with
    | nil => exact absurd rfl hne
    | cons => exact cons_ne_nil _ _
  | plain => exact hshape

theorem Rebuilt.formed (h : Rebuilt FormsTo s t) (hs : s.Formed) : t.Formed := by
  obtain ⟨shape, exprs, nested⟩ := hs
  rw [nested_eq, forall_mem_flatten] at nested
  refine .intro (h.shape nested shape) (h.exprs_eq ▸ exprs) ?_
  have hblocks := h.blocks_related
  rw [nested_eq, forall_mem_flatten]
  generalize s.blocks = bs, t.blocks = bs' at hblocks nested
  induction hblocks with
  | nil => exact nested
  | cons hb _ ih =>
    rw [forall_mem_cons] at nested ⊢
    exact ⟨(hb nested.1).2, ih nested.2⟩

end BlockScript.Program.Stmt

namespace BlockScript.Compile

open Program Stmt List

/-! ## Closures -/

variable {e : Expr} {ss : List Stmt} {filename : String} {m : Module} {options : Options}
  {f : Stmt → Stmt}

theorem formed_attr {id : String} (he : e.Formed) (hid : IsName id) : (e.attr id).Formed :=
  .intro hid (forall_mem_singleton.2 he)

theorem formed_apply {args : List Expr} (he : e.Formed) (hargs : ∀ x ∈ args, x.Formed) :
    (e.apply args).Formed := by
  refine .intro (fun a ha n hn => ?_) fun x hx => ?_
  · obtain ⟨_, -, rfl⟩ := mem_map.1 ha
    cases hn
  · rcases mem_cons.1 hx with rfl | hx
    · exact he
    · have hvalues : (args.map Arg.positional).map Arg.value = args := by
        simp [Function.comp_def, Arg.value]
      rw [hvalues] at hx
      exact hargs x hx

theorem formed_closureMark (runtimeName : String) (span : Span) :
    (closureMark runtimeName span).Formed :=
  formed_apply (formed_attr (.name span runtimeName) (by decide)) fun x hx => by cases hx

section

variable {closures : ClosureRegistry} {define : String → Except SyntaxError Stmt} {out : List Stmt}

theorem formsTo_of_withClosures (hss : ∀ s ∈ ss, ∀ out, withClosures closures define s =
      .ok out → s.Formed
      → out ≠ [] ∧ ∀ t ∈ out, t.Formed) (h : blockWithClosures closures define ss = .ok out) :
    FormsTo ss out := by
  intro hforms
  obtain ⟨parts, rfl, hparts⟩ := exists_parts h
  clear h
  induction hparts with
  | nil => exact ⟨id, hforms⟩
  | cons hfirst _ ih =>
    rw [forall_mem_cons] at hss hforms
    obtain ⟨hne, hfirst⟩ := hss.1 _ hfirst hforms.1
    exact ⟨fun _ => append_ne_nil_of_left_ne_nil hne _,
      forall_mem_append.2 ⟨hfirst, (ih hss.2 hforms.2).2⟩⟩

theorem formsTo_blockWithClosures (hdefine : ∀ id s, define id = .ok s → s.Formed)
    (h : blockWithClosures closures define ss = .ok out) : FormsTo ss out := by
  refine formsTo_of_withClosures (fun s _ => blocks_induction (fun s ih out h hs => ?_) s) h
  obtain ⟨ds, t, hds, rfl, hrebuilt⟩ := exists_of_withClosures
    (fun b hb _ h => formsTo_of_withClosures (ih b hb) h) h
  refine ⟨by simp, forall_mem_append.2 ⟨fun d hd => ?_,
    forall_mem_singleton.2 (hrebuilt.formed hs)⟩⟩
  obtain ⟨id, -, hid⟩ := exists_of_forall₂ hds.flip hd
  exact hdefine id d hid

end

theorem formed_of_parse {source : List Char} (h : Module.parse source filename = .ok m) :
    ∀ s ∈ m, s.Formed :=
  fun s hs => (Module.placed_of_parse h s hs).valid.formed

theorem formed_of_define {closures : ClosureRegistry} (n : Nat) :
    ∀ id s, define options filename closures n id = .ok s → s.Formed := by
  induction n with
  | zero => exact fun id s h => by cases h
  | succ n ih =>
    intro id s h
    rw [define] at h
    split at h
    · cases h
    · obtain ⟨parsed, hparsed, h⟩ := except_bind_ok h
      split at h
      · next place name params body decorators =>
        obtain ⟨body', hbody, h⟩ := except_bind_ok h
        cases h
        have hform := formed_of_parse hparsed _ mem_cons_self
        obtain ⟨shape, exprs, nested⟩ :=
          (Rebuilt.functionDef (formsTo_blockWithClosures ih hbody)).formed hform
        exact .intro shape (forall_mem_cons.2 ⟨formed_closureMark .., exprs⟩) nested
      · cases h

/-! ## Lowering -/

theorem lowerCall_cases (runtimeName : String) (closures : ClosureRegistry) (e : Expr) :
    lowerCall runtimeName closures e = e ∨
      ∃ span target place id operation, e = .call span target [.positional (.name place id)] ∧
        IsName operation ∧ lowerCall runtimeName closures e =
          ((Expr.name span runtimeName).attr operation).apply [target, .name span id] := by
  unfold lowerCall
  split
  · next span target place id =>
    split
    · refine .inr ⟨span, target, place, id, _, rfl, ?_, rfl⟩
      split <;> decide
    · exact .inl rfl
  · exact .inl rfl

theorem lowering_keepsForm (runtimeName : String) (closures : ClosureRegistry) :
    (lowering runtimeName closures).KeepsForm := by
  refine .of_cases fun _ e => (lowerCall_cases runtimeName closures e).imp id ?_
  rintro ⟨span, target, place, id, operation, rfl, hop, h⟩
  refine ⟨_, h, fun he => formed_apply (formed_attr (.name ..) hop) ?_, rfl, rfl, rfl, rfl⟩
  exact forall_mem_cons.2 ⟨he.operand mem_cons_self, forall_mem_singleton.2 (.name ..)⟩

theorem formed_lowerAssign (runtimeName : String) {s : Stmt} (h : s.Formed) :
    (lowerAssign runtimeName s).Formed := by
  unfold lowerAssign
  split
  · next s span object name value =>
    obtain ⟨-, exprs, -⟩ := h
    have htarget : (Expr.attribute span object name).Formed := exprs _ mem_cons_self
    refine .intro trivial (forall_mem_singleton.2 ?_) (fun t ht => by cases ht)
    refine formed_apply (formed_attr (.name ..) (by decide)) (forall_mem_cons.2 ⟨?_, ?_⟩)
    · exact htarget.operand mem_cons_self
    · refine forall_mem_cons.2
        ⟨.intro trivial (by simp [Expr.operands, Expr.str, Expr.children]), ?_⟩
      exact forall_mem_singleton.2 (exprs value (by simp [Stmt.exprs]))
  · exact h

theorem formsTo_map (h : ∀ s ∈ ss, s.Formed → (f s).Formed) : FormsTo ss (ss.map f) := by
  refine fun hforms => ⟨mt map_eq_nil_iff.1, forall_mem_map.2 fun s hs => ?_⟩
  exact h s hs (hforms s hs)

theorem formed_changeWith (hf : ∀ s, s.Formed → (f s).Formed) (s : Stmt) (hs : s.Formed) :
    (s.changeWith f).Formed := by
  induction s using blocks_induction with
  | _ s ih =>
    obtain ⟨t, ht, hrebuilt⟩ := exists_of_changeWith (R := FormsTo) f fun b hb => by
      rw [changeBlock_eq_map]
      exact formsTo_map (ih b hb)
    rw [ht]
    exact hf t (hrebuilt.formed hs)

theorem formed_lower (runtimeName : String) (closures : ClosureRegistry) (h : ∀ s ∈ m, s.Formed) :
    ∀ s ∈ lower runtimeName closures m, s.Formed := by
  rw [lower, changeBlock_eq_map]
  refine (formsTo_map fun s _ => formed_changeWith (fun t ht => ?_) s) h |>.2
  exact formed_lowerAssign runtimeName
    (ht.mapExprs ((lowering_keepsForm runtimeName closures).map ()))

/-! ## Routing -/

theorem routeName_cases (options : Options) (bound : List String) (e : Expr) :
    routeName options bound e = e ∨ ∃ span id, e = .name span id ∧
      routeName options bound e = (Expr.name span options.runtimeName).item (.str span id) := by
  unfold routeName
  split
  · next span id =>
    split
    · exact .inl rfl
    · exact .inr ⟨span, id, rfl, rfl⟩
  · exact .inl rfl

theorem formed_item {index : Expr} (he : e.Formed) (hindex : ∀ x ∈ index.indexOperands, x.Formed) :
    (e.item index).Formed :=
  .intro trivial (forall_mem_cons.2 ⟨he, hindex⟩)

theorem routing_keepsForm (options : Options) : (routing options).KeepsForm := by
  refine .of_cases fun bound e => (routeName_cases options bound e).imp id ?_
  rintro ⟨span, id, rfl, h⟩
  refine ⟨_, h, fun _ => formed_item (.name ..) (forall_mem_singleton.2 ?_), rfl, rfl, rfl, rfl⟩
  exact .intro trivial fun x hx => by cases hx

theorem routeExpr_keepsForm (options : Options) (bound : List String) :
    Expr.KeepsForm (routeExpr options bound) :=
  (routing_keepsForm options).map bound

theorem formsTo_of_routeStmt (h : ∀ s ∈ ss, ∀ bound, s.Formed →
      (routeStmt options bound s).1.Formed)
    (bound : List String) : FormsTo ss (routeBlock options bound ss).1 := by
  intro hforms
  induction ss generalizing bound with
  | nil => exact ⟨id, hforms⟩
  | cons s ss ih =>
    rw [forall_mem_cons] at h hforms
    exact ⟨fun _ => cons_ne_nil _ _, forall_mem_cons.2 ⟨h.1 bound hforms.1, (ih h.2 _ hforms.2).2⟩⟩

theorem formed_route (options : Options) (h : ∀ s ∈ m, s.Formed) :
    ∀ s ∈ route options m, s.Formed := by
  refine (formsTo_of_routeStmt (fun s _ => blocks_induction (fun s ih bound hs => ?_) s) [] h).2
  rcases routeStmt_eq (s := s) (R := FormsTo) options (fun b hb =>
    formsTo_of_routeStmt (ih b hb)) bound
    with ⟨span, place, name, name', value, rfl, -, hroute⟩ | ⟨t, hrebuilt, hroute⟩
  · have hrenamed : (Stmt.assign span [.name place name'] value).Formed := by
      obtain ⟨-, exprs, -⟩ := hs
      refine .intro ⟨cons_ne_nil _ _, forall_mem_singleton.2 rfl⟩ ?_ (fun t ht => by cases ht)
      exact forall_mem_cons.2 ⟨.name place name', (forall_mem_cons.1 exprs).2⟩
    rw [hroute]
    exact hrenamed.mapExprs (routeExpr_keepsForm ..)
  · rw [hroute]
    exact (hrebuilt.formed hs).mapExprs (routeExpr_keepsForm ..)

end BlockScript.Compile

namespace BlockScript

open Program Compile List

theorem formed_of_compile {source : List Char} {filename : String} {options : Options}
    {plugins : List Desugar.Plugin} {m : Module}
    (h : compile source filename options plugins = .ok m) : ∀ s ∈ m, s.Formed := by
  obtain ⟨d, -, h⟩ := except_bind_ok h
  obtain ⟨parsed, hparsed, h⟩ := except_bind_ok h
  obtain ⟨body, hbody, h⟩ := except_bind_ok h
  have hform (preamble : Module) (hpreamble : ∀ s ∈ preamble, s.Formed) :
      ∀ s ∈ route options (lower options.runtimeName d.closures (preamble ++ body)), s.Formed :=
    formed_route options (formed_lower _ _ (forall_mem_append.2 ⟨hpreamble,
      (formsTo_blockWithClosures (formed_of_define _) hbody (formed_of_parse hparsed)).2⟩))
  dsimp only at h
  split at h
  · cases h
    exact hform [] (by simp)
  · obtain ⟨preamble, hpreamble, h⟩ := except_bind_ok h
    cases h
    exact hform preamble (formed_of_parse hpreamble)

/-- What is printed of a compiled program can be parsed, unless an expression of the program is not
printed as itself. -/
theorem parse_print_of_compile {source : List Char} {filename : String} {options : Options}
    {plugins : List Desugar.Plugin} {m : Module}
    (h : compile source filename options plugins = .ok m)
    (hprinted : ∀ x ∈ m.subexprs, x.isMisprinted = false) (filename' : String) :
    ∃ m', Module.parse m.print.toList filename' = .ok m' := by
  let _ : Program.View := ⟨false⟩
  have hreads (m : Module) (hne : m ≠ []) (hformed : ∀ s ∈ m, s.Formed) (hkept : ∀ s ∈ m, s.Kept) :
      ∃ m', Module.parse m.print.toList filename' = .ok m' := by
    obtain ⟨m', hm', -⟩ := Module.parse_print hne (fun s hs =>
      (hformed s hs).valid rfl (hkept s hs)) hkept
      filename'
    exact ⟨m', hm'⟩
  by_cases hne : m = []
  · -- an empty program is printed as one that does nothing
    subst hne
    have hpass : Module.print [] = Module.print [.pass default] := by cbv
    rw [hpass]
    refine hreads _ (cons_ne_nil _ _) ?_ ?_
    · exact forall_mem_singleton.2 (.intro trivial (forall_mem_nil _) (forall_mem_nil _))
    · refine forall_mem_singleton.2 fun x hx => ?_
      rw [Stmt.subexprs] at hx
      cases hx
  · exact hreads m hne (formed_of_compile h) (Module.kept_of_subexprs hprinted)

def printedText : List Char := "greet \x7b\n  it.size = 0.5\n\x7d\nprint \"a\", [1, -2][0]\n".toList

theorem parse_print_of_compile_printedText :
    ∃ m, compile printedText "printed" {} [] = .ok m ∧ (∀ x ∈ m.subexprs, x.isMisprinted = false) ∧
      ∃ m', Module.parse m.print.toList "again" = .ok m' := by
  have hclosed : (match compile printedText "printed" {} [] with
      | .ok m => m.subexprs.all (!·.isMisprinted)
      | .error _ => false) = true := by
    decide +kernel
  split at hclosed
  · next m hm =>
    have hprinted : ∀ x ∈ m.subexprs, x.isMisprinted = false := by simpa using hclosed
    exact ⟨m, hm, hprinted, parse_print_of_compile hm hprinted "again"⟩
  · cases hclosed

theorem compile_integerAttribute : (match compile "x = 1 .real\n".toList "integer" {} [] with
    | .ok [.assign _ [.subscript _ (.name _ object) (.constant _ (.str key))]
        (.attribute _ (.constant _ (.int i)) id)] =>
      object == "__runtime__" && key == "x" && i == 1 && id == "real"
    | _ => false) = true := by
  decide +kernel

/-- The attribute of an integer is printed as a number that goes on with letters. -/
theorem not_parse_print_integerAttribute :
    ∃ m, compile "x = 1 .real\n".toList "integer" {} [] = .ok m ∧
      m.print = "__runtime__['x'] = 1.real\n" ∧
      ∀ m', Module.parse m.print.toList "integer" ≠ .ok m' := by
  have hclosed := compile_integerAttribute
  have hparse : (Module.parse "__runtime__['x'] = 1.real\n".toList "integer").toBool = false := by
    decide +kernel
  split at hclosed
  · next s s₁ s₂ object s₃ key s₄ s₅ i id hm =>
    simp only [Bool.and_eq_true, beq_iff_eq] at hclosed
    obtain ⟨⟨⟨rfl, rfl⟩, rfl⟩, rfl⟩ := hclosed
    have hprint : Module.print
        [.assign s [.subscript s₁ (.name s₂ "__runtime__") (.constant s₃ (.str "x"))]
        (.attribute s₄ (.constant s₅ (.int 1)) "real")] = "__runtime__['x'] = 1.real\n" := by
      cbv
    refine ⟨_, hm, hprint, fun m' hm' => ?_⟩
    rw [hprint] at hm'
    rw [hm'] at hparse
    cases hparse
  · cases hclosed

example : Expr.splitsBack [.text "to ", .field (.name default "name") (some 'r') none] =
    true := by cbv

end BlockScript
