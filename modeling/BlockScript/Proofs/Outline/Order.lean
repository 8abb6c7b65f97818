import BlockScript.Proofs.Outline.Names

/-! Definitions that stand before their uses. A definition and a use that stand in one block, in
this order, still do so after lowering and routing. -/

namespace BlockScript.Program

open List

/-! ## Blocks -/

namespace Stmt

inductive In (s : Stmt) : List Stmt → Prop where
  | here {ss : List Stmt} : s ∈ ss → In s ss
  | inside {t : Stmt} {b ss : List Stmt} : t ∈ ss → b ∈ t.blocks → In s b → In s ss

/-- A statement that satisfies `P` stands before one that satisfies `Q`, in some block of the
program. -/
inductive Before (P Q : Stmt → Prop) : List Stmt → Prop where
  | here {s t : Stmt} {ss : List Stmt} : [s, t].Sublist ss → P s → Q t → Before P Q ss
  | inside {t : Stmt} {b ss : List Stmt} : t ∈ ss → b ∈ t.blocks → Before P Q b → Before P Q ss

variable {s t : Stmt} {ss : List Stmt} {P Q : Stmt → Prop}

theorem Before.cons (h : Before P Q ss) : Before P Q (t :: ss) := by
  cases h with
  | here hsub hs ht => exact .here (hsub.cons t) hs ht
  | inside h hb hbefore => exact .inside (mem_cons_of_mem t h) hb hbefore

theorem Before.append (h : Before P Q ss) (ts : List Stmt) : Before P Q (ts ++ ss) := by
  induction ts with
  | nil => exact h
  | cons t ts ih => exact ih.cons

theorem Before.mono {P' : Stmt → Prop} (hP : ∀ s, P s → P' s) (h : Before P Q ss) :
    Before P' Q ss := by
  induction h with
  | here hsub hs ht => exact .here hsub (hP _ hs) ht
  | inside ht hb _ ih => exact .inside ht hb ih

/-- What stands before its use inside one statement, stands so in every program with that
statement. -/
theorem Before.nested {Q' : Stmt → Prop} {d : Stmt} {b : List Stmt} (h : Before (· = d) Q' ss)
    (hb : b ∈ d.blocks) (hbefore : Before P Q b) : Before P Q ss := by
  induction h with
  | here hsub hs _ =>
    subst hs
    exact .inside (hsub.mem mem_cons_self) hb hbefore
  | inside ht hb' _ ih => exact .inside ht hb' ih

theorem Before.exists_in (h : Before P Q ss) : ∃ s, P s ∧ In s ss := by
  induction h with
  | @here s t ss hsub hs _ => exact ⟨s, hs, .here (hsub.mem mem_cons_self)⟩
  | inside ht hb _ ih =>
    obtain ⟨s, hs, hin⟩ := ih
    exact ⟨s, hs, .inside ht hb hin⟩

theorem within_subset (ht : t ∈ ss) : t.within ⊆ withinAll ss := by
  intro s hs
  rw [withinAll_eq]
  exact mem_flatMap.2 ⟨t, ht, hs⟩

theorem In.mem_withinAll (h : In s ss) : s ∈ withinAll ss := by
  induction h with
  | here hs =>
    refine within_subset hs ?_
    rw [within_eq]
    exact mem_cons_self
  | inside ht hb _ ih =>
    refine within_subset ht ?_
    rw [within_eq]
    exact mem_cons_of_mem _ (mem_flatMap.2 ⟨_, hb, ih⟩)

theorem in_of_mem_within (hss : ∀ t ∈ ss, s ∈ t.within → s = t ∨ ∃ b ∈ t.blocks, In s b)
    (h : s ∈ withinAll ss) : In s ss := by
  rw [withinAll_eq] at h
  obtain ⟨t, ht, h⟩ := mem_flatMap.1 h
  rcases hss t ht h with rfl | ⟨b, hb, hin⟩
  · exact .here ht
  · exact .inside ht hb hin

theorem in_of_mem_withinAll (ss : List Stmt) (h : s ∈ withinAll ss) : In s ss := by
  refine in_of_mem_within (fun t _ => blocks_induction (fun t ih h => ?_) t) h
  rw [within_eq, mem_cons, mem_flatMap] at h
  exact h.imp id fun ⟨b, hb, h⟩ => ⟨b, hb, in_of_mem_within (ih b hb) h⟩

end Stmt

end BlockScript.Program

namespace BlockScript.Compile

open Program Stmt List

/-! ## Insertion of definitions -/

section

variable {closures : ClosureRegistry} {define : String → Except SyntaxError Stmt}

theorem exists_of_mem_blockWithClosures {s : Stmt} {ss out : List Stmt} (hs : s ∈ ss)
    (h : blockWithClosures closures define ss = .ok out) :
    ∃ first, withClosures closures define s = .ok first ∧ first.Sublist out := by
  obtain ⟨parts, rfl, hparts⟩ := exists_parts h
  obtain ⟨first, hmem, hfirst⟩ := exists_of_forall₂ hparts hs
  exact ⟨first, hfirst, sublist_flatten_of_mem hmem⟩

/-- The definition of a closure stands before every statement that mentions the closure. -/
theorem before_blockWithClosures {s : Stmt} {id : String} {ss out : List Stmt} (hs : In s ss)
    (hid : id ∈ mentioned closures s) (h : blockWithClosures closures define ss = .ok out) :
    ∃ d, define id = .ok d ∧ Before (· = d) (id ∈ ·.names) out := by
  induction hs generalizing out with
  | here hs =>
    obtain ⟨first, hfirst, hsub⟩ := exists_of_mem_blockWithClosures hs h
    obtain ⟨definitions, t, hdefinitions, rfl, hrebuilt⟩ :=
      exists_of_withClosures (R := fun _ _ => True) (fun _ _ _ _ => trivial) hfirst
    obtain ⟨d, hd, hdefine⟩ := exists_of_forall₂ hdefinitions hid
    have horder : [d, t].Sublist (definitions ++ [t]) :=
      (singleton_sublist.2 hd).append (List.Sublist.refl [t])
    refine ⟨d, hdefine, .here (horder.trans hsub) rfl ?_⟩
    rw [names, hrebuilt.exprs_eq]
    exact (mem_filter.1 (mem_eraseDups.1 hid)).1
  | inside ht hb _ ih =>
    obtain ⟨first, hfirst, hsub⟩ := exists_of_mem_blockWithClosures ht h
    obtain ⟨definitions, t, hdefinitions, rfl, hrebuilt⟩ :=
      exists_of_withClosures (fun _ _ _ h => h) hfirst
    obtain ⟨b', hb', hrun⟩ := hrebuilt.exists_of_mem_blocks hb
    obtain ⟨d, hdefine, hbefore⟩ := ih hrun
    exact ⟨d, hdefine, .inside (hsub.mem (by simp)) hb' hbefore⟩

end

/-! ## Lowering and routing -/

variable {ss : List Stmt} {id : String} {s : Stmt}

theorem before_changeBlock {P Q : Stmt → Prop} {f : Stmt → Stmt}
    (hblocks : ∀ s, (f s).blocks = s.blocks) (hP : ∀ s, P s → P (s.changeWith f))
    (hQ : ∀ s, Q s → Q (s.changeWith f)) (h : Before P Q ss) : Before P Q (changeBlock f ss) := by
  induction h with
  | here hsub hs ht =>
    rw [changeBlock_eq_map]
    exact .here (hsub.map (changeWith f)) (hP _ hs) (hQ _ ht)
  | @inside t b ss ht hb _ ih =>
    rw [changeBlock_eq_map]
    refine .inside (mem_map_of_mem ht) ?_ ih
    obtain ⟨t', heq, hrebuilt⟩ :=
      exists_of_changeWith (s := t) (R := fun b b' => b' = changeBlock f b) f
      fun _ _ => rfl
    obtain ⟨b', hb', rfl⟩ := hrebuilt.exists_of_mem_blocks hb
    rwa [heq, hblocks]

theorem blocks_lowerAssign (runtimeName : String) (s : Stmt) :
    (lowerAssign runtimeName s).blocks = s.blocks := by
  unfold lowerAssign
  split <;> rfl

def IsDefinition (runtimeName id : String) (s : Stmt) : Prop :=
  ∃ span params body decorators,
    s = .functionDef span id params body (closureMark runtimeName span :: decorators)

theorem before_lower {runtimeName : String} (closures : ClosureRegistry) {m : Module}
    (h : Before (IsDefinition runtimeName id) (id ∈ ·.names) m) :
    Before (IsDefinition runtimeName id) (id ∈ ·.names) (lower runtimeName closures m) := by
  refine before_changeBlock (fun s => ?_) ?_ (fun s hs => ?_) h
  · rw [blocks_lowerAssign, blocks_mapExprs]
  · rintro _ ⟨span, params, body, decorators, rfl⟩
    exact ⟨span, _, _, _, rfl⟩
  · obtain ⟨t, heq, hrebuilt⟩ :=
      exists_of_changeWith (s := s) (R := fun _ _ => True) _ fun _ _ => trivial
    rw [heq]
    apply mem_names_lowerAssign
    have ht : id ∈ t.names := by
      rw [names, hrebuilt.exprs_eq]
      exact hs
    refine mem_names_of_map (fun e he => ?_) (exprs_mapExprs _ t) ht
    exact e.mem_names_change (lowering_keepsName runtimeName closures id) trivial he

theorem exists_block_routeStmt (options : Options) (bound : List String) {b : List Stmt}
    (hb : b ∈ s.blocks) :
    ∃ bound', (routeBlock options bound' b).1 ∈ (routeStmt options bound s).1.blocks := by
  rcases routeStmt_eq (s := s) (R := fun b b' => ∃ bound', (routeBlock options bound' b).1 = b')
    options
    (fun _ _ bound => ⟨bound, rfl⟩) bound with
    ⟨_, _, _, _, _, rfl, -, -⟩ | ⟨t, hrebuilt, h⟩
  · cases hb
  · obtain ⟨b', hb', bound', rfl⟩ := hrebuilt.exists_of_mem_blocks hb
    exact ⟨bound', by rwa [h, blocks_mapExprs]⟩

theorem exists_of_mem_routeBlock (options : Options) (bound : List String) (hs : s ∈ ss) :
    ∃ bound', (routeStmt options bound' s).1 ∈ (routeBlock options bound ss).1 := by
  induction ss generalizing bound with
  | nil => cases hs
  | cons t ss ih =>
    rcases mem_cons.1 hs with rfl | hs
    · exact ⟨bound, mem_cons_self⟩
    · obtain ⟨bound', hmem⟩ := ih _ hs
      exact ⟨bound', mem_cons_of_mem _ hmem⟩

theorem mem_names_routeBlock (options : Options) (hlocal : localName? options id = none)
    {bound : List String} (hbound : id ∈ bound) (hs : s ∈ ss) (hid : id ∈ s.names) :
    ∃ t ∈ (routeBlock options bound ss).1, id ∈ t.names := by
  induction ss generalizing bound with
  | nil => cases hs
  | cons t ss ih =>
    rcases mem_cons.1 hs with rfl | hs
    · exact ⟨_, mem_cons_self, mem_names_routeStmt options hlocal hbound hid⟩
    · obtain ⟨u, hu, hid⟩ := ih (mem_bound_routeStmt options t hbound) hs
      exact ⟨u, mem_cons_of_mem _ hu, hid⟩

theorem routeExpr_closureMark (options : Options) (bound : List String) (span : Span) :
    routeExpr options bound (closureMark options.runtimeName span) =
      closureMark options.runtimeName span := by
  have hname : routeExpr options bound (.name span options.runtimeName) =
      .name span options.runtimeName := by
    change routeName options bound (.name span options.runtimeName) = _
    rw [routeName, if_pos (by simp [isNative])]
  change Expr.call span (.attribute span (routeExpr options bound (.name span options.runtimeName))
    "closure") [] = _
  rw [hname]
  rfl

theorem isDefinition_routeStmt (options : Options) (bound : List String)
    (h : IsDefinition options.runtimeName id s) :
    IsDefinition options.runtimeName id (routeStmt options bound s).1 ∧
      id ∈ (routeStmt options bound s).2 := by
  obtain ⟨span, params, body, decorators, rfl⟩ := h
  refine ⟨⟨span, params.mapDefaults (routeExpr options (id :: bound)),
    (routeBlock options (params.names ++ id :: bound) body).1,
    decorators.map (routeExpr options (id :: bound)), ?_⟩, mem_cons_self⟩
  rw [routeStmt, map_cons, routeExpr_closureMark]

/-- Routing keeps definitions before their uses: from the definition on, its name is bound. -/
theorem before_routeBlock (options : Options) (hlocal : localName? options id = none)
    (bound : List String) (h : Before (IsDefinition options.runtimeName id) (id ∈ ·.names) ss) :
    Before (IsDefinition options.runtimeName id) (id ∈ ·.names)
      (routeBlock options bound ss).1 := by
  induction h generalizing bound with
  | @here s t ss hsub hs ht =>
    induction ss generalizing bound with
    | nil => cases hsub
    | cons u ss ih =>
      cases hsub with
      | cons _ hsub => exact (ih hsub _).cons
      | cons_cons _ hsub =>
        obtain ⟨hdefinition, hbound⟩ := isDefinition_routeStmt options bound hs
        obtain ⟨t', ht', hid⟩ := mem_names_routeBlock options hlocal hbound
          (singleton_sublist.1 hsub) ht
        exact .here ((singleton_sublist.2 ht').cons_cons _) hdefinition hid
  | inside ht hb _ ih =>
    obtain ⟨boundS, hmem⟩ := exists_of_mem_routeBlock options bound ht
    obtain ⟨boundB, hblock⟩ := exists_block_routeStmt options boundS hb
    exact .inside hmem hblock (ih boundB)

end BlockScript.Compile
