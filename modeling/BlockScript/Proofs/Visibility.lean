import BlockScript.Proofs.Visibility.Names

/-! Routing and the visibility of names. Plain code reads a name from the running frame, from the
functions around it and from the module; the body of a class is seen only by its own statements.
Routing leaves a name plain if anything around it binds it, and so also where only the body of a
class does that the function does not see. -/

namespace BlockScript.Program

open List

namespace Stmt

/-- The names that a statement itself binds, or declares, in the frame of the running code. -/
def ownBinds (s : Stmt) : List String :=
  s.exprs.flatMap Expr.comprehended ++ match s with
    | assign _ targets _ => targets.flatMap Expr.boundNames
    | augAssign _ target _ _ | forLoop _ target _ _ => target.boundNames
    | imports _ names | importsFrom _ _ names => names.map Alias.binding
    | globals _ names | nonlocals _ names => names
    | withBlock _ _ target _ => target.toList.flatMap Expr.boundNames
    | tryBlock _ _ handlers _ => handlers.filterMap Handler.name
    | functionDef _ name _ _ _ | classDef _ name _ _ _ => [name]
    | _ => []

mutual

/-- The names that a statement binds, with its blocks that run in the same frame. -/
def binds : Stmt → List String
  | s@(ifElse _ _ body orelse) => s.ownBinds ++ (bindsAll body ++ bindsAll orelse)
  | s@(whileLoop _ _ body) | s@(forLoop _ _ _ body) | s@(withBlock _ _ _ body) =>
    s.ownBinds ++ bindsAll body
  | s@(tryBlock _ body handlers finalBody) =>
    s.ownBinds ++ (bindsAll body ++ (bindsHandlers handlers ++ bindsAll finalBody))
  | s => s.ownBinds

def bindsAll : List Stmt → List String
  | [] => []
  | s :: ss => binds s ++ bindsAll ss

def bindsHandlers : List Handler → List String
  | [] => []
  | .mk _ _ _ body :: hs => bindsAll body ++ bindsHandlers hs

end

end Stmt

/-- What is bound around a place in a program. -/
structure Scopes where
  /-- By the code in whose frame the place is. -/
  own : List String
  /-- By the functions around it and by the module. -/
  outer : List String := []
  /-- By the class bodies around it. -/
  classes : List String := []
  /-- Whether that code is the body of a class. -/
  isClass : Bool := false
  /-- Whether the place is inside a function. -/
  inFunction : Bool := false

namespace Scopes

def seen (s : Scopes) : List String := s.own ++ s.outer

def all (s : Scopes) : List String := s.seen ++ s.classes

/-- Inside a function that binds `names`. -/
def function (s : Scopes) (names : List String) : Scopes :=
  if s.isClass then
    { own := names, outer := s.outer, classes := s.own ++ s.classes, inFunction := true }
  else { own := names, outer := s.own ++ s.outer, classes := s.classes, inFunction := true }

/-- In the body of a class that binds `names`. Under the mark of local definitions it also binds the
marked names, though not in its frame. -/
def classBody (s : Scopes) (mark : Option String) (names : List String) : Scopes :=
  let marked := mark.toList.flatMap fun mark => names.map (mark ++ ·)
  { s.function names with
    classes := marked ++ (s.function names).classes, isClass := true, inFunction := s.inFunction }

end Scopes

/-- A name where it is used as an expression, inside a function. -/
structure Use where
  scopes : Scopes
  name : String

namespace Stmt

def ownUses (scopes : Scopes) (s : Stmt) : List Use :=
  if scopes.inFunction then s.names.map (Use.mk scopes) else []

mutual

/-- The uses of names inside the functions of a statement. -/
def uses (mark : Option String) (scopes : Scopes) : Stmt → List Use
  | s@(ifElse _ _ body orelse) =>
    s.ownUses scopes ++ (usesAll mark scopes body ++ usesAll mark scopes orelse)
  | s@(whileLoop _ _ body) | s@(forLoop _ _ _ body) | s@(withBlock _ _ _ body) =>
    s.ownUses scopes ++ usesAll mark scopes body
  | s@(tryBlock _ body handlers finalBody) =>
    s.ownUses scopes ++ (usesAll mark scopes body ++
        (usesHandlers mark scopes handlers ++ usesAll mark scopes finalBody))
  | s@(functionDef _ _ params body _) =>
    s.ownUses scopes ++ usesAll mark (scopes.function (params.names ++ bindsAll body)) body
  | s@(classDef _ _ _ body _) =>
    s.ownUses scopes ++ usesAll mark (scopes.classBody mark (bindsAll body)) body
  | s => s.ownUses scopes

def usesAll (mark : Option String) (scopes : Scopes) : List Stmt → List Use
  | [] => []
  | s :: ss => uses mark scopes s ++ usesAll mark scopes ss

def usesHandlers (mark : Option String) (scopes : Scopes) : List Handler → List Use
  | [] => []
  | .mk _ _ _ body :: hs => usesAll mark scopes body ++ usesHandlers mark scopes hs

end

end Stmt

def Module.uses (mark : Option String) (m : Module) : List Use :=
  Stmt.usesAll mark { own := Stmt.bindsAll m } m

end BlockScript.Program

namespace BlockScript.Compile

open Program List

variable {options : Options}

/-! ## The names of a routed statement -/

variable {bound : List String} {name id : String} {scopes : Scopes} {s : Stmt}

theorem isNative_of_routed {t : Stmt} {es : List Expr} {known : List String}
    (ht : t.exprs = es.map (routeExpr options bound)) (hbound : bound ⊆ t.ownBinds ++ known)
    (h : id ∈ t.names) : isNative options (t.ownBinds ++ known) id = true := by
  obtain ⟨e, he, hid⟩ := mem_flatMap.1 h
  have hcomprehended : e.comprehended ⊆ t.ownBinds := fun x hx =>
    mem_append_left _ (mem_flatMap.2 ⟨e, he, hx⟩)
  rw [ht] at he
  obtain ⟨e, -, rfl⟩ := mem_map.1 he
  refine isNative_mono (append_subset.2 ⟨?_, hbound⟩) (isNative_of_mem_names hid)
  exact List.Subset.trans hcomprehended (subset_append_left ..)

theorem filterMap_name_routeHandlers (outer bound : List String) (hs : List Handler) :
    (routeHandlers options outer bound hs).1.filterMap Handler.name =
      hs.filterMap Handler.name := by
  induction hs generalizing bound with
  | nil => rfl
  | cons h hs ih =>
    obtain ⟨s, kind, name, body⟩ := h
    cases name <;> simp [routeHandlers, filterMap_cons, Handler.name, ih]

theorem mem_ownBinds_local (s : Span) (span : Span) (name : String) (value : Expr)
    (bound : List String) : name ∈ ((Stmt.assign s [.name span name] value).mapExprs
      (routeExpr options (name :: bound))).ownBinds := by
  have hsub : [Expr.name span name].flatMap Expr.boundNames ⊆ name :: bound := by
    simp [Expr.boundNames]
  have hkept : ([Expr.name span name].map (routeExpr options (name :: bound))).flatMap
      Expr.boundNames = [name] := flatMap_boundNames_routeExpr hsub
  refine mem_append_right _ ?_
  change name ∈ ([Expr.name span name].map (routeExpr options (name :: bound))).flatMap
    Expr.boundNames
  exact hkept.symm ▸ mem_singleton_self name

theorem introduced_subset_ownBinds (options : Options) (s : Stmt) (bound : List String) :
    introduced s ⊆ (routeStmt options bound s).1.ownBinds := by
  cases s with
  | forLoop s target source body =>
    refine List.Subset.trans ?_ (subset_append_right ..)
    change _ ⊆ (routeExpr options (target.boundNames ++ bound) target).boundNames
    rw [boundNames_routeExpr target (subset_append_left ..)]
    exact List.Subset.refl _
  | tryBlock s body handlers finalBody =>
    refine List.Subset.trans ?_ (subset_append_right ..)
    change _ ⊆ (routeHandlers options _ _ handlers).1.filterMap Handler.name
    rw [filterMap_name_routeHandlers]
    exact List.Subset.refl _
  | functionDef | classDef => exact subset_append_right ..
  | _ => exact nil_subset _

theorem names_mapDefaults (f : Expr → Expr) (p : Params) : (p.mapDefaults f).names = p.names := by
  simp [Params.mapDefaults, Params.names, Function.comp_def]

theorem isNative_of_mem_names_routeStmt (h : id ∈ (routeStmt options bound s).1.names) :
    isNative options ((routeStmt options bound s).1.ownBinds ++ bound) id = true := by
  have hintroduced := introduced_subset_ownBinds options s bound
  rcases routeStmt_eq (s := s) (R := fun _ _ => True) options (fun _ _ _ => trivial) bound with
    ⟨span, place, name, name', value, rfl, -, hroute⟩ | ⟨t, -, hroute⟩
  · rw [hroute] at h ⊢
    refine isNative_of_routed (Stmt.exprs_mapExprs ..) (cons_subset.2 ⟨?_, ?_⟩) h
    · exact mem_append_left _ (mem_ownBinds_local span place name' value bound)
    · exact subset_append_right ..
  · rw [hroute] at h hintroduced ⊢
    refine isNative_of_routed (Stmt.exprs_mapExprs ..) (append_subset.2 ⟨?_, ?_⟩) h
    · exact List.Subset.trans hintroduced (subset_append_left ..)
    · exact subset_append_right ..

/-! ## What is bound after a statement -/

theorem ownBinds_subset_binds (s : Stmt) : s.ownBinds ⊆ s.binds := by
  cases s <;> first
    | exact subset_append_left ..
    | exact List.Subset.refl _

mutual

/-- What routing takes to be bound after a statement was bound before or is bound by it. -/
theorem bound_routeStmt (options : Options) : ∀ (s : Stmt) (bound : List String),
    (routeStmt options bound s).2 ⊆ (routeStmt options bound s).1.binds ++ bound
  | .assign s targets value, bound => by
    rcases routeStmt_assign options bound s targets value with
      ⟨span, name, name', rfl, -, hroute⟩ | hroute
    · rw [hroute]
      refine cons_subset.2 ⟨?_, subset_append_right ..⟩
      exact mem_append_left _ (ownBinds_subset_binds _
        (mem_ownBinds_local s span name' value bound))
    · rw [hroute]
      exact subset_append_right ..
  | .functionDef .., _ | .classDef .., _ =>
    cons_subset.2 ⟨mem_append_left _ (mem_append_right _ (mem_singleton_self _)),
      subset_append_right ..⟩
  | .imports .., _ | .importsFrom .., _ | .globals .., _ | .nonlocals .., _ =>
    append_subset.2 ⟨subset_append_left .., subset_append_right ..⟩
  | .tryBlock s body handlers finalBody, bound => by
    have hnames := introduced_subset_ownBinds options (.tryBlock s body handlers finalBody) bound
    have hbody := bound_routeBlock options body (handlers.filterMap Handler.name ++ bound)
    have hhandlers := bound_routeHandlers options (handlers.filterMap Handler.name ++ bound)
      handlers
    have hfinal := bound_routeBlock options finalBody
    simp only [routeStmt, Stmt.binds, introduced, subset_def, mem_append] at *
    grind
  | .ifElse s test body orelse, bound => by
    have hbody := bound_routeBlock options body bound
    have horelse := bound_routeBlock options orelse (routeBlock options bound body).2
    simp only [routeStmt, Stmt.binds, subset_def, mem_append] at *
    grind
  | .whileLoop _ _ body, bound | .withBlock _ _ _ body, bound => by
    have hbody := bound_routeBlock options body bound
    simp only [routeStmt, Stmt.binds, subset_def, mem_append] at *
    grind
  | .forLoop .., _ | .expr .., _ | .augAssign .., _ | .pass .., _ | .breakLoop .., _
  | .continueLoop .., _ | .returns .., _ | .asserts .., _ | .raises .., _ | .yields .., _
  | .yieldsFrom .., _ => subset_append_right ..

theorem bound_routeBlock (options : Options) : ∀ (ss : List Stmt) (bound : List String),
    (routeBlock options bound ss).2 ⊆ Stmt.bindsAll (routeBlock options bound ss).1 ++ bound
  | [], _ => List.Subset.refl _
  | s :: ss, bound => by
    have hfirst := bound_routeStmt options s bound
    have hrest := bound_routeBlock options ss (routeStmt options bound s).2
    simp only [routeBlock, Stmt.bindsAll, subset_def, mem_append] at *
    grind

theorem bound_routeHandlers (options : Options) (outer : List String) :
    ∀ (hs : List Handler) (bound : List String), (routeHandlers options outer bound hs).2 ⊆
        Stmt.bindsHandlers (routeHandlers options outer bound hs).1 ++ bound
  | [], _ => List.Subset.refl _
  | .mk s kind name body :: hs, bound => by
    have hbody := bound_routeBlock options body bound
    have hrest := bound_routeHandlers options outer hs (routeBlock options bound body).2
    simp only [routeHandlers, Stmt.bindsHandlers, subset_def, mem_append] at *
    grind

end

/-! ## Class bodies -/

theorem eq_append_of_localName? {name' : String} (h : localName? options name = some name') :
    ∃ mark, options.localMark = some mark ∧ name = mark ++ name' := by
  obtain ⟨mark, hmark, h⟩ := Option.bind_eq_some_iff.1 h
  refine ⟨mark, hmark, ?_⟩
  split at h
  · next hprefix =>
    obtain ⟨rest, hrest⟩ := isPrefixOf_iff_prefix.1 hprefix
    cases h
    have hdrop : name.toList.drop mark.length = rest := by
      rw [← hrest, ← String.length_toList, drop_left]
    rw [hdrop, ← String.toList_inj, String.toList_append, String.toList_ofList, hrest]
  · cases h

theorem mem_binds_of_mem_assignedNames {body : List Stmt} (hbound : assignedNames body ⊆ bound)
    (h : name ∈ assignedNames body) : name ∈ Stmt.bindsAll (routeBlock options bound body).1 ∨
      ∃ mark name', options.localMark = some mark ∧ name = mark ++ name' ∧
        name' ∈ Stmt.bindsAll (routeBlock options bound body).1 := by
  induction body generalizing bound with
  | nil => cases h
  | cons s ss ih =>
    obtain ⟨hfirst, hrest⟩ := append_subset.1 hbound
    simp only [routeBlock, Stmt.bindsAll, mem_append]
    rcases mem_append.1 h with h | h
    · cases s with
      | assign span targets value =>
        rcases routeStmt_assign options bound span targets value with
          ⟨span', plain, marked, rfl, hlocal, hroute⟩ | hroute
        · obtain ⟨mark, hmark, heq⟩ := eq_append_of_localName? hlocal
          have hname : name = plain := by simpa [Expr.boundNames] using h
          refine .inr ⟨mark, marked, hmark, hname.trans heq, .inl ?_⟩
          rw [hroute]
          exact ownBinds_subset_binds _ (mem_ownBinds_local span span' marked value bound)
        · rw [hroute]
          refine .inl (.inl (mem_append_right _ ?_))
          change name ∈ (targets.map (routeExpr options bound)).flatMap Expr.boundNames
          exact (flatMap_boundNames_routeExpr hfirst).symm ▸ h
      | _ => cases h
    · have hafter : assignedNames ss ⊆ (routeStmt options bound s).2 := fun x hx =>
        mem_bound_routeStmt options s (hrest hx)
      rcases ih hafter h with h | ⟨mark, name', hmark, heq, h⟩
      · exact .inl (.inr h)
      · exact .inr ⟨mark, name', hmark, heq, .inr h⟩

/-! ## The uses of names in a routed program -/

theorem all_subset_function (scopes : Scopes) (names : List String) :
    names ++ scopes.all ⊆ (scopes.function names).all := by
  intro x hx
  simp only [Scopes.function, Scopes.all, Scopes.seen] at hx ⊢
  split <;> grind

theorem all_subset_classBody (scopes : Scopes) (mark : Option String) (names : List String) :
    names ++ scopes.all ⊆ (scopes.classBody mark names).all := by
  intro x hx
  have hinner := all_subset_function scopes names hx
  simp only [Scopes.classBody, Scopes.all, Scopes.seen] at hinner ⊢
  grind

variable {names : List String}

/-- Also what a class body assigns under the mark is bound around the place. -/
theorem marked_mem_classBody {mark : String} (h : name ∈ names) :
    mark ++ name ∈ (scopes.classBody (some mark) names).all := by
  refine mem_append_right _ (mem_append_left _ ?_)
  exact mem_append_left _ (mem_map_of_mem h)

theorem own_function (scopes : Scopes) (names : List String) :
    (scopes.function names).own = names := by
  rw [Scopes.function]
  split <;> rfl

/-- All these uses are of names that are bound around the place, by whatever code. -/
def AllNative (options : Options) (us : List Use) : Prop :=
  ∀ u ∈ us, isNative options u.scopes.all u.name = true

theorem allNative_ownUses (hbound : bound ⊆ scopes.all)
    (hown : (routeStmt options bound s).1.binds ⊆ scopes.own) :
    AllNative options ((routeStmt options bound s).1.ownUses scopes) := by
  intro u hu
  rw [Stmt.ownUses] at hu
  split at hu
  · obtain ⟨id, hid, rfl⟩ := mem_map.1 hu
    refine isNative_mono (append_subset.2 ⟨?_, hbound⟩) (isNative_of_mem_names_routeStmt hid)
    exact fun x hx => mem_append_left _ (mem_append_left _ (hown (ownBinds_subset_binds _ hx)))
  · cases hu

theorem own_subset_all (h : names ⊆ scopes.own) : names ⊆ scopes.all :=
  List.Subset.trans h (List.Subset.trans (subset_append_left ..) (subset_append_left ..))

/-- What is bound after code was bound around it before, or the code binds it in its frame. -/
theorem subset_all {after own : List String} (hafter : after ⊆ own ++ bound)
    (hbound : bound ⊆ scopes.all) (hown : own ⊆ scopes.own) : after ⊆ scopes.all :=
  List.Subset.trans hafter (append_subset.2 ⟨own_subset_all hown, hbound⟩)

theorem introduced_subset_all (hbound : bound ⊆ scopes.all)
    (hown : (routeStmt options bound s).1.binds ⊆ scopes.own) :
    introduced s ++ bound ⊆ scopes.all :=
  append_subset.2 ⟨own_subset_all (List.Subset.trans (introduced_subset_ownBinds options s bound)
    (List.Subset.trans (ownBinds_subset_binds _) hown)), hbound⟩

mutual

/-- A name that routing leaves plain is bound around the place, by whatever code. -/
theorem allNative_uses (options : Options) : ∀ (s : Stmt) {bound : List String} {scopes : Scopes},
    bound ⊆ scopes.all → (routeStmt options bound s).1.binds ⊆ scopes.own →
    AllNative options ((routeStmt options bound s).1.uses options.localMark scopes)
  | .assign s targets value, bound, _, hbound, hown => by
    have := allNative_ownUses hbound hown
    rcases routeStmt_assign options bound s targets value with
      ⟨span, name, name', rfl, -, hroute⟩ | hroute
    · rw [hroute] at this ⊢
      exact this
    · rw [hroute] at this ⊢
      exact this
  | .functionDef s name params body decorators, _, scopes, hbound, hown => by
    have hinner := introduced_subset_all hbound hown
    refine forall_mem_append.2 ⟨allNative_ownUses hbound hown, allNative_usesAll options body ?_ ?_⟩
    · refine List.Subset.trans ?_ (all_subset_function ..)
      refine append_subset.2 ⟨fun x hx => ?_, List.Subset.trans hinner (subset_append_right ..)⟩
      exact mem_append_left _ (mem_append_left _ ((names_mapDefaults ..).symm ▸ hx))
    · rw [own_function]
      exact subset_append_right ..
  | .classDef s name bases body decorators, _, scopes, hbound, hown => by
    have hinner := introduced_subset_all hbound hown
    refine forall_mem_append.2 ⟨allNative_ownUses hbound hown, allNative_usesAll options body ?_ ?_⟩
    · refine append_subset.2 ⟨fun x hx => ?_,
        List.Subset.trans (List.Subset.trans hinner (subset_append_right ..))
          (all_subset_classBody ..)⟩
      rcases mem_binds_of_mem_assignedNames (subset_append_left ..) hx with
        hx | ⟨mark, x, hmark, rfl, hx⟩
      · exact all_subset_classBody _ _ _ (mem_append_left _ hx)
      · exact hmark ▸ marked_mem_classBody hx
    · exact (own_function ..).symm ▸ List.Subset.refl _
  | .forLoop s target source body, _, _, hbound, hown =>
    forall_mem_append.2 ⟨allNative_ownUses hbound hown, allNative_usesAll options body
      (introduced_subset_all (s := .forLoop s target source body) hbound hown)
      (append_subset.1 hown).2⟩
  | .tryBlock s body handlers finalBody, _, _, hbound, hown => by
    have hinner := introduced_subset_all (s := .tryBlock s body handlers finalBody) hbound hown
    obtain ⟨hbody, hown'⟩ := append_subset.1 (append_subset.1 hown).2
    obtain ⟨hhandlers, hfinal⟩ := append_subset.1 hown'
    have hafter := subset_all (bound_routeBlock ..) hinner hbody
    exact forall_mem_append.2 ⟨allNative_ownUses hbound hown, forall_mem_append.2
      ⟨allNative_usesAll options body hinner hbody, forall_mem_append.2
        ⟨allNative_usesHandlers options _ handlers hafter hhandlers,
        allNative_usesAll options finalBody
            (subset_all (bound_routeHandlers ..) hafter hhandlers) hfinal⟩⟩⟩
  | .ifElse s test body orelse, _, _, hbound, hown => by
    obtain ⟨hbody, horelse⟩ := append_subset.1 (append_subset.1 hown).2
    exact forall_mem_append.2 ⟨allNative_ownUses hbound hown, forall_mem_append.2
      ⟨allNative_usesAll options body hbound hbody, allNative_usesAll options orelse
        (subset_all (bound_routeBlock ..) hbound hbody) horelse⟩⟩
  | .whileLoop _ _ body, _, _, hbound, hown | .withBlock _ _ _ body, _, _, hbound, hown =>
    forall_mem_append.2 ⟨allNative_ownUses hbound hown,
      allNative_usesAll options body hbound (append_subset.1 hown).2⟩
  | .imports .., _, _, h, h' | .importsFrom .., _, _, h, h' | .globals .., _, _, h, h'
  | .nonlocals .., _, _, h, h' | .expr .., _, _, h, h' | .augAssign .., _, _, h, h'
  | .pass .., _, _, h, h' | .breakLoop .., _, _, h, h' | .continueLoop .., _, _, h, h'
  | .returns .., _, _, h, h' | .asserts .., _, _, h, h' | .raises .., _, _, h, h'
  | .yields .., _, _, h, h' | .yieldsFrom .., _, _, h, h' => allNative_ownUses h h'

theorem allNative_usesAll (options : Options) : ∀ (ss : List Stmt) {bound : List String}
    {scopes : Scopes}, bound ⊆ scopes.all →
    Stmt.bindsAll (routeBlock options bound ss).1 ⊆ scopes.own →
    AllNative options (Stmt.usesAll options.localMark scopes (routeBlock options bound ss).1)
  | [], _, _, _, _ => nofun
  | s :: ss, _, _, hbound, hown => by
    obtain ⟨hfirst, hrest⟩ := append_subset.1 hown
    exact forall_mem_append.2 ⟨allNative_uses options s hbound hfirst,
      allNative_usesAll options ss (subset_all (bound_routeStmt ..) hbound hfirst) hrest⟩

theorem allNative_usesHandlers (options : Options) (outer : List String) :
    ∀ (hs : List Handler) {bound : List String} {scopes : Scopes}, bound ⊆ scopes.all →
    Stmt.bindsHandlers (routeHandlers options outer bound hs).1 ⊆ scopes.own → AllNative options
      (Stmt.usesHandlers options.localMark scopes (routeHandlers options outer bound hs).1)
  | [], _, _, _, _ => nofun
  | .mk s kind name body :: hs, _, _, hbound, hown => by
    obtain ⟨hbody, hrest⟩ := append_subset.1 hown
    exact forall_mem_append.2 ⟨allNative_usesAll options body hbound hbody,
      allNative_usesHandlers options outer hs (subset_all (bound_routeBlock ..) hbound hbody) hrest⟩

end

/-- A name that routing leaves plain inside a function is the runtime object, a pure name or a name
that the function sees, unless a class body around the function binds it. So names are routed as
the function sees them if it sees the names it takes from the class bodies around it. -/
theorem plain_seen_or_mem_classes (options : Options) (m : Module) :
    (∀ u ∈ (route options m).uses options.localMark,
      u.name = options.runtimeName ∨ u.name ∈ options.pureNames ∨ u.name ∈ u.scopes.seen ∨
        u.name ∈ u.scopes.classes) ∧
    ((∀ u ∈ (route options m).uses options.localMark,
      isNative options u.scopes.seen u.name = true) ↔
      ∀ u ∈ (route options m).uses options.localMark, u.name ∈ u.scopes.classes →
        isNative options u.scopes.seen u.name = true) := by
  have hall : AllNative options ((route options m).uses options.localMark) :=
    allNative_usesAll options m (nil_subset _) (List.Subset.refl _)
  refine ⟨fun u hu => ?_, fun h u hu _ => h u hu, fun h u hu => ?_⟩
  · simpa [isNative, Scopes.all, or_assoc] using hall u hu
  · by_cases hclass : u.name ∈ u.scopes.classes
    · exact h u hu hclass
    · simpa [isNative, Scopes.all, hclass] using hall u hu

/-- The method reads a name that only the class around it binds. -/
def classVariable : Module :=
  [.classDef default "C" [] [.assign default [.name default "x"] (.constant default (.int 1)),
      .functionDef default "f" { args := [⟨"self", none⟩] }
        [.returns default (some (.name default "x"))] []] []]

theorem not_seen_classVariable : ∃ u ∈ (route {} classVariable).uses ({} : Options).localMark,
    u.name ∈ u.scopes.classes ∧ isNative {} u.scopes.seen u.name = false := by
  with_unfolding_all decide

end BlockScript.Compile
