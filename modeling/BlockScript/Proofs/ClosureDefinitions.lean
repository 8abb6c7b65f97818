import BlockScript.Proofs.Outline.Body
import BlockScript.Proofs.Outline.Reached

/-! Closures in a compiled program: when each of them is defined exactly once, right before it is
used. -/

namespace BlockScript

open Program Stmt Compile List

/-! ## Statements of the script are no marked definitions -/

namespace Program

theorem mark_ne_span {I : Token → Prop} {ss : List Stmt} (h : ∀ t ∈ ss, t.Placed I) :
    ∀ x ∈ outlineAll ss, x.mark? ≠ some x.span := by
  intro x hx
  obtain ⟨s, hs, rfl⟩ := mem_map.1 hx
  obtain ⟨-, -, -, -, hdecorators⟩ := Stmt.Placed.of_in (in_of_mem_withinAll ss hs) h
  cases s with
  | functionDef span name params body decorators =>
    intro hmark
    obtain ⟨e, he, hspan⟩ := Option.map_eq_some_iff.1 hmark
    exact hdecorators e (mem_of_mem_head? he) hspan
  | _ => exact nofun

end Program

namespace Compile

theorem mark_ne_span_closureBody (filename : String) (closures : ClosureRegistry) (id : String) :
    ∀ x ∈ outlineAll (closureBody filename closures id), x.mark? ≠ some x.span := by
  rw [closureBody, definition?]
  split
  · exact forall_mem_nil _
  · split
    · next hparse =>
      obtain ⟨-, -, -, hnested, -⟩ := Module.placed_of_parse hparse _ mem_cons_self
      exact mark_ne_span hnested
    · exact forall_mem_nil _

theorem mark_ne_span_preamble (options : Options) :
    ∀ x ∈ outlineAll (preamble options), x.mark? ≠ some x.span := by
  rw [preamble]
  split
  · exact forall_mem_nil _
  · cases hparse : Module.parse options.preamble.toList "<preamble>" with
    | error e => exact forall_mem_nil _
    | ok m => exact mark_ne_span (Module.placed_of_parse hparse)

/-- The closure is defined once in the program, marked as a closure, and in one block with a
statement that uses it, before that statement. -/
structure DefinedBeforeUse (runtimeName : String) (m : Module) (id : String) : Prop where
  once : (withinAll m).countP (·.head.function? = some id) = 1
  before : Before (IsDefinition runtimeName id) (id ∈ ·.names) m

end Compile

def Desugared.program (d : Desugared) (filename : String) : Module :=
  (Module.parse d.code.toList filename).toOption.getD []

def Desugared.statements (d : Desugared) (filename : String) (options : Options) : List Stmt :=
  withinAll (preamble options) ++ withinAll (d.program filename) ++
    d.closures.keys.flatMap fun id => withinAll (closureBody filename d.closures id)

/-- The closure is mentioned as a name by one statement of the code or of a closure, and so are the
closures from which it is reached; no function of the script has its id. -/
structure Desugared.MentionedOnce (d : Desugared) (filename : String) (options : Options)
    (id : String) : Prop where
  reached : Reached (callsOf filename d.closures) (mentionsIn d.closures (d.program filename)) id
  once : (mentionsIn d.closures (d.program filename) ++
    d.closures.keys.flatMap (callsOf filename d.closures)).count id = 1
  free : ∀ s ∈ d.statements filename options, s.head.function? ≠ some id

namespace Compile

variable {closures : ClosureRegistry} {options : Options} {filename id : String}

theorem isDefinition_of_define (hnamed : Named closures) {n : Nat} {s : Stmt}
    (h : define options filename closures n id = .ok s) :
    IsDefinition options.runtimeName id s := by
  cases n with
  | zero => cases h
  | succ n =>
    obtain ⟨span, name, params, body, body', hdefinition, -, decorators, rfl⟩ :=
      exists_body_of_define h
    have houtline := traces_define hnamed options filename _ _ _ h
    rw [traceDefinition, hdefinition, outline_functionDef] at houtline
    have hname : name = id := by simpa using congrArg (fun hs =>
      hs.head?.bind Head.function?) houtline
    subst hname
    exact ⟨span, params, body', decorators, rfl⟩

/-- A closure that is reached from the code has its definition before a use. -/
theorem before_of_reached {code out : Module}
    (hinsert : insertClosures options filename closures code = .ok out)
    (h : Reached (callsOf filename closures) (mentionsIn closures code) id) :
    ∃ n d, define options filename closures n id = .ok d ∧ Before (· = d) (id ∈ ·.names) out := by
  induction h with
  | root hid => exact ⟨_, exists_define_of_mem hinsert hid⟩
  | call _ hid ih =>
    obtain ⟨n, d, hd, hbefore⟩ := ih
    cases n with
    | zero => cases hd
    | succ n =>
      obtain ⟨span, name, params, body, body', hdefinition, hbody, decorators, rfl⟩ :=
        exists_body_of_define hd
      rw [callsOf, closureBody, hdefinition] at hid
      obtain ⟨d', hd', hbefore'⟩ := exists_define_of_mem hbody hid
      exact ⟨n, d', hd', hbefore.nested (mem_singleton.2 rfl) hbefore'⟩

/-- The closures that are defined in a program, as often as they are. -/
def definedIn (filename : String) (closures : ClosureRegistry) (code : Module) : List String :=
  (mentionsIn closures code).flatMap (unfolding (callsOf filename closures) (closures.size + 1))

theorem mentionsIn_subset (closures : ClosureRegistry) (ss : List Stmt) :
    mentionsIn closures ss ⊆ closures.keys := by
  intro id hid
  obtain ⟨s, -, hid⟩ := mem_flatMap.1 hid
  have hcontains : (closures.get? id).isSome = true := (mem_filter.1 (mem_eraseDups.1 hid)).2
  obtain ⟨c, hc⟩ := Option.isSome_iff_exists.1 hcontains
  obtain ⟨l1, l2, hsplit, -⟩ := lookup_eq_some_iff.1 hc
  rw [OrderedMap.keys, hsplit]
  simp

section

variable {code out : Module} (hinsert : insertClosures options filename closures code = .ok out)

include hinsert

theorem perm_definedIn : (definedIn filename closures code).Perm
    (mentionsIn closures code ++ (definedIn filename closures code).flatMap
      (callsOf filename closures)) :=
  perm_unfolding (settled_of_mem hinsert)

omit hinsert in
theorem reached_of_mem_definedIn (h : id ∈ definedIn filename closures code) :
    Reached (callsOf filename closures) (mentionsIn closures code) id := by
  obtain ⟨root, hroot, h⟩ := mem_flatMap.1 h
  exact reached_of_mem_unfolding (.root hroot) h

theorem definedIn_subset : definedIn filename closures code ⊆ closures.keys := by
  intro id h
  rcases mem_append.1 ((perm_definedIn hinsert).mem_iff.1 h) with h | h
  · exact mentionsIn_subset closures code h
  · obtain ⟨x, -, h⟩ := mem_flatMap.1 h
    exact mentionsIn_subset closures _ h

theorem defined_trace : (trace filename closures code).filterMap Traced.defined? =
    definedIn filename closures code :=
  defined_completed none hinsert

theorem mem_own_trace {x : Head} : x ∈ (trace filename closures code).filterMap Traced.own? ↔
    x ∈ outlineAll code ∨
      ∃ id ∈ definedIn filename closures code, x ∈ outlineAll (closureBody filename closures id) :=
  mem_own_completed none hinsert

end

theorem marked_trace (filename : String) (closures : ClosureRegistry) (code : Module) :
    ∀ x ∈ trace filename closures code, x.Marked :=
  forall_mem_trace (fun _ _ => trivial) fun _ _ _ _ => ⟨rfl, fun _ _ => trivial⟩

section

variable {code out : Module} (hinsert : insertClosures options filename closures code = .ok out)
  (hnamed : Named closures)

include hinsert hnamed

/-- The functions of one name in a compiled program: those of the preamble, the definitions of the
closure, and those of the script. -/
theorem countP_compiled (id : String) :
    (withinAll (route options (lower options.runtimeName closures
      (preamble options ++ out)))).countP
        (·.head.function? = some id) = (outlineAll (preamble options)).countP
          (·.function? = some id) +
        ((definedIn filename closures code).count id +
          ((trace filename closures code).filterMap Traced.own?).countP
            (·.function? = some id)) := by
  rw [← defined_trace hinsert, ← countP_of_marked (marked_trace filename closures code),
    ← countP_append, ← outline_compiled hnamed hinsert, outlineAll, countP_map]
  rfl

theorem mem_definedIn_of_marked (hcode : ∀ x ∈ outlineAll code, x.mark? ≠ some x.span) (h : Before
      (IsDefinition options.runtimeName id) (id ∈ ·.names) (route options (lower options.runtimeName
      closures (preamble options ++ out)))) : id ∈ definedIn filename closures code := by
  obtain ⟨_, ⟨span, params, body, decorators, rfl⟩, hin⟩ := h.exists_in
  have hhead := mem_map_of_mem (f := head) hin.mem_withinAll
  change ⟨span, some id, some span⟩ ∈ outlineAll _ at hhead
  rw [outline_compiled hnamed hinsert] at hhead
  rcases mem_append.1 hhead with hhead | hhead
  · exact (mark_ne_span_preamble options _ hhead rfl).elim
  obtain ⟨⟨origin, _⟩, hmem, rfl⟩ := mem_map.1 hhead
  cases origin with
  | definition other =>
    have hmarked := marked_trace filename closures code _ hmem
    have hid : id = other := Option.some.inj (congrArg Head.function? hmarked)
    rw [← defined_trace hinsert, hid]
    exact mem_filterMap.2 ⟨_, hmem, rfl⟩
  | statement closure? =>
    have hown := (mem_own_trace hinsert).1 (mem_filterMap.2 ⟨_, hmem, rfl⟩)
    rcases hown with hown | ⟨other, -, hown⟩
    · exact (hcode _ hown rfl).elim
    · exact (mark_ne_span_closureBody filename closures other _ hown rfl).elim

end

end Compile

/-! ## Mentions and definitions -/

section

variable {d : Desugared} {filename : String} {options : Options} {code out : Module}
  (hprogram : d.program filename = code)
  (hinsert : insertClosures options filename d.closures code = .ok out)

include hprogram hinsert

theorem free_iff_countP (hdefined : ∀ x ∈ d.closures.keys, x ∈ definedIn filename d.closures code)
    (id : String) : (∀ s ∈ d.statements filename options, s.head.function? ≠ some id) ↔
      (outlineAll (preamble options)).countP (·.function? = some id) = 0 ∧
        ((trace filename d.closures code).filterMap Traced.own?).countP (·.function? = some id) =
          0 := by
  rw [countP_eq_zero, countP_eq_zero, Desugared.statements, hprogram,
    forall_mem_append, forall_mem_append, and_assoc]
  have hheads (ss : List Stmt) : (∀ s ∈ withinAll ss, s.head.function? ≠ some id) ↔
      ∀ x ∈ outlineAll ss, ¬ decide (x.function? = some id) = true := by
    simp [outlineAll]
  rw [hheads, hheads]
  refine and_congr_right fun _ => ⟨fun hall x hx => ?_, fun hown => ⟨?_, ?_⟩⟩
  · rcases (mem_own_trace hinsert).1 hx with hx | ⟨y, hy, hx⟩
    · exact hall.1 x hx
    · refine (hheads _).1 (fun s hs => hall.2 s ?_) x hx
      exact mem_flatMap.2 ⟨y, definedIn_subset hinsert hy, hs⟩
  · exact fun x hx => hown x ((mem_own_trace hinsert).2 (.inl hx))
  · intro s hs
    obtain ⟨y, hy, hs⟩ := mem_flatMap.1 hs
    refine (hheads _).2 (fun x hx => ?_) s hs
    exact hown x ((mem_own_trace hinsert).2 (.inr ⟨y, hdefined y hy, hx⟩))

variable (hnamed : Named d.closures) {m : Module}
  (hm : m = route options (lower options.runtimeName d.closures (preamble options ++ out)))

include hnamed hm

theorem mentionedOnce_of_definedBeforeUse (hkeys : d.closures.keys.Nodup)
    (hcode : ∀ x ∈ outlineAll code, x.mark? ≠ some x.span)
    (h : ∀ id ∈ d.closures.keys, DefinedBeforeUse options.runtimeName m id) :
    ∀ id ∈ d.closures.keys, d.MentionedOnce filename options id := by
  subst hm
  have hdefined (id : String) (hid : id ∈ d.closures.keys) :
      id ∈ definedIn filename d.closures code :=
    mem_definedIn_of_marked hinsert hnamed hcode (h id hid).before
  have hsplit (id : String) (hid : id ∈ d.closures.keys) :
      (definedIn filename d.closures code).count id = 1 ∧
        (outlineAll (preamble options)).countP (·.function? = some id) = 0 ∧
        ((trace filename d.closures code).filterMap Traced.own?).countP (·.function? = some id) =
          0 := by
    have hcount := (h id hid).once
    have hpos := count_pos_iff.2 (hdefined id hid)
    rw [countP_compiled hinsert hnamed] at hcount
    omega
  intro id hid
  refine ⟨?_, ?_, (free_iff_countP hprogram hinsert hdefined id).2 (hsplit id hid).2⟩
  · rw [hprogram]
    exact reached_of_mem_definedIn (hdefined id hid)
  · rw [hprogram]
    exact count_calls_of_unfolded (perm_definedIn hinsert) (definedIn_subset hinsert) hkeys
      (fun x hx => (hsplit x hx).1) hid

theorem definedBeforeUse_of_mentionedOnce (hlocal : ∀ id ∈ d.closures.keys,
      localName? options id = none)
    (h : ∀ id ∈ d.closures.keys, d.MentionedOnce filename options id) :
    ∀ id ∈ d.closures.keys, DefinedBeforeUse options.runtimeName m id := by
  subst hm
  have hreached (id : String) (hid : id ∈ d.closures.keys) :
      Reached (callsOf filename d.closures) (mentionsIn d.closures code) id :=
    hprogram ▸ (h id hid).reached
  have hcount (id : String) (hid : id ∈ d.closures.keys) :
      (definedIn filename d.closures code).count id = 1 :=
    (count_unfolded_of_reached (perm_definedIn hinsert) (definedIn_subset hinsert)
      (fun x _ => mentionsIn_subset ..) (mentionsIn_subset ..)
      (fun x hx => hprogram ▸ (h x hx).once) (hreached id hid)).2
  have hdefined (id : String) (hid : id ∈ d.closures.keys) :
      id ∈ definedIn filename d.closures code :=
    count_pos_iff.1 (hcount id hid ▸ Nat.one_pos)
  intro id hid
  refine ⟨?_, ?_⟩
  · obtain ⟨hpreamble, hown⟩ := (free_iff_countP hprogram hinsert hdefined id).1 (h id hid).free
    rw [countP_compiled hinsert hnamed, hpreamble, hcount id hid, hown]
  · obtain ⟨n, s, hdefine, hbefore⟩ := before_of_reached hinsert (hreached id hid)
    have hmarked : Before (IsDefinition options.runtimeName id) (id ∈ ·.names) out := by
      refine hbefore.mono ?_
      rintro _ rfl
      exact isDefinition_of_define hnamed hdefine
    exact before_routeBlock options (hlocal id hid) [] (before_lower d.closures (hmarked.append _))

end

/-- In the program of a script every closure is defined exactly once, marked and before a statement
of its block that uses it, exactly if every closure is mentioned once. -/
theorem definedBeforeUse_iff_mentionedOnce {script : Desugar.Script} {d : Desugared}
    (hdesugar : desugar script = .ok d) {filename : String} {options : Options} {m : Module}
    (hcompile : d.compile filename options = .ok m)
    (hlocal : ∀ id ∈ d.closures.keys, localName? options id = none) :
    (∀ id ∈ d.closures.keys, DefinedBeforeUse options.runtimeName m id) ↔
      ∀ id ∈ d.closures.keys, d.MentionedOnce filename options id := by
  obtain ⟨code, out, hcode, hinsert, hm⟩ := exists_of_compile hcompile
  have hnamed := named_of_desugar hdesugar
  have hprogram : d.program filename = code := by
    rw [Desugared.program, hcode]
    rfl
  constructor
  · exact mentionedOnce_of_definedBeforeUse hprogram hinsert hnamed hm
      (nodup_keys_of_desugar hdesugar) (mark_ne_span (Module.placed_of_parse hcode))
  · exact definedBeforeUse_of_mentionedOnce hprogram hinsert hnamed hm hlocal

def guardedBlock : Desugar.Script where
  source := "if ready:\n  task \x7b run() \x7d\n".toList
  filename := "guarded"
  localPrefix := some "_def_"
  plugins := []

theorem definedBeforeUse_guardedBlock : ∃ d m, desugar guardedBlock = .ok d ∧
    d.compile "guarded" {} = .ok m ∧
      (∀ id ∈ d.closures.keys, localName? {} id = none) ∧ d.closures.keys = ["_closure_1"] ∧
      ∀ id ∈ d.closures.keys, DefinedBeforeUse "__runtime__" m id := by
  have hrun : ((desugar guardedBlock).toOption.any fun d =>
      d.closures.keys == ["_closure_1"] && mentionsIn d.closures (d.program "guarded") ==
        ["_closure_1"] && callsOf "guarded" d.closures "_closure_1" == [] &&
        (d.statements "guarded" {}).all (·.head.function? == none) &&
        (d.compile "guarded" {}).toOption.any fun _ => true) = true := by
    decide +kernel
  obtain ⟨d, hd, hchecks⟩ := exists_desugar_of_any hrun
  simp only [Bool.and_eq_true, beq_iff_eq] at hchecks
  obtain ⟨⟨⟨⟨hkeys, hcode⟩, hcalls⟩, hfree⟩, hok⟩ := hchecks
  cases hm : d.compile "guarded" {} with
  | error e =>
    rw [hm] at hok
    cases hok
  | ok m =>
    have hlocal : ∀ id ∈ d.closures.keys, localName? {} id = none := by
      rw [hkeys]
      decide
    have hmentioned : ∀ id ∈ d.closures.keys, d.MentionedOnce "guarded" {} id := by
      intro id hid
      rw [hkeys] at hid
      obtain rfl := mem_singleton.1 hid
      refine ⟨.root (by simp [hcode]), by simp [hkeys, hcode, hcalls], fun s hs hname => ?_⟩
      have := all_eq_true.1 hfree s hs
      simp [hname] at this
    exact ⟨d, m, hd, hm, hlocal, hkeys,
      (definedBeforeUse_iff_mentionedOnce hd hm hlocal).2 hmentioned⟩

def attributeBlock : Desugar.Script where
  source := "x.\x7b y() \x7d\n".toList
  filename := "attribute"
  localPrefix := some "_def_"
  plugins := []

theorem not_definedBeforeUse_attributeBlock : ∃ d m, desugar attributeBlock = .ok d ∧
    d.unreferenced = [] ∧
      d.compile "attribute" {} = .ok m ∧ d.closures.keys = ["_closure_1"] ∧
      ¬ DefinedBeforeUse "__runtime__" m "_closure_1" := by
  have hrun : ((desugar attributeBlock).toOption.any fun d =>
      d.unreferenced == [] && d.closures.keys == ["_closure_1"] &&
        (d.compile "attribute" {}).toOption.any fun m =>
          (withinAll m).countP (·.head.function? = some "_closure_1") == 0) = true := by
    decide +kernel
  obtain ⟨d, hd, hchecks⟩ := exists_desugar_of_any hrun
  simp only [Bool.and_eq_true, beq_iff_eq] at hchecks
  obtain ⟨⟨hnone, hkeys⟩, hcount⟩ := hchecks
  cases hm : d.compile "attribute" {} with
  | error e =>
    rw [hm] at hcount
    cases hcount
  | ok m =>
    rw [hm] at hcount
    refine ⟨d, m, hd, hnone, hm, hkeys, fun h => ?_⟩
    have hzero : (withinAll m).countP (·.head.function? = some "_closure_1") = 0 :=
      beq_iff_eq.1 hcount
    rw [h.once] at hzero
    cases hzero

end BlockScript
