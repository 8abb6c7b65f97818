import BlockScript.Proofs.Names.ReadBack

/-! Configuring a dict. The closure runs on a proxy that starts with the string entries of the dict,
and only when it has ended are they replaced by what the proxy then holds. So the dict is written in
one step or not at all, and what was written to it past the proxy meanwhile stays only under keys
that are no strings. -/

namespace BlockScript

open List

def Key.isStr : Key → Bool
  | .str _ => true
  | _ => false

variable {k : Key}

theorem Key.beq_str_of_not_isStr (hk : k.isStr = false) (name : String) :
    (k == .str name) = false ∧ (Key.str name == k) = false := by
  cases k with
  | str s => cases hk
  | none | bool | int | tuple => exact ⟨rfl, rfl⟩

/-! ## The dict and its proxy -/

namespace Dict

def attr? : Key × Value → Option (String × Value)
  | (.str name, v) => some (name, v)
  | _ => none

/-- The entry that a proxy gives back for an attribute. -/
def entry? : String × Value → Option (Key × Value)
  | (name, v) => if reservedNames.contains name then none else some (.str name, v)

def attrs (d : Dict) : List (String × Value) := d.entries.filterMap attr?

def written (proxy : Attrs) : List (Key × Value) := proxy.entries.filterMap entry?

/-- The entries under keys that are no strings. -/
def unnamed (d : Dict) : Dict :=
  d.filter fun
    | .str _, _ => false
    | _, _ => true

/-- The dict with its entries under strings replaced by what a proxy gives back. -/
def refill (d : Dict) (proxy : Attrs) : Dict := d.unnamed.insertAll (written proxy)

variable {d : Dict} {proxy : Attrs}

variable {entry : Key × Value} {attr : String × Value}

theorem attr?_eq_some (h : attr? entry = some attr) : entry = (.str attr.1, attr.2) := by
  obtain ⟨k, v⟩ := entry
  cases k with
  | str name =>
    cases h
    rfl
  | none | bool | int | tuple => cases h

theorem entry?_of_reserved {name : String} (h : name ∈ reservedNames) (v : Value) :
    entry? (name, v) = none :=
  if_pos (contains_iff_mem.2 h)

theorem entry?_of_not_reserved {name : String} (h : name ∉ reservedNames) (v : Value) :
    entry? (name, v) = some (.str name, v) :=
  if_neg (mt contains_iff_mem.1 h)

theorem entry?_eq_some (h : entry? attr = some entry) : entry = (.str attr.1, attr.2) := by
  obtain ⟨name, v⟩ := attr
  by_cases hname : name ∈ reservedNames
  · rw [entry?_of_reserved hname] at h
    cases h
  · rw [entry?_of_not_reserved hname] at h
    exact (Option.some.inj h).symm

theorem isStr_of_mem_unnamed (h : entry ∈ d.unnamed.entries) : entry.1.isStr = false := by
  obtain ⟨k, v⟩ := entry
  have hp := (mem_filter.1 h).2
  cases k with
  | str s => cases hp
  | none | bool | int | tuple => rfl

theorem str_of_mem_written (h : entry ∈ written proxy) : ∃ name, entry.1 = .str name := by
  obtain ⟨attr, -, hsome⟩ := mem_filterMap.1 h
  exact ⟨attr.1, congrArg Prod.fst (entry?_eq_some hsome)⟩

theorem entries_attrs : (OrderedMap.ofList d.attrs).entries = d.attrs := by
  refine OrderedMap.entries_ofList (d.distinct.filterMap _ fun earlier later hne a ha b hb => ?_)
  rw [attr?_eq_some ha, attr?_eq_some hb] at hne
  exact hne

theorem get?_attrs (d : Dict) (name : String) :
    (OrderedMap.ofList d.attrs).get? name = d.get? (.str name) := by
  rw [OrderedMap.get?, entries_attrs, attrs, OrderedMap.get?]
  induction d.entries with
  | nil => rfl
  | cons entry rest ih =>
    obtain ⟨k, v⟩ := entry
    cases k with
    | str other =>
      have hattr : attr? (.str other, v) = some (other, v) := rfl
      rw [filterMap_cons_some hattr, lookup_cons, lookup_cons, ih]
      rfl
    | none | bool | int | tuple =>
      rw [filterMap_cons_none rfl, ih]
      rfl

/-- All that is written back is new, so it comes after what was kept. -/
theorem entries_refill : (d.refill proxy).entries = d.unnamed.entries ++ written proxy := by
  refine OrderedMap.entries_insertAll (pairwise_append.2 ⟨d.unnamed.distinct, ?_, ?_⟩)
  · refine proxy.distinct.filterMap _ fun earlier later hne a ha b hb => ?_
    rw [entry?_eq_some ha, entry?_eq_some hb]
    exact hne
  · intro earlier hearlier later hlater
    obtain ⟨name, hname⟩ := str_of_mem_written hlater
    rw [hname]
    exact (Key.beq_str_of_not_isStr (isStr_of_mem_unnamed hearlier) name).2

theorem get?_unnamed (hk : k.isStr = false) : d.unnamed.get? k = d.get? k := by
  change (d.entries.filter _).lookup k = d.entries.lookup k
  induction d.entries with
  | nil => rfl
  | cons entry rest ih =>
    obtain ⟨other, v⟩ := entry
    cases other with
    | str name => rw [filter_cons_of_neg Bool.false_ne_true, lookup_cons,
        (Key.beq_str_of_not_isStr hk name).1, ih]
    | none | bool | int | tuple => rw [filter_cons_of_pos rfl, lookup_cons, lookup_cons, ih]

theorem get?_refill_of_not_isStr (hk : k.isStr = false) : (d.refill proxy).get? k = d.get? k := by
  have hwritten : (written proxy).lookup k = none := by
    refine lookup_eq_none_iff.2 fun entry hentry => ?_
    obtain ⟨name, hname⟩ := str_of_mem_written hentry
    rw [hname, bne, (Key.beq_str_of_not_isStr hk name).1]
    rfl
  rw [OrderedMap.get?, entries_refill, lookup_append, hwritten, Option.or_none]
  exact get?_unnamed hk

theorem lookup_written (name : String) : (written proxy).lookup (.str name) =
      if name ∈ reservedNames then none else proxy.get? name := by
  rw [written, OrderedMap.get?]
  induction proxy.entries with
  | nil => exact (ite_self none).symm
  | cons entry rest ih =>
    obtain ⟨other, v⟩ := entry
    have hbeq : (Key.str name == .str other) = (name == other) := rfl
    by_cases hother : other ∈ reservedNames
    · rw [filterMap_cons_none (entry?_of_reserved hother v), ih, lookup_cons]
      by_cases hname : name ∈ reservedNames
      · rw [if_pos hname, if_pos hname]
      · have hne : (name == other) = false :=
          beq_eq_false_iff_ne.2 fun heq => hname (heq.symm ▸ hother)
        rw [hne]
    · rw [filterMap_cons_some (entry?_of_not_reserved hother v), lookup_cons, lookup_cons, ih, hbeq]
      cases heq : name == other with
      | false => rfl
      | true => exact (if_neg (eq_of_beq heq ▸ hother)).symm

theorem get?_refill_str (name : String) : (d.refill proxy).get? (.str name) =
      if name ∈ reservedNames then none else proxy.get? name := by
  have hkept : d.unnamed.entries.lookup (.str name) = none := by
    refine lookup_eq_none_iff.2 fun entry hentry => ?_
    rw [bne, (Key.beq_str_of_not_isStr (isStr_of_mem_unnamed hentry) name).2]
    rfl
  rw [OrderedMap.get?, entries_refill, lookup_append, hkept, Option.none_or, lookup_written]

end Dict

/-! ## Running the closure -/

def Machine.proxy (m : Machine) : SpaceRef := ⟨m.heap.spaces.size⟩

def Machine.withProxy (m : Machine) (r : DictRef) : Machine :=
  { m with heap := (m.heap.newSpace (.ofList (m.heap.dict r).attrs)).2 }

/-- The machine with the variables of the running code as a layer, unless that is the module. -/
def Machine.withLocals (m : Machine) : Machine :=
  { m with
    scopes := if m.frame.kind = .module then m.scopes else (m.scopes.push (.locals m.frame)).2 }

theorem Machine.get?_proxy (m : Machine) (r : DictRef) (name : String) :
    ((m.withProxy r).heap.space m.proxy).get? name = (m.heap.dict r).get? (.str name) := by
  change ((m.heap.spaces.push _).get m.heap.spaces.size).get? name = _
  rw [Cells.get_push, if_pos rfl]
  exact Dict.get?_attrs _ name

namespace Evaluator

/-- The operations that run a closure against a target. -/
inductive Configures (ev : Evaluator) (target closure : Value) : Run Value → Prop
  | object : Configures ev target closure (ev.configureObject target closure)
  | block : Configures ev target closure (ev.callBlock target closure)

def callOnProxy (ev : Evaluator) (r : DictRef) (closure : Value) : Run Value := fun m =>
  ev.call closure { positional := [.space m.proxy] } (m.withLocals.withProxy r)

variable {ev : Evaluator} {m m' : Machine} {r : DictRef} {closure v : Value} {run : Run Value}
  {e : Halt RuntimeError}

theorem Configures.eq_withLocals (h : ev.Configures (.dict r) closure run) :
    run = withLocals (ev.configureDict r closure) := by
  cases h with
  | object => rfl
  | block => rfl

theorem withLocals_eq (p : Run Value) (m : Machine) :
    ∃ undo : Machine → Machine, (∀ m', (undo m').heap = m'.heap) ∧
      withLocals p m = Run.ensuring p undo m.withLocals := by
  have hget : withLocals p m = (if m.frame.kind = .module then p
      else Run.withScope (.locals m.frame) p) m := rfl
  rw [hget, Machine.withLocals]
  split
  · refine ⟨id, fun _ => rfl, ?_⟩
    rw [Run.ensuring]
    cases p m with
    | ok | error => rfl
  · exact ⟨fun m' => { m' with scopes := m'.scopes.drop (m.scopes.push (.locals m.frame)).1 },
      fun _ => rfl, rfl⟩

theorem configureDict_of_ok
    (hcall : ev.call closure { positional := [.space m.proxy] } (m.withProxy r) = .ok v m') :
    ev.configureDict r closure m = .ok (.dict r) { m' with
      heap := m'.heap.setDict r ((m'.heap.dict r).refill (m'.heap.space m.proxy)) } :=
  Run.bind_of_ok hcall

theorem configureDict_of_error
    (hcall : ev.call closure { positional := [.space m.proxy] } (m.withProxy r) = .error e m') :
    ev.configureDict r closure m = .error e m' := by
  change (ev.call closure _ >>= _) (m.withProxy r) = _
  exact Run.bind_of_error hcall

/-- After an error of the closure nothing more is written. -/
theorem Configures.of_error (hrun : ev.Configures (.dict r) closure run)
    (hcall : ev.callOnProxy r closure m = .error e m') :
    ∃ m'', run m = .error e m'' ∧ m''.heap = m'.heap := by
  obtain ⟨undo, hheap, heq⟩ := withLocals_eq (ev.configureDict r closure) m
  refine ⟨undo m', ?_, hheap m'⟩
  rw [hrun.eq_withLocals, heq, Run.ensuring, configureDict_of_error hcall]

/-- After a result of the closure only the dict is written. -/
theorem Configures.of_ok (hrun : ev.Configures (.dict r) closure run)
    (hcall : ev.callOnProxy r closure m = .ok v m') : ∃ m'', run m = .ok (.dict r) m'' ∧
      m''.heap.dict r = (m'.heap.dict r).refill (m'.heap.space m.proxy) := by
  obtain ⟨undo, hheap, heq⟩ := withLocals_eq (ev.configureDict r closure) m
  refine ⟨undo { m' with
    heap := m'.heap.setDict r ((m'.heap.dict r).refill (m'.heap.space m.proxy)) }, ?_, ?_⟩
  · rw [hrun.eq_withLocals, heq, Run.ensuring, configureDict_of_ok hcall]
    rfl
  · rw [hheap]
    exact Heap.dict_setDict_self ..

/-- Configuring a dict by a closure that leaves the dict itself alone. The proxy starts with the
entries under strings. If the closure fails, so does the operation, and the dict is as it was. If it
does not fail, neither does the operation; the entries under keys that are no strings are as they
were, and those under names that are not reserved are the attributes with which the proxy ended. -/
theorem configure_dict_atomic (hrun : ev.Configures (.dict r) closure run)
    (halone : ((ev.callOnProxy r closure).after m).heap.dict r = m.heap.dict r) :
    (∀ name, ((m.withLocals.withProxy r).heap.space m.proxy).get? name =
      (m.heap.dict r).get? (.str name)) ∧
    (∀ e m', ev.callOnProxy r closure m = .error e m' →
      ∃ m'', run m = .error e m'' ∧ m''.heap = m'.heap ∧ m''.heap.dict r = m.heap.dict r) ∧
    ∀ v m', ev.callOnProxy r closure m = .ok v m' → ∃ m'', run m = .ok (.dict r) m'' ∧
        (∀ k, k.isStr = false → (m''.heap.dict r).get? k = (m.heap.dict r).get? k) ∧
        ∀ name ∉ reservedNames, (m''.heap.dict r).get? (.str name) =
          (m'.heap.space m.proxy).get? name := by
  refine ⟨fun name => m.withLocals.get?_proxy r name, fun e m' hcall => ?_, fun v m' hcall => ?_⟩
  · obtain ⟨m'', hm, hheap⟩ := hrun.of_error hcall
    rw [Run.after, hcall] at halone
    exact ⟨m'', hm, hheap, hheap ▸ halone⟩
  · obtain ⟨m'', hm, hdict⟩ := hrun.of_ok hcall
    rw [Run.after, hcall] at halone
    refine ⟨m'', hm, fun k hk => ?_, fun name hname => ?_⟩
    · rw [hdict, Dict.get?_refill_of_not_isStr hk]
      exact congrArg (OrderedMap.get? · k) halone
    · rw [hdict, Dict.get?_refill_str, if_neg hname]

/-- A module with the dict `d = {'a': 1, 2: 'two'}`. -/
def settings : Machine :=
  let (r, heap) := Machine.new.heap.newDict (.ofList [(.str "a", .int 1), (.int 2, .str "two")])
  { Machine.new with heap }.setGlobal "d" (.dict r)

def functionOn (body : List Program.Stmt) : Value :=
  .function (.mk 0 "c" { args := [⟨"p", none⟩] } body [⟨0, .module⟩] [])

def settingB : Program.Stmt :=
  .assign default [.attribute default (.name default "p") "b"] (.constant default (.int 2))

theorem configure_dict_atomic_settings :
    (((ofDepth .none 5).callOnProxy ⟨0⟩ (functionOn [settingB])).after settings).heap.dict ⟨0⟩ =
      settings.heap.dict ⟨0⟩ ∧
    ∃ m, (ofDepth .none 5).configureObject (.dict ⟨0⟩) (functionOn [settingB]) settings =
      .ok (.dict ⟨0⟩) m ∧ (m.heap.dict ⟨0⟩).get? (.int 2) = some (.str "two") ∧
      (m.heap.dict ⟨0⟩).get? (.str "a") = some (.int 1) ∧
      (m.heap.dict ⟨0⟩).get? (.str "b") = some (.int 2) := by
  refine ⟨rfl, ?_⟩
  have hcall : (ofDepth .none 5).callOnProxy ⟨0⟩ (functionOn [settingB]) settings =
    .ok .none (((ofDepth .none 5).callOnProxy ⟨0⟩ (functionOn [settingB])).after settings) := rfl
  obtain ⟨m, hm, hkept, hproxy⟩ := (configure_dict_atomic .object rfl).2.2 _ _ hcall
  exact ⟨m, hm, hkept (.int 2) rfl, hproxy "a" (by decide), hproxy "b" (by decide)⟩

/-- Configuring a dict by any closure that returns. What the dict then holds under keys that are no
strings stays. Under strings it has afterwards what the proxy has under names that are not reserved,
and nothing else. -/
theorem configure_dict_direct_writes (hrun : ev.Configures (.dict r) closure run)
    (hcall : ev.callOnProxy r closure m = .ok v m') :
    ∃ m'', run m = .ok (.dict r) m'' ∧
      (∀ k, k.isStr = false → (m''.heap.dict r).get? k = (m'.heap.dict r).get? k) ∧
      ∀ name, (m''.heap.dict r).get? (.str name) =
        if name ∈ reservedNames then none else (m'.heap.space m.proxy).get? name := by
  obtain ⟨m'', hm, hdict⟩ := hrun.of_ok hcall
  refine ⟨m'', hm, fun k hk => ?_, fun name => ?_⟩
  · rw [hdict, Dict.get?_refill_of_not_isStr hk]
  · rw [hdict, Dict.get?_refill_str]

def writingAt (key : Program.Constant) : Program.Stmt :=
  .assign default [.subscript default (.name default "d") (.constant default key)]
    (.constant default (.int 1))

/-- `d['x'] = 1` and `d[3] = 1` in the body of the closure. -/
def writing : Value := functionOn [writingAt (.str "x"), writingAt (.int 3)]

theorem callOnProxy_writing : (ofDepth .none 5).callOnProxy ⟨0⟩ writing settings =
      .ok .none (((ofDepth .none 5).callOnProxy ⟨0⟩ writing).after settings) := rfl

theorem configure_dict_direct_writes_settings :
    ∃ m, (ofDepth .none 5).callBlock (.dict ⟨0⟩) writing settings = .ok (.dict ⟨0⟩) m ∧
      (m.heap.dict ⟨0⟩).get? (.int 3) = some (.int 1) ∧
      (m.heap.dict ⟨0⟩).get? (.str "a") = some (.int 1) ∧
      (m.heap.dict ⟨0⟩).get? (.str "x") = none := by
  obtain ⟨m, hm, hkept, hproxy⟩ := configure_dict_direct_writes .block callOnProxy_writing
  exact ⟨m, hm, hkept (.int 3) rfl, hproxy "a", hproxy "x"⟩

/-- An entry that the closure writes to the dict itself, under a name that the proxy does not have,
is not always in it afterwards. -/
theorem direct_write_lost : ¬ ∀ (closure v x : Value) (m' m'' : Machine) (name : String),
      (ofDepth .none 5).callOnProxy ⟨0⟩ closure settings = .ok v m' →
      (ofDepth .none 5).callBlock (.dict ⟨0⟩) closure settings = .ok (.dict ⟨0⟩) m'' →
      (m'.heap.space settings.proxy).get? name = none →
      (m'.heap.dict ⟨0⟩).get? (.str name) = some x →
      (m''.heap.dict ⟨0⟩).get? (.str name) = some x := by
  intro h
  have hblock : (ofDepth .none 5).callBlock (.dict ⟨0⟩) writing settings =
    .ok (.dict ⟨0⟩) (((ofDepth .none 5).callBlock (.dict ⟨0⟩) writing).after settings) := rfl
  have hx := h writing .none (.int 1) _ _ "x" callOnProxy_writing hblock rfl rfl
  cases hx

end Evaluator

end BlockScript
