import BlockScript.Value.Key

/-! The heap: everything that can change while a program runs. -/

namespace BlockScript

structure Cells (α : Type) where
  cells : Array α := #[]
  deriving Inhabited

namespace Cells

variable {α : Type}

def size (c : Cells α) : Nat := c.cells.size

def push (c : Cells α) (a : α) : Cells α := ⟨c.cells.push a⟩

variable [Inhabited α]

/-- What a cell holds; one that has not been made yet holds the default. -/
def get (c : Cells α) (i : Nat) : α := c.cells[i]?.getD default

/-- Write a cell, which is made if there is none, with all before it. -/
def set (c : Cells α) (i : Nat) (a : α) : Cells α :=
  if i < c.size then ⟨c.cells.setIfInBounds i a⟩
  else ⟨(c.cells ++ Array.replicate (i - c.size) default).push a⟩

theorem get_set_self (c : Cells α) (i : Nat) (a : α) : (c.set i a).get i = a := by
  unfold set get
  split
  · next h =>
    have hi : i < c.cells.size := h
    simp [hi]
  · next h =>
    have hi : c.cells.size ≤ i := Nat.le_of_not_lt h
    have hsize : i = (c.cells ++ Array.replicate (i - c.size) default).size := by
      simp only [Array.size_append, Array.size_replicate, size]
      omega
    rw [Array.getElem?_push, if_pos hsize, Option.getD_some]

theorem get_set_ne (c : Cells α) {i j : Nat} (h : j ≠ i) (a : α) : (c.set i a).get j = c.get j := by
  unfold set get
  split
  · rw [Array.getElem?_setIfInBounds_ne h.symm]
  · next hi =>
    have hi : c.cells.size ≤ i := Nat.le_of_not_lt hi
    have hsize : (c.cells ++ Array.replicate (i - c.size) default).size = i := by
      simp only [Array.size_append, Array.size_replicate, size]
      omega
    rw [Array.getElem?_push, hsize, if_neg h, Array.getElem?_append]
    split
    · rfl
    · next hj =>
      -- The cells made on the way to the written one hold the default, as missing ones do.
      rw [Array.getElem?_replicate, Array.getElem?_eq_none (Nat.le_of_not_lt hj)]
      split
      · rfl
      · rfl

end Cells

/-- The variables of a call, a class body or a module. -/
structure Frame where
  vars : Attrs := .empty
  globals : List String := []
  nonlocals : List String := []
  deriving Inhabited

/-- What a class inherits, and the attributes that it declares itself. -/
structure ClassBody where
  bases : List Class := []
  attrs : Attrs := .empty
  deriving Inhabited

/-- A class and those it inherits from, in the order in which attributes are looked up. A class is
made after its bases, which so have lower ids. -/
def ClassBody.lineage (classes : Cells ClassBody) (id : Nat) : List Nat :=
  id :: (classes.get id).bases.flatMap fun base =>
    if base.id < id then lineage classes base.id else []
termination_by id

structure Heap where
  lists : Cells (List Value) := {}
  dicts : Cells Dict := {}
  spaces : Cells Attrs := {}
  instances : Cells Attrs := {}
  classes : Cells ClassBody := {}
  frames : Cells Frame := {}
  objects : Cells Attrs := {}
  /-- The next number for a value that has an identity but no cell. -/
  fresh : Nat := 0
  deriving Inhabited

namespace Heap

def size (h : Heap) : Nat :=
  h.lists.size + h.dicts.size + h.spaces.size + h.instances.size + h.objects.size

variable (h : Heap)

def list (r : ListRef) : List Value := h.lists.get r.index

def setList (r : ListRef) (items : List Value) : Heap :=
  { h with lists := h.lists.set r.index items }

def newList (items : List Value) : ListRef × Heap :=
  (⟨h.lists.size⟩, { h with lists := h.lists.push items })

def dict (r : DictRef) : Dict := h.dicts.get r.index

def setDict (r : DictRef) (d : Dict) : Heap :=
  { h with dicts := h.dicts.set r.index d }

def newDict (d : Dict) : DictRef × Heap :=
  (⟨h.dicts.size⟩, { h with dicts := h.dicts.push d })

def space (r : SpaceRef) : Attrs := h.spaces.get r.index

def setSpace (r : SpaceRef) (attrs : Attrs) : Heap :=
  { h with spaces := h.spaces.set r.index attrs }

def newSpace (attrs : Attrs) : SpaceRef × Heap :=
  (⟨h.spaces.size⟩, { h with spaces := h.spaces.push attrs })

def inst (r : InstanceRef) : Attrs := h.instances.get r.index

def setInst (r : InstanceRef) (attrs : Attrs) : Heap :=
  { h with instances := h.instances.set r.index attrs }

def newInst (attrs : Attrs) : InstanceRef × Heap :=
  (⟨h.instances.size⟩, { h with instances := h.instances.push attrs })

def classAttrs (id : Nat) : Attrs := (h.classes.get id).attrs

def setClassAttrs (id : Nat) (attrs : Attrs) : Heap :=
  { h with classes := h.classes.set id { h.classes.get id with attrs } }

def newClass (name : String) (bases : List Class) (attrs : Attrs) : Class × Heap :=
  (⟨h.classes.size, name⟩, { h with classes := h.classes.push { bases, attrs } })

def lineage (h : Heap) (id : Nat) : List Nat := ClassBody.lineage h.classes id

def isSubclass (c other : Class) : Bool := (h.lineage c.id).contains other.id

def classAttr? (c : Class) (name : String) : Option Value :=
  (h.lineage c.id).findSome? fun id => (h.classAttrs id).get? name

def frame (r : FrameRef) : Frame := h.frames.get r.index

def setFrame (r : FrameRef) (f : Frame) : Heap :=
  { h with frames := h.frames.set r.index f }

def newFrame (kind : FrameKind) (f : Frame) : FrameRef × Heap :=
  (⟨h.frames.size, kind⟩, { h with frames := h.frames.push f })

def var? (r : FrameRef) (name : String) : Option Value := (h.frame r).vars.get? name

def hasVar (r : FrameRef) (name : String) : Bool := (h.frame r).vars.contains name

def setVar (r : FrameRef) (name : String) (v : Value) : Heap :=
  h.setFrame r { h.frame r with vars := (h.frame r).vars.insert name v }

def fields (o : ObjectRef) : Attrs := h.objects.get o.index

def setField (o : ObjectRef) (name : String) (v : Value) : Heap :=
  { h with objects := h.objects.set o.index ((h.fields o).insert name v) }

def newObject (kind : ObjectKind) (fields : Attrs) : ObjectRef × Heap :=
  (⟨h.objects.size, kind⟩, { h with objects := h.objects.push fields })

/-- The nearest frame of a function around a frame that binds a name. Class bodies are passed over,
and the search ends at the module. -/
def enclosing? (h : Heap) (name : String) : Env → Option FrameRef
  | [] => none
  | r :: rest =>
    match r.kind with
    | .module => none
    | .classBody => enclosing? h name rest
    | .function | .closure => if h.hasVar r name then some r else enclosing? h name rest

/-- A variable of the nearest frame that binds it, class bodies passed over. -/
def outerVar? (h : Heap) (name : String) : Env → Option Value
  | [] => none
  | r :: rest =>
    if r.kind = .classBody then outerVar? h name rest
    else (h.var? r name).orElse fun _ => outerVar? h name rest

end Heap

end BlockScript
