/-! Maps that keep the order in which their keys were first inserted. -/

namespace BlockScript

/-- Entries under distinct keys: the key of an entry is not the key of one before it. -/
@[ext]
structure OrderedMap (κ α : Type) [BEq κ] where
  entries : List (κ × α)
  distinct : entries.Pairwise fun earlier later => (later.1 == earlier.1) = false

namespace OrderedMap

variable {κ α β : Type} [BEq κ]

def empty : OrderedMap κ α := ⟨[], .nil⟩

instance : Inhabited (OrderedMap κ α) := ⟨empty⟩

variable (m : OrderedMap κ α)

def size : Nat := m.entries.length

def isEmpty (m : OrderedMap κ α) : Bool := m.entries.isEmpty

def keys : List κ := m.entries.map Prod.fst

def values : List α := m.entries.map Prod.snd

/-- Keep the entries that satisfy `p`. -/
def filter (m : OrderedMap κ α) (p : κ → α → Bool) : OrderedMap κ α :=
  ⟨m.entries.filter fun (k, a) => p k a, m.distinct.filter _⟩

/-- Keep the first `n` entries. -/
def truncate (n : Nat) : OrderedMap κ α :=
  ⟨m.entries.take n, m.distinct.sublist (List.take_sublist n _)⟩

def get? (key : κ) : Option α :=
  m.entries.lookup key

def contains (key : κ) : Bool :=
  (m.get? key).isSome

/-- Replace the value of `key` in its place, or append a new entry. -/
def insertEntry (key : κ) (value : α) : List (κ × α) → List (κ × α)
  | [] => [(key, value)]
  | (k, a) :: rest => if key == k then (k, value) :: rest else (k, a) :: insertEntry key value rest

theorem mem_keys_insertEntry {key k : κ} {value : α} {entries : List (κ × α)}
    (h : k ∈ (insertEntry key value entries).map Prod.fst) :
    k = key ∨ k ∈ entries.map Prod.fst := by
  induction entries with
  | nil => exact .inl (List.mem_singleton.1 h)
  | cons entry rest ih =>
    unfold insertEntry at h
    split at h
    · exact .inr h
    · rcases List.mem_cons.1 h with rfl | h
      · exact .inr List.mem_cons_self
      · exact (ih h).imp_right (List.mem_cons_of_mem _)

theorem distinct_insertEntry {entries : List (κ × α)}
    (h : entries.Pairwise fun earlier later => (later.1 == earlier.1) = false)
    (key : κ) (value : α) : (insertEntry key value entries).Pairwise fun earlier later =>
      (later.1 == earlier.1) = false := by
  induction h with
  | nil => exact List.pairwise_singleton _ _
  | @cons entry rest hentry hrest ih =>
    unfold insertEntry
    split
    · exact .cons hentry hrest
    · next hkey =>
      refine .cons (fun later hlater => ?_) ih
      rcases mem_keys_insertEntry (List.mem_map_of_mem hlater) with heq | hmem
      · rw [heq]
        exact Bool.eq_false_iff.2 hkey
      · obtain ⟨same, hsame, heq⟩ := List.mem_map.1 hmem
        rw [← heq]
        exact hentry same hsame

def insert (key : κ) (value : α) : OrderedMap κ α :=
  ⟨insertEntry key value m.entries, distinct_insertEntry m.distinct key value⟩

def insertAll (entries : List (κ × α)) : OrderedMap κ α :=
  entries.foldl (fun m (k, a) => m.insert k a) m

def ofList (entries : List (κ × α)) : OrderedMap κ α :=
  empty.insertAll entries

/-- Remove `key`, closing the gap. -/
def erase (key : κ) : OrderedMap κ α :=
  ⟨m.entries.eraseP fun (k, _) => key == k, m.distinct.sublist (List.eraseP_sublist)⟩

theorem lookup_insertEntry_self {key : κ} (hk : (key == key) = true) (value : α)
    (entries : List (κ × α)) : (insertEntry key value entries).lookup key = some value := by
  induction entries with
  | nil => rw [insertEntry, List.lookup_cons, hk]
  | cons entry rest ih =>
    obtain ⟨k, a⟩ := entry
    unfold insertEntry
    split
    · next h => rw [List.lookup_cons, h]
    · next h => rw [List.lookup_cons, Bool.eq_false_iff.2 h, ih]

theorem get?_insert_self {key : κ} (hk : (key == key) = true) (value : α) :
    (m.insert key value).get? key = some value :=
  lookup_insertEntry_self hk value m.entries

theorem insertEntry_of_new {key : κ} (value : α) {entries : List (κ × α)}
    (h : ∀ entry ∈ entries, (key == entry.1) = false) :
    insertEntry key value entries = entries ++ [(key, value)] := by
  induction entries with
  | nil => rfl
  | cons entry rest ih =>
    obtain ⟨k, a⟩ := entry
    have hkey : (key == k) = false := h (k, a) List.mem_cons_self
    rw [insertEntry, if_neg (Bool.eq_false_iff.1 hkey),
      ih fun entry hentry => h entry (List.mem_cons_of_mem _ hentry)]
    rfl

/-- Entries under new keys go to the end, in their order. -/
theorem entries_insertAll {m : OrderedMap κ α} {new : List (κ × α)}
    (h : (m.entries ++ new).Pairwise fun earlier later => (later.1 == earlier.1) = false) :
    (m.insertAll new).entries = m.entries ++ new := by
  induction new generalizing m with
  | nil => exact (List.append_nil _).symm
  | cons entry rest ih =>
    have hnew : ∀ earlier ∈ m.entries, (entry.1 == earlier.1) = false := fun earlier hearlier =>
      (List.pairwise_append.1 h).2.2 earlier hearlier entry List.mem_cons_self
    have hinsert : (m.insert entry.1 entry.2).entries = m.entries ++ [entry] :=
      insertEntry_of_new entry.2 hnew
    rw [List.append_cons] at h ⊢
    rw [← hinsert] at h ⊢
    exact ih h

theorem entries_ofList {new : List (κ × α)}
    (h : new.Pairwise fun earlier later => (later.1 == earlier.1) = false) :
    (ofList new).entries = new :=
  entries_insertAll (m := empty) h

end OrderedMap

end BlockScript
