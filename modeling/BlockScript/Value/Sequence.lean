import BlockScript.Number.Binary
import BlockScript.Value.Error

/-! Places in sequences: indices and slices. Negative ones count from the end. -/

namespace BlockScript.Sequence

/-- The place in a sequence of `length` items that an index means. -/
def place (length : Nat) (index : Value) (container : String) : Except RuntimeError Nat :=
  match index.asInt? with
  | none => .error (.type (.indexNotInt container index.typeName))
  | some i =>
    let at_ := if i < 0 then i.toInt + length else i.toInt
    if at_ < 0 ∨ length ≤ at_ then .error (.indexOutOfRange container) else .ok at_.toNat

/-! ## Slices -/

def lengthWord (length : Nat) : Int64 := (Number.word? length).getD Int64.maxValue

def clamp (low high i : Int64) : Int64 := if i < low then low else if high < i then high else i

/-- A bound of a slice, counted from the end if it is negative. -/
def fromEnd (length i : Int64) : Int64 := if i < 0 then i + length else i

/-- Where a slice starts and where it stops, for a step that is not zero. -/
def bounds (length : Int64) (lower upper : Option Int64) (step : Int64) : Int64 × Int64 :=
  if 0 < step then
    (lower.elim 0 fun i => clamp 0 length (fromEnd length i),
      upper.elim length fun i => clamp 0 length (fromEnd length i))
  else
    (lower.elim (length - 1) fun i => clamp (-1) (length - 1) (fromEnd length i),
      upper.elim (-1) fun i => clamp (-1) (length - 1) (fromEnd length i))

/-- Whether a number comes before the stop, in the direction of the step. -/
def isBefore (step i stop : Int64) : Bool := if 0 < step then i < stop else stop < i

theorem steps_lt {step i stop next : Int64} (hstep : step ≠ 0) (hi : isBefore step i stop = true)
    (hnext : Number.word? (i.toInt + step.toInt) = some next) :
    (if 0 < step then stop.toInt - next.toInt else next.toInt - stop.toInt).toNat <
      (if 0 < step then stop.toInt - i.toInt else i.toInt - stop.toInt).toNat := by
  have hsum := Number.toInt_of_word? hnext
  have hne : step.toInt ≠ 0 := fun h => hstep (Int64.toInt_inj.1 h)
  have hdir : 0 < step ↔ 0 < step.toInt := Int64.lt_iff_toInt_lt
  rw [isBefore] at hi
  split at hi
  · next h =>
    have := Int64.lt_iff_toInt_lt.1 (of_decide_eq_true hi)
    rw [if_pos h, if_pos h]
    rw [hdir] at h
    omega
  · next h =>
    have := Int64.lt_iff_toInt_lt.1 (of_decide_eq_true hi)
    rw [if_neg h, if_neg h]
    rw [hdir] at h
    omega

/-- The loop from `i` by `step` before `stop`. What `put` gives for a number comes before `out`,
which is last first. There is no result if a sum is no word. -/
def stepsFrom {β : Type} (put : Int64 → Option β) (step stop : Int64) (hstep : step ≠ 0)
    (out : List β) (i : Int64) : Option (List β) :=
  if hi : isBefore step i stop then
    match hnext : Number.word? (i.toInt + step.toInt) with
    | some next => stepsFrom put step stop hstep ((put i).toList ++ out) next
    | none => none
  else some out.reverse
termination_by (if 0 < step then stop.toInt - i.toInt else i.toInt - stop.toInt).toNat
decreasing_by exact steps_lt hstep hi hnext

/-- The number of an item, if it can be one. -/
def index? (i : Int64) : Option Nat := if i < 0 then none else some i.toInt.toNat

def slicePlaces (length : Nat) (lower upper step : Option Int64) :
    Except RuntimeError (Option (List Nat)) :=
  let step := step.getD 1
  if hstep : step = 0 then .error (.value .zeroSliceStep)
  else
    let (start, stop) := bounds (lengthWord length) lower upper step
    .ok (stepsFrom index? step stop hstep [] start)

def slice {α : Type} (items : List α) (lower upper step : Option Int64) :
    Except RuntimeError (Option (List α)) := do
  let places ← slicePlaces items.length lower upper step
  let array := items.toArray
  return places.map fun places => places.filterMap (array[·]?)

/-- Items repeated; a negative count gives none. -/
def repeated {α : Type} (items : List α) (count : Int) : List α :=
  (List.replicate count.toNat items).flatten

end BlockScript.Sequence
