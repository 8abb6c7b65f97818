import BlockScript.Eval.Stmt
import BlockScript.Proofs.RoundTrip.Literals
import Mathlib.Data.Rat.Floor

/-! Integer operators. The result of an operator is the integer that it means in mathematics if that
fits in a word, and else an error. Powers and shifts depart from this where the second operand is
large: it is cut down to the width of a count before the first operand is looked at. Division rounds
down. -/

namespace BlockScript.Number

open Program

variable {i : Int} {w a b : Int64}

theorem word?_eq_some_iff : word? i = some w ↔ w.toInt = i := by
  constructor
  · intro h
    rw [word?] at h
    split at h
    · next hfits =>
      rw [Option.some_inj] at h
      rw [← h, Int64.toInt_ofInt_of_le hfits.1 (Int.lt_of_le_of_lt hfits.2 (by decide))]
    · cases h
  · intro h
    rw [← h, Literal.word?_toInt]

/-- What an operator means for integers, where that is an integer. -/
def exactly? (op : BinaryOp) (a b : Int) : Option Int :=
  match op with
  | .add => some (a + b)
  | .sub => some (a - b)
  | .mul => some (a * b)
  | .pow => if 0 ≤ b then some (Int.pow a b.toNat) else none
  | .shiftLeft => if 0 ≤ b then some (a * Int.pow 2 b.toNat) else none
  | .shiftRight => if 0 ≤ b then some (a.fdiv (Int.pow 2 b.toNat)) else none
  | _ => none

/-- The integer as a word, or the error that there is none. -/
def IsExact (i : Int) (r : Except RuntimeError Value) : Prop :=
  (∃ w : Int64, w.toInt = i ∧ r = .ok (.int w)) ∨
    (∀ w : Int64, w.toInt ≠ i) ∧ ∃ e, r = .error e ∧ e.message = "integer overflow"

/-- The operands for which a count that has no 32 bits, or a shift by a word or more, decides in the
place of the result. -/
def Strays (op : BinaryOp) (a b : Int) : Prop :=
  match op with
  | .pow => a.natAbs ≤ 1 ∧ 0x100000000 ≤ b
  | .shiftLeft => 0x100000000 ≤ b ∨ a = 0 ∧ 64 ≤ b
  | .shiftRight => 0x100000000 ≤ b
  | _ => False

theorem isExact_checked (i : Int) : IsExact i (Value.int <$> checked i) := by
  rw [checked]
  cases h : word? i with
  | some w => exact .inl ⟨w, word?_eq_some_iff.1 h, rfl⟩
  | none =>
    refine .inr ⟨fun w hw => ?_, _, rfl, rfl⟩
    rw [word?_eq_some_iff.2 hw] at h
    cases h

theorem not_isExact_error {e : RuntimeError} (hw : w.toInt = i) : ¬ IsExact i (.error e) := by
  rintro (⟨_, -, h⟩ | ⟨h, -⟩)
  · cases h
  · exact h w hw

theorem not_isExact_negativeShift : ¬ IsExact i (.error (.value .negativeShift)) := by
  rintro (⟨_, -, h⟩ | ⟨-, e, h, hmessage⟩)
  · cases h
  · cases h
    exact absurd hmessage (by decide)

theorem isExact_overflow (h : 2 ^ 64 ≤ i.natAbs) : IsExact i (.error (.value .overflow)) := by
  refine .inr ⟨fun w hw => ?_, _, rfl, rfl⟩
  have := w.le_toInt
  have := w.toInt_lt
  omega

/-! ## Powers -/

theorem le_natAbs_pow {a : Int} {e : Nat} (ha : 2 ≤ a.natAbs) (he : 64 ≤ e) :
    2 ^ 64 ≤ (Int.pow a e).natAbs := by
  have hpow : (Int.pow a e).natAbs = a.natAbs ^ e := Int.natAbs_pow a e
  calc 2 ^ 64 ≤ 2 ^ e := Nat.pow_le_pow_right (by decide) he
    _ ≤ a.natAbs ^ e := Nat.pow_le_pow_left ha e
    _ = (Int.pow a e).natAbs := hpow.symm

/-- The powers of a number that is at most one in magnitude. -/
theorem pow_of_natAbs_le_one {a : Int} (ha : a.natAbs ≤ 1) (e : Nat) :
    Int.pow a e = if e = 0 then 1 else if e % 2 = 0 then a * a else a := by
  induction e with
  | zero => exact Int.pow_zero a
  | succ e ih =>
    have hcases : a = 0 ∨ a = 1 ∨ a = -1 := by omega
    have hsucc : Int.pow a (e + 1) = Int.pow a e * a := Int.pow_succ a e
    rw [hsucc, ih]
    rcases hcases with rfl | rfl | rfl <;> (repeat' split) <;> omega

theorem power_isExact (a : Int) (e : Nat) : IsExact (Int.pow a e) (Value.int <$> power a e) := by
  unfold power
  split
  · next ha =>
    rw [pow_of_natAbs_le_one ha]
    exact isExact_checked _
  · next ha =>
    split
    · next he => exact isExact_overflow (le_natAbs_pow (by omega) he)
    · exact isExact_checked _

theorem exists_word_pow {a : Int} (ha : a.natAbs ≤ 1) (e : Nat) :
    ∃ w : Int64, w.toInt = Int.pow a e := by
  have hcases : a = 0 ∨ a = 1 ∨ a = -1 := by omega
  rw [pow_of_natAbs_le_one ha]
  rcases hcases with rfl | rfl | rfl <;> (repeat' split) <;>
    first | exact ⟨0, rfl⟩ | exact ⟨1, rfl⟩ | exact ⟨-1, rfl⟩

theorem isCount_eq {b : Int} (hb : 0 ≤ b) : isCount b = decide (b < 0x100000000) := by
  simp [isCount, hb]

theorem pow_isExact_iff (hb : 0 ≤ b.toInt) :
    IsExact (Int.pow a.toInt b.toInt.toNat) (intOp .pow a b) ↔ ¬ Strays .pow a.toInt b.toInt := by
  have hneg : ¬ b < 0 := fun h => Int.not_lt.2 hb (Int64.lt_iff_toInt_lt.1 h)
  by_cases hcount : b.toInt < 0x100000000
  · have heq : intOp .pow a b = Value.int <$> power a.toInt b.toInt.toNat := by
      simp [intOp, hneg, isCount_eq hb, hcount]
    exact iff_of_true (heq ▸ power_isExact ..) fun h => Int.not_le.2 hcount h.2
  · have heq : intOp .pow a b = .error (.value .overflow) := by
      simp [intOp, hneg, isCount_eq hb, hcount]
    rw [heq]
    by_cases ha : a.toInt.natAbs ≤ 1
    · obtain ⟨w, hw⟩ := exists_word_pow ha b.toInt.toNat
      exact iff_of_false (not_isExact_error hw) (not_not_intro ⟨ha, Int.not_lt.1 hcount⟩)
    · exact iff_of_true (isExact_overflow (le_natAbs_pow (by omega) (by omega))) fun h => ha h.1

/-! ## Shifts -/

theorem le_natAbs_shift {a : Int} {n : Nat} (ha : a ≠ 0) (hn : 64 ≤ n) :
    2 ^ 64 ≤ (a * Int.pow 2 n).natAbs := by
  have hpow : (Int.pow 2 n).natAbs = 2 ^ n := Int.natAbs_pow 2 n
  rw [Int.natAbs_mul, hpow]
  calc 2 ^ 64 ≤ 2 ^ n := Nat.pow_le_pow_right (by decide) hn
    _ ≤ a.natAbs * 2 ^ n := Nat.le_mul_of_pos_left _ (Int.natAbs_pos.2 ha)

/-- What is left of a word after a shift by its width or more. -/
theorem fdiv_of_le {n : Nat} (hn : 64 ≤ n) :
    a.toInt.fdiv (Int.pow 2 n) = if a < 0 then -1 else 0 := by
  have hlow := a.le_toInt
  have hhigh := a.toInt_lt
  have hlarge : (2 : Int) ^ 63 ≤ Int.pow 2 n := by
    change (2 : Int) ^ 63 ≤ 2 ^ n
    exact_mod_cast Nat.pow_le_pow_right (by decide : 0 < 2) (by omega : 63 ≤ n)
  have hneg : a < 0 ↔ a.toInt < 0 := Int64.lt_iff_toInt_lt
  rw [Int.fdiv_eq_ediv_of_nonneg _ (by omega)]
  simp only [hneg]
  split
  · rw [Int.ediv_eq_iff_of_pos (by omega)]
    omega
  · exact Int.ediv_eq_zero_of_lt (by omega) (by omega)

section

variable (hb : 0 ≤ b.toInt) (hwidth : b.toInt < 64)

include hb hwidth

theorem toNat_count : (b.toBitVec.smod 64).toNat = b.toInt.toNat := by
  have hmod : (b.toBitVec.smod 64).toInt = b.toInt.fmod 64 := BitVec.toInt_smod
  rw [Int.fmod_eq_of_lt hb hwidth] at hmod
  rw [← hmod, BitVec.toInt_eq_toNat_of_msb]
  · rfl
  · rw [BitVec.msb_eq_toInt, hmod]
    simpa using hb

theorem toInt_shiftRight : (a >>> b).toInt = a.toInt.fdiv (Int.pow 2 b.toInt.toNat) := by
  have hpow : (0 : Int) ≤ Int.pow 2 b.toInt.toNat := Int.pow_nonneg (by decide)
  change (a >>> b).toBitVec.toInt = _
  rw [Int64.toBitVec_shiftRight, BitVec.sshiftRight_eq', toNat_count hb hwidth,
    BitVec.toInt_sshiftRight, Int.shiftRight_eq_div_pow, Int.fdiv_eq_ediv_of_nonneg _ hpow]
  rfl

theorem toInt_shiftLeft :
    (a <<< b).toInt = (a.toInt * Int.pow 2 b.toInt.toNat).bmod (2 ^ 64) := by
  have hcast (x n : Nat) : ((x <<< n : Nat) : Int) = x * Int.pow 2 n := by
    rw [Nat.shiftLeft_eq, Nat.cast_mul, Nat.cast_pow]
    rfl
  change (a <<< b).toBitVec.toInt = (a.toBitVec.toInt * _).bmod _
  rw [Int64.toBitVec_shiftLeft, BitVec.shiftLeft_eq', toNat_count hb hwidth,
    BitVec.toInt_shiftLeft, hcast, BitVec.toInt_eq_toNat_bmod, Int.bmod_mul_bmod]

/-- Shifting back gives the word again only if no bit was lost. -/
theorem shift_back_iff :
    (a <<< b) >>> b = a ↔ (a <<< b).toInt = a.toInt * Int.pow 2 b.toInt.toNat := by
  rw [← Int64.toInt_inj, toInt_shiftRight hb hwidth]
  have hpos : 0 < Int.pow 2 b.toInt.toNat := Int.pow_pos (by decide)
  have hdvd : Int.pow 2 b.toInt.toNat ∣ (a <<< b).toInt := by
    have hsize : Int.pow 2 b.toInt.toNat ∣ ((2 ^ 64 : Nat) : Int) :=
      pow_dvd_pow (2 : Int) (by omega : b.toInt.toNat ≤ 64)
    rw [toInt_shiftLeft hb hwidth, Int.bmod_eq_self_sub_mul_bdiv]
    exact Int.dvd_sub (Int.dvd_mul_left ..) (Dvd.dvd.mul_right hsize _)
  rw [Int.fdiv_eq_ediv_of_nonneg _ (Int.le_of_lt hpos)]
  exact Int.ediv_eq_iff_eq_mul_left (Int.ne_of_gt hpos) hdvd

theorem shiftLeft_isExact : IsExact (a.toInt * Int.pow 2 b.toInt.toNat)
    (Value.int <$> orOverflow ((some (a <<< b)).filter (· >>> b == a))) := by
  by_cases hback : (a <<< b) >>> b = a
  · rw [Option.filter_some, if_pos (beq_iff_eq.2 hback)]
    exact .inl ⟨_, (shift_back_iff hb hwidth).1 hback, rfl⟩
  · rw [Option.filter_some, if_neg (mt beq_iff_eq.1 hback)]
    refine .inr ⟨fun w hw => hback ((shift_back_iff hb hwidth).2 ?_), _, rfl, rfl⟩
    rw [toInt_shiftLeft hb hwidth, ← hw]
    exact w.toInt_bmod

end

theorem lt_width_iff : b < 64 ↔ b.toInt < 64 := Int64.lt_iff_toInt_lt

theorem shiftLeft_isExact_iff (hb : 0 ≤ b.toInt) :
    IsExact (a.toInt * Int.pow 2 b.toInt.toNat) (intOp .shiftLeft a b) ↔
      ¬ Strays .shiftLeft a.toInt b.toInt := by
  by_cases hcount : b.toInt < 0x100000000
  · by_cases hwidth : b.toInt < 64
    · have heq : intOp .shiftLeft a b =
          Value.int <$> orOverflow ((some (a <<< b)).filter (· >>> b == a)) := by
        simp [intOp, shiftLeft, inWidth?, isCount_eq hb, hcount, lt_width_iff, hwidth]
      refine iff_of_true (heq ▸ shiftLeft_isExact hb hwidth) ?_
      exact fun h => h.elim (Int.not_le.2 hcount) fun h => Int.not_le.2 hwidth h.2
    · have heq : intOp .shiftLeft a b = .error (.value .overflow) := by
        simp [intOp, shiftLeft, inWidth?, isCount_eq hb, hcount, lt_width_iff, hwidth, orOverflow,
          Functor.map, Except.map]
      rw [heq]
      by_cases ha : a.toInt = 0
      · refine iff_of_false (not_isExact_error (w := 0) ?_)
          (not_not_intro (.inr ⟨ha, Int.not_lt.1 hwidth⟩))
        rw [ha, Int.zero_mul]
        rfl
      · refine iff_of_true (isExact_overflow (le_natAbs_shift ha (by omega))) ?_
        exact fun h => h.elim (Int.not_le.2 hcount) fun h => ha h.1
  · have heq : intOp .shiftLeft a b = .error (.value .negativeShift) := by
      simp [intOp, shiftLeft, isCount_eq hb, hcount, Functor.map, Except.map]
    refine iff_of_false ?_ (not_not_intro (.inl (Int.not_lt.1 hcount)))
    rw [heq]
    exact not_isExact_negativeShift

theorem shiftRight_isExact_iff (hb : 0 ≤ b.toInt) :
    IsExact (a.toInt.fdiv (Int.pow 2 b.toInt.toNat)) (intOp .shiftRight a b) ↔
      ¬ Strays .shiftRight a.toInt b.toInt := by
  by_cases hcount : b.toInt < 0x100000000
  · refine iff_of_true ?_ (Int.not_le.2 hcount)
    have heq : intOp .shiftRight a b =
        .ok (.int ((inWidth? b (a >>> b)).getD (if a < 0 then -1 else 0))) := by
      simp [intOp, shiftRight, isCount_eq hb, hcount, Functor.map, Except.map]
    rw [heq]
    refine .inl ⟨_, ?_, rfl⟩
    by_cases hwidth : b.toInt < 64
    · rw [inWidth?, if_pos (lt_width_iff.2 hwidth)]
      exact toInt_shiftRight hb hwidth
    · rw [inWidth?, if_neg (mt lt_width_iff.1 hwidth), fdiv_of_le (by omega)]
      change Int64.toInt (if a < 0 then -1 else 0) = _
      split <;> rfl
  · have heq : intOp .shiftRight a b = .error (.value .negativeShift) := by
      simp [intOp, shiftRight, isCount_eq hb, hcount, Functor.map, Except.map]
    refine iff_of_false ?_ (not_not_intro (Int.not_lt.1 hcount))
    rw [heq]
    exact not_isExact_negativeShift

/-! ## Division -/

theorem lt_zero_iff : a < 0 ↔ a.toInt < 0 := Int64.lt_iff_toInt_lt

theorem toInt_ne_zero (hb : b ≠ 0) : b.toInt ≠ 0 := fun h => hb (Int64.toInt_inj.1 h)

/-- The remainder is on the side of the divisor, and nearer to zero. -/
theorem fmod_bounds (a : Int) {b : Int} (hb : b ≠ 0) :
    0 ≤ a.fmod b * b ∧ (a.fmod b).natAbs < b.natAbs := by
  rcases Int.lt_or_gt_of_ne hb with hneg | hpos
  · have hside := Int.fmod_nonneg_of_pos (-a) (Int.neg_pos.2 hneg)
    have hnear := Int.fmod_lt_of_pos (-a) (Int.neg_pos.2 hneg)
    rw [Int.neg_fmod_neg] at hside hnear
    exact ⟨Int.mul_nonneg_of_nonpos_of_nonpos (by omega) (by omega), by omega⟩
  · have hside := Int.fmod_nonneg_of_pos a hpos
    have hnear := Int.fmod_lt_of_pos a hpos
    exact ⟨Int.mul_nonneg hside (by omega), by omega⟩

theorem floor_div_eq_fdiv (a : Int) {b : Int} (hb : b ≠ 0) : ⌊(a : ℚ) / b⌋ = a.fdiv b := by
  rcases Int.lt_or_gt_of_ne hb with hneg | hpos
  · have hflip : (a : ℚ) / b = ((-a : Int) : ℚ) / ((-b).toNat : Nat) := by
      have : (((-b).toNat : Nat) : ℚ) = -b := by
        exact_mod_cast Int.toNat_of_nonneg (by omega : 0 ≤ -b)
      rw [this, Int.cast_neg, neg_div_neg_eq]
    rw [hflip, Rat.floor_intCast_div_natCast, Int.toNat_of_nonneg (by omega),
      ← Int.fdiv_eq_ediv_of_nonneg _ (by omega), Int.neg_fdiv_neg]
  · have := Rat.floor_intCast_div_natCast a b.toNat
    rw [← Int.cast_natCast, Int.toNat_of_nonneg (by omega)] at this
    rw [this, Int.fdiv_eq_ediv_of_nonneg _ (by omega)]

theorem isRaised_iff : isRaised a b = true ↔
    ¬ b.toInt ∣ a.toInt ∧ ¬ (a.toInt < 0 ↔ b.toInt < 0) := by
  have hzero : a % b = 0 ↔ b.toInt ∣ a.toInt := by
    rw [← Int64.toInt_inj, Int64.toInt_mod, Int.dvd_iff_tmod_eq_zero]
    rfl
  simp [isRaised, hzero, lt_zero_iff]

theorem isOpposite_iff : isOpposite (a % b) b = true ↔
    a.toInt.tmod b.toInt ≠ 0 ∧ ¬ (a.toInt.tmod b.toInt < 0 ↔ b.toInt < 0) := by
  have hzero : a % b = 0 ↔ a.toInt.tmod b.toInt = 0 := by
    rw [← Int64.toInt_inj, Int64.toInt_mod]
    rfl
  simp [isOpposite, hzero, lt_zero_iff]

theorem quotient?_eq_some {q : Int64} (h : quotient? a b = some q) :
    q.toInt = a.toInt.tdiv b.toInt := by
  rw [quotient?, Option.ite_none_left_eq_some, not_or, not_and_or] at h
  obtain ⟨⟨-, hleft | hright⟩, ⟨⟩⟩ := h
  · exact Int64.toInt_div_of_ne_left a b hleft
  · exact Int64.toInt_div_of_ne_right a b hright

/-- The quotient rounded towards zero is one too large if it was rounded up. -/
theorem fdiv_eq_of_tdiv {a b : Int} (hb : b ≠ 0) :
    a.fdiv b = a.tdiv b - if ¬ b ∣ a ∧ ¬ (a < 0 ↔ b < 0) then 1 else 0 := by
  rw [Int.fdiv_eq_tdiv]
  rcases Int.lt_or_gt_of_ne hb with hneg | hpos
  · rw [Int.sign_eq_neg_one_of_neg hneg]
    split <;> (repeat' split) <;> omega
  · rw [Int.sign_eq_one_of_pos hpos]
    split <;> (repeat' split) <;> omega

/-- The remainder with the sign of the dividend is one divisor off if that has another sign. -/
theorem fmod_eq_of_tmod {a b : Int} : a.fmod b =
    a.tmod b + if a.tmod b ≠ 0 ∧ ¬ (a.tmod b < 0 ↔ b < 0) then b else 0 := by
  have hdvd : b ∣ a ↔ a.tmod b = 0 := Int.dvd_iff_tmod_eq_zero
  have hpos (h : 0 ≤ a) : 0 ≤ a.tmod b := Int.tmod_nonneg b h
  have hneg (h : 0 ≤ -a) : 0 ≤ -a.tmod b := Int.neg_tmod a b ▸ Int.tmod_nonneg b h
  rw [Int.fmod_eq_tmod]
  simp only [hdvd]
  split <;> (repeat' split) <;> omega

/-- The steps of a division, which are taken on words, give what they give for integers without
bounds: the remainder with the sign of the dividend and the one a divisor further, and, where there
is a quotient, that quotient and the one below it. -/
structure StepsFit (a b : Int64) : Prop where
  remainder : (a % b).toInt = a.toInt.tmod b.toInt
  raised : isOpposite (a % b) b = true → (a % b + b).toInt = (a % b).toInt + b.toInt
  quotient : ∀ q, quotient? a b = some q → q.toInt = a.toInt.tdiv b.toInt
  lowered : ∀ q, quotient? a b = some q → isRaised a b = true → (q - 1).toInt = q.toInt - 1

theorem stepsFit (a : Int64) (hb : b ≠ 0) : StepsFit a b where
  remainder := Int64.toInt_mod a b
  raised := by
    intro h
    have hr := (a % b).toInt_lt
    have hr' := (a % b).le_toInt
    have hlow := b.le_toInt
    have hhigh := b.toInt_lt
    obtain ⟨-, hsign⟩ := isOpposite_iff.1 h
    rw [← Int64.toInt_mod] at hsign
    rw [Int64.toInt_add]
    exact Int.bmod_eq_of_le (by omega) (by omega)
  quotient := fun q => quotient?_eq_some
  lowered := by
    intro q hq h
    obtain ⟨hexact, -⟩ := isRaised_iff.1 h
    have hzero := toInt_ne_zero hb
    have hlow := a.le_toInt
    have hhigh := a.toInt_lt
    -- a divisor that leaves a remainder is at least two in magnitude
    have htwo : 2 ≤ b.toInt.natAbs := by
      by_contra hsmall
      obtain hone | hone : b.toInt = 1 ∨ b.toInt = -1 := by omega
      · exact hexact (hone ▸ Int.one_dvd _)
      · exact hexact (hone ▸ Int.neg_dvd.2 (Int.one_dvd _))
    have hhalf : q.toInt.natAbs ≤ a.toInt.natAbs / 2 := by
      rw [quotient?_eq_some hq, Int.natAbs_tdiv]
      exact Nat.div_le_div_left htwo (by decide)
    rw [Int64.toInt_sub]
    exact Int.bmod_eq_of_le (by change _ ≤ _ - (1 : Int); omega)
      (by change _ - (1 : Int) < _; omega)

theorem toInt_floorMod (a : Int64) (hb : b ≠ 0) : (floorMod a b).toInt = a.toInt.fmod b.toInt := by
  have hsteps := stepsFit a hb
  rw [floorMod, fmod_eq_of_tmod]
  split
  · next h => rw [hsteps.raised h, hsteps.remainder, if_pos (isOpposite_iff.1 h)]
  · next h => rw [hsteps.remainder, if_neg (mt isOpposite_iff.2 h), Int.add_zero]

theorem toInt_floorDiv (hb : b ≠ 0) {q : Int64} (hq : floorDiv? a b = some q) :
    q.toInt = a.toInt.fdiv b.toInt := by
  have hsteps := stepsFit a hb
  obtain ⟨q, h, rfl⟩ := Option.map_eq_some_iff.1 hq
  rw [fdiv_eq_of_tdiv (toInt_ne_zero hb), ← hsteps.quotient q h]
  split
  · next hraised => rw [hsteps.lowered q h hraised, if_pos (isRaised_iff.1 hraised)]
  · next hraised => rw [if_neg (mt isRaised_iff.2 hraised), Int.sub_zero]

/-! ## All operators -/

theorem intOp_isExact_iff {op : BinaryOp} (hop : exactly? op a.toInt b.toInt = some i) :
    IsExact i (intOp op a b) ↔ ¬ Strays op a.toInt b.toInt := by
  cases op with
  | add | sub | mul =>
    obtain rfl := Option.some_inj.1 hop
    exact iff_of_true (isExact_checked _) id
  | pow =>
    obtain ⟨hb, ⟨⟩⟩ := Option.ite_none_right_eq_some.1 hop
    exact pow_isExact_iff hb
  | shiftLeft =>
    obtain ⟨hb, ⟨⟩⟩ := Option.ite_none_right_eq_some.1 hop
    exact shiftLeft_isExact_iff hb
  | shiftRight =>
    obtain ⟨hb, ⟨⟩⟩ := Option.ite_none_right_eq_some.1 hop
    exact shiftRight_isExact_iff hb
  | _ => cases hop

end BlockScript.Number

namespace BlockScript.Evaluator

open Program Number

/-- In which cases an operator on integers gives exactly what it means, or refuses where that is no
word. The machine stays as it is. -/
theorem binary_exact_iff (ev : Evaluator) {op : BinaryOp} {a b : Int64} {i : Int}
    (hop : exactly? op a.toInt b.toInt = some i) (m : Machine) :
    (∃ r, IsExact i r ∧ ev.binary op (.int a) (.int b) m = Run.ofExcept r m) ↔
      ¬ Strays op a.toInt b.toInt := by
  have hrun : ev.binary op (.int a) (.int b) m = Run.ofExcept (intOp op a b) m := rfl
  rw [← intOp_isExact_iff hop, hrun]
  refine ⟨?_, fun h => ⟨_, h, rfl⟩⟩
  rintro ⟨r, hr, heq⟩
  generalize intOp op a b = result at heq ⊢
  cases result <;> cases r <;> cases heq <;> exact hr

/-- `-1 << 63` is the least integer. -/
theorem binary_exact_iff_least : exactly? .shiftLeft (-1 : Int64).toInt (63 : Int64).toInt =
    some leastInt ∧ ∃ r, IsExact leastInt r ∧
      (ofDepth .none 0).binary .shiftLeft (.int (-1)) (.int 63) default =
        Run.ofExcept r default := by
  have hop : exactly? .shiftLeft (-1 : Int64).toInt (63 : Int64).toInt = some leastInt := by decide
  refine ⟨hop, (binary_exact_iff _ hop _).2 ?_⟩
  rintro (h | ⟨-, h⟩) <;> exact absurd h (by decide)

/-- `0 << 64` is refused, though it is zero. -/
theorem zero_shift_refused : exactly? .shiftLeft (0 : Int64).toInt (64 : Int64).toInt = some 0 ∧
    (ofDepth .none 0).binary .shiftLeft (.int 0) (.int 64) default =
      .error (.error (.value .overflow)) default :=
  ⟨by decide, rfl⟩

/-- A remainder is always given, on the side of the divisor and nearer to zero; and the floor of the
exact quotient is given too, with which it adds up, unless that is no word. No step on the way
leaves the words. -/
theorem floor_division (ev : Evaluator) (a : Int64) {b : Int64} (hb : b ≠ 0) (m : Machine) :
    StepsFit a b ∧ ∃ r : Int64, ev.binary .mod (.int a) (.int b) m = .ok (.int r) m ∧
      0 ≤ r.toInt * b.toInt ∧ r.toInt.natAbs < b.toInt.natAbs ∧
      if a.toInt = -2 ^ 63 ∧ b.toInt = -1 then ∃ e, e.message = "integer overflow" ∧
        ev.binary .floorDiv (.int a) (.int b) m = .error (.error e) m
      else ∃ q : Int64, ev.binary .floorDiv (.int a) (.int b) m = .ok (.int q) m ∧
        q.toInt = ⌊(a.toInt : ℚ) / b.toInt⌋ ∧ a.toInt = b.toInt * q.toInt + r.toInt := by
  have hzero := toInt_ne_zero hb
  have hmod : ev.binary .mod (.int a) (.int b) m = .ok (.int (floorMod a b)) m := by
    change Run.ofExcept (intOp .mod a b) m = _
    rw [intOp, if_neg hb]
    rfl
  have hdiv : ev.binary .floorDiv (.int a) (.int b) m =
      Run.ofExcept (Value.int <$> orOverflow (floorDiv? a b)) m := by
    change Run.ofExcept (intOp .floorDiv a b) m = _
    rw [intOp, if_neg hb]
  obtain ⟨hside, hnear⟩ := fmod_bounds a.toInt hzero
  rw [← toInt_floorMod a hb] at hside hnear
  refine ⟨stepsFit a hb, floorMod a b, hmod, hside, hnear, ?_⟩
  rw [hdiv]
  have hleast : a.toInt = -2 ^ 63 ∧ b.toInt = -1 ↔ a = Int64.minValue ∧ b = -1 := by
    rw [← Int64.toInt_inj, ← Int64.toInt_inj]
    rfl
  simp only [hleast]
  split
  · next h =>
    rw [floorDiv?, quotient?, if_pos (.inr h)]
    exact ⟨_, rfl, rfl⟩
  · next h =>
    obtain ⟨q, hq⟩ : ∃ q, floorDiv? a b = some q := by
      rw [floorDiv?, quotient?, if_neg (not_or.2 ⟨hb, h⟩)]
      exact ⟨_, rfl⟩
    rw [hq]
    refine ⟨q, rfl, ?_, ?_⟩
    · rw [floor_div_eq_fdiv _ hzero, toInt_floorDiv hb hq]
    · rw [toInt_floorDiv hb hq, toInt_floorMod a hb, Int.mul_fdiv_add_fmod]

/-- `7 % -2` is negative. -/
theorem floor_division_seven : (-2 : Int64) ≠ 0 ∧ ∃ r : Int64,
    (ofDepth .none 0).binary .mod (.int 7) (.int (-2)) default = .ok (.int r) default ∧
      0 ≤ r.toInt * (-2) ∧ r.toInt.natAbs < 2 := by
  obtain ⟨-, r, hr, hside, hnear, -⟩ :=
    floor_division (ofDepth .none 0) 7 (b := -2) (by decide) default
  exact ⟨by decide, r, hr, hside, hnear⟩

end BlockScript.Evaluator
