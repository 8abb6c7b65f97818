import BlockScript.Proofs.RoundTrip.Literals

/-! Numbers with a point or an exponent. What is printed for a floating-point number that is finite
and not negative is one literal, and it is read as a number. -/

namespace BlockScript

open Token List

/-- One digit at least, and nothing else. -/
structure IsDigits (ds : List Char) : Prop where
  ne_nil : ds ≠ []
  isDigit : ∀ c ∈ ds, isDigit c = true

/-- Digits after a point, or nothing. -/
inductive IsFraction : List Char → Prop
  | none : IsFraction []
  | point {ds : List Char} (h : IsDigits ds) : IsFraction ('.' :: ds)

inductive IsExponent : List Char → Prop
  | none : IsExponent []
  | positive {ds : List Char} (h : IsDigits ds) : IsExponent ('e' :: ds)
  | negative {ds : List Char} (h : IsDigits ds) : IsExponent ('e' :: '-' :: ds)

/-- The text of a number that is no integer. -/
inductive IsDecimal : List Char → Prop
  | intro {whole fraction exponent : List Char} (hwhole : IsDigits whole)
    (hfraction : IsFraction fraction) (hexponent : IsExponent exponent)
    (hmarked : fraction ≠ [] ∨ exponent ≠ []) : IsDecimal (whole ++ (fraction ++ exponent))

/-! ## The text is one token -/

variable {ds rest exponent text : List Char}

namespace Token

theorem run_digits (h : IsDigits ds) (hrest : ∀ c ∈ rest.head?, isDigitOrLow c = false) :
    run isDigitOrLow (ds ++ rest) = ds.length :=
  run_append (fun c hc => by simp [isDigitOrLow, h.isDigit c hc]) hrest

/-- What comes after a number that has a point or an exponent does not go on with it. -/
theorem not_decimal_of_bounds {c : Char} (h : isBoundary c = true ∨ c = '.') :
    isDigitOrLow c = false ∧ c ≠ 'e' ∧ c ≠ 'E' := by
  rcases h with h | rfl
  · have := not_number_of_isBoundary h
    exact ⟨this.1, this.2.2.1, this.2.2.2.1⟩
  · decide

theorem exponentLength_append (h : IsExponent exponent)
    (hrest : BoundsWord rest) : exponentLength (exponent ++ rest) = exponent.length := by
  have hends : ∀ c ∈ rest.head?, isDigitOrLow c = false :=
    fun c hc => (not_decimal_of_bounds (hrest c hc)).1
  cases h with
  | none =>
    cases rest with
    | nil => rfl
    | cons c rest =>
      obtain ⟨-, he, hE⟩ := not_decimal_of_bounds (hrest c rfl)
      simp [exponentLength, he, hE]
  | @positive ds h =>
    have hrun := run_digits h hends
    obtain ⟨d, ds, rfl⟩ := exists_cons_of_ne_nil h.ne_nil
    have hd := h.isDigit d mem_cons_self
    have hnot (x : Char) (hx : isDigit x = false) : d ≠ x := by
      rintro rfl
      simp [hd] at hx
    simp only [cons_append] at hrun ⊢
    simp [exponentLength, hnot '+' rfl, hnot '-' rfl, hd, hrun]
    omega
  | @negative ds h =>
    have hrun := run_digits h hends
    obtain ⟨d, ds, rfl⟩ := exists_cons_of_ne_nil h.ne_nil
    have hd := h.isDigit d mem_cons_self
    simp only [cons_append] at hrun ⊢
    simp [exponentLength, hd, hrun]
    omega

theorem fractionLength_append {fraction : List Char} (h : IsFraction fraction)
    (hrest : ∀ c ∈ rest.head?, isDigitOrLow c = false)
    (hpoint : fraction = [] → rest.head? ≠ some '.') :
    fractionLength (fraction ++ rest) = fraction.length := by
  cases h with
  | none =>
    cases rest with
    | nil => rfl
    | cons c rest =>
      have hc : c ≠ '.' := fun h => hpoint rfl (by rw [h, head?_cons])
      simp [fractionLength, hc]
  | @point ds h =>
    have hrun := run_digits h hrest
    obtain ⟨d, ds, rfl⟩ := exists_cons_of_ne_nil h.ne_nil
    have hd : d ≠ '.' := by
      rintro rfl
      exact absurd (h.isDigit '.' mem_cons_self) (by decide)
    simp only [cons_append] at hrun ⊢
    simp [fractionLength, hd, hrun]
    omega

theorem decimalLength_append (h : IsDecimal text) (hrest : BoundsWord rest) :
    decimalLength (text ++ rest) = text.length := by
  cases h with
  | @intro whole fraction exponent hwhole hfraction hexponent hmarked =>
    have hlast : ∀ c ∈ (exponent ++ rest).head?, isDigitOrLow c = false := by
      cases hexponent with
      | none => exact fun c hc => (not_decimal_of_bounds (hrest c hc)).1
      | positive | negative => rintro _ ⟨⟩; rfl
    have hpoint : fraction = [] → (exponent ++ rest).head? ≠ some '.' := by
      intro hnil
      cases hexponent with
      | none => simp [hnil] at hmarked
      | positive | negative => rintro ⟨⟩
    have hnext : ∀ c ∈ (fraction ++ (exponent ++ rest)).head?, isDigitOrLow c = false := by
      cases hfraction with
      | none => exact hlast
      | point => rintro _ ⟨⟩; rfl
    have hexponentAt : (whole ++ (fraction ++ (exponent ++ rest))).drop
        (whole.length + fraction.length) = exponent ++ rest := by
      rw [← drop_drop, drop_left, drop_left]
    rw [append_assoc, append_assoc, decimalLength, run_digits hwhole hnext, drop_left,
      fractionLength_append hfraction hlast hpoint, hexponentAt,
      exponentLength_append hexponent hrest]
    simp only [length_append]
    omega

theorem lexeme_decimal (h : IsDecimal text) (hrest : BoundsWord rest) :
    lexeme (text ++ rest) = (.literal, text.length) := by
  rw [← decimalLength_append h hrest]
  cases h with
  | @intro whole fraction exponent hwhole hfraction hexponent hmarked =>
    obtain ⟨d, ds, rfl⟩ := exists_cons_of_ne_nil hwhole.ne_nil
    simp only [cons_append]
    rw [lexeme_of_isDigit (hwhole.isDigit d mem_cons_self), numberLength_eq_decimalLength]
    rw [tail_cons]
    cases ds with
    | cons x ds =>
      rintro _ ⟨⟩
      exact not_base_of_isDigit (hwhole.isDigit x (by simp))
    | nil =>
      cases hfraction with
      | point => rintro _ ⟨⟩; rfl
      | none =>
        cases hexponent with
        | none => simp at hmarked
        | positive | negative => rintro _ ⟨⟩; rfl

end Token

/-! ## The text is read as a number -/

namespace IsDecimal

theorem forall_mem (h : IsDecimal text) : ∀ c ∈ text, isDigit c = true ∨ c ∈ ['.', 'e', '-'] := by
  cases h with
  | intro hwhole hfraction hexponent _ =>
    refine forall_mem_append.2 ⟨fun c hc => .inl (hwhole.isDigit c hc),
      forall_mem_append.2 ⟨?_, ?_⟩⟩
    · cases hfraction with
      | none => exact nofun
      | point h => exact forall_mem_cons.2 ⟨by simp, fun c hc => .inl (h.isDigit c hc)⟩
    · cases hexponent with
      | none => exact nofun
      | positive h => exact forall_mem_cons.2 ⟨by simp, fun c hc => .inl (h.isDigit c hc)⟩
      | negative h =>
        exact forall_mem_cons.2 ⟨by simp, forall_mem_cons.2 ⟨by simp, fun c hc =>
          .inl (h.isDigit c hc)⟩⟩

theorem notMem (h : IsDecimal text) {x : Char} (hdigit : isDigit x = false)
    (hx : x ∉ ['.', 'e', '-']) : x ∉ text := by
  intro hmem
  rcases h.forall_mem x hmem with hd | hd
  · simp [hdigit] at hd
  · exact hx hd

theorem exists_cons (h : IsDecimal text) : ∃ d rest, text = d :: rest ∧ isDigit d = true := by
  cases h with
  | intro hwhole _ _ _ =>
    obtain ⟨d, ds, rfl⟩ := exists_cons_of_ne_nil hwhole.ne_nil
    exact ⟨d, _, rfl, hwhole.isDigit d mem_cons_self⟩

theorem lowerAscii_eq (h : IsDecimal text) : Number.lowerAscii text = text := by
  have hlow : ∀ c ∈ text, c.toLower = c := by
    intro c hc
    rcases h.forall_mem c hc with hdigit | hmem
    · exact Program.Literal.toLower_of_isDigit hdigit
    · exact (by decide : ∀ c ∈ ['.', 'e', '-'], c.toLower = c) c hmem
  rw [Number.lowerAscii, map_congr_left hlow, map_id']

end IsDecimal

namespace Number

theorem spanDigits_append (hds : ∀ c ∈ ds, isDigit c = true)
    (hrest : ∀ c ∈ rest.head?, isDigit c = false) : spanDigits (ds ++ rest) = (ds, rest) := by
  rw [spanDigits, takeWhile_append_of_bounds hds hrest, dropWhile_append_of_pos hds]
  cases rest with
  | nil => rfl
  | cons c rest => rw [dropWhile_cons_of_neg (by simp [hrest c rfl])]

theorem natural?_isSome (h : IsDigits ds) : ∃ n, natural? 10 ds = some n := by
  refine ⟨Nat.ofDigitChars 10 ds 0, ?_⟩
  rw [natural?, if_neg (by simpa using h.ne_nil), Program.Literal.digitsFrom?_of_isDigit h.isDigit]

theorem exponent?_isSome (h : IsExponent exponent) : ∃ e, exponent? exponent = some e := by
  cases h with
  | none => exact ⟨0, rfl⟩
  | positive h =>
    obtain ⟨n, hn⟩ := natural?_isSome h
    exact ⟨n, by simp [exponent?, Program.Literal.integer?_of_isDigit h.isDigit, hn]⟩
  | negative h =>
    obtain ⟨n, hn⟩ := natural?_isSome h
    exact ⟨-n, by simp [exponent?, integer?, hn]⟩

theorem magnitude?_isSome (h : IsDecimal text) : ∃ f, magnitude? text = some f := by
  cases h with
  | @intro whole fraction exponent hwhole hfraction hexponent hmarked =>
    obtain ⟨e, he⟩ := exponent?_isSome hexponent
    have hlast : ∀ c ∈ exponent.head?, isDigit c = false := by
      cases hexponent with
      | none => exact nofun
      | positive | negative => rintro _ ⟨⟩; rfl
    cases hfraction with
    | none =>
      obtain ⟨n, hn⟩ := natural?_isSome hwhole
      have hpoint : ∀ cs, exponent ≠ '.' :: cs := by
        cases hexponent with
        | none | positive | negative => exact nofun
      rw [nil_append, magnitude?, spanDigits_append hwhole.isDigit hlast]
      dsimp only
      split
      · exact absurd rfl (hpoint _)
      · simp [hn, he]
    | @point ds h =>
      have hdigits : IsDigits (whole ++ ds) :=
        ⟨by simp [hwhole.ne_nil], forall_mem_append.2 ⟨hwhole.isDigit, h.isDigit⟩⟩
      obtain ⟨n, hn⟩ := natural?_isSome hdigits
      rw [magnitude?, spanDigits_append hwhole.isDigit (by rintro _ ⟨⟩; rfl)]
      simp [spanDigits_append h.isDigit hlast, hn, he]

theorem float?_decimal (h : IsDecimal text) : ∃ f, float? text = some f := by
  obtain ⟨f, hf⟩ := magnitude?_isSome h
  obtain ⟨d, rest, rfl, hd⟩ := h.exists_cons
  have hname (name : String) (hhead : name.toList.head?.any isDigit = false) :
      (String.ofList (d :: rest) == name) = false := by
    rw [beq_eq_false_iff_ne]
    rintro rfl
    simp [hd] at hhead
  refine ⟨f, ?_⟩
  unfold float?
  split
  · next heq =>
    cases heq
    exact absurd hd (by decide)
  · next heq =>
    cases heq
    exact absurd hd (by decide)
  · rw [unsignedFloat?, h.lowerAscii_eq]
    simp only [contains_cons, contains_nil, hname "inf" rfl, hname "infinity" rfl,
      hname "nan" rfl, Bool.or_self, Bool.false_eq_true, if_false, hf]

end Number

namespace Program.Literal

theorem splitQuoted?_decimal (h : IsDecimal text) : splitQuoted? text = none := by
  refine splitQuoted?_eq_none fun c hc => ?_
  rcases h.forall_mem c hc with hdigit | hmem
  · rw [isQuote_of_isDigit hdigit, Bool.not_false]
  · exact (by decide : ∀ c ∈ ['.', 'e', '-'], (!isQuote c) = true) c hmem

theorem number_decimal (h : IsDecimal text) :
    ∃ f, number (String.ofList text) = .ok (.float f) := by
  obtain ⟨f, hf⟩ := Number.float?_decimal h
  have hfilter : text.filter (· ≠ '_') = text :=
    filter_eq_self.2 fun c hc => decide_eq_true fun heq => h.notMem rfl (by decide) (heq ▸ hc)
  have hbase : basePrefix? text = none := by
    unfold basePrefix?
    split
    · exact absurd (by simp) (h.notMem (x := 'x') rfl (by decide))
    · exact absurd (by simp) (h.notMem (x := 'o') rfl (by decide))
    · exact absurd (by simp) (h.notMem (x := 'b') rfl (by decide))
    · rfl
  have hmark : (text.contains '.' || text.contains 'e') = true := by
    cases h with
    | intro _ hfraction hexponent hmarked =>
      cases hfraction with
      | point => simp
      | none =>
        cases hexponent with
        | none => simp at hmarked
        | positive | negative => simp
  refine ⟨f, ?_⟩
  rw [number, String.toList_ofList, hfilter, h.lowerAscii_eq, hbase]
  simp only [hmark, if_true, hf]

end Program.Literal

/-! ## The text that is printed -/

namespace Number

theorem isDigits_decimalDigits (n : Nat) : IsDigits (decimalDigits n) :=
  ⟨Nat.toDigits_ne_nil, fun _ => Program.Literal.isDigit_of_mem_toDigits⟩

theorem isExponent_toString (e : Int) : IsExponent ('e' :: (toString e).toList) := by
  cases e with
  | ofNat n =>
    change IsExponent ('e' :: (Nat.repr n).toList)
    rw [Nat.toList_repr]
    exact .positive (isDigits_decimalDigits n)
  | negSucc n =>
    change IsExponent ('e' :: ("-" ++ Nat.repr (n + 1)).toList)
    rw [String.toList_append, Nat.toList_repr]
    exact .negative (isDigits_decimalDigits (n + 1))

theorem isDecimal_scientific (d : Decimal) : IsDecimal d.scientific := by
  have hdigits := isDigits_decimalDigits d.digits
  unfold Decimal.scientific
  split
  · next hnil => exact absurd hnil hdigits.ne_nil
  · next first others hcons =>
    rw [hcons] at hdigits
    have hfirst : IsDigits [first] := ⟨by simp, by simpa using hdigits.isDigit first mem_cons_self⟩
    have hfraction : IsFraction (if others.isEmpty then [] else '.' :: others) := by
      split
      · exact .none
      · next hne =>
        exact .point ⟨by simpa using hne, fun c hc => hdigits.isDigit c (mem_cons_of_mem _ hc)⟩
    exact .intro hfirst hfraction (isExponent_toString _) (.inr (by simp))

theorem isDecimal_positional {d : Decimal} (h : d.exponent < 0) : IsDecimal d.positional := by
  unfold Decimal.positional
  dsimp only
  rw [if_neg (by omega)]
  have hdigits := isDigits_decimalDigits d.digits
  generalize hzeros : (-d.exponent).toNat + 1 - (decimalDigits d.digits).length = zeros
  have hpadded : ∀ c ∈ List.replicate zeros '0' ++ decimalDigits d.digits, isDigit c = true := by
    refine forall_mem_append.2 ⟨fun c hc => ?_, hdigits.isDigit⟩
    rw [eq_of_mem_replicate hc]
    rfl
  have hlength : (-d.exponent).toNat <
      (List.replicate zeros '0' ++ decimalDigits d.digits).length := by
    rw [length_append, length_replicate]
    omega
  generalize List.replicate zeros '0' ++ decimalDigits d.digits = padded at hpadded hlength ⊢
  have hwhole : IsDigits (padded.take (padded.length - (-d.exponent).toNat)) :=
    ⟨ne_nil_of_length_pos (by rw [length_take]; omega), fun c hc => hpadded c (mem_of_mem_take hc)⟩
  have hfraction : IsDigits (padded.drop (padded.length - (-d.exponent).toNat)) :=
    ⟨ne_nil_of_length_pos (by rw [length_drop]; omega), fun c hc => hpadded c (mem_of_mem_drop hc)⟩
  rw [← append_nil (List.drop _ padded), ← cons_append]
  exact .intro hwhole (.point hfraction) .none (.inl (by simp))

theorem isDecimal_literalDigits (mantissa : Nat) (exponent : Int) :
    IsDecimal (literalDigits false mantissa exponent) := by
  have hpoint (ds : List Char) (h : IsDigits ds) : IsDecimal (ds ++ ['.', '0']) :=
    have hzero : IsDigits ['0'] := ⟨by simp, by decide⟩
    .intro h (.point hzero) .none (.inl (by simp))
  unfold literalDigits
  split
  · exact hpoint ['0'] ⟨by simp, by decide⟩
  · dsimp only [signed]
    generalize Decimal.shortest mantissa exponent = d
    simp only [Bool.false_eq_true, if_false]
    split
    · exact isDecimal_scientific d
    · split
      · next hexp =>
        refine hpoint _ ?_
        rw [Decimal.positional, if_pos hexp]
        have hdigits := isDigits_decimalDigits d.digits
        refine ⟨by simp [hdigits.ne_nil], forall_mem_append.2 ⟨hdigits.isDigit, ?_⟩⟩
        intro c hc
        rw [eq_of_mem_replicate hc]
        rfl
      · next hexp => exact isDecimal_positional (by omega)

end Number

end BlockScript
