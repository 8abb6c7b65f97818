import BlockScript.Program.Literal
import BlockScript.Proofs.RoundTrip.Tokens

/-! Literals that are read back: the value of a printed literal is the constant it was printed
for. -/

namespace BlockScript.Program.Literal

open List

open Text (escape escapeChar quoteLiteral hexDigits)

/-! ## Texts -/

theorem hexDigits_two : ∀ n < 0xa0,
    (hexDigits 2 n).length = 2 ∧ Number.unsigned? 16 (hexDigits 2 n) = some n := by
  set_option maxRecDepth 4000 in decide

variable {c : Char} {cs : List Char}

theorem unescape_cons_of_ne (h : c ≠ '\\') (rest : List Char) :
    unescape (c :: rest) = (unescape rest).map (c :: ·) := by
  rw [unescape]
  · cases unescape rest <;> rfl
  · rintro rfl; exact absurd rfl h
  · rintro _ _ rfl; exact absurd rfl h

theorem unescape_simple {e : Char} (hline : e ≠ '\n') (h : simpleEscape? e = some c)
    (rest : List Char) : unescape ('\\' :: e :: rest) = (unescape rest).map (c :: ·) := by
  rw [unescape, if_neg hline, h]
  cases unescape rest <;> rfl

theorem codePoint_hexDigits (h : Text.isControl c = true) :
    codePoint 'x' 2 (hexDigits 2 c.toNat) = .ok c := by
  have hlt := Token.toNat_lt_of_isControl h
  obtain ⟨hlen, hvalue⟩ := hexDigits_two _ hlt
  have hvalid : c.toNat.isValidChar := .inl (by omega)
  rw [codePoint, if_pos hlen, hvalue]
  simp [hvalid]

theorem unescape_control (h : Text.isControl c = true) (rest : List Char) :
    unescape ('\\' :: 'x' :: (hexDigits 2 c.toNat ++ rest)) = (unescape rest).map (c :: ·) := by
  have hlen := (hexDigits_two _ (Token.toNat_lt_of_isControl h)).1
  have htake : (hexDigits 2 c.toNat ++ rest).take 2 = hexDigits 2 c.toNat := by
    exact take_left' hlen
  have hdrop : (hexDigits 2 c.toNat ++ rest).drop 2 = rest := by
    exact drop_left' hlen
  have hoctal : isOctal 'x' = false := rfl
  rw [unescape, if_neg (by decide), hoctal]
  simp only [simpleEscape?, codeWidth?, Bool.false_eq_true, if_false, htake, hdrop,
    codePoint_hexDigits h]
  cases unescape rest <;> rfl

theorem unescape_escape {quote : Char} (hquote : quote ∈ ['\'', '"']) (cs : List Char) :
    unescape (escape quote cs) = .ok cs := by
  have hsimple : quote ≠ '\n' ∧ simpleEscape? quote = some quote := by
    revert quote
    decide
  induction cs with
  | nil => rw [escape, flatMap_nil, unescape]
  | cons c cs ih =>
    have hchar (rest : List Char) : unescape (escapeChar quote c ++ rest) =
        (unescape rest).map (c :: ·) := by
      unfold escapeChar
      split; · next h => subst h; exact unescape_simple (by decide) rfl rest
      split; · next h => subst h; exact unescape_simple (by decide) rfl rest
      split; · next h => subst h; exact unescape_simple (by decide) rfl rest
      split; · next h => subst h; exact unescape_simple (by decide) rfl rest
      split; · next h => subst h; exact unescape_simple hsimple.1 hsimple.2 rest
      split
      · next h => exact unescape_control h rest
      · next h _ _ _ _ _ => exact unescape_cons_of_ne h rest
    rw [escape, flatMap_cons, hchar, ← escape, ih]
    rfl

/-! ## Delimiters -/

def delimiter (quote : Char) (triple : Bool) : List Char :=
  if triple then [quote, quote, quote] else [quote]

def quoted (quote : Char) (triple : Bool) (body : List Char) : List Char :=
  delimiter quote triple ++ (body ++ delimiter quote triple)

variable {quote : Char} {triple : Bool} {letters body : List Char}

/-- The decision made by the length and the first quotes of a text is that for its delimiters. -/
theorem width_eq (hopens : [quote, quote, quote].isPrefixOf (quoted quote triple body) = triple)
    {size : Nat} (hsize : (quoted quote triple body).length ≤ size) :
    (if 6 ≤ size && [quote, quote, quote].isPrefixOf (quoted quote triple body) then 3 else 1) =
      (delimiter quote triple).length := by
  rw [hopens]
  cases triple with
  | true =>
    have : 6 ≤ size := Nat.le_trans (by simp [quoted, delimiter]) hsize
    simp [this, delimiter]
  | false => simp [delimiter]

theorem splitQuoted?_quoted (hletters : ∀ c ∈ letters, (!isQuote c) = true)
    (hquote : isQuote quote = true)
    (hopens : [quote, quote, quote].isPrefixOf (quoted quote triple body) = triple) :
    splitQuoted? (letters ++ quoted quote triple body) = some (letters, body) := by
  have hwidth := width_eq hopens (Nat.le_refl _)
  have hbody : ((quoted quote triple body).drop (delimiter quote triple).length).take
      ((quoted quote triple body).length - 2 * (delimiter quote triple).length) = body := by
    have hlength : (quoted quote triple body).length - 2 * (delimiter quote triple).length =
        body.length := by
      simp only [quoted, length_append]
      omega
    rw [hlength, quoted, drop_left, take_left]
  obtain ⟨rest, hrest⟩ : ∃ rest, quoted quote triple body = quote :: rest := by
    cases triple <;> exact ⟨_, rfl⟩
  have hstop : ¬ (!isQuote quote) = true := by simp [hquote]
  rw [hrest] at hwidth hbody ⊢
  rw [splitQuoted?, takeWhile_append_of_pos hletters,
    takeWhile_cons_of_neg (p := (!isQuote ·)) hstop,
    dropWhile_append_of_pos hletters, dropWhile_cons_of_neg (p := (!isQuote ·)) hstop, append_nil]
  have hsame : [quote, quote].isPrefixOf rest =
      [quote, quote, quote].isPrefixOf (quote :: rest) := by
    simp [isPrefixOf]
  simp only [hsame, hwidth, hbody]

theorem splitQuoted?_inside (letters : List Char) (hquote : quote ∈ ['\'', '"'])
    (hletters : ∀ c ∈ letters, (!isQuote c) = true) (h : Token.Inside quote body) :
    splitQuoted? (letters ++ quote :: (body ++ [quote])) = some (letters, body) := by
  have hstops : quote ≠ '\\' ∧ isQuote quote = true := by
    clear h
    revert quote
    decide
  refine @splitQuoted?_quoted quote false letters body hletters hstops.2 ?_
  simpa [quoted, delimiter, isPrefixOf] using h.not_triple hstops.1
    (by simp : [].head? ≠ some quote)

theorem splitQuoted?_quotedBy {quote : Char} (hquote : quote ∈ ['\'', '"']) (s : String) :
    splitQuoted? (Token.quotedBy quote s).toList = some ([], escape quote s.toList) := by
  rw [Token.quotedBy, String.toList_ofList]
  exact splitQuoted?_inside [] hquote (forall_mem_nil _) (Token.inside_escape hquote s.toList)

theorem splitQuoted?_eq_none {text : List Char} (h : ∀ c ∈ text, (!isQuote c) = true) :
    splitQuoted? text = none := by
  have hdrop : (text ++ []).dropWhile (!isQuote ·) = [] := dropWhile_append_of_pos h
  rw [splitQuoted?, ← append_nil text, hdrop]

/-! ## Integers -/

theorem isDigit_of_mem_toDigits {n : Nat} (h : c ∈ Nat.toDigits 10 n) : Token.isDigit c = true := by
  have := Nat.isDigit_of_mem_toDigits (by decide) (by decide) h
  simpa [Token.isDigit, Char.isDigit, Char.le_def] using this

theorem toLower_of_isDigit (h : Token.isDigit c = true) : c.toLower = c := by
  simp only [Token.isDigit, Bool.and_eq_true, decide_eq_true_eq] at h
  have hnot : ¬ 'A' ≤ c := fun hA => absurd (Char.le_trans hA h.2) (by decide)
  exact dif_neg fun hA => hnot hA.1

theorem digitsFrom?_of_isDigit (h : ∀ c ∈ cs, Token.isDigit c = true) (acc : Nat) :
    Number.digitsFrom? 10 acc cs = some (Nat.ofDigitChars 10 cs acc) := by
  induction cs generalizing acc with
  | nil => rfl
  | cons c cs ih =>
    rw [forall_mem_cons] at h
    have hc : '0' ≤ c ∧ c ≤ '9' := by simpa [Token.isDigit] using h.1
    have hvalue : Number.digitValue? c = some (c.toNat - '0'.toNat) := by
      rw [Number.digitValue?, if_pos hc]
    have hlt : c.toNat - '0'.toNat < 10 := by
      have : c.toNat ≤ '9'.toNat := hc.2
      have : '9'.toNat = 57 := rfl
      have : '0'.toNat = 48 := rfl
      omega
    rw [Number.digitsFrom?, hvalue]
    simp only [Option.bind_eq_bind, Option.bind_some, if_pos hlt, ih h.2,
      Nat.ofDigitChars_cons, Nat.mul_comm]

theorem natural?_toDigits (n : Nat) : Number.natural? 10 (Nat.toDigits 10 n) = some n := by
  have hne : (Nat.toDigits 10 n).isEmpty = false := by simp [Nat.toDigits_ne_nil]
  rw [Number.natural?, hne, if_neg Bool.false_ne_true,
    digitsFrom?_of_isDigit fun c => isDigit_of_mem_toDigits, Nat.ofDigitChars_ten_toDigits]

theorem integer?_of_isDigit (h : ∀ c ∈ cs, Token.isDigit c = true) :
    Number.integer? 10 cs = (Number.natural? 10 cs).map Int.ofNat := by
  unfold Number.integer?
  split
  · exact absurd (h '-' (by simp)) (by decide)
  · exact absurd (h '+' (by simp)) (by decide)
  · rfl

theorem basePrefix?_of_isDigit (h : ∀ c ∈ cs, Token.isDigit c = true) : basePrefix? cs = none := by
  unfold basePrefix?
  split
  · exact absurd (h 'x' (by simp)) (by decide)
  · exact absurd (h 'o' (by simp)) (by decide)
  · exact absurd (h 'b' (by simp)) (by decide)
  · rfl

theorem word?_toInt (i : Int64) : Number.word? i.toInt = some i := by
  have hlow := i.le_toInt
  have hhigh := i.toInt_le
  have hmax : Int64.maxValue.toInt = Number.greatestInt := by decide
  have hmin : Number.leastInt = -2 ^ 63 := by decide
  rw [Number.word?, if_pos ⟨hmin ▸ hlow, hmax ▸ hhigh⟩, Int64.ofInt_toInt]

theorem number_toString {i : Int64} {n : Nat} (h : i.toInt = n) :
    number (Nat.repr n) = .ok (.int i) := by
  have hdigit : ∀ c ∈ Nat.toDigits 10 n, Token.isDigit c = true :=
    fun c => isDigit_of_mem_toDigits
  have hne (x : Char) (hx : Token.isDigit x = false) : x ∉ Nat.toDigits 10 n := by
    intro hmem
    simp [hdigit x hmem] at hx
  have hclean : Number.lowerAscii ((Nat.toDigits 10 n).filter (· ≠ '_')) = Nat.toDigits 10 n := by
    have hfilter : (Nat.toDigits 10 n).filter (· ≠ '_') = Nat.toDigits 10 n :=
      filter_eq_self.2 fun c hc => decide_eq_true fun hlow => hne '_' rfl (hlow ▸ hc)
    rw [hfilter, Number.lowerAscii, map_congr_left fun c hc =>
      toLower_of_isDigit (hdigit c hc), map_id']
  rw [number, Nat.toList_repr, hclean]
  simp [basePrefix?_of_isDigit hdigit, hne '.' rfl, hne 'e' rfl, integer?_of_isDigit hdigit,
    natural?_toDigits, ← h, word?_toInt]

theorem isQuote_of_isDigit (h : Token.isDigit c = true) : isQuote c = false := by
  refine Bool.eq_false_iff.2 fun hq => ?_
  simp only [isQuote, Bool.or_eq_true, beq_iff_eq] at hq
  rcases hq with rfl | rfl <;> exact absurd h (by decide)

theorem splitQuoted?_toDigits (n : Nat) : splitQuoted? (Nat.toDigits 10 n) = none :=
  splitQuoted?_eq_none fun c hc => by
    rw [isQuote_of_isDigit (isDigit_of_mem_toDigits hc), Bool.not_false]

end BlockScript.Program.Literal
