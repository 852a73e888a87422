import OrderManagement.BinaryFloats
import OrderManagement.DecimalNumerals

/-! Numbers written with a fixed count of decimals. The text is a numeral of the number
rounded to so many decimals, so a number that has no more is read back. -/

namespace DecimalNumerals

open BinaryFloats

def padded (width n : ℕ) : List Char := (Nat.toDigits 10 n).leftpad width '0'

def pointed (places n : ℕ) : List Char :=
  Nat.toDigits 10 (n / 10 ^ places) ++ '.' :: padded places (n % 10 ^ places)

/-- `format(value, ".{places}f")`, for some decimal places. -/
def fixedPoint (places : ℕ) (value : ℚ) : List Char :=
  (if value < 0 then ['-'] else []) ++ pointed places (halfEven (value * 10 ^ places)).natAbs

def Numeral (c : Char) : Prop := c.isDigit = true ∨ c = '-' ∨ c = '.'

/-- No character of a plain numeral is whitespace. -/
def Digits.Plain (u : Digits) : Prop := ∀ c, Numeral c → u.isSpace (codePoint c) = false

variable {places width n : ℕ}

theorem ofDigits_eq (digits : List Char) : ofDigits digits = Nat.ofDigitChars 10 digits 0 := rfl

theorem ofDigits_append (first second : List Char) :
    ofDigits (first ++ second) = 10 ^ second.length * ofDigits first + ofDigits second := by
  rw [ofDigits_eq, Nat.ofDigitChars_append, Nat.ofDigitChars_eq_ofDigitChars_zero]
  rfl

theorem isDigit_toDigits {c : Char} (mem : c ∈ Nat.toDigits 10 n) : c.isDigit = true :=
  Nat.isDigit_of_mem_toDigits (by decide) (by decide) mem

theorem isDigit_padded {c : Char} (mem : c ∈ padded width n) : c.isDigit = true := by
  rw [padded, List.leftpad, List.mem_append] at mem
  rcases mem with zero | digit
  · rw [List.eq_of_mem_replicate zero]
    rfl
  · exact isDigit_toDigits digit

theorem length_padded (some_ : 0 < width) (small : n < 10 ^ width) :
    (padded width n).length = width := by
  have short := (Nat.length_toDigits_le_iff (by decide) some_).2 small
  rw [padded, List.length_leftpad]
  exact max_eq_left short

theorem ofDigits_padded : ofDigits (padded width n) = n := by
  rw [padded, List.leftpad, ofDigits_append, ofDigits_eq (List.replicate _ _), ofDigits_eq,
    Nat.ofDigitChars_replicate_zero, Nat.ofDigitChars_ten_toDigits]
  simp

theorem span_append {p : Char → Bool} {first rest : List Char} (all : ∀ c ∈ first, p c = true)
    (stop : ∀ c ∈ rest.head?, p c = false) : (first ++ rest).span p = (first, rest) := by
  have taken : rest.takeWhile p = [] := by
    cases rest with
    | nil => rfl
    | cons c rest => simp [stop c rfl]
  have dropped : rest.dropWhile p = rest := by
    cases rest with
    | nil => rfl
    | cons c rest => simp [stop c rfl]
  rw [List.span_eq_takeWhile_dropWhile, List.takeWhile_append_of_pos all,
    List.dropWhile_append_of_pos all, taken, dropped, List.append_nil]

theorem coefficient_pointed (some_ : 0 < places) :
    coefficient (pointed places n) = some (n, -(places : ℤ)) := by
  have below : n % 10 ^ places < 10 ^ places := Nat.mod_lt _ (Nat.pow_pos (by decide))
  have whole : (pointed places n).span Char.isDigit =
      (Nat.toDigits 10 (n / 10 ^ places), '.' :: padded places (n % 10 ^ places)) :=
    span_append (fun _ => isDigit_toDigits) (by simp)
  have fraction : (padded places (n % 10 ^ places)).span Char.isDigit =
      (padded places (n % 10 ^ places), []) := by
    rw [← List.append_nil (padded places (n % 10 ^ places)), span_append fun _ => isDigit_padded]
    · rw [List.append_nil]
    · simp
  have units :
      ofDigits (Nat.toDigits 10 (n / 10 ^ places) ++ padded places (n % 10 ^ places)) = n := by
    rw [ofDigits_append, length_padded some_ below, ofDigits_padded, ofDigits_eq,
      Nat.ofDigitChars_ten_toDigits]
    exact Nat.div_add_mod n _
  simp only [coefficient, whole, fractionPart, fraction, Nat.toDigits_ne_nil, false_and, if_false,
    exponentPart, Option.map_some, units, length_padded some_ below, zero_sub]

theorem pointed_cons (places n : ℕ) :
    ∃ c rest, pointed places n = c :: rest ∧ c.isDigit = true := by
  cases eq : Nat.toDigits 10 (n / 10 ^ places) with
  | nil => exact absurd eq Nat.toDigits_ne_nil
  | cons c rest =>
    exact ⟨c, _, by rw [pointed, eq]; rfl, isDigit_toDigits (eq ▸ List.mem_cons_self)⟩

theorem mem_pointed {c : Char} (mem : c ∈ pointed places n) : c.isDigit = true ∨ c = '.' := by
  rw [pointed, List.mem_append, List.mem_cons] at mem
  rcases mem with digit | rfl | digit
  · exact Or.inl (isDigit_toDigits digit)
  · exact Or.inr rfl
  · exact Or.inl (isDigit_padded digit)

theorem ne_of_isDigit {c d : Char} (digit : c.isDigit = true) (other : d.isDigit = false) :
    c ≠ d := by
  rintro rfl
  simp [digit] at other

theorem toLower_of_isDigit {c : Char} (digit : c.isDigit = true) : c.toLower = c := by
  have small := (Char.isDigit_iff_toNat.1 digit).2
  refine dif_neg fun upper => ?_
  have large : 65 ≤ c.toNat := UInt32.le_iff_toNat_le.1 upper.1
  exact absurd (large.trans small) (by decide)

theorem ne_word {first word : List Char} {c d : Char} (starts : first.head? = some c)
    (digit : c.isDigit = true) (letter : word.head? = some d) (other : d.isDigit = false) :
    first ≠ word := by
  rintro rfl
  obtain rfl := Option.some.inj (starts.symm.trans letter)
  simp [digit] at other

theorem unsignedNumeral_pointed (some_ : 0 < places) (range : InRange n (-(places : ℤ)))
    (negative : Bool) : unsignedNumeral negative (pointed places n) =
      some (.finite ((if negative then -(n : ℚ) else n) * 10 ^ (-(places : ℤ)))) := by
  obtain ⟨c, rest, eq, digit⟩ := pointed_cons places n
  have word : (pointed places n).map Char.toLower = c :: rest.map Char.toLower := by
    rw [eq, List.map_cons, toLower_of_isDigit digit]
  have inf : c :: rest.map Char.toLower ≠ "inf".toList := ne_word rfl digit rfl rfl
  have infinity : c :: rest.map Char.toLower ≠ "infinity".toList := ne_word rfl digit rfl rfl
  have nan : (c :: rest.map Char.toLower).take 3 ≠ "nan".toList := ne_word rfl digit rfl rfl
  have snan : (c :: rest.map Char.toLower).take 4 ≠ "snan".toList := ne_word rfl digit rfl rfl
  simp only [unsignedNumeral, word, inf, infinity, nan, snan, or_self, false_and, if_false,
    coefficient_pointed some_, Option.bind_some, range, if_true]

theorem codePoint_val (c : Char) : (codePoint c).val = c.toNat := rfl

section Reading

variable {u : Digits} (plain : u.Plain)

theorem Numeral.bounds {c : Char} (h : Numeral c) : 45 ≤ c.toNat ∧ c.toNat ≤ 57 := by
  rcases h with digit | rfl | rfl
  · have range := Char.isDigit_iff_toNat.1 digit
    have low : '0'.toNat = 48 := rfl
    have high : '9'.toNat = 57 := rfl
    omega
  · decide
  · decide

theorem ascii_codePoint {c : Char} (numeral : Numeral c) : u.ascii (codePoint c) = some c := by
  have range := numeral.bounds
  rw [Digits.ascii, codePoint_val, if_pos ⟨by omega, by omega⟩, Char.ofNat_toNat]

include plain in
theorem numericAscii_codePoints {t : List Char} (numeral : ∀ c ∈ t, Numeral c) :
    u.numericAscii (t.map codePoint) = some t := by
  have from_ : ∀ c ∈ t.map codePoint, ∃ d, Numeral d ∧ codePoint d = c := fun c mem => by
    obtain ⟨d, there, rfl⟩ := List.mem_map.1 mem
    exact ⟨d, numeral d there, rfl⟩
  have visible : ∀ c ∈ t.map codePoint, u.isSpace c = false := by
    intro c mem
    obtain ⟨d, numeral, rfl⟩ := from_ c mem
    exact plain d numeral
  have front : (t.map codePoint).dropWhile u.isSpace = t.map codePoint := by
    cases eq : t.map codePoint with
    | nil => rfl
    | cons c rest => simp [visible c (eq ▸ List.mem_cons_self)]
  have back : (t.map codePoint).rdropWhile u.isSpace = t.map codePoint := by
    rw [List.rdropWhile_eq_self_iff]
    intro nonempty
    rw [visible _ (List.getLast_mem nonempty)]
    exact Bool.false_ne_true
  have kept : (t.map codePoint).filter (· ≠ codePoint '_') = t.map codePoint := by
    rw [List.filter_eq_self]
    intro c mem
    obtain ⟨d, numeral, rfl⟩ := from_ c mem
    have other : codePoint d ≠ codePoint '_' := fun same => by
      have value : d.toNat = 95 := congrArg Fin.val same
      have range := numeral.bounds
      omega
    exact decide_eq_true other
  have read : ∀ t : List Char, (∀ c ∈ t, Numeral c) → (t.map codePoint).mapM u.ascii = some t := by
    intro t
    induction t with
    | nil => exact fun _ => rfl
    | cons c t ih =>
      intro numeral
      rw [List.map_cons, List.mapM_cons, ascii_codePoint (numeral c List.mem_cons_self),
        ih fun d mem => numeral d (List.mem_cons_of_mem c mem)]
      rfl
  rw [Digits.numericAscii, front, back, kept, read t numeral]

theorem numeral_fixedPoint {value : ℚ} {c : Char} (mem : c ∈ fixedPoint places value) :
    Numeral c := by
  rw [fixedPoint, List.mem_append] at mem
  rcases mem with sign | digits
  · split_ifs at sign
    · exact Or.inr (Or.inl (List.mem_singleton.1 sign))
    · cases sign
  · exact (mem_pointed digits).imp_right Or.inr

theorem signed_fixedPoint (places : ℕ) (value : ℚ) : signed (fixedPoint places value) =
    (decide (value < 0), pointed places (halfEven (value * 10 ^ places)).natAbs) := by
  unfold fixedPoint
  split_ifs with negative
  · simp [signed, negative]
  · obtain ⟨c, rest, eq, digit⟩ := pointed_cons places (halfEven (value * 10 ^ places)).natAbs
    have minus : c ≠ '-' := ne_of_isDigit digit rfl
    have plus : c ≠ '+' := ne_of_isDigit digit rfl
    rw [List.nil_append, eq]
    unfold signed
    split <;> simp_all

theorem natAbs_halfEven (places : ℕ) (value : ℚ) :
    (if decide (value < 0) = true then -((halfEven (value * 10 ^ places)).natAbs : ℚ)
      else (halfEven (value * 10 ^ places)).natAbs) = halfEven (value * 10 ^ places) := by
  have scale : (0 : ℚ) < 10 ^ places := by positivity
  rw [Nat.cast_natAbs]
  by_cases negative : value < 0
  · have low : halfEven (value * 10 ^ places) ≤ 0 :=
      halfEven_le (by push_cast; exact (mul_neg_of_neg_of_pos negative scale).le)
    rw [if_pos (decide_eq_true negative), abs_of_nonpos low]
    push_cast
    ring
  · have high : 0 ≤ halfEven (value * 10 ^ places) :=
      le_halfEven (by push_cast; exact mul_nonneg (not_lt.1 negative) scale.le)
    rw [if_neg (by simpa using negative), abs_of_nonneg high]

include plain in
theorem ofText_fixedPoint (some_ : 0 < places) {value : ℚ}
    (range : InRange (halfEven (value * 10 ^ places)).natAbs (-(places : ℤ))) :
    u.ofText ((fixedPoint places value).map codePoint) =
      some (.finite (halfEven (value * 10 ^ places) / 10 ^ places)) := by
  rw [Digits.ofText, numericAscii_codePoints plain fun _ => numeral_fixedPoint, Option.bind_some,
    signed_fixedPoint]
  simp only [unsignedNumeral_pointed some_ range, natAbs_halfEven]
  rw [zpow_neg, zpow_natCast, div_eq_mul_inv]

include plain in
theorem ofText_fixedPoint_exact (some_ : 0 < places) {value : ℚ} {k : ℤ}
    (exact_ : value * 10 ^ places = k) (range : InRange k.natAbs (-(places : ℤ))) :
    u.ofText ((fixedPoint places value).map codePoint) = some (.finite value) := by
  have units : halfEven (value * 10 ^ places) = k := by rw [exact_, halfEven_intCast]
  have scale : (10 : ℚ) ^ places ≠ 0 := by positivity
  rw [ofText_fixedPoint plain some_ (by rwa [units]), units, ← exact_,
    mul_div_cancel_right₀ _ scale]

end Reading

end DecimalNumerals
