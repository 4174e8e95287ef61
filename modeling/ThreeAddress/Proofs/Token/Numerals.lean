import Mathlib.Algebra.Order.Field.Basic
import Mathlib.Data.Nat.Digits.Defs
import Mathlib.Tactic.Linarith
import Mathlib.Tactic.Ring
import ThreeAddress.Proofs.Token.Single

/-!
# The values of number literals

The kind of a number literal is decided by its exact value, however many digits it is written with
(`tokenize_numerals`).

* `wholeValue`, `fractionValue`: the values of digits before and behind a point, by their places;
* `digitsValue_append`: digits that are read one after the other have that value;
* `wholeNumber?_of_writes`, `exists_decimal_of_writes`: both forms of literals are read with their values;
* `numeralKind_whole`, `numeralKind_decimal`: so their kinds are decided by these;
* `roundsToInfinity_iff`: the limit of literals with a point is where they are nearer to the power of two behind all
  finite double-precision values than to any of these;
* `tokenize_numeral`, `kind_of_written`: a literal is one token, alone and in a source;
* `writes_of_mem_number`: the pattern of numbers has no texts but these, so none is invalid for its point.
-/

namespace ThreeAddress

/-! ### Values -/

/-- The digits of a text. -/
def digitsOf (text : List Char) : List Nat := text.map fun c => c.toNat - '0'.toNat

/-- The value of the digits before a point: the last counts as one, the one before it as ten, and so on. -/
def wholeValue (digits : List Char) : Nat := Nat.ofDigits 10 (digitsOf digits).reverse

/-- The value of the digits behind a point: the first counts as a tenth, the next as a hundredth, and so on. -/
def fractionValue (digits : List Char) : ℚ := Nat.ofDigits (1 / 10 : ℚ) (0 :: digitsOf digits)

private theorem wholeValue_cons (d : Char) (digits : List Char) :
    wholeValue (d :: digits) = wholeValue digits + 10 ^ digits.length * (d.toNat - '0'.toNat) := by
  rw [wholeValue, digitsOf, List.map_cons, Nat.ofDigits_reverse_cons, List.length_map]
  rfl

private theorem wholeValue_append (a b : List Char) :
    wholeValue (a ++ b) = wholeValue b + 10 ^ b.length * wholeValue a := by
  rw [wholeValue, digitsOf, List.map_append, List.reverse_append, Nat.ofDigits_append, List.length_reverse,
    List.length_map]
  rfl

/-- Reading digit by digit gives the value by places. -/
private theorem digitsValue_eq (digits : List Char) : digitsValue digits = wholeValue digits := by
  rw [digitsValue, wholeValue, Nat.ofDigits_eq_foldr, List.foldr_reverse, digitsOf, List.foldl_map]
  simp [Nat.add_comm]

private theorem fractionValue_cons (d : Char) (digits : List Char) :
    fractionValue (d :: digits) = ((d.toNat - '0'.toNat : Nat) + fractionValue digits) / 10 := by
  simp only [fractionValue, digitsOf, List.map_cons, Nat.ofDigits_eq_foldr, List.foldr_cons]
  push_cast
  ring

private theorem fractionValue_nonneg (digits : List Char) : 0 ≤ fractionValue digits := by
  induction digits with
  | nil => simp [fractionValue, digitsOf, Nat.ofDigits]
  | cons d digits ih =>
    rw [fractionValue_cons]
    positivity

private theorem fractionValue_mul_pow (digits : List Char) :
    fractionValue digits * 10 ^ digits.length = wholeValue digits := by
  induction digits with
  | nil => simp [fractionValue, wholeValue, digitsOf, Nat.ofDigits]
  | cons d digits ih =>
    rw [fractionValue_cons, wholeValue_cons, List.length_cons, Nat.cast_add, ← ih]
    push_cast
    ring

/-- The digits of both sides of a point make up a whole number: the value without its point. -/
theorem digitsValue_append (whole fraction : List Char) :
    (digitsValue (whole ++ fraction) : ℚ) = (wholeValue whole + fractionValue fraction) * 10 ^ fraction.length := by
  rw [digitsValue_eq, wholeValue_append, add_mul, fractionValue_mul_pow]
  push_cast
  ring

/-! ### The kinds of literals -/

/-- The sign in front of a literal. -/
def signText (negative : Bool) : List Char := if negative then ['-'] else []

/-- The number with that sign. -/
def signed {α : Type} [Neg α] (negative : Bool) (x : α) : α := if negative then -x else x

/-- The texts of whole numbers, with their values. -/
inductive WritesWhole : List Char → ℤ → Prop
  | intro (negative : Bool) {digits : List Char} (hne : digits ≠ []) (hdigits : ∀ d ∈ digits, d.isDigit) :
    WritesWhole (signText negative ++ digits) (signed negative (wholeValue digits))

/-- The texts of numbers with a point, with their values. -/
inductive WritesDecimal : List Char → ℚ → Prop
  | intro (negative : Bool) {whole fraction : List Char} (hne : whole ≠ []) (hwhole : ∀ d ∈ whole, d.isDigit)
    (hfraction : ∀ d ∈ fraction, d.isDigit) :
    WritesDecimal (signText negative ++ (whole ++ '.' :: fraction))
      (signed negative (wholeValue whole + fractionValue fraction))

/-- How a whole number is classified by its value. -/
structure WholeKind (text : List Char) (value : ℤ) (kind : Kind) : Prop where
  number : kind = .number ↔ -2 ^ 31 ≤ value ∧ value ≤ 2 ^ 31 - 1
  overflow : kind = .error (.integerOverflow (.ofList text)) ↔
    ¬ (-2 ^ 31 ≤ value ∧ value ≤ 2 ^ 31 - 1) ∧ -2 ^ 63 ≤ value ∧ value ≤ 2 ^ 63 - 1
  invalid : kind = .error (.invalidInteger (.ofList text)) ↔ ¬ (-2 ^ 63 ≤ value ∧ value ≤ 2 ^ 63 - 1)

/-- The finite double-precision values. -/
def IsFiniteDouble (y : ℚ) : Prop :=
  ∃ m e : ℤ, |m| < 2 ^ 53 ∧ -1074 ≤ e ∧ e ≤ 971 ∧ y = m * 2 ^ e

/-- The magnitude is not nearer to a finite double-precision value than to the power of two behind them all, which has
an even significand and so wins a tie. -/
def RoundsToInfinity (x : ℚ) : Prop := ∀ y, IsFiniteDouble y → |2 ^ 1024 - x| ≤ |y - x|

/-- How a number with a point is classified by its value. -/
structure DecimalKind (text : List Char) (value : ℚ) (kind : Kind) : Prop where
  overflow : kind = .error (.floatOverflow (.ofList text)) ↔ 2 ^ 1024 - 2 ^ 970 ≤ |value|
  number : kind = .number ↔ |value| < 2 ^ 1024 - 2 ^ 970
  rounding : kind = .error (.floatOverflow (.ofList text)) ↔ RoundsToInfinity |value|

private theorem fitsIn_iff (width : Nat) (value : ℤ) :
    fitsIn (width + 1) value ↔ -2 ^ width ≤ value ∧ value ≤ 2 ^ width - 1 := by
  have hbound : Int.ofNat (Nat.pow 2 width) = 2 ^ width := by
    rw [Int.ofNat_eq_natCast, Nat.pow_eq, Nat.cast_pow]
    rfl
  rw [fitsIn, Nat.add_sub_cancel, hbound, Bool.and_eq_true, decide_eq_true_eq, decide_eq_true_eq, Int.le_sub_one_iff]

/-- The sign of a literal is told from its digits. -/
private theorem splitSign_signText (negative : Bool) {digits : List Char} (hne : digits ≠ [])
    (hdigits : ∀ d ∈ digits, d.isDigit) (rest : List Char) :
    splitSign (signText negative ++ (digits ++ rest)) = (negative, digits ++ rest) := by
  obtain ⟨d, more, rfl⟩ := List.exists_cons_of_ne_nil hne
  have hd : d.isDigit := hdigits d List.mem_cons_self
  cases negative with
  | true => rfl
  | false =>
    have hminus : d ≠ '-' := by
      rintro rfl
      exact absurd hd (by decide)
    have hplus : d ≠ '+' := by
      rintro rfl
      exact absurd hd (by decide)
    simp [signText, splitSign, hminus, hplus]

/-- The text of a whole number is read with its value. -/
theorem wholeNumber?_of_writes {text : List Char} {value : ℤ} (h : WritesWhole text value) :
    wholeNumber? text = some value := by
  obtain @⟨negative, digits, hne, hdigits⟩ := h
  have hsplit := splitSign_signText negative hne hdigits []
  rw [List.append_nil] at hsplit
  have hall : digits.all Char.isDigit := List.all_eq_true.2 hdigits
  simp [wholeNumber?, hsplit, hne, hall, digitsValue_eq, signed]

private theorem WritesWhole.no_point {text : List Char} {value : ℤ} (h : WritesWhole text value) :
    text.contains '.' = false := by
  obtain @⟨negative, digits, hne, hdigits⟩ := h
  have hdigit : '.' ∉ digits := fun hmem => absurd (hdigits _ hmem) (by decide)
  cases negative <;> simpa [signText] using hdigit

/-- A whole number is classified by its value. -/
theorem numeralKind_whole {text : List Char} {value : ℤ} (h : WritesWhole text value) :
    WholeKind text value (numeralKind text) := by
  have hshort : fitsIn 32 value ↔ _ := fitsIn_iff 31 value
  have hlong : fitsIn 64 value ↔ _ := fitsIn_iff 63 value
  have hkind : numeralKind text = if fitsIn 64 value then
      if fitsIn 32 value then .number else .error (.integerOverflow (.ofList text))
      else .error (.invalidInteger (.ofList text)) := by
    simp only [numeralKind, numeralError?, h.no_point, wholeNumber?_of_writes h, Option.filter_some]
    split_ifs <;> simp_all
  rw [hkind]
  by_cases hwide : fitsIn 64 value
  · rw [if_pos hwide]
    by_cases hfits : fitsIn 32 value
    · rw [if_pos hfits]
      exact ⟨iff_of_true rfl (hshort.1 hfits), iff_of_false nofun fun h => h.1 (hshort.1 hfits),
        iff_of_false nofun fun h => h (hlong.1 hwide)⟩
    · have hover := hshort.not.1 hfits
      rw [if_neg hfits]
      exact ⟨iff_of_false nofun hover, iff_of_true rfl ⟨hover, hlong.1 hwide⟩,
        iff_of_false nofun fun h => h (hlong.1 hwide)⟩
  · have hbeyond := hlong.not.1 hwide
    rw [if_neg hwide]
    exact ⟨iff_of_false nofun (by omega), iff_of_false nofun fun h => hbeyond h.2, iff_of_true rfl hbeyond⟩

/-! ### The limit of numbers with a point -/

/-- The value of a decimal number without its sign. -/
def Decimal.magnitude (d : Decimal) : ℚ := d.digits * 10 ^ d.exponent

private theorem cast_doubleLimit : (doubleLimit : ℚ) = 2 ^ 1024 - 2 ^ 970 := by
  have hexponents : 970 ≤ 1024 := by decide
  rw [doubleLimit]
  -- the powers are too large to be worked out
  generalize 1024 = b at *
  generalize 970 = a at *
  have hle : 2 ^ a ≤ 2 ^ b := Nat.pow_le_pow_right Nat.two_pos hexponents
  rw [Nat.pow_eq, Nat.pow_eq, Nat.cast_sub hle, Nat.cast_pow, Nat.cast_pow, Nat.cast_ofNat]

private theorem mul_zpow_le {p q : Nat} {m e : ℤ} (hm : |m| < 2 ^ p) (he : e ≤ q) :
    (m : ℚ) * 2 ^ e ≤ (2 ^ p - 1) * 2 ^ q := by
  have hsignificand : (m : ℚ) ≤ 2 ^ p - 1 := by
    have hle : m ≤ 2 ^ p - 1 := Int.le_sub_one_of_lt ((le_abs_self m).trans_lt hm)
    exact_mod_cast hle
  have hnonneg : (0 : ℚ) ≤ 2 ^ p - 1 := sub_nonneg.2 (one_le_pow₀ one_le_two)
  have hpower : (2 : ℚ) ^ e ≤ 2 ^ q := by
    rw [← zpow_natCast]
    exact zpow_le_zpow_right₀ one_le_two he
  calc (m : ℚ) * 2 ^ e ≤ (2 ^ p - 1) * 2 ^ e := mul_le_mul_of_nonneg_right hsignificand (zpow_nonneg zero_le_two e)
    _ ≤ (2 ^ p - 1) * 2 ^ q := mul_le_mul_of_nonneg_left hpower hnonneg

/-- No finite double-precision value is beyond the largest one, which is as far below the limit as the power of two
behind it is above. -/
private theorem IsFiniteDouble.le_largest {y : ℚ} (h : IsFiniteDouble y) : y ≤ 2 ^ 1024 - 2 * 2 ^ 970 := by
  obtain ⟨m, e, hm, -, he, rfl⟩ := h
  have hle := mul_zpow_le hm he
  rwa [sub_mul, one_mul, ← pow_add, pow_succ' 2 970] at hle

private theorem isFiniteDouble_largest : IsFiniteDouble (2 ^ 1024 - 2 * 2 ^ 970) := by
  refine ⟨2 ^ 53 - 1, 971, by decide, by decide, by decide, ?_⟩
  rw [Int.cast_sub, Int.cast_pow, Int.cast_ofNat, Int.cast_one, zpow_ofNat, sub_mul, one_mul, ← pow_add,
    pow_succ' 2 970]

/-- A value rounds to infinity from the middle between the largest finite double-precision value and the power of two
behind it on. -/
theorem roundsToInfinity_iff (x : ℚ) : RoundsToInfinity x ↔ 2 ^ 1024 - 2 ^ 970 ≤ x := by
  have hpos : (0 : ℚ) < 2 ^ 970 := pow_pos two_pos 970
  constructor
  · intro h
    have hnear := h _ isFiniteDouble_largest
    generalize (2 : ℚ) ^ 1024 = top at *
    generalize (2 : ℚ) ^ 970 = half at *
    by_contra hbelow
    rw [not_le] at hbelow
    -- below the middle, the largest value is nearer
    have hless : |top - 2 * half - x| < top - x := abs_lt.2 ⟨by linarith, by linarith⟩
    have hself := le_abs_self (top - x)
    linarith
  · intro h y hy
    have hlargest := hy.le_largest
    generalize (2 : ℚ) ^ 1024 = top at *
    generalize (2 : ℚ) ^ 970 = half at *
    calc |top - x| ≤ x - y := abs_le.2 ⟨by linarith, by linarith⟩
      _ = -(y - x) := (neg_sub y x).symm
      _ ≤ |y - x| := neg_le_abs (y - x)

/-- A decimal number is infinite exactly if its value is not below the limit. -/
private theorem Decimal.isInfinite_iff (d : Decimal) : d.isInfinite ↔ 2 ^ 1024 - 2 ^ 970 ≤ d.magnitude := by
  -- the exponent is the difference of two powers, of which one is 0
  have hpower : (10 : ℚ) ^ d.exponent = 10 ^ d.exponent.toNat / 10 ^ (-d.exponent).toNat := by
    rw [← zpow_natCast, ← zpow_natCast, ← zpow_sub₀ (by norm_num), Int.toNat_sub_toNat_neg]
  rw [isInfinite, decide_eq_true_eq, magnitude, hpower, mul_div_assoc', le_div_iff₀ (pow_pos (by norm_num) _),
    ← cast_doubleLimit, ← @Nat.cast_le ℚ, Nat.cast_mul, Nat.cast_mul, Nat.pow_eq, Nat.pow_eq, Nat.cast_pow,
    Nat.cast_pow, Nat.cast_ofNat]

private theorem abs_signed (negative : Bool) {x : ℚ} (hx : 0 ≤ x) : |signed negative x| = x := by
  cases negative with
  | false => exact abs_of_nonneg hx
  | true => exact (abs_neg x).trans (abs_of_nonneg hx)

private theorem Decimal.ofText?_sign (negative : Bool) {whole fraction : List Char} (hne : whole ≠ [])
    (hwhole : ∀ d ∈ whole, d.isDigit) (hfraction : ∀ d ∈ fraction, d.isDigit) :
    Decimal.ofText? (signText negative ++ (whole ++ '.' :: fraction)) =
      some ⟨negative, digitsValue (whole ++ fraction), -fraction.length⟩ := by
  have htake : (whole ++ '.' :: fraction).takeWhile Char.isDigit = whole := by
    rw [List.takeWhile_append_of_pos hwhole]
    simp
  have hdrop : (whole ++ '.' :: fraction).dropWhile Char.isDigit = '.' :: fraction := by
    rw [List.dropWhile_append_of_pos hwhole]
    rfl
  have hsplit : splitFraction ('.' :: fraction) = (fraction, []) := by
    rw [splitFraction, List.takeWhile_eq_self_iff.2 hfraction, List.dropWhile_eq_nil_iff.2 hfraction]
  simp [Decimal.ofText?, splitSign_signText negative hne hwhole, htake, hdrop, hsplit, hne, exponent?]

/-- The text of a number with a point is read with its value. -/
theorem exists_decimal_of_writes {text : List Char} {value : ℚ} (h : WritesDecimal text value) :
    ∃ d, Decimal.ofText? text = some d ∧ d.magnitude = |value| := by
  obtain @⟨negative, whole, fraction, hne, hwhole, hfraction⟩ := h
  have hnonneg : 0 ≤ (wholeValue whole : ℚ) + fractionValue fraction :=
    add_nonneg (Nat.cast_nonneg _) (fractionValue_nonneg fraction)
  refine ⟨_, Decimal.ofText?_sign negative hne hwhole hfraction, ?_⟩
  rw [Decimal.magnitude, digitsValue_append, abs_signed negative hnonneg, zpow_neg, zpow_natCast,
    mul_inv_cancel_right₀ (pow_ne_zero _ (by norm_num))]

private theorem WritesDecimal.has_point {text : List Char} {value : ℚ} (h : WritesDecimal text value) :
    text.contains '.' := by
  obtain @⟨negative, whole, fraction, hne, hwhole, hfraction⟩ := h
  simp

/-- A number with a point is classified by its value. -/
theorem numeralKind_decimal {text : List Char} {value : ℚ} (h : WritesDecimal text value) :
    DecimalKind text value (numeralKind text) := by
  have hlimit : numeralKind text = if 2 ^ 1024 - 2 ^ 970 ≤ |value| then .error (.floatOverflow (.ofList text))
      else .number := by
    obtain ⟨d, hread, hvalue⟩ := exists_decimal_of_writes h
    have hiff := d.isInfinite_iff
    rw [hvalue] at hiff
    simp only [numeralKind, numeralError?, h.has_point, hread, hiff, if_true]
    split_ifs <;> rfl
  have hover : numeralKind text = .error (.floatOverflow (.ofList text)) ↔ 2 ^ 1024 - 2 ^ 970 ≤ |value| := by
    rw [hlimit]
    split_ifs with hle
    · exact iff_of_true rfl hle
    · exact iff_of_false nofun hle
  refine ⟨hover, ?_, hover.trans (roundsToInfinity_iff |value|).symm⟩
  rw [hlimit, ← not_le]
  split_ifs with hle
  · exact iff_of_false nofun (not_not_intro hle)
  · exact iff_of_true rfl hle

/-! ### Literals as tokens -/

private theorem isSign_signText (negative : Bool) : IsSign (signText negative) := by
  cases negative with
  | false => exact Or.inl rfl
  | true => exact Or.inr rfl

theorem WritesWhole.number {text : List Char} {value : ℤ} (h : WritesWhole text value) :
    text ∈ Pattern.number.language := by
  obtain @⟨negative, digits, hne, hdigits⟩ := h
  obtain ⟨d, more, rfl⟩ := List.exists_cons_of_ne_nil hne
  obtain ⟨hd, hmore⟩ := List.forall_mem_cons.1 hdigits
  exact mem_number.2
    ⟨signText negative, d, more, [], by simp, isSign_signText negative, hd, hmore, Or.inl rfl⟩

theorem WritesDecimal.number {text : List Char} {value : ℚ} (h : WritesDecimal text value) :
    text ∈ Pattern.number.language := by
  obtain @⟨negative, whole, fraction, hne, hwhole, hfraction⟩ := h
  obtain ⟨d, more, rfl⟩ := List.exists_cons_of_ne_nil hne
  obtain ⟨hd, hmore⟩ := List.forall_mem_cons.1 hwhole
  exact mem_number.2
    ⟨signText negative, d, more, '.' :: fraction, by simp, isSign_signText negative, hd, hmore,
      Or.inr ⟨fraction, rfl, hfraction⟩⟩

/-- Where a number begins, the first piece is a number. -/
private theorem Piece.front_numeral {c : Char} {rest : List Char} (hc : beginsNumeral c rest) :
    Piece.front c rest = ⟨some (numeralKind (c :: numeralRest rest)), c, numeralRest rest⟩ := by
  have hfirst : c.isDigit ∨ c = '-' := by
    rw [beginsNumeral, Bool.or_eq_true, Bool.and_eq_true, decide_eq_true_eq] at hc
    exact hc.imp_right And.left
  have hplain : ¬ isWhiteSpace c ∧ c ≠ '/' ∧ ¬ isLetter c := by
    have hall : ∀ n < 0x80, (Char.ofNat n).isDigit ∨ Char.ofNat n = '-' →
        ¬ isWhiteSpace (Char.ofNat n) ∧ Char.ofNat n ≠ '/' ∧ ¬ isLetter (Char.ofNat n) := by decide +kernel
    have hascii : c.toNat < 0x80 := by
      rcases hfirst with hdigit | rfl
      · simp only [Char.isDigit, Bool.and_eq_true, decide_eq_true_eq] at hdigit
        have hhigh : c.toNat ≤ 57 := UInt32.le_iff_toNat_le.1 hdigit.2
        omega
      · decide
    have hchar := hall c.toNat hascii
    rw [Char.ofNat_toNat] at hchar
    exact hchar hfirst
  obtain ⟨hblank, hslash, hletter⟩ := hplain
  rw [Piece.front, if_neg hblank, if_neg (by simp [hslash]), if_neg (by simp [hslash]), if_neg hletter,
    ← beginsNumeral, if_pos hc]

/-- The text of a number begins one, whatever is behind it, and is all of it. -/
private theorem exists_beginsNumeral {text : List Char} (h : text ∈ Pattern.number.language) :
    ∃ c more, text = c :: more ∧ numeralRest more = more ∧ ∀ rest, beginsNumeral c (more ++ rest) := by
  have hself : ∀ {digits fraction : List Char}, (∀ d ∈ digits, d.isDigit) → IsFraction fraction →
      numeralRest (digits ++ fraction) = digits ++ fraction := by
    intro digits fraction hdigits hfraction
    have hfront : numeralRest (digits ++ fraction) <+: digits ++ fraction := numeralRest_prefix _
    exact hfront.eq_of_length_le (length_le_numeralRest List.prefix_rfl hdigits hfraction)
  obtain ⟨sign, d, digits, fraction, rfl, rfl | rfl, hd, hdigits, hfraction⟩ := mem_number.1 h
  · exact ⟨d, digits ++ fraction, rfl, hself hdigits hfraction, fun rest => by simp [beginsNumeral, hd]⟩
  · exact ⟨'-', d :: digits ++ fraction, rfl, hself (List.forall_mem_cons.2 ⟨hd, hdigits⟩) hfraction,
      fun rest => by simp [beginsNumeral, hd]⟩

private theorem numeralKind_ne_string (text : List Char) : numeralKind text ≠ .string := by
  rcases numeralKind_eq text with hkind | ⟨cause, hkind⟩ <;> simp [hkind]

/-- The text of a number is one token. -/
theorem tokenize_numeral {text : List Char} (h : text ∈ Pattern.number.language) :
    tokenize (.ofList text) = [⟨numeralKind text, .ofList text, 1, ⟨0, byteLength text⟩⟩,
      ⟨.endOfInput, "", 1, ⟨byteLength text, byteLength text⟩⟩] := by
  have hline : newlines text = 0 := by
    rw [newlines, List.count_eq_zero]
    intro hmem
    cases Pattern.eq_string_of_newline_mem h hmem
  obtain ⟨c, more, rfl, hmore, hbegins⟩ := exists_beginsNumeral h
  have hfront := Piece.front_numeral (hbegins [])
  rw [List.append_nil, hmore] at hfront
  have hpieces : pieces (c :: more) = [⟨some (numeralKind (c :: more)), c, more⟩] := by
    rw [pieces, hfront, List.drop_length, pieces]
  rw [tokenize, String.toList_ofList, hpieces]
  simp [locate, Piece.tokenAt, Piece.lexeme, Piece.text, numeralKind_ne_string, Token.endAt, Place.past, hline]

/-- A token that is written as a number has the kind of that number, wherever it stands. -/
theorem kind_of_written {source : String} {t : Token} (ht : t ∈ tokenize source)
    (h : t.written ∈ Pattern.number.language) : t.kind = numeralKind t.written := by
  obtain ⟨c, more, hwritten, hmore, hbegins⟩ := exists_beginsNumeral h
  have hend : t.kind ≠ .endOfInput := by
    intro hkind
    obtain ⟨front, line, htokens, hfront⟩ := (laid_tokenize source).ends (List.nil_append _)
    rw [htokens, List.mem_append, List.mem_singleton] at ht
    rcases ht with ht | rfl
    · exact hfront t ht hkind
    · cases hwritten
  obtain ⟨before, p, after, hpieces, hp, htoken⟩ := exists_piece_of_mem_locate ht hend
  obtain ⟨d, rest, rfl, -⟩ := exists_front before hpieces
  have htext : t.written = (Piece.front d rest).text := by
    rw [htoken]
    exact Piece.written_tokenAt _ hp
  rw [htext, Piece.text, Piece.front_first, List.cons.injEq] at hwritten
  obtain ⟨rfl, hfront⟩ := hwritten
  have hnumeral : beginsNumeral d rest := by
    obtain ⟨behind, hrest⟩ := Piece.front_more_prefix d rest
    rw [hfront] at hrest
    rw [← hrest]
    exact hbegins behind
  rw [Piece.front_numeral hnumeral] at hp htext
  rw [htext]
  exact (Option.some.inj hp).symm

/-- The texts that match the pattern of numbers are those of whole numbers and of numbers with a point. -/
theorem writes_of_mem_number {text : List Char} (h : text ∈ Pattern.number.language) :
    (∃ value, WritesWhole text value) ∨ ∃ value, WritesDecimal text value := by
  obtain ⟨sign, d, digits, fraction, rfl, hsign, hd, hdigits, hfraction⟩ := mem_number.1 h
  obtain ⟨negative, rfl⟩ : ∃ negative, sign = signText negative := by
    rcases hsign with rfl | rfl
    · exact ⟨false, rfl⟩
    · exact ⟨true, rfl⟩
  have hall : ∀ e ∈ d :: digits, e.isDigit := List.forall_mem_cons.2 ⟨hd, hdigits⟩
  have hne : d :: digits ≠ [] := List.cons_ne_nil d digits
  rcases hfraction with rfl | ⟨more, rfl, hmore⟩
  · rw [List.append_nil]
    exact Or.inl ⟨_, .intro negative hne hall⟩
  · rw [← List.cons_append]
    exact Or.inr ⟨_, .intro negative hne hall hmore⟩

/-- A text that matches the pattern of numbers can be read, with a point or without one. -/
private theorem numeralKind_ne_invalidFloat {text : List Char} (h : text ∈ Pattern.number.language) (name : String) :
    numeralKind text ≠ .error (.invalidFloat name) := by
  rcases writes_of_mem_number h with ⟨value, hwhole⟩ | ⟨value, hdecimal⟩
  · have hkind := numeralKind_whole hwhole
    by_cases hlong : -2 ^ 63 ≤ value ∧ value ≤ 2 ^ 63 - 1
    · by_cases hshort : -2 ^ 31 ≤ value ∧ value ≤ 2 ^ 31 - 1
      · rw [hkind.number.2 hshort]
        nofun
      · rw [hkind.overflow.2 ⟨hshort, hlong⟩]
        nofun
    · rw [hkind.invalid.2 hlong]
      nofun
  · have hkind := numeralKind_decimal hdecimal
    rcases le_or_gt (2 ^ 1024 - 2 ^ 970) |value| with hle | hlt
    · rw [hkind.overflow.2 hle]
      nofun
    · rw [hkind.number.2 hlt]
      nofun

-- only the pattern keeps such texts out
example : numeralKind ['1', '.', '2', '.', '3'] = .error (.invalidFloat "1.2.3") := by decide +kernel

/-- What is chosen as a number matches the pattern of numbers, and nothing else can have a point that is out of
place. -/
private theorem Scans.kind_ne_invalidFloat {after text : List Char} {kind : Kind} (h : Scans after text (some kind))
    (name : String) : kind ≠ .error (.invalidFloat name) := by
  generalize hkind? : some kind = kind? at h
  cases h with
  | @matched w text pattern hlongest hpattern htext =>
    cases pattern with
    | number =>
      obtain rfl := Option.some.inj hkind?
      exact numeralKind_ne_invalidFloat hpattern.mem name
    | string =>
      obtain rfl := Option.some.inj hkind?
      split <;> nofun
    | comment => cases hkind?
    | _ =>
      obtain rfl := Option.some.inj hkind?
      nofun
  | unmatched hnone =>
    obtain rfl := Option.some.inj hkind?
    nofun

private theorem kind_ne_invalidFloat {source : String} {t : Token} (ht : t ∈ tokenize source) (name : String) :
    t.kind ≠ .error (.invalidFloat name) := by
  by_cases hend : t.kind = .endOfInput
  · rw [hend]
    nofun
  · obtain ⟨before, after, -, -, hscans⟩ := scans_token ht hend
    exact hscans.kind_ne_invalidFloat name

/-- The text alone is one token of such a kind, and so is every token that is written like it. -/
structure ReadsAs (text : List Char) (P : Kind → Prop) : Prop where
  alone : ∃ kind, P kind ∧ tokenize (.ofList text) = [⟨kind, .ofList text, 1, ⟨0, byteLength text⟩⟩,
    ⟨.endOfInput, "", 1, ⟨byteLength text, byteLength text⟩⟩]
  written : ∀ source, ∀ t ∈ tokenize source, t.written = text → P t.kind

private theorem readsAs_of_mem_number {text : List Char} (h : text ∈ Pattern.number.language) {P : Kind → Prop}
    (hP : P (numeralKind text)) : ReadsAs text P := by
  refine ⟨⟨_, hP, tokenize_numeral h⟩, ?_⟩
  rintro source t ht rfl
  rwa [kind_of_written ht h]

/-- Number literals are classified by their exact values, and none with a point is invalid. -/
theorem tokenize_numerals :
    (∀ text value, WritesWhole text value → ReadsAs text (WholeKind text value)) ∧
      (∀ text value, WritesDecimal text value → ReadsAs text (DecimalKind text value)) ∧
      ∀ source, ∀ t ∈ tokenize source, ∀ text, t.kind ≠ .error (.invalidFloat text) := by
  refine ⟨?_, ?_, ?_⟩
  · intro text value h
    exact readsAs_of_mem_number h.number (numeralKind_whole h)
  · intro text value h
    exact readsAs_of_mem_number h.number (numeralKind_decimal h)
  · intro source t ht text
    exact kind_ne_invalidFloat ht text

/-- The least whole number of 32 bits with zeros in front, and a number with a point and no digits behind it. -/
theorem tokenize_numerals_least :
    WritesWhole "-002147483648".toList (-2147483648) ∧ WritesDecimal "-7.".toList (-7) ∧
      tokenize "-002147483648" =
        [⟨.number, "-002147483648", 1, ⟨0, 13⟩⟩, ⟨.endOfInput, "", 1, ⟨13, 13⟩⟩] ∧
      tokenize "-7." = [⟨.number, "-7.", 1, ⟨0, 3⟩⟩, ⟨.endOfInput, "", 1, ⟨3, 3⟩⟩] := by
  have hwhole : WritesWhole "-002147483648".toList (-2147483648) :=
    @WritesWhole.intro true "002147483648".toList (by simp) (by simp)
  have hdecimal : WritesDecimal "-7.".toList (-7) := by
    have hvalue := @WritesDecimal.intro true ['7'] [] (by simp) (by simp) (by simp)
    have hseven : signed true ((wholeValue ['7'] : ℚ) + fractionValue []) = -7 := by
      simp [signed, wholeValue, fractionValue, digitsOf, Nat.ofDigits]
    rwa [hseven] at hvalue
  refine ⟨hwhole, hdecimal, ?_, ?_⟩
  · obtain ⟨kind, hkind, htokens⟩ := (tokenize_numerals.1 _ _ hwhole).alone
    rw [hkind.number.2 (by decide)] at htokens
    exact htokens
  · obtain ⟨kind, hkind, htokens⟩ := (tokenize_numerals.2.1 _ _ hdecimal).alone
    have hbelow : |(-7 : ℚ)| < 2 ^ 1024 - 2 ^ 970 := by
      have hpow : ∀ {a b : Nat}, a ≤ b → (2 : ℚ) ^ a ≤ 2 ^ b := fun h => pow_le_pow_right₀ one_le_two h
      calc |(-7 : ℚ)| < 2 ^ 3 := by rw [abs_neg]; norm_num
        _ ≤ 2 ^ 970 := hpow (by decide)
        _ ≤ 2 ^ 1024 - 2 ^ 970 := by
          rw [le_sub_iff_add_le, ← two_mul, ← pow_succ']
          exact hpow (by decide)
    rw [hkind.number.2 hbelow] at htokens
    exact htokens

end ThreeAddress
