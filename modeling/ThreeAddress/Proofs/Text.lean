import ThreeAddress.Text

/-!
# Bytes of a text

The byte positions of a text against the bytes of its UTF-8 form, and lines and numbers in a text.

* `count_take_toUTF8`: the bytes that end lines before a position are the line ends before it, so no byte of a longer
  form is taken for one;
* `splitAtByte?_append`, `slice?_append`: a text is cut between any two of its parts;
* `splitOn_linesText`: a text determines its lines;
* `head?_utf8EncodeChar_eq_iff`: a block holds the characters whose forms begin with one byte;
* `repr_append_inj`: a number ends where no digit follows.
-/

namespace ThreeAddress

private theorem count_utf8EncodeChar (c : Char) :
    (String.utf8EncodeChar c).count 10 = if c = '\n' then 1 else 0 := by
  have hbyte : ∀ n < 256, (UInt8.ofNat n == 10) = decide (n = 10) := by
    intro n hn
    rw [Bool.eq_iff_iff, beq_iff_eq, decide_eq_true_eq, ← UInt8.toNat_inj, UInt8.toNat_ofNat_of_lt' hn]
    rfl
  -- all bytes of a longer form are beyond those of ASCII
  have hhigh : ∀ n, 128 ≤ n → n < 256 → (UInt8.ofNat n == 10) = false := by
    intro n hlow hn
    rw [hbyte n hn, decide_eq_false (by omega)]
  have hnewline : c = '\n' ↔ c.val.toNat = 10 := by
    constructor
    · rintro rfl
      rfl
    · intro h
      exact Char.ext (UInt32.toNat_inj.1 h)
  rw [String.utf8EncodeChar]
  split
  · simp only [List.count_cons, List.count_nil, hbyte _ (show c.val.toNat < 256 by omega), hnewline,
      decide_eq_true_eq, Nat.zero_add]
  · have hne : c ≠ '\n' := by
      rw [Ne, hnewline]
      omega
    rw [if_neg hne]
    split
    · simp (disch := omega) only [List.count_cons, List.count_nil, hhigh, Bool.false_eq_true, if_false]
    split
    · simp (disch := omega) only [List.count_cons, List.count_nil, hhigh, Bool.false_eq_true, if_false]
    · simp (disch := omega) only [List.count_cons, List.count_nil, hhigh, Bool.false_eq_true, if_false]

theorem count_flatMap_utf8EncodeChar (text : List Char) :
    (text.flatMap String.utf8EncodeChar).count 10 = newlines text := by
  induction text with
  | nil => rfl
  | cons c text ih =>
    rw [List.flatMap_cons, List.count_append, count_utf8EncodeChar, ih, newlines, newlines, List.count_cons]
    simp [Nat.add_comm]

private theorem length_flatMap_utf8EncodeChar (text : List Char) :
    (text.flatMap String.utf8EncodeChar).length = byteLength text := by
  induction text with
  | nil => rfl
  | cons c text ih => rw [List.flatMap_cons, List.length_append, String.length_utf8EncodeChar, ih, byteLength_cons]

theorem toUTF8_eq_flatMap (source : String) :
    source.toUTF8.data.toList = source.toList.flatMap String.utf8EncodeChar := by
  rw [String.toUTF8_eq_toByteArray, ← String.utf8Encode_toList, List.utf8Encode, List.data_toByteArray]

/-- The bytes of a text that end lines, up to the end of one of its beginnings. -/
theorem count_take_toUTF8 {source : String} {before after : List Char} (h : source.toList = before ++ after) :
    (source.toUTF8.data.toList.take (byteLength before)).count 10 = newlines before := by
  rw [toUTF8_eq_flatMap, h, List.flatMap_append, ← length_flatMap_utf8EncodeChar, List.take_left,
    count_flatMap_utf8EncodeChar]

theorem byteLength_pos {text : List Char} (h : text ≠ []) : 0 < byteLength text := by
  obtain ⟨c, more, rfl⟩ := List.exists_cons_of_ne_nil h
  have hpos := c.utf8Size_pos
  rw [byteLength_cons]
  omega

theorem byteLength_toList (s : String) : byteLength s.toList = s.utf8ByteSize := by
  have hlist : ∀ text : List Char, byteLength text = (String.ofList text).utf8ByteSize := by
    intro text
    induction text with
    | nil => simp
    | cons c text ih =>
      rw [byteLength_cons, ih, String.ofList_cons, String.utf8ByteSize_append, String.utf8ByteSize_singleton]
  rw [hlist, String.ofList_toList]

/-- A text is cut behind any of its beginnings. -/
theorem splitAtByte?_append (before after : List Char) :
    splitAtByte? (byteLength before) (before ++ after) = some (before, after) := by
  induction before with
  | nil => cases after <;> rfl
  | cons c before ih =>
    have hpos := c.utf8Size_pos
    rw [byteLength_cons]
    obtain ⟨n, hn⟩ : ∃ n, c.utf8Size + byteLength before = n + 1 := ⟨_, (Nat.succ_pred (by omega)).symm⟩
    have hrest : n + 1 - c.utf8Size = byteLength before := by omega
    rw [hn, List.cons_append, splitAtByte?, if_pos (by omega), hrest, ih]
    rfl

theorem slice?_append (before inside after : List Char) :
    slice? (before ++ (inside ++ after)) (byteLength before) (byteLength (before ++ inside)) = some inside := by
  have hle : byteLength before ≤ byteLength (before ++ inside) := by
    rw [byteLength_append]
    omega
  rw [slice?, if_pos hle, splitAtByte?_append]
  simp [splitAtByte?_append]

/-! ### Lines of a text -/

/-- The text of lines, each with the end of a line behind it. -/
def linesText (lines : List String) : String := String.join (lines.map (· ++ "\n"))

private theorem toList_linesText_cons (line : String) (lines : List String) :
    (linesText (line :: lines)).toList = line.toList ++ '\n' :: (linesText lines).toList := by
  simp [linesText]

/-- The lines are what the text falls into when it is cut at its line ends, and nothing is behind the last. -/
theorem splitOn_linesText {lines : List String} (h : ∀ line ∈ lines, '\n' ∉ line.toList) :
    (linesText lines).toList.splitOn '\n' = lines.map String.toList ++ [[]] := by
  induction lines with
  | nil => rfl
  | cons line lines ih =>
    rw [List.forall_mem_cons] at h
    rw [toList_linesText_cons, List.splitOn_append_cons_self_of_not_mem h.1, ih h.2, List.map_cons, List.cons_append]

/-! ### The first byte of a character -/

/-- The first byte of the UTF-8 form of a code point. -/
private def leadByte (n : Nat) : Nat :=
  if n < 0x80 then n
  else if n < 0x800 then 0xc0 + n / 0x40
  else if n < 0x10000 then 0xe0 + n / 0x1000
  else 0xf0 + n / 0x40000

private theorem char_toNat_lt (c : Char) : c.toNat < 0x110000 := by
  have hvalid : c.toNat < 0xd800 ∨ 0xdfff < c.toNat ∧ c.toNat < 0x110000 := c.valid
  omega

private theorem head?_utf8EncodeChar (c : Char) :
    (String.utf8EncodeChar c).head? = some (UInt8.ofNat (leadByte c.toNat)) := by
  have hlt := char_toNat_lt c
  have hsame : c.val.toNat = c.toNat := rfl
  unfold String.utf8EncodeChar leadByte
  simp only [hsame]
  by_cases h1 : c.toNat < 0x80
  · rw [if_pos (by omega), if_pos h1]
    rfl
  by_cases h2 : c.toNat < 0x800
  · rw [if_neg (by omega), if_pos (by omega), if_neg h1, if_pos h2, List.head?_cons]
    congr 2
    omega
  by_cases h3 : c.toNat < 0x10000
  · rw [if_neg (by omega), if_neg (by omega), if_pos (by omega), if_neg h1, if_neg h2, if_pos h3, List.head?_cons]
    congr 2
    omega
  · rw [if_neg (by omega), if_neg (by omega), if_neg (by omega), if_neg h1, if_neg h2, if_neg h3, List.head?_cons]
    congr 2
    omega

/-- The forms of two characters begin with the same byte exactly if one is in the block of the other. -/
theorem head?_utf8EncodeChar_eq_iff (c d : Char) :
    (String.utf8EncodeChar d).head? = (String.utf8EncodeChar c).head? ↔
      (leadBlock c).1 ≤ d.toNat ∧ d.toNat ≤ (leadBlock c).2 := by
  have hc := char_toNat_lt c
  have hd := char_toNat_lt d
  have hbyte : ∀ m n, m < 0x100 → n < 0x100 → (UInt8.ofNat m = UInt8.ofNat n ↔ m = n) := by
    intro m n hm hn
    rw [← UInt8.toNat_inj, UInt8.toNat_ofNat_of_lt' hm, UInt8.toNat_ofNat_of_lt' hn]
  have hsmall : ∀ n < 0x110000, leadByte n < 0x100 := by
    intro n hn
    unfold leadByte
    repeat' split
    all_goals omega
  rw [head?_utf8EncodeChar, head?_utf8EncodeChar, Option.some.injEq, hbyte _ _ (hsmall _ hd) (hsmall _ hc)]
  -- characters with forms of different lengths are in different blocks
  simp only [leadByte, leadBlock]
  repeat' split
  all_goals
    dsimp only
    omega

/-! ### Numbers in a text -/

/-- No digit is in front of the text. -/
def NoDigit (text : List Char) : Prop := ∀ c ∈ text.head?, c.isDigit = false

theorem noDigit_nil : NoDigit [] := by
  intro c hc
  cases hc

theorem noDigit_cons {c : Char} (hc : c.isDigit = false) (text : List Char) : NoDigit (c :: text) := by
  rintro d ⟨⟩
  exact hc

private theorem isDigit_of_mem_repr {n : Nat} {c : Char} (h : c ∈ n.repr.toList) : c.isDigit := by
  rw [Nat.repr_eq_ofList_toDigits, String.toList_ofList] at h
  exact Nat.isDigit_of_mem_toDigits (by omega) (by omega) h

theorem exists_repr_eq_cons (n : Nat) : ∃ d digits, n.repr.toList = d :: digits ∧ d.isDigit := by
  cases hdigits : n.repr.toList with
  | nil =>
    rw [Nat.repr_eq_ofList_toDigits, String.toList_ofList] at hdigits
    exact absurd hdigits Nat.toDigits_ne_nil
  | cons d digits => exact ⟨d, digits, rfl, isDigit_of_mem_repr (by rw [hdigits]; exact List.mem_cons_self)⟩

private theorem takeWhile_repr_append (n : Nat) {rest : List Char} (hrest : NoDigit rest) :
    (n.repr.toList ++ rest).takeWhile Char.isDigit = n.repr.toList := by
  rw [List.takeWhile_append_of_pos fun c hc => isDigit_of_mem_repr hc]
  cases rest with
  | nil => simp
  | cons c rest => simp [hrest c rfl]

theorem repr_append_inj {m n : Nat} {rest rest' : List Char} (hrest : NoDigit rest) (hrest' : NoDigit rest')
    (h : m.repr.toList ++ rest = n.repr.toList ++ rest') : m = n ∧ rest = rest' := by
  have hdigits : m.repr.toList = n.repr.toList := by
    rw [← takeWhile_repr_append m hrest, h, takeWhile_repr_append n hrest']
  have hvalue : ∀ k : Nat, Nat.ofDigitChars 10 k.repr.toList 0 = k := by
    intro k
    rw [Nat.repr_eq_ofList_toDigits, String.toList_ofList, Nat.ofDigitChars_ten_toDigits]
  have hmn : m = n := by rw [← hvalue m, hdigits, hvalue n]
  rw [hdigits] at h
  exact ⟨hmn, List.append_cancel_left h⟩

end ThreeAddress
