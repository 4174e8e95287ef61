/-!
# Text measured in bytes

Positions in a source text count the bytes of its UTF-8 form, while the text itself is a list of characters.  This
file holds the measure (`byteLength`), the cut at a byte position, which exists exactly between two characters
(`splitAtByte?`), and the block of code points whose forms begin with one byte (`leadBlock`).
-/

namespace ThreeAddress

/-- The number of bytes of the UTF-8 form. -/
def byteLength : List Char → Nat
  | [] => 0
  | c :: text => c.utf8Size + byteLength text

@[simp] theorem byteLength_nil : byteLength [] = 0 := rfl

@[simp] theorem byteLength_cons (c : Char) (text : List Char) :
    byteLength (c :: text) = c.utf8Size + byteLength text := rfl

@[simp] theorem byteLength_append (a b : List Char) : byteLength (a ++ b) = byteLength a + byteLength b := by
  induction a with
  | nil => simp
  | cons c a ih => rw [List.cons_append, byteLength_cons, byteLength_cons, ih, Nat.add_assoc]

/-- The number of line ends in the text. -/
def newlines (text : List Char) : Nat := text.count '\n'

@[simp] theorem newlines_append (a b : List Char) : newlines (a ++ b) = newlines a + newlines b := by
  simp [newlines]

/-- The text before and after byte position `n`, if `n` falls between two characters or at an end. -/
def splitAtByte? : Nat → List Char → Option (List Char × List Char)
  | 0, text => some ([], text)
  | _ + 1, [] => none
  | n + 1, c :: text =>
    if c.utf8Size ≤ n + 1 then
      (splitAtByte? (n + 1 - c.utf8Size) text).map fun parts => (c :: parts.1, parts.2)
    else none
termination_by structural _ text => text

/-- The text from byte `start` to byte `stop`, if both fall between characters and `start ≤ stop`. -/
def slice? (text : List Char) (start stop : Nat) : Option (List Char) :=
  if start ≤ stop then do
    let (_, rest) ← splitAtByte? start text
    let (inside, _) ← splitAtByte? (stop - start) rest
    return inside
  else none

/-- A cut loses nothing and falls at the given byte. -/
theorem splitAtByte?_eq_some {n : Nat} {text before after : List Char}
    (h : splitAtByte? n text = some (before, after)) : before ++ after = text ∧ byteLength before = n := by
  induction text generalizing n before after with
  | nil =>
    cases n with
    | zero => simp [splitAtByte?] at h; simp [h]
    | succ n => simp [splitAtByte?] at h
  | cons c text ih =>
    cases n with
    | zero => simp [splitAtByte?] at h; obtain ⟨rfl, rfl⟩ := h; simp
    | succ n =>
      simp only [splitAtByte?] at h
      split at h
      · rename_i hle
        simp only [Option.map_eq_some_iff, Prod.mk.injEq, Prod.exists] at h
        obtain ⟨b, a, hba, rfl, rfl⟩ := h
        obtain ⟨rfl, hb⟩ := ih hba
        exact ⟨rfl, by rw [byteLength_cons]; omega⟩
      · simp at h

/-- The first and the last code point whose UTF-8 forms begin with the same byte as that of `c`. -/
def leadBlock (c : Char) : Nat × Nat :=
  let block (size least : Nat) := (max least (c.toNat / size * size), c.toNat / size * size + (size - 1))
  if c.toNat < 0x80 then block 1 0
  else if c.toNat < 0x800 then block 0x40 0x80
  else if c.toNat < 0x10000 then block 0x1000 0x800
  else block 0x40000 0x10000

/-- The text `s` followed by blanks up to `width` characters; a longer text is kept whole. -/
def padRight (width : Nat) (s : String) : String := s ++ String.ofList (List.replicate (width - s.length) ' ')

/-- The text `s` after blanks up to `width` characters; a longer text is kept whole. -/
def padLeft (width : Nat) (s : String) : String := String.ofList (List.replicate (width - s.length) ' ') ++ s

end ThreeAddress
