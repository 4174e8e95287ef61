import ThreeAddress.Text
import ThreeAddress.Token.Numeral
import ThreeAddress.Unicode.DecimalDigit
import ThreeAddress.Unicode.Letter
import ThreeAddress.Unicode.WhiteSpace

/-!
# Pieces of a source text

A source text is cut from the left into pieces: blanks, comments and tokens.  `Piece.front` gives the first piece
of a non-empty text by its first characters, and `pieces` cuts the whole text.

* A letter begins a word, which goes on over letters and decimal digits.
* An ASCII digit, or a minus sign directly before one, begins a number.
* A quote begins a string, which goes on through the next quote or to the end of the text.
* `//` begins a comment up to the end of the line, `/*` one through the first `*/` after it.
* Any other operator character begins a run of them, and a delimiter stands alone.

Main statement: no character is lost (`pieces_text`).
-/

namespace ThreeAddress

/-- The reserved words. -/
def keywords : List String := ["if", "else", "while", "return", "for"]

/-- The characters of an operator. -/
def isOperatorChar (c : Char) : Bool := ['+', '-', '*', '/', '=', '!', '<', '>', '&', '|', '≠'].contains c

/-- The characters that are tokens of their own. -/
def isDelimiter (c : Char) : Bool := ['(', ')', '\x7b', '\x7d', ';', ','].contains c

/-- The characters of a word after its first. -/
def continuesWord (c : Char) : Bool := isLetter c || isDecimalDigit c

/-- Whether a character beyond ASCII begins with the same byte as some character that continues a word. -/
def resemblesWordChar (c : Char) : Bool :=
  decide (0x80 ≤ c.toNat) &&
    (letterRanges.meets (leadBlock c).1 (leadBlock c).2 || decimalDigitRanges.meets (leadBlock c).1 (leadBlock c).2)

/-- The kind of a word, given the text after it.  A reserved word is read as a name when the character after it
resembles one that would continue it. -/
def wordKind (word rest : List Char) : Kind :=
  if keywords.contains (String.ofList word) && !rest.head?.any resemblesWordChar then .keyword else .identifier

theorem wordKind_eq (word rest : List Char) : wordKind word rest = .keyword ∨ wordKind word rest = .identifier := by
  unfold wordKind
  split
  · exact Or.inl rfl
  · exact Or.inr rfl

/-- The kind of a number literal. -/
def numeralKind (text : List Char) : Kind :=
  match numeralError? text with
  | some cause => .error cause
  | none => .number

theorem numeralKind_eq (text : List Char) : numeralKind text = .number ∨ ∃ cause, numeralKind text = .error cause := by
  unfold numeralKind
  split
  · exact Or.inr ⟨_, rfl⟩
  · exact Or.inl rfl

/-- The part of a text that goes with a number whose first character stands before it: digits, and a point with
the digits after it. -/
def numeralRest (text : List Char) : List Char :=
  text.takeWhile Char.isDigit ++
    match text.dropWhile Char.isDigit with
    | '.' :: fraction => '.' :: fraction.takeWhile Char.isDigit
    | _ => []

/-- The text through the first `*/`, or all of it. -/
def throughCommentEnd : List Char → List Char
  | '*' :: '/' :: _ => ['*', '/']
  | c :: text => c :: throughCommentEnd text
  | [] => []

/-- A non-empty piece of source text.  It is a token if it has a kind, and else a gap between tokens. -/
structure Piece where
  kind? : Option Kind
  first : Char
  more : List Char
deriving DecidableEq, Repr

/-- The source text of a piece. -/
def Piece.text (p : Piece) : List Char := p.first :: p.more

/-- The lexeme of a token piece: a string loses its quotes. -/
def Piece.lexeme (p : Piece) : List Char :=
  if p.kind? = some .string then p.more.dropLast else p.text

/-- A piece that is a blank or a comment. -/
def Piece.gap (c : Char) (more : List Char) : Piece := ⟨none, c, more⟩

/-- The piece of a string whose opening quote stands before the text. -/
def Piece.quoted (text : List Char) : Piece :=
  let body := text.takeWhile (· ≠ '"')
  match text.dropWhile (· ≠ '"') with
  | [] => ⟨some (.error (.unterminatedString (.ofList body))), '"', body⟩
  | quote :: _ => ⟨some .string, '"', body ++ [quote]⟩

/-- The first piece of the text `c :: rest`. -/
def Piece.front (c : Char) (rest : List Char) : Piece :=
  if isWhiteSpace c then .gap c []
  else if c = '/' && rest.head? = some '/' then .gap c (rest.takeWhile (· ≠ '\n'))
  else if c = '/' && rest.head? = some '*' then .gap c ('*' :: throughCommentEnd rest.tail)
  else if isLetter c then
    let more := rest.takeWhile continuesWord
    ⟨some (wordKind (c :: more) (rest.drop more.length)), c, more⟩
  else if c.isDigit || c = '-' && rest.head?.any Char.isDigit then
    let more := numeralRest rest
    ⟨some (numeralKind (c :: more)), c, more⟩
  else if c = '"' then .quoted rest
  else if isOperatorChar c then ⟨some .operator, c, rest.takeWhile isOperatorChar⟩
  else if isDelimiter c then ⟨some .delimiter, c, []⟩
  else ⟨some (.error (.unrecognizedCharacter c)), c, []⟩

/-- The pieces of a text from left to right. -/
def pieces : List Char → List Piece
  | [] => []
  | c :: rest =>
    let p := Piece.front c rest
    p :: pieces (rest.drop p.more.length)
termination_by text => text.length
decreasing_by simp only [List.length_drop, List.length_cons]; omega

/-! ### Pieces cover the text -/

private theorem takeWhile_append_prefix (p : Char → Bool) (text more : List Char)
    (h : more <+: text.dropWhile p) : text.takeWhile p ++ more <+: text := by
  obtain ⟨rest, hrest⟩ := h
  exact ⟨rest, by rw [List.append_assoc, hrest, List.takeWhile_append_dropWhile]⟩

theorem throughCommentEnd_prefix (text : List Char) : throughCommentEnd text <+: text := by
  fun_induction throughCommentEnd text with
  | case1 rest => exact ⟨rest, rfl⟩
  | case2 c text _ ih => simpa using ih
  | case3 => exact List.prefix_rfl

theorem numeralRest_prefix (text : List Char) : numeralRest text <+: text := by
  unfold numeralRest
  apply takeWhile_append_prefix
  split
  · rename_i fraction h
    rw [h]
    simpa using List.takeWhile_prefix _
  · exact List.nil_prefix

theorem Piece.quoted_more_prefix (text : List Char) : (Piece.quoted text).more <+: text := by
  unfold Piece.quoted
  split
  · exact List.takeWhile_prefix _
  · rename_i quote rest h
    exact takeWhile_append_prefix _ _ _ ⟨rest, by rw [h]; rfl⟩

/-- The first piece is at the front of the text. -/
theorem Piece.front_more_prefix (c : Char) (rest : List Char) : (Piece.front c rest).more <+: rest := by
  unfold Piece.front
  repeat' split
  · exact List.nil_prefix
  · exact List.takeWhile_prefix _
  · rename_i h
    cases rest with
    | nil => simp at h
    | cons d rest =>
      simp only [List.head?_cons, Option.some.injEq, Bool.and_eq_true, decide_eq_true_eq] at h
      obtain ⟨_, rfl⟩ := h
      simpa [Piece.gap] using throughCommentEnd_prefix rest
  · exact List.takeWhile_prefix _
  · exact numeralRest_prefix rest
  · exact Piece.quoted_more_prefix rest
  · exact List.takeWhile_prefix _
  · exact List.nil_prefix
  · exact List.nil_prefix

theorem Piece.quoted_first (text : List Char) : (Piece.quoted text).first = '"' := by
  unfold Piece.quoted
  split <;> rfl

@[simp] theorem Piece.front_first (c : Char) (rest : List Char) : (Piece.front c rest).first = c := by
  fun_cases Piece.front c rest with
  | case6 hblank hline hblock hletter hnumeral hquote => rw [Piece.quoted_first, hquote]
  | _ => rfl

/-- The texts of the pieces, one after the other, are the source. -/
theorem pieces_text (text : List Char) : (pieces text).flatMap Piece.text = text := by
  fun_induction pieces text with
  | case1 => rfl
  | case2 c rest p ih =>
    rw [List.flatMap_cons, ih, Piece.text, Piece.front_first, List.cons_append,
      List.prefix_iff_eq_append.1 (Piece.front_more_prefix c rest)]

end ThreeAddress
