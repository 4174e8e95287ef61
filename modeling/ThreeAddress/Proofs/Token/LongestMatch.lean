import Mathlib.Computability.Language
import ThreeAddress.Proofs.Token.Partition

/-!
# Tokens are longest matches

Each kind of token has a pattern, a regular language.  Where a token or a comment begins, the longest match with any
of the patterns is chosen, and only operators and comments go on behind it (`tokenize_longest`).

* `Pattern.language`: the languages;
* `Matches.bound`: how long a match can be, by the first characters of the text;
* `resemblesWordChar_iff`: what is said in terms of blocks of code points, in terms of bytes;
* `longest_of_bound`: what makes a match the longest one;
* `Piece.front_scans`: one piece of a source, `exists_front`: the pieces of a source are found one behind the other;
* `ScansAll`: how all tokens of a text are found, `scansAll_locate`: by one step for each piece.
-/

namespace ThreeAddress

open scoped Computability

/-! ### Patterns -/

/-- What a token or the beginning of a comment can be matched with. -/
inductive Pattern where
  | keyword | identifier | number | string | operator | delimiter | comment
deriving DecidableEq, Repr

/-- The texts of one character of a class. -/
def single (p : Char → Bool) : Language Char := {w | ∃ c, p c ∧ w = [c]}

/-- The texts that match a pattern. -/
def Pattern.language : Pattern → Language Char
  | keyword => {w | String.ofList w ∈ keywords}
  | identifier => single isLetter * (single continuesWord)∗
  | number =>
    (1 + {['-']}) * (single Char.isDigit * (single Char.isDigit)∗) * (1 + {['.']} * (single Char.isDigit)∗)
  | string => {['"']} * (single (· ≠ '"'))∗ * (1 + {['"']})
  | operator => single isOperatorChar
  | delimiter => single isDelimiter
  | comment => {['/', '/'], ['/', '*']}

private theorem mem_kstar_single {p : Char → Bool} {w : List Char} : w ∈ (single p)∗ ↔ ∀ c ∈ w, p c := by
  rw [Language.mem_kstar]
  constructor
  · rintro ⟨parts, rfl, hparts⟩ c hc
    obtain ⟨part, hpart, hc⟩ := List.mem_flatten.1 hc
    obtain ⟨d, hd, rfl⟩ := hparts part hpart
    obtain rfl := List.mem_singleton.1 hc
    exact hd
  · intro h
    refine ⟨w.map fun c => [c], (List.flatMap_singleton' w).symm, ?_⟩
    intro part hpart
    obtain ⟨c, hc, rfl⟩ := List.mem_map.1 hpart
    exact ⟨c, h c hc, rfl⟩

private theorem mem_identifier {w : List Char} :
    w ∈ Pattern.identifier.language ↔ ∃ c more, w = c :: more ∧ isLetter c ∧ ∀ d ∈ more, continuesWord d := by
  simp only [Pattern.language, Language.mem_mul, mem_kstar_single]
  constructor
  · rintro ⟨_, ⟨c, hc, rfl⟩, more, hmore, rfl⟩
    exact ⟨c, more, rfl, hc, hmore⟩
  · rintro ⟨c, more, rfl, hc, hmore⟩
    exact ⟨[c], ⟨c, hc, rfl⟩, more, hmore, rfl⟩

/-- What may stand before the digits of a number. -/
def IsSign (sign : List Char) : Prop := sign = [] ∨ sign = ['-']

/-- What may stand behind the first digits of a number. -/
def IsFraction (text : List Char) : Prop := text = [] ∨ ∃ digits, text = '.' :: digits ∧ ∀ d ∈ digits, d.isDigit

theorem mem_number {w : List Char} :
    w ∈ Pattern.number.language ↔ ∃ sign d digits fraction, w = sign ++ d :: (digits ++ fraction) ∧ IsSign sign ∧
      d.isDigit ∧ (∀ e ∈ digits, e.isDigit) ∧ IsFraction fraction := by
  simp only [Pattern.language, Language.mem_mul, mem_kstar_single, Language.mem_add, Language.mem_one]
  constructor
  · rintro ⟨_, ⟨sign, hsign, _, ⟨_, ⟨d, hd, rfl⟩, digits, hdigits, rfl⟩, rfl⟩, fraction, hfraction, rfl⟩
    refine ⟨sign, d, digits, fraction, by simp, hsign, hd, hdigits, ?_⟩
    rcases hfraction with rfl | ⟨_, rfl, more, hmore, rfl⟩
    · exact Or.inl rfl
    · exact Or.inr ⟨more, rfl, hmore⟩
  · rintro ⟨sign, d, digits, fraction, rfl, hsign, hd, hdigits, hfraction⟩
    refine ⟨sign ++ d :: digits, ⟨sign, hsign, d :: digits, ⟨[d], ⟨d, hd, rfl⟩, digits, hdigits, rfl⟩, rfl⟩,
      fraction, ?_, by simp⟩
    rcases hfraction with rfl | ⟨more, rfl, hmore⟩
    · exact Or.inl rfl
    · exact Or.inr ⟨['.'], rfl, more, hmore, rfl⟩

private theorem mem_string {w : List Char} :
    w ∈ Pattern.string.language ↔
      ∃ body close, w = '"' :: (body ++ close) ∧ (∀ d ∈ body, d ≠ '"') ∧ (close = [] ∨ close = ['"']) := by
  simp only [Pattern.language, Language.mem_mul, mem_kstar_single, Language.mem_add, Language.mem_one,
    decide_eq_true_eq]
  constructor
  · rintro ⟨_, ⟨_, rfl, body, hbody, rfl⟩, close, hclose, rfl⟩
    exact ⟨body, close, by simp, hbody, hclose⟩
  · rintro ⟨body, close, rfl, hbody, hclose⟩
    exact ⟨'"' :: body, ⟨['"'], rfl, body, hbody, rfl⟩, close, hclose, by simp⟩

/-- Every reserved word could be a name. -/
private theorem identifier_of_keyword {w : List Char} (h : w ∈ Pattern.keyword.language) :
    w ∈ Pattern.identifier.language := by
  let words := [['i', 'f'], ['e', 'l', 's', 'e'], ['w', 'h', 'i', 'l', 'e'], ['r', 'e', 't', 'u', 'r', 'n'],
    ['f', 'o', 'r']]
  have hletters : words.all (fun word => word.head?.any isLetter && word.tail.all continuesWord) := by decide
  have hw : w ∈ words := by
    have hkeywords : keywords = words.map String.ofList := rfl
    have hmem : String.ofList w ∈ keywords := h
    rw [hkeywords] at hmem
    obtain ⟨word, hword, heq⟩ := List.mem_map.1 hmem
    rwa [← String.ofList_injective heq]
  obtain ⟨hfirst, hmore⟩ := Bool.and_eq_true_iff.1 (List.all_eq_true.1 hletters w hw)
  cases w with
  | nil => cases hfirst
  | cons c more => exact mem_identifier.2 ⟨c, more, rfl, hfirst, List.all_eq_true.1 hmore⟩

/-- A match with a pattern goes over the end of a line only if it is a string. -/
theorem Pattern.eq_string_of_newline_mem {pattern : Pattern} {w : List Char} (hw : w ∈ pattern.language)
    (hmem : '\n' ∈ w) : pattern = .string := by
  have hword : w ∉ Pattern.identifier.language := by
    intro hw
    obtain ⟨c, more, rfl, hc, hmore⟩ := mem_identifier.1 hw
    rcases List.mem_cons.1 hmem with rfl | hmem
    · exact absurd hc (by decide)
    · exact absurd (hmore _ hmem) (by decide)
  cases pattern with
  | keyword => exact absurd (identifier_of_keyword hw) hword
  | identifier => exact absurd hw hword
  | number =>
    obtain ⟨sign, d, digits, fraction, rfl, hsign, hd, hdigits, hfraction⟩ := mem_number.1 hw
    have hdigit : ∀ c : Char, c.isDigit → c ≠ '\n' := by
      rintro c hc rfl
      exact absurd hc (by decide)
    rcases hsign with rfl | rfl <;> rcases hfraction with rfl | ⟨more, rfl, hmore⟩ <;> grind
  | string => rfl
  | operator =>
    obtain ⟨c, hc, rfl⟩ := hw
    obtain rfl := List.mem_singleton.1 hmem
    exact absurd hc (by decide)
  | delimiter =>
    obtain ⟨c, hc, rfl⟩ := hw
    obtain rfl := List.mem_singleton.1 hmem
    exact absurd hc (by decide)
  | comment => rcases hw with rfl | rfl <;> exact absurd hmem (by decide)

/-! ### How long a match can be -/

/-- A match of a pattern at the front of a text. -/
def Matches (text w : List Char) : Prop := w <+: text ∧ ∃ pattern : Pattern, w ∈ pattern.language

private theorem length_le_takeWhile {p : Char → Bool} {text w : List Char} (hw : w <+: text) (hp : ∀ c ∈ w, p c) :
    w.length ≤ (text.takeWhile p).length := by
  obtain ⟨rest, rfl⟩ := hw
  rw [List.takeWhile_append_of_pos hp, List.length_append]
  omega

theorem length_le_numeralRest {text digits fraction : List Char} (h : digits ++ fraction <+: text)
    (hdigits : ∀ d ∈ digits, d.isDigit) (hfraction : IsFraction fraction) :
    (digits ++ fraction).length ≤ (numeralRest text).length := by
  rw [numeralRest, List.length_append, List.length_append]
  rcases hfraction with rfl | ⟨more, rfl, hmore⟩
  · rw [List.append_nil] at h
    have hle := length_le_takeWhile h hdigits
    simp only [List.length_nil]
    omega
  · -- the point ends the first digits
    obtain ⟨rest, rfl⟩ := h
    have htake : (digits ++ '.' :: more ++ rest).takeWhile Char.isDigit = digits := by
      rw [List.append_assoc, List.takeWhile_append_of_pos hdigits]
      simp
    have hdrop : (digits ++ '.' :: more ++ rest).dropWhile Char.isDigit = '.' :: (more ++ rest) := by
      rw [List.append_assoc, List.dropWhile_append_of_pos hdigits]
      rfl
    have hle := length_le_takeWhile (List.prefix_append more rest) hmore
    rw [htake, hdrop]
    simp only [List.length_cons]
    omega

private theorem length_le_quoted {text body close : List Char} (h : body ++ close <+: text)
    (hbody : ∀ d ∈ body, d ≠ '"')
    (hclose : close = [] ∨ close = ['"']) : (body ++ close).length ≤ (Piece.quoted text).more.length := by
  have hpos : ∀ d ∈ body, (decide (d ≠ '"')) = true := by simpa using hbody
  rcases hclose with rfl | rfl
  · rw [List.append_nil] at h ⊢
    have hle := length_le_takeWhile h hpos
    unfold Piece.quoted
    split
    · exact hle
    · simp only [List.length_append]
      omega
  · obtain ⟨rest, rfl⟩ := h
    have htake : (body ++ ['"'] ++ rest).takeWhile (· ≠ '"') = body := by
      rw [List.append_assoc, List.takeWhile_append_of_pos hpos]
      simp
    have hdrop : (body ++ ['"'] ++ rest).dropWhile (· ≠ '"') = '"' :: rest := by
      rw [List.append_assoc, List.dropWhile_append_of_pos hpos]
      simp
    simp only [Piece.quoted, htake, hdrop]
    exact Nat.le_refl _

/-- Whether a number begins with the character, given the text behind it. -/
def beginsNumeral (c : Char) (rest : List Char) : Bool := c.isDigit || c = '-' && rest.head?.any Char.isDigit

private theorem identifier_bound {c : Char} {rest w : List Char} (hfront : w <+: c :: rest)
    (hw : w ∈ Pattern.identifier.language) :
    isLetter c ∧ w.length ≤ (c :: rest.takeWhile continuesWord).length := by
  obtain ⟨d, more, rfl, hd, hmore⟩ := mem_identifier.1 hw
  obtain ⟨rfl, hrest⟩ := List.cons_prefix_cons.1 hfront
  exact ⟨hd, Nat.succ_le_succ (length_le_takeWhile hrest hmore)⟩

private theorem number_bound {c : Char} {rest w : List Char} (hfront : w <+: c :: rest)
    (hw : w ∈ Pattern.number.language) : beginsNumeral c rest ∧ w.length ≤ (c :: numeralRest rest).length := by
  obtain ⟨sign, d, digits, fraction, rfl, rfl | rfl, hd, hdigits, hfraction⟩ := mem_number.1 hw
  · obtain ⟨rfl, hrest⟩ := List.cons_prefix_cons.1 hfront
    exact ⟨by simp [beginsNumeral, hd], Nat.succ_le_succ (length_le_numeralRest hrest hdigits hfraction)⟩
  · obtain ⟨rfl, hrest⟩ := List.cons_prefix_cons.1 hfront
    have hall : ∀ e ∈ d :: digits, e.isDigit := List.forall_mem_cons.2 ⟨hd, hdigits⟩
    have hhead : rest.head? = some d := by
      obtain ⟨after, hafter⟩ := hrest
      rw [← hafter]
      rfl
    have hle : (d :: digits ++ fraction).length ≤ (numeralRest rest).length :=
      length_le_numeralRest hrest hall hfraction
    exact ⟨by simp [beginsNumeral, hhead, hd], Nat.succ_le_succ hle⟩

/-- The matches at the front of a text, by the first character: what they can be and how long. -/
theorem Matches.bound {c : Char} {rest w : List Char} (h : Matches (c :: rest) w) :
    (isLetter c ∧ w.length ≤ (c :: rest.takeWhile continuesWord).length) ∨
    (beginsNumeral c rest ∧ w.length ≤ (c :: numeralRest rest).length) ∨
    (c = '"' ∧ w.length ≤ (c :: (Piece.quoted rest).more).length) ∨
    (isOperatorChar c ∧ w.length = 1) ∨
    (isDelimiter c ∧ w.length = 1) ∨
    (c = '/' ∧ (rest.head? = some '/' ∨ rest.head? = some '*') ∧ w.length = 2) := by
  obtain ⟨hfront, pattern, hw⟩ := h
  cases pattern with
  | keyword => exact Or.inl (identifier_bound hfront (identifier_of_keyword hw))
  | identifier => exact Or.inl (identifier_bound hfront hw)
  | number => exact Or.inr (Or.inl (number_bound hfront hw))
  | string =>
    obtain ⟨body, close, rfl, hbody, hclose⟩ := mem_string.1 hw
    obtain ⟨rfl, hrest⟩ := List.cons_prefix_cons.1 hfront
    exact Or.inr (Or.inr (Or.inl ⟨rfl, Nat.succ_le_succ (length_le_quoted hrest hbody hclose)⟩))
  | operator =>
    obtain ⟨d, hd, rfl⟩ := hw
    obtain ⟨rfl, -⟩ := List.cons_prefix_cons.1 hfront
    simp [hd]
  | delimiter =>
    obtain ⟨d, hd, rfl⟩ := hw
    obtain ⟨rfl, -⟩ := List.cons_prefix_cons.1 hfront
    simp [hd]
  | comment =>
    have hhead : ∀ d, ['/', d] <+: c :: rest → c = '/' ∧ rest.head? = some d := by
      rintro d ⟨after, hafter⟩
      obtain ⟨rfl, rfl⟩ := List.cons.inj hafter
      exact ⟨rfl, rfl⟩
    rcases hw with rfl | rfl
    · simp [hhead _ hfront]
    · simp [hhead _ hfront]

/-! ### Characters that resemble those of words -/

/-- Ranges that hold only characters: no surrogates, and nothing beyond the last code point. -/
def Ranges.HoldChars (ranges : Ranges) : Prop :=
  ∀ range ∈ ranges, range.1 ≤ range.2 ∧ (range.2 < 0xd800 ∨ 0xdfff < range.1 ∧ range.2 < 0x110000)

private theorem holdChars_letter : letterRanges.HoldChars := by
  unfold Ranges.HoldChars
  decide +kernel

private theorem holdChars_decimalDigit : decimalDigitRanges.HoldChars := by
  unfold Ranges.HoldChars
  decide +kernel

private theorem Ranges.meets_iff {ranges : Ranges} (hascend : Ranges.ascendsFrom 0 ranges) (hchars : ranges.HoldChars)
    {low high : Nat} (hle : low ≤ high) :
    ranges.meets low high ↔ ∃ c : Char, ranges.contains c.toNat ∧ low ≤ c.toNat ∧ c.toNat ≤ high := by
  simp only [Ranges.meets, List.any_eq_true, Bool.and_eq_true, decide_eq_true_eq]
  constructor
  · rintro ⟨range, hrange, hbelow, habove⟩
    -- the first point of the range that is not below the bound
    have hchar := hchars range hrange
    have hvalid : (max range.1 low).isValidChar := by
      unfold Nat.isValidChar
      omega
    have hpoint : (Char.ofNat (max range.1 low)).toNat = max range.1 low := by
      rw [Char.ofNat, dif_pos hvalid]
      rfl
    refine ⟨.ofNat (max range.1 low), (Ranges.contains_iff hascend _).2 ⟨range, hrange, ?_⟩, ?_⟩
    · omega
    · omega
  · rintro ⟨c, hc, hlow, hhigh⟩
    obtain ⟨range, hrange, hbelow, habove⟩ := (Ranges.contains_iff hascend _).1 hc
    exact ⟨range, hrange, by omega, by omega⟩

/-- Beyond ASCII, a character resembles one that continues a word exactly if their forms begin with the same byte. -/
theorem resemblesWordChar_iff {c : Char} :
    resemblesWordChar c ↔ 0x80 ≤ c.toNat ∧
      ∃ d, continuesWord d ∧ (String.utf8EncodeChar d).head? = (String.utf8EncodeChar c).head? := by
  have hself := (head?_utf8EncodeChar_eq_iff c c).1 rfl
  have hle : (leadBlock c).1 ≤ (leadBlock c).2 := by omega
  simp only [resemblesWordChar, Bool.and_eq_true, Bool.or_eq_true, decide_eq_true_eq, continuesWord, isLetter,
    isDecimalDigit, head?_utf8EncodeChar_eq_iff, Ranges.meets_iff letterRanges_ascend holdChars_letter hle,
    Ranges.meets_iff decimalDigitRanges_ascend holdChars_decimalDigit hle, or_and_right, exists_or]

/-! ### What is chosen -/

/-- A match such that no other one is longer. -/
structure Longest (text w : List Char) : Prop where
  matched : Matches text w
  length_le : ∀ v, Matches text v → v.length ≤ w.length

/-- The text behind a reserved word makes a name of it: it begins with a character beyond ASCII that does not continue
the word, but whose form begins with the same byte as that of one that would. -/
def ReadAsName (after : List Char) : Prop :=
  ∃ c ∈ after.head?, 0x80 ≤ c.toNat ∧ continuesWord c = false ∧
    ∃ d, continuesWord d ∧ (String.utf8EncodeChar d).head? = (String.utf8EncodeChar c).head?

/-- The pattern that decides the kind of a match.  A reserved word is a name only where the text behind it makes it
one. -/
structure Pattern.Chosen (w after : List Char) (pattern : Pattern) : Prop where
  mem : w ∈ pattern.language
  keyword : w ∈ Pattern.keyword.language → ¬ ReadAsName after → pattern = .keyword
  name : w ∈ Pattern.keyword.language → ReadAsName after → pattern = .identifier

/-- How a match goes on before the text `after`. -/
inductive Extends (after w : List Char) : Pattern → List Char → Prop
  /-- Most matches do not. -/
  | none {pattern : Pattern} (hoperator : pattern ≠ .operator) (hcomment : pattern ≠ .comment) :
    Extends after w pattern w
  /-- An operator goes on as long as there are characters of operators. -/
  | run {more : List Char} (hmore : ∀ c ∈ more, isOperatorChar c)
    (hafter : ∀ c ∈ after.head?, isOperatorChar c = false) : Extends after w .operator (w ++ more)
  | comment {more : List Char} (hcomment : Comment (w ++ more) after) : Extends after w .comment (w ++ more)

/-- The kind of a token by its match and the pattern.  A comment is no token. -/
def Pattern.kind? (w : List Char) : Pattern → Option Kind
  | keyword => some .keyword
  | identifier => some .identifier
  | number => some (numeralKind w)
  | string =>
    some (if 2 ≤ w.length ∧ w.getLast? = some '"' then .string else .error (.unterminatedString (.ofList w.tail)))
  | operator => some .operator
  | delimiter => some .delimiter
  | comment => none

/-- Where `text ++ after` is left of a source, `text` is chosen as a token of the given kind or, without one, as a
comment. -/
inductive Scans (after : List Char) : List Char → Option Kind → Prop
  /-- It is the longest match, with what it goes on with. -/
  | matched {w text : List Char} {pattern : Pattern} (hlongest : Longest (text ++ after) w)
    (hpattern : pattern.Chosen w after) (htext : Extends after w pattern text) : Scans after text (pattern.kind? w)
  /-- Where nothing matches, it is one character. -/
  | unmatched {c : Char} (hnone : ∀ w, ¬ Matches (c :: after) w) :
    Scans after [c] (some (.error (.unrecognizedCharacter c)))

private theorem not_keyword_of_not_letter {c : Char} {more : List Char} (hc : isLetter c = false) :
    c :: more ∉ Pattern.keyword.language := by
  intro hw
  obtain ⟨d, more, hw, hd, -⟩ := mem_identifier.1 (identifier_of_keyword hw)
  obtain ⟨rfl, -⟩ := List.cons.inj hw
  rw [hc] at hd
  cases hd

/-- Only a match with a letter in front can be a reserved word. -/
private theorem Pattern.chosen_of_not_letter {c : Char} {more after : List Char} {pattern : Pattern}
    (hc : isLetter c = false) (hmem : c :: more ∈ pattern.language) : pattern.Chosen (c :: more) after :=
  ⟨hmem, fun hw => (not_keyword_of_not_letter hc hw).elim, fun hw => (not_keyword_of_not_letter hc hw).elim⟩

/-! ### One piece -/

private theorem Comment.eq_cons {text after : List Char} (h : Comment text after) :
    ∃ d more, text = '/' :: d :: more ∧ (d = '/' ∨ d = '*') := by
  cases h with
  | line hbody hafter => exact ⟨_, _, rfl, Or.inl rfl⟩
  | block hbody => exact ⟨_, _, rfl, Or.inr rfl⟩
  | unclosed hbody => exact ⟨_, _, rfl, Or.inr rfl⟩

private theorem drop_length_takeWhile (p : Char → Bool) (text : List Char) :
    text.drop (text.takeWhile p).length = text.dropWhile p :=
  List.append_cancel_left
    ((List.prefix_iff_eq_append.1 (List.takeWhile_prefix p)).trans List.takeWhile_append_dropWhile.symm)

private theorem head?_dropWhile_eq_false (p : Char → Bool) (text : List Char) :
    ∀ c ∈ (text.dropWhile p).head?, p c = false := by
  intro c hc
  have hnot := List.head?_dropWhile_not p text
  rw [Option.mem_def.1 hc] at hnot
  simpa using hnot

section Front

variable {c : Char} {rest : List Char}

/-- A letter begins nothing but words. -/
private theorem not_begins_of_letter (hc : isLetter c) (rest : List Char) :
    ¬ beginsNumeral c rest ∧ c ≠ '"' ∧ c ≠ '/' := by
  have hlow : 0x41 ≤ c.toNat := by
    have hfirst : isLetter c = (decide (0x41 ≤ c.toNat) && _) := rfl
    rw [hfirst, Bool.and_eq_true, decide_eq_true_eq] at hc
    exact hc.1
  refine ⟨?_, ?_, ?_⟩
  · intro hnumeral
    simp only [beginsNumeral, Bool.or_eq_true, Bool.and_eq_true, decide_eq_true_eq] at hnumeral
    rcases hnumeral with hdigit | ⟨rfl, -⟩
    · simp only [Char.isDigit, Bool.and_eq_true, decide_eq_true_eq] at hdigit
      have hhigh : c.toNat ≤ 57 := UInt32.le_iff_toNat_le.1 hdigit.2
      omega
    · exact absurd hlow (by decide)
  · rintro rfl
    exact absurd hlow (by decide)
  · rintro rfl
    exact absurd hlow (by decide)

private theorem any_resemblesWordChar_iff {after : List Char} (hafter : ∀ d ∈ after.head?, continuesWord d = false) :
    after.head?.any resemblesWordChar ↔ ReadAsName after := by
  simp only [ReadAsName, Option.any_eq_true, resemblesWordChar_iff]
  constructor
  · rintro ⟨d, hd, hhigh, hlead⟩
    exact ⟨d, hd, hhigh, hafter d hd, hlead⟩
  · rintro ⟨d, hd, hhigh, -, hlead⟩
    exact ⟨d, hd, hhigh, hlead⟩

/-- A word is reserved or a name. -/
private theorem wordKind_cases {word after : List Char} (hafter : ∀ d ∈ after.head?, continuesWord d = false) :
    (word ∈ Pattern.keyword.language ∧ ¬ ReadAsName after) ∧ wordKind word after = .keyword ∨
      ¬ (word ∈ Pattern.keyword.language ∧ ¬ ReadAsName after) ∧ wordKind word after = .identifier := by
  have hreserved : keywords.contains (String.ofList word) ↔ word ∈ Pattern.keyword.language := List.contains_iff_mem
  have hiff : (keywords.contains (String.ofList word) && !after.head?.any resemblesWordChar) ↔
      word ∈ Pattern.keyword.language ∧ ¬ ReadAsName after := by
    rw [Bool.and_eq_true, hreserved, Bool.not_eq_true', Bool.eq_false_iff, Ne, any_resemblesWordChar_iff hafter]
  by_cases h : word ∈ Pattern.keyword.language ∧ ¬ ReadAsName after
  · exact Or.inl ⟨h, by rw [wordKind, if_pos (hiff.2 h)]⟩
  · exact Or.inr ⟨h, by rw [wordKind, if_neg (hiff.not.2 h)]⟩

/-- A match is the longest one if it is as long as what each class of first characters allows. -/
theorem longest_of_bound {more : List Char} {pattern : Pattern} (hmore : more <+: rest)
    (hmem : c :: more ∈ pattern.language)
    (hword : isLetter c → (rest.takeWhile continuesWord).length ≤ more.length)
    (hnumeral : beginsNumeral c rest → (numeralRest rest).length ≤ more.length)
    (hstring : c = '"' → (Piece.quoted rest).more.length ≤ more.length)
    (hcomment : c = '/' → rest.head? = some '/' ∨ rest.head? = some '*' → 1 ≤ more.length) :
    Longest (c :: rest) (c :: more) := by
  refine ⟨⟨List.cons_prefix_cons.2 ⟨rfl, hmore⟩, pattern, hmem⟩, ?_⟩
  intro v hv
  have hcons : (c :: more).length = more.length + 1 := rfl
  rcases hv.bound with ⟨h, hle⟩ | ⟨h, hle⟩ | ⟨h, hle⟩ | ⟨-, hone⟩ | ⟨-, hone⟩ | ⟨h, hnext, htwo⟩
  · exact hle.trans (Nat.succ_le_succ (hword h))
  · exact hle.trans (Nat.succ_le_succ (hnumeral h))
  · exact hle.trans (Nat.succ_le_succ (hstring h))
  · omega
  · omega
  · have hlong := hcomment h hnext
    omega

private theorem scans_word (hc : isLetter c) :
    Scans (rest.dropWhile continuesWord) (c :: rest.takeWhile continuesWord)
      (some (wordKind (c :: rest.takeWhile continuesWord) (rest.dropWhile continuesWord))) := by
  have hmem : c :: rest.takeWhile continuesWord ∈ Pattern.identifier.language :=
    mem_identifier.2 ⟨c, _, rfl, hc, fun d hd => List.mem_takeWhile_imp hd⟩
  have hlongest : Longest (c :: rest.takeWhile continuesWord ++ rest.dropWhile continuesWord)
      (c :: rest.takeWhile continuesWord) := by
    obtain ⟨hnumeral, hquote, hslash⟩ := not_begins_of_letter hc rest
    rw [List.cons_append, List.takeWhile_append_dropWhile]
    exact longest_of_bound (List.takeWhile_prefix _) hmem (fun _ => Nat.le_refl _) (fun h => absurd h hnumeral)
      (fun h => absurd h hquote) (fun h => absurd h hslash)
  rcases wordKind_cases (head?_dropWhile_eq_false continuesWord rest) with ⟨h, hkind⟩ | ⟨h, hkind⟩
  · have hchosen : Pattern.keyword.Chosen (c :: rest.takeWhile continuesWord) (rest.dropWhile continuesWord) :=
      ⟨h.1, fun _ _ => rfl, fun _ hname => absurd hname h.2⟩
    rw [hkind]
    exact .matched hlongest hchosen (.none (by decide) (by decide))
  · have hchosen : Pattern.identifier.Chosen (c :: rest.takeWhile continuesWord) (rest.dropWhile continuesWord) :=
      ⟨hmem, fun hword hname => absurd ⟨hword, hname⟩ h, fun _ _ => rfl⟩
    rw [hkind]
    exact .matched hlongest hchosen (.none (by decide) (by decide))

theorem isFraction_numeralRest (text : List Char) :
    ∃ fraction, numeralRest text = text.takeWhile Char.isDigit ++ fraction ∧ IsFraction fraction := by
  refine ⟨_, rfl, ?_⟩
  split
  · exact Or.inr ⟨_, rfl, fun d hd => List.mem_takeWhile_imp hd⟩
  · exact Or.inl rfl

private theorem numeral_mem (hc : beginsNumeral c rest) : c :: numeralRest rest ∈ Pattern.number.language := by
  obtain ⟨fraction, hrest, hfraction⟩ := isFraction_numeralRest rest
  rw [hrest]
  simp only [beginsNumeral, Bool.or_eq_true, Bool.and_eq_true, decide_eq_true_eq, Option.any_eq_true] at hc
  rcases hc with hdigit | ⟨rfl, d, hd, hdigit⟩
  · exact mem_number.2 ⟨[], c, _, fraction, rfl, Or.inl rfl, hdigit, fun e he => List.mem_takeWhile_imp he, hfraction⟩
  · obtain ⟨text, rfl⟩ := List.head?_eq_some_iff.1 hd
    rw [List.takeWhile_cons_of_pos hdigit]
    exact mem_number.2 ⟨['-'], d, _, fraction, rfl, Or.inr rfl, hdigit, fun e he => List.mem_takeWhile_imp he,
      hfraction⟩

private theorem scans_numeral (hc : beginsNumeral c rest) (hletter : isLetter c = false) :
    Scans (rest.drop (numeralRest rest).length) (c :: numeralRest rest)
      (some (numeralKind (c :: numeralRest rest))) := by
  have hmem := numeral_mem hc
  have hlongest : Longest (c :: numeralRest rest ++ rest.drop (numeralRest rest).length) (c :: numeralRest rest) := by
    have hother : c ≠ '"' ∧ c ≠ '/' := by
      constructor <;> (rintro rfl; simp [beginsNumeral] at hc)
    have hfront := numeralRest_prefix rest
    rw [List.cons_append, List.prefix_iff_eq_append.1 hfront]
    exact longest_of_bound hfront hmem (by simp [hletter]) (fun _ => Nat.le_refl _)
      (fun h => absurd h hother.1) (fun h => absurd h hother.2)
  exact .matched hlongest (Pattern.chosen_of_not_letter hletter hmem) (.none (by decide) (by decide))

/-- A string is closed by the next quote, or goes to the end of the text. -/
private theorem quoted_cases (text : List Char) :
    ∃ body close, Piece.quoted text = ⟨Pattern.string.kind? ('"' :: (body ++ close)), '"', body ++ close⟩ ∧
      (∀ d ∈ body, d ≠ '"') ∧ (close = [] ∨ close = ['"']) := by
  have hbody : ∀ d ∈ text.takeWhile (· ≠ '"'), d ≠ '"' := by
    intro d hd
    simpa using List.mem_takeWhile_imp hd
  unfold Piece.quoted
  split
  · refine ⟨_, [], ?_, hbody, Or.inl rfl⟩
    generalize text.takeWhile (· ≠ '"') = body at hbody
    have hopen : ¬ (2 ≤ ('"' :: body).length ∧ ('"' :: body).getLast? = some '"') := by
      rintro ⟨hlength, hlast⟩
      obtain ⟨d, body, rfl⟩ := List.exists_cons_of_length_pos (Nat.le_of_succ_le_succ hlength)
      rw [List.getLast?_cons_cons] at hlast
      exact hbody _ (List.mem_of_getLast? hlast) rfl
    rw [List.append_nil, Pattern.kind?, if_neg hopen]
    rfl
  · rename_i quote after hafter
    obtain rfl : quote = '"' := by
      have hquote := head?_dropWhile_eq_false (fun d => decide (d ≠ '"')) text quote (by rw [hafter]; rfl)
      simpa using hquote
    refine ⟨_, ['"'], ?_, hbody, Or.inr rfl⟩
    rw [Pattern.kind?, if_pos ⟨by simp, by rw [← List.cons_append, List.getLast?_concat]⟩]

private theorem scans_quoted (rest : List Char) : Scans (rest.drop (Piece.quoted rest).more.length)
    ('"' :: (Piece.quoted rest).more) (Piece.quoted rest).kind? := by
  obtain ⟨body, close, hquoted, hbody, hclose⟩ := quoted_cases rest
  have hmem : '"' :: (Piece.quoted rest).more ∈ Pattern.string.language := by
    rw [hquoted]
    exact mem_string.2 ⟨body, close, rfl, hbody, hclose⟩
  have hletter : isLetter '"' = false := by decide
  have hlongest : Longest ('"' :: (Piece.quoted rest).more ++ rest.drop (Piece.quoted rest).more.length)
      ('"' :: (Piece.quoted rest).more) := by
    rw [List.cons_append, List.prefix_iff_eq_append.1 (Piece.quoted_more_prefix rest)]
    exact longest_of_bound (Piece.quoted_more_prefix rest) hmem (by simp [hletter]) (by simp [beginsNumeral])
      (fun _ => Nat.le_refl _) nofun
  have hscans := Scans.matched hlongest (Pattern.chosen_of_not_letter hletter hmem) (.none (by decide) (by decide))
  rw [hquoted] at hscans ⊢
  exact hscans

private theorem scans_operator (hc : isOperatorChar c) (hletter : isLetter c = false)
    (hnumeral : ¬ beginsNumeral c rest) (hcomment : c = '/' → rest.head? ≠ some '/' ∧ rest.head? ≠ some '*') :
    Scans (rest.dropWhile isOperatorChar) (c :: rest.takeWhile isOperatorChar) (some .operator) := by
  have hmem : [c] ∈ Pattern.operator.language := ⟨c, hc, rfl⟩
  have hlongest : Longest (c :: rest.takeWhile isOperatorChar ++ rest.dropWhile isOperatorChar) [c] := by
    have hquote : c ≠ '"' := by
      rintro rfl
      exact absurd hc (by decide)
    rw [List.cons_append, List.takeWhile_append_dropWhile]
    exact longest_of_bound List.nil_prefix hmem (by simp [hletter]) (fun h => absurd h hnumeral)
      (fun h => absurd h hquote) (fun h hnext => absurd hnext (not_or.2 (hcomment h)))
  exact .matched hlongest (Pattern.chosen_of_not_letter hletter hmem)
    (.run (fun d hd => List.mem_takeWhile_imp hd) (head?_dropWhile_eq_false isOperatorChar rest))

private theorem scans_delimiter (hc : isDelimiter c) (hletter : isLetter c = false) (hnumeral : ¬ beginsNumeral c rest)
    (hquote : c ≠ '"') : Scans rest [c] (some .delimiter) := by
  have hmem : [c] ∈ Pattern.delimiter.language := ⟨c, hc, rfl⟩
  have hlongest : Longest ([c] ++ rest) [c] := by
    have hslash : c ≠ '/' := by
      rintro rfl
      exact absurd hc (by decide)
    exact longest_of_bound List.nil_prefix hmem (by simp [hletter]) (fun h => absurd h hnumeral)
      (fun h => absurd h hquote) (fun h => absurd h hslash)
  exact .matched hlongest (Pattern.chosen_of_not_letter hletter hmem) (.none (by decide) (by decide))

private theorem scans_comment {d : Char} {more after : List Char} (hd : d = '/' ∨ d = '*')
    (hcomment : Comment ('/' :: d :: more) after) : Scans after ('/' :: d :: more) none := by
  have hmem : ['/', d] ∈ Pattern.comment.language := by
    rcases hd with rfl | rfl
    · exact Or.inl rfl
    · exact Or.inr rfl
  have hletter : isLetter '/' = false := by decide
  have hlongest : Longest ('/' :: d :: more ++ after) ['/', d] :=
    longest_of_bound ⟨more ++ after, rfl⟩ hmem (by simp [hletter]) (by simp [beginsNumeral]) nofun
      (fun _ _ => Nat.le_refl _)
  exact .matched hlongest (Pattern.chosen_of_not_letter hletter hmem) (.comment hcomment)

/-- The first piece of a text that does not begin with a blank. -/
theorem Piece.front_scans (hblank : ¬ isWhiteSpace c) :
    Scans (rest.drop (Piece.front c rest).more.length) (Piece.front c rest).text (Piece.front c rest).kind? := by
  by_cases hnone : (Piece.front c rest).kind? = none
  · have htext : (Piece.front c rest).text = c :: (Piece.front c rest).more := by rw [Piece.text, Piece.front_first]
    rcases Piece.front_gap hnone with ⟨h, -⟩ | hcomment
    · exact absurd h hblank
    · obtain ⟨d, more, hslash, hd⟩ := hcomment.eq_cons
      rw [hnone, htext, hslash]
      rw [hslash] at hcomment
      exact scans_comment hd hcomment
  have hline : ¬ (c = '/' && rest.head? = some '/') := by
    intro h
    exact hnone (by rw [Piece.front, if_neg hblank, if_pos h]; rfl)
  have hblock : ¬ (c = '/' && rest.head? = some '*') := by
    intro h
    exact hnone (by rw [Piece.front, if_neg hblank, if_neg hline, if_pos h]; rfl)
  rw [Piece.front, if_neg hblank, if_neg hline, if_neg hblock, ← beginsNumeral]
  by_cases hletter : isLetter c
  · rw [if_pos hletter]
    simp only [drop_length_takeWhile]
    exact scans_word hletter
  have hletter' : isLetter c = false := Bool.eq_false_iff.2 hletter
  rw [if_neg hletter]
  by_cases hnumeral : beginsNumeral c rest
  · rw [if_pos hnumeral]
    exact scans_numeral hnumeral hletter'
  rw [if_neg hnumeral]
  by_cases hquote : c = '"'
  · subst hquote
    have hfirst : (Piece.quoted rest).first = '"' := by
      obtain ⟨body, close, hquoted, -⟩ := quoted_cases rest
      rw [hquoted]
    rw [if_pos rfl, Piece.text, hfirst]
    exact scans_quoted rest
  rw [if_neg hquote]
  by_cases hoperator : isOperatorChar c
  · rw [if_pos hoperator]
    simp only [drop_length_takeWhile]
    refine scans_operator hoperator hletter' hnumeral ?_
    rintro rfl
    simpa using And.intro hline hblock
  rw [if_neg hoperator]
  by_cases hdelimiter : isDelimiter c
  · rw [if_pos hdelimiter]
    exact scans_delimiter hdelimiter hletter' hnumeral hquote
  rw [if_neg hdelimiter]
  refine .unmatched ?_
  intro w hw
  rcases hw.bound with ⟨h, -⟩ | ⟨h, -⟩ | ⟨h, -⟩ | ⟨h, -⟩ | ⟨h, -⟩ | ⟨rfl, h, -⟩
  · exact hletter h
  · exact hnumeral h
  · exact hquote h
  · exact hoperator h
  · exact hdelimiter h
  · exact hoperator (by decide)

end Front

/-! ### All pieces -/

/-- A piece of a text is the first one of what is left of the text. -/
theorem exists_front {text : List Char} (before : List Piece) {p : Piece} {after : List Piece}
    (h : pieces text = before ++ p :: after) :
    ∃ c rest, p = .front c rest ∧ after.flatMap Piece.text = rest.drop p.more.length := by
  fun_induction pieces text generalizing before with
  | case1 => simp at h
  | case2 c rest q ih =>
    cases before with
    | nil =>
      obtain ⟨rfl, rfl⟩ := List.cons.inj h
      exact ⟨c, rest, rfl, pieces_text _⟩
    | cons r before => exact ih before (List.cons.inj h).2

/-- A token is a piece, at the place behind the pieces before it. -/
theorem exists_piece_of_mem_locate {ps : List Piece} {place : Place} {t : Token} (ht : t ∈ locate place ps)
    (hkind : t.kind ≠ .endOfInput) :
    ∃ before p after, ps = before ++ p :: after ∧ p.kind? = some t.kind ∧
      t = p.tokenAt t.kind (place.past (before.flatMap Piece.text)) := by
  induction ps generalizing place with
  | nil =>
    obtain rfl := List.mem_singleton.1 ht
    exact absurd rfl hkind
  | cons p ps ih =>
    have hlater : t ∈ locate (place.past p.text) ps → ∃ before q after, p :: ps = before ++ q :: after ∧
        q.kind? = some t.kind ∧ t = q.tokenAt t.kind (place.past (before.flatMap Piece.text)) := by
      intro ht
      obtain ⟨before, q, after, rfl, hq, htoken⟩ := ih ht
      rw [← Place.past_append] at htoken
      exact ⟨p :: before, q, after, rfl, hq, htoken⟩
    rw [locate] at ht
    cases hp : p.kind? with
    | none =>
      rw [hp] at ht
      exact hlater ht
    | some kind =>
      rw [hp] at ht
      rcases List.mem_cons.1 ht with rfl | ht
      · exact ⟨[], p, ps, rfl, hp, by simp [Piece.tokenAt]⟩
      · exact hlater ht

private theorem scans_piece {text : List Char} {before after : List Piece} {p : Piece}
    (h : pieces text = before ++ p :: after) (hblank : ¬ isWhiteSpace p.first) :
    Scans (after.flatMap Piece.text) p.text p.kind? := by
  obtain ⟨c, rest, rfl, hafter⟩ := exists_front before h
  rw [Piece.front_first] at hblank
  rw [hafter]
  exact Piece.front_scans hblank

theorem scans_token {source : List Char} {t : Token} (ht : t ∈ locate {} (pieces source))
    (hkind : t.kind ≠ .endOfInput) :
    ∃ before after, source = before ++ (t.written ++ after) ∧
      t.span = ⟨byteLength before, byteLength (before ++ t.written)⟩ ∧ Scans after t.written (some t.kind) := by
  obtain ⟨before, p, after, hpieces, hp, htoken⟩ := exists_piece_of_mem_locate ht hkind
  have hwritten : t.written = p.text := by
    obtain ⟨c, rest, rfl, -⟩ := exists_front before hpieces
    rw [htoken]
    exact Piece.written_tokenAt _ hp
  have hblank : ¬ isWhiteSpace p.first := by
    intro h
    obtain ⟨c, rest, rfl, -⟩ := exists_front before hpieces
    rw [Piece.front_first] at h
    rw [Piece.front, if_pos h] at hp
    cases hp
  refine ⟨before.flatMap Piece.text, after.flatMap Piece.text, ?_, ?_, ?_⟩
  · rw [hwritten, ← pieces_text source, hpieces]
    simp
  · rw [hwritten, htoken]
    simp [Piece.tokenAt, Place.past]
  · rw [hwritten, ← hp]
    exact scans_piece hpieces hblank

/-- How the tokens in the text behind `before` are found, from left to right.  Each character of the text is a blank or
belongs to a comment or a token, which is chosen as the longest match where it begins. -/
inductive ScansAll : List Char → List Token → List Char → Prop
  /-- At the end of the text is the end mark. -/
  | stop {before : List Char} :
    ScansAll before [⟨.endOfInput, "", 1 + newlines before, ⟨byteLength before, byteLength before⟩⟩] []
  | blank {before rest : List Char} {c : Char} {ts : List Token} (hc : isWhiteSpace c)
    (hts : ScansAll (before ++ [c]) ts rest) : ScansAll before ts (c :: rest)
  | comment {before text rest : List Char} {ts : List Token} (hscans : Scans rest text none)
    (hts : ScansAll (before ++ text) ts rest) : ScansAll before ts (text ++ rest)
  | token {before text rest : List Char} {t : Token} {ts : List Token} (hfirst : ∀ c ∈ text.head?, ¬ isWhiteSpace c)
    (hscans : Scans rest text (some t.kind)) (ht : t.StandsAt before text) (hts : ScansAll (before ++ text) ts rest) :
    ScansAll before (t :: ts) (text ++ rest)

theorem scansAll_locate (before text : List Char) :
    ScansAll before (locate (Place.past {} before) (pieces text)) text := by
  fun_induction pieces text generalizing before with
  | case1 =>
    have hstop : locate (Place.past {} before) [] =
        [⟨.endOfInput, "", 1 + newlines before, ⟨byteLength before, byteLength before⟩⟩] := by
      simp [locate, Token.endAt, Place.past]
    rw [hstop]
    exact .stop
  | case2 c rest p ih =>
    have hrest := ih (before ++ p.text)
    rw [Place.past_append] at hrest
    rw [locate]
    by_cases hblank : isWhiteSpace c
    · have hp : p = .gap c [] := by rw [show p = .front c rest from rfl, Piece.front, if_pos hblank]
      rw [hp] at hrest ⊢
      exact .blank hblank hrest
    have hscans : Scans (rest.drop p.more.length) p.text p.kind? := Piece.front_scans hblank
    have htext : p.text ++ rest.drop p.more.length = c :: rest := Piece.front_text_append c rest
    rw [← htext]
    cases hkind : p.kind? with
    | none =>
      rw [hkind] at hscans
      exact .comment hscans hrest
    | some kind =>
      rw [hkind] at hscans
      refine .token ?_ hscans (Piece.standsAt before hkind) hrest
      rintro d ⟨⟩
      rwa [Piece.front_first]

private theorem scansAll_tokenize (source : String) : ScansAll [] (tokenize source) source.toList := by
  have hscans := scansAll_locate [] source.toList
  rwa [Place.past_nil] at hscans

/-- The tokens and comments of a source are chosen as longest matches. -/
structure ScansLongest (source : String) : Prop where
  /-- The pieces make up the source, -/
  text : (pieces source.toList).flatMap Piece.text = source.toList
  /-- and every piece but the blanks is chosen so. -/
  piece : ∀ before p after, pieces source.toList = before ++ p :: after → ¬ isWhiteSpace p.first →
    Scans (after.flatMap Piece.text) p.text p.kind?
  /-- The tokens are those that are so found from the beginning of the source to its end, -/
  tokens : ScansAll [] (tokenize source) source.toList
  /-- and each of them but the end mark is chosen where its span begins. -/
  token : ∀ t ∈ tokenize source, t.kind ≠ .endOfInput → ∃ before after,
    source.toList = before ++ (t.written ++ after) ∧
      t.span = ⟨byteLength before, byteLength (before ++ t.written)⟩ ∧ Scans after t.written (some t.kind)

/-- Where a token or a comment of a source begins, the longest match with a pattern is chosen. -/
theorem tokenize_longest (source : String) : ScansLongest source where
  text := pieces_text source.toList
  piece _ _ _ h hblank := scans_piece h hblank
  tokens := scansAll_tokenize source
  token _ ht hkind := scans_token ht hkind

/-- A sign that belongs to a number and one that belongs to an operator, and a reserved word that is read as a name for
the character behind it, which is no token. -/
theorem tokenize_longest_signs :
    let source := "a-5=-1 if×//-"
    (tokenize source).map (fun t => (t.kind, t.lexeme)) =
        [(.identifier, "a"), (.number, "-5"), (.operator, "=-"), (.number, "1"), (.identifier, "if"),
          (.error (.unrecognizedCharacter '×'), "×"), (.endOfInput, "")] ∧
      ScansLongest source := by
  intro source
  exact ⟨by decide +kernel, tokenize_longest source⟩

end ThreeAddress
