import ThreeAddress.Proofs.Token.LongestMatch
import ThreeAddress.Proofs.Token.Separation

/-!
# Texts of single tokens

A token without a lexical error is written in the same way wherever it stands: its text alone is one token
(`oneToken_written`).  So it is known where such a text ends, if a character that ends tokens is behind it
(`OneToken.append_inj`).
-/

namespace ThreeAddress

/-- The text is one token without a lexical error. -/
def OneToken (text : List Char) : Prop :=
  ∃ c more kind, text = c :: more ∧ Piece.front c more = ⟨some kind, c, more⟩ ∧ kind.category ≠ .error

private theorem Piece.front_more_append {c w : Char} {more : List Char} {kind : Kind}
    (hfront : Piece.front c more = ⟨some kind, c, more⟩) (hkind : kind.category ≠ .error) (hw : EndsTokens w)
    (rest : List Char) : (Piece.front c (more ++ w :: rest)).more = more := by
  have hclosed : kind.isUnterminated = false := by
    cases kind with
    | error cause => exact absurd rfl hkind
    | _ => rfl
  rw [Piece.front_append hw (by rw [hfront]) hclosed, hfront]

theorem OneToken.append_inj {u v rest rest' : List Char} {w w' : Char} (hu : OneToken u) (hv : OneToken v)
    (hw : EndsTokens w) (hw' : EndsTokens w') (h : u ++ w :: rest = v ++ w' :: rest') :
    u = v ∧ w :: rest = w' :: rest' := by
  obtain ⟨c, more, kind, rfl, hfront, hkind⟩ := hu
  obtain ⟨c', more', kind', rfl, hfront', hkind'⟩ := hv
  rw [List.cons_append, List.cons_append, List.cons.injEq] at h
  obtain ⟨rfl, h⟩ := h
  -- the first piece of the text is both
  have hmore : more = more' := by
    rw [← Piece.front_more_append hfront hkind hw rest, h, Piece.front_more_append hfront' hkind' hw' rest']
  subst hmore
  exact ⟨rfl, List.append_cancel_left h⟩

/-- What begins with a parenthesis is one, and an underscore begins no token. -/
theorem OneToken.of_first {c : Char} {more : List Char} (h : OneToken (c :: more)) :
    (c = '(' → more = []) ∧ c ≠ '_' := by
  obtain ⟨d, rest, kind, htext, hfront, hkind⟩ := h
  obtain ⟨rfl, rfl⟩ := List.cons.inj htext
  constructor
  · rintro rfl
    have hdelimiter : Piece.front '(' more = ⟨some .delimiter, '(', []⟩ := by
      rw [Piece.front, if_neg (by decide), if_neg (by simp), if_neg (by simp), if_neg (by decide), if_neg (by simp),
        if_neg (by decide), if_neg (by decide), if_pos (by decide)]
    rw [hdelimiter, Piece.mk.injEq] at hfront
    exact hfront.2.2.symm
  · rintro rfl
    have herror : Piece.front '_' more = ⟨some (.error (.unrecognizedCharacter '_')), '_', []⟩ := by
      rw [Piece.front, if_neg (by decide), if_neg (by simp), if_neg (by simp), if_neg (by decide), if_neg (by simp),
        if_neg (by decide), if_neg (by decide), if_neg (by decide)]
    rw [herror, Piece.mk.injEq, Option.some.injEq] at hfront
    rw [← hfront.1] at hkind
    exact hkind rfl

/-! ### The classes of tokens -/

section Classes

variable {c : Char} {more : List Char}

private theorem oneToken_word (hblank : ¬ isWhiteSpace c) (hc : isLetter c) (hmore : ∀ d ∈ more, continuesWord d) :
    OneToken (c :: more) := by
  have hslash : c ≠ '/' := by
    rintro rfl
    exact absurd hc (by decide)
  refine ⟨c, more, wordKind (c :: more) [], rfl, ?_, ?_⟩
  · simp [Piece.front, hblank, hslash, hc, List.takeWhile_eq_self_iff.2 hmore]
  · unfold wordKind
    split <;> simp [Kind.category]

private theorem oneToken_numeral (hblank : ¬ isWhiteSpace c) (hletter : ¬ isLetter c) (hc : beginsNumeral c more)
    (hmore : numeralRest more = more) (herror : (numeralKind (c :: more)).category ≠ .error) :
    OneToken (c :: more) := by
  have hslash : c ≠ '/' := by
    rintro rfl
    simp [beginsNumeral] at hc
  refine ⟨c, more, numeralKind (c :: more), rfl, ?_, herror⟩
  rw [Piece.front, if_neg hblank, if_neg (by simp [hslash]), if_neg (by simp [hslash]), if_neg hletter,
    ← beginsNumeral, if_pos hc, hmore]

private theorem oneToken_string {body : List Char} (hbody : ∀ d ∈ body, d ≠ '"') :
    OneToken ('"' :: (body ++ ['"'])) := by
  have hpos : ∀ d ∈ body, decide (d ≠ '"') = true := by simpa using hbody
  refine ⟨'"', body ++ ['"'], .string, rfl, ?_, by simp [Kind.category]⟩
  rw [Piece.front_quote, Piece.quoted, List.takeWhile_append_of_pos hpos, List.dropWhile_append_of_pos hpos]
  simp

private theorem oneToken_operator (hc : isOperatorChar c) (hmore : ∀ d ∈ more, isOperatorChar d)
    (hcomment : c = '/' → more.head? ≠ some '/' ∧ more.head? ≠ some '*') : OneToken (c :: more) := by
  have hchars : ∀ d, isOperatorChar d → ¬ isWhiteSpace d ∧ ¬ isLetter d ∧ ¬ d.isDigit ∧ d ≠ '"' := by
    intro d hd
    have hall : ['+', '-', '*', '/', '=', '!', '<', '>', '&', '|', '≠'].all fun d =>
        !isWhiteSpace d && !isLetter d && !d.isDigit && d ≠ '"' := by decide +kernel
    have hd' := List.all_eq_true.1 hall d (List.contains_iff_mem.1 hd)
    simpa [and_assoc] using hd'
  obtain ⟨hblank, hletter, hdigit, hquote⟩ := hchars c hc
  have hnumeral : ¬ (c.isDigit || c = '-' && more.head?.any Char.isDigit) := by
    rw [Bool.or_eq_true, Bool.and_eq_true, Option.any_eq_true]
    rintro (h | ⟨-, d, hd, h⟩)
    · exact hdigit h
    · exact (hchars d (hmore d (List.mem_of_mem_head? hd))).2.2.1 h
  refine ⟨c, more, .operator, rfl, ?_, by simp [Kind.category]⟩
  rw [Piece.front, if_neg hblank, if_neg (by simpa using fun h => (hcomment h).1),
    if_neg (by simpa using fun h => (hcomment h).2), if_neg hletter, if_neg hnumeral, if_neg hquote, if_pos hc,
    List.takeWhile_eq_self_iff.2 hmore]

private theorem oneToken_delimiter (hc : isDelimiter c) : OneToken [c] := by
  have hall : ['(', ')', '\x7b', '\x7d', ';', ','].all fun d => Piece.front d [] = ⟨some .delimiter, d, []⟩ := by
    decide
  have hfront := List.all_eq_true.1 hall c (List.contains_iff_mem.1 hc)
  exact ⟨c, [], .delimiter, rfl, by simpa using hfront, by simp [Kind.category]⟩

end Classes

/-! ### The text of a token -/

private theorem numeralRest_numeralRest (text : List Char) : numeralRest (numeralRest text) = numeralRest text := by
  have hpart : numeralRest (numeralRest text) <+: numeralRest text := numeralRest_prefix _
  refine hpart.eq_of_length_le ?_
  obtain ⟨fraction, hrest, hfraction⟩ := isFraction_numeralRest text
  have hdigits : ∀ c ∈ text.takeWhile Char.isDigit, c.isDigit := fun c hc => List.mem_takeWhile_imp hc
  rw [hrest]
  exact length_le_numeralRest List.prefix_rfl hdigits hfraction

private theorem beginsNumeral_numeralRest {c : Char} {rest : List Char} (h : beginsNumeral c rest) :
    beginsNumeral c (numeralRest rest) := by
  simp only [beginsNumeral, Bool.or_eq_true, Bool.and_eq_true, Option.any_eq_true] at h ⊢
  rcases h with h | ⟨hc, d, hd, hdigit⟩
  · exact Or.inl h
  · obtain ⟨text, rfl⟩ := List.head?_eq_some_iff.1 hd
    exact Or.inr ⟨hc, d, by simp [numeralRest, hdigit], hdigit⟩

/-- The first piece of a text is one token when it stands alone. -/
private theorem oneToken_front {c : Char} {rest : List Char} {kind : Kind}
    (hkind : (Piece.front c rest).kind? = some kind)
    (herror : kind.category ≠ .error) : OneToken (Piece.front c rest).text := by
  by_cases hblank : isWhiteSpace c
  · rw [Piece.front, if_pos hblank] at hkind
    cases hkind
  by_cases hline : c = '/' && rest.head? = some '/'
  · rw [Piece.front, if_neg hblank, if_pos hline] at hkind
    cases hkind
  by_cases hblock : c = '/' && rest.head? = some '*'
  · rw [Piece.front, if_neg hblank, if_neg hline, if_pos hblock] at hkind
    cases hkind
  rw [Piece.front, if_neg hblank, if_neg hline, if_neg hblock, ← beginsNumeral] at hkind ⊢
  by_cases hletter : isLetter c
  · rw [if_pos hletter]
    exact oneToken_word hblank hletter fun d hd => List.mem_takeWhile_imp hd
  rw [if_neg hletter] at hkind ⊢
  by_cases hnumeral : beginsNumeral c rest
  · rw [if_pos hnumeral] at hkind ⊢
    obtain rfl := Option.some.inj hkind
    exact oneToken_numeral hblank hletter (beginsNumeral_numeralRest hnumeral) (numeralRest_numeralRest rest) herror
  rw [if_neg hnumeral] at hkind ⊢
  by_cases hquote : c = '"'
  · rw [if_pos hquote] at hkind ⊢
    cases hrest : rest.dropWhile (· ≠ '"') with
    | nil =>
      simp only [Piece.quoted, hrest, Option.some.injEq] at hkind
      subst hkind
      exact absurd rfl herror
    | cons quote behind =>
      have hfirst := List.head?_dropWhile_not (fun d => decide (d ≠ '"')) rest
      rw [hrest] at hfirst
      obtain rfl : quote = '"' := by simpa using hfirst
      simp only [Piece.quoted, hrest, Piece.text]
      exact oneToken_string fun d hd => by simpa using List.mem_takeWhile_imp hd
  rw [if_neg hquote] at hkind ⊢
  by_cases hoperator : isOperatorChar c
  · rw [if_pos hoperator]
    refine oneToken_operator hoperator (fun d hd => List.mem_takeWhile_imp hd) ?_
    rintro rfl
    have hhead : rest.head? ≠ some '/' ∧ rest.head? ≠ some '*' := by simpa using And.intro hline hblock
    rw [List.head?_takeWhile]
    exact ⟨fun h => hhead.1 (Option.filter_eq_some_iff.1 h).1, fun h => hhead.2 (Option.filter_eq_some_iff.1 h).1⟩
  rw [if_neg hoperator] at hkind ⊢
  by_cases hdelimiter : isDelimiter c
  · rw [if_pos hdelimiter]
    exact oneToken_delimiter hdelimiter
  · rw [if_neg hdelimiter] at hkind
    obtain rfl := Option.some.inj hkind
    exact absurd rfl herror

/-- Every token without a lexical error is written as one token. -/
theorem oneToken_written {source : String} {t : Token} (ht : t ∈ tokenize source) (hend : t.kind ≠ .endOfInput)
    (herror : t.isError = false) : OneToken t.written := by
  obtain ⟨before, p, after, hpieces, hp, htoken⟩ := exists_piece_of_mem_locate ht hend
  obtain ⟨c, rest, rfl, -⟩ := exists_front before hpieces
  have hkind : t.kind.category ≠ .error := by simpa [Token.isError] using herror
  rw [htoken, Piece.written_tokenAt _ hp]
  exact oneToken_front hp hkind

private theorem Piece.front_operator {c : Char} {rest : List Char} (h : (Piece.front c rest).kind? = some .operator) :
    ∀ d ∈ (Piece.front c rest).text, isOperatorChar d := by
  have hrun : isOperatorChar c ∧ Piece.front c rest = ⟨some .operator, c, rest.takeWhile isOperatorChar⟩ := by
    revert h
    fun_cases Piece.front c rest with
    | case4 hblank hline hblock hletter more =>
      rcases wordKind_eq (c :: more) (rest.drop more.length) with hkind | hkind <;> simp [hkind]
    | case5 hblank hline hblock hletter hnumeral more =>
      rcases numeralKind_eq (c :: more) with hkind | ⟨cause, hkind⟩ <;> simp [hkind]
    | case6 hblank hline hblock hletter hnumeral hquote =>
      rw [Piece.quoted]
      split <;> simp
    | case7 hblank hline hblock hletter hnumeral hquote hoperator => exact fun _ => ⟨hoperator, rfl⟩
    | _ => simp [Piece.gap]
  intro d hd
  rw [hrun.2, Piece.text, List.mem_cons] at hd
  rcases hd with rfl | hd
  · exact hrun.1
  · exact List.mem_takeWhile_imp hd

theorem isOperatorChar_of_mem_lexeme {source : String} {t : Token} (ht : t ∈ tokenize source)
    (hkind : t.kind = .operator) : ∀ d ∈ t.lexeme.toList, isOperatorChar d := by
  obtain ⟨before, p, after, hpieces, hp, htoken⟩ := exists_piece_of_mem_locate ht (by simp [hkind])
  obtain ⟨c, rest, rfl, -⟩ := exists_front before hpieces
  rw [hkind] at hp htoken
  have hlexeme : t.lexeme.toList = (Piece.front c rest).text := by simp [htoken, Piece.tokenAt, Piece.lexeme, hp]
  rw [hlexeme]
  exact Piece.front_operator hp

end ThreeAddress
