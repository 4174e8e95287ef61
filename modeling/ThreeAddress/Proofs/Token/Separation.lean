import ThreeAddress.Proofs.Token.Partition

/-!
# Tokens between separators

Texts that are one token each stay these tokens when they are put one after the other with separators between them
(`tokenize_printed`).

* `Filler`, `Separator`: blanks and closed comments, and how they have to begin;
* `Filler.locate_eq`: no token is found in them, whatever they hold;
* `Piece.front_append`: a blank ends a token as the end of the text does;
* `Printed.Alone.locate_eq`: one text gives its token, wherever it stands.
-/

namespace ThreeAddress

/-! ### Separators -/

/-- A blank of ASCII. -/
def isAsciiBlank (c : Char) : Bool := isWhiteSpace c && decide (c.toNat < 0x80)

/-- Blanks and closed comments. -/
inductive Filler : List Char → Prop
  | nil : Filler []
  | blank {c : Char} {rest : List Char} (hc : isWhiteSpace c) (hrest : Filler rest) : Filler (c :: rest)
  /-- From `//` through the end of the line. -/
  | line {body rest : List Char} (hbody : '\n' ∉ body) (hrest : Filler rest) :
    Filler ('/' :: '/' :: (body ++ '\n' :: rest))
  /-- From `/*` through the first `*/` behind it. -/
  | block {body rest : List Char} (hbody : ¬ ['*', '/'] <:+: body ++ ['*']) (hrest : Filler rest) :
    Filler ('/' :: '*' :: (body ++ '*' :: '/' :: rest))

/-- What may stand between two tokens of any kind: a filler that begins with a blank of ASCII. -/
structure Separator (text : List Char) : Prop where
  filler : Filler text
  blank : ∃ c rest, isAsciiBlank c ∧ text = c :: rest

theorem throughCommentEnd_append {body : List Char} (h : ¬ ['*', '/'] <:+: body ++ ['*']) (rest : List Char) :
    throughCommentEnd (body ++ '*' :: '/' :: rest) = body ++ ['*', '/'] := by
  induction body with
  | nil => rfl
  | cons c body ih =>
    have hbody : ¬ ['*', '/'] <:+: body ++ ['*'] := fun hin => h (hin.trans (List.infix_cons List.infix_rfl))
    have hc : ∀ after, c = '*' → body ++ '*' :: '/' :: rest ≠ '/' :: after := by
      rintro after rfl hslash
      cases body with
      | nil => cases hslash
      | cons d body =>
        obtain ⟨rfl, -⟩ := List.cons.inj hslash
        exact h ⟨[], body ++ ['*'], rfl⟩
    rw [List.cons_append, throughCommentEnd, ih hbody]
    · rfl
    · exact hc

/-- A gap only moves the place on. -/
private theorem locate_gap {c : Char} {more rest : List Char} (place : Place)
    (h : Piece.front c (more ++ rest) = .gap c more) :
    locate place (pieces (c :: (more ++ rest))) = locate (place.past (c :: more)) (pieces rest) := by
  rw [pieces, h]
  simp only [Piece.gap, List.drop_left]
  rfl

private theorem locate_blank {c : Char} (hc : isWhiteSpace c) (place : Place) (rest : List Char) :
    locate place (pieces (c :: rest)) = locate (place.past [c]) (pieces rest) :=
  @locate_gap c [] rest place (by rw [Piece.front, if_pos hc])

/-- No token is found in a filler. -/
theorem Filler.locate_eq {text : List Char} (h : Filler text) (place : Place) (rest : List Char) :
    locate place (pieces (text ++ rest)) = locate (place.past text) (pieces rest) := by
  induction h generalizing place with
  | nil => simp
  | @blank c text hc htext ih =>
    rw [List.cons_append, locate_blank hc, ih, ← Place.past_append]
    rfl
  | @line body text hbody htext ih =>
    -- the comment stops before the end of its line, which is a blank
    have hstop : (body ++ '\n' :: (text ++ rest)).takeWhile (· ≠ '\n') = body := by
      rw [List.takeWhile_append_of_pos]
      · simp
      · intro c hc
        exact decide_eq_true (ne_of_mem_of_not_mem hc hbody)
    have hfront : Piece.front '/' (('/' :: body) ++ '\n' :: (text ++ rest)) = .gap '/' ('/' :: body) := by
      rw [Piece.front, if_neg (by decide), if_pos (by rfl), List.cons_append, List.takeWhile_cons_of_pos (by rfl),
        hstop]
    have hcomment := locate_gap place hfront
    have hnewline := locate_blank (c := '\n') (by decide) (place.past ('/' :: '/' :: body)) (text ++ rest)
    simp only [List.cons_append, List.append_assoc] at hcomment ⊢
    rw [hcomment, hnewline, ih, ← Place.past_append, ← Place.past_append]
    simp
  | @block body text hbody htext ih =>
    have hfront : Piece.front '/' (('*' :: (body ++ ['*', '/'])) ++ (text ++ rest)) =
        .gap '/' ('*' :: (body ++ ['*', '/'])) := by
      rw [Piece.front, if_neg (by decide), if_neg (by simp), if_pos (by rfl)]
      simp [throughCommentEnd_append hbody]
    have hcomment := locate_gap place hfront
    simp only [List.cons_append, List.append_assoc, List.nil_append] at hcomment ⊢
    rw [hcomment, ih, ← Place.past_append]
    simp

/-! ### Blanks end tokens -/

/-- A character that goes on with no token. -/
structure EndsTokens (c : Char) : Prop where
  word : continuesWord c = false
  resembles : resemblesWordChar c = false
  digit : c.isDigit = false
  operator : isOperatorChar c = false
  point : c ≠ '.'

theorem endsTokens_of_isAsciiBlank {c : Char} (h : isAsciiBlank c) : EndsTokens c := by
  have hall : ∀ n < 0x80, isAsciiBlank (Char.ofNat n) → continuesWord (Char.ofNat n) = false ∧
      resemblesWordChar (Char.ofNat n) = false ∧ (Char.ofNat n).isDigit = false ∧
      isOperatorChar (Char.ofNat n) = false ∧ Char.ofNat n ≠ '.' := by decide +kernel
  have hascii : c.toNat < 0x80 := of_decide_eq_true (Bool.and_eq_true_iff.1 h).2
  rw [← Char.ofNat_toNat c] at h
  obtain ⟨hword, hresembles, hdigit, hoperator, hpoint⟩ := hall c.toNat hascii h
  rw [Char.ofNat_toNat] at hword hresembles hdigit hoperator hpoint
  exact ⟨hword, hresembles, hdigit, hoperator, hpoint⟩

section Stop

variable {c : Char} {p : Char → Bool} (hc : p c = false) (text rest : List Char)
include hc

theorem takeWhile_append_stop : (text ++ c :: rest).takeWhile p = text.takeWhile p := by
  induction text with
  | nil => simp [hc]
  | cons d text ih => rw [List.cons_append, List.takeWhile_cons, List.takeWhile_cons, ih]

private theorem dropWhile_append_stop : (text ++ c :: rest).dropWhile p = text.dropWhile p ++ c :: rest := by
  induction text with
  | nil => simp [hc]
  | cons d text ih =>
    rw [List.cons_append, List.dropWhile_cons, List.dropWhile_cons, ih]
    split <;> rfl

private theorem any_head?_append_stop : (text ++ c :: rest).head?.any p = text.head?.any p := by
  cases text <;> simp [hc]

end Stop

private theorem numeralRest_append {c : Char} (hc : EndsTokens c) (text rest : List Char) :
    numeralRest (text ++ c :: rest) = numeralRest text := by
  rw [numeralRest, numeralRest, takeWhile_append_stop hc.digit, dropWhile_append_stop hc.digit]
  congr 1
  cases text.dropWhile Char.isDigit with
  | nil => simp [hc.point]
  | cons d fraction =>
    by_cases hd : d = '.'
    · subst hd
      simp only [List.cons_append, takeWhile_append_stop hc.digit]
    · simp [hd]

/-- A string without its closing quote. -/
def Kind.isUnterminated : Kind → Bool
  | .error (.unterminatedString _) => true
  | _ => false

theorem Piece.quoted_append {text : List Char} {kind : Kind} (hkind : (Piece.quoted text).kind? = some kind)
    (hclosed : kind.isUnterminated = false) (rest : List Char) :
    Piece.quoted (text ++ rest) = Piece.quoted text := by
  cases hquote : text.dropWhile (· ≠ '"') with
  | nil =>
    simp only [Piece.quoted, hquote, Option.some.injEq] at hkind
    subst hkind
    cases hclosed
  | cons quote behind =>
    have hbody : (text ++ rest).takeWhile (· ≠ '"') = text.takeWhile (· ≠ '"') := by
      rw [List.takeWhile_append, if_neg]
      intro hall
      have htext := congrArg List.length (List.takeWhile_append_dropWhile (p := (· ≠ '"')) (l := text))
      rw [hquote, List.length_append, hall] at htext
      simp at htext
    have hbehind : (text ++ rest).dropWhile (· ≠ '"') = quote :: (behind ++ rest) := by
      rw [List.dropWhile_append, hquote]
      rfl
    simp only [Piece.quoted, hbody, hbehind, hquote]

private theorem wordKind_append {c : Char} (hc : EndsTokens c) (word text rest : List Char) :
    wordKind word (text ++ c :: rest) = wordKind word text := by
  rw [wordKind, wordKind, any_head?_append_stop hc.resembles]

theorem Piece.front_quote (rest : List Char) : Piece.front '"' rest = .quoted rest := by
  rw [Piece.front, if_neg (by decide), if_neg (by simp), if_neg (by simp), if_neg (by decide), if_neg (by simp),
    if_pos rfl]

/-- A blank behind a token ends it as the end of the text does, if the token does not run to the end of the text. -/
theorem Piece.front_append {c w : Char} {more : List Char} {kind : Kind} (hw : EndsTokens w)
    (hkind : (Piece.front c more).kind? = some kind) (hclosed : kind.isUnterminated = false) (rest : List Char) :
    Piece.front c (more ++ w :: rest) = Piece.front c more := by
  by_cases hquote : c = '"'
  · subst hquote
    rw [Piece.front_quote] at hkind
    rw [Piece.front_quote, Piece.front_quote, Piece.quoted_append hkind hclosed]
  have hhead : ∀ d, isOperatorChar d → ((more ++ w :: rest).head? = some d ↔ more.head? = some d) := by
    intro d hd
    cases more with
    | nil =>
      have hne : w ≠ d := by
        rintro rfl
        simp [hw.operator] at hd
      simp [hne]
    | cons e more => rfl
  have hword : (more.takeWhile continuesWord).length ≤ more.length := (List.takeWhile_prefix _).length_le
  unfold Piece.front at hkind ⊢
  simp only [hhead '/' (by decide), hhead '*' (by decide), any_head?_append_stop hw.digit,
    takeWhile_append_stop hw.word, takeWhile_append_stop hw.operator, List.drop_append_of_le_length hword,
    wordKind_append hw, numeralRest_append hw, if_neg hquote]
  -- only a comment might go on behind the blank, and a comment has no kind
  by_cases hblank : isWhiteSpace c
  · rw [if_pos hblank, if_pos hblank]
  by_cases hline : c = '/' && more.head? = some '/'
  · rw [if_neg hblank, if_pos hline] at hkind
    cases hkind
  by_cases hblock : c = '/' && more.head? = some '*'
  · rw [if_neg hblank, if_neg hline, if_pos hblock] at hkind
    cases hkind
  rw [if_neg hblank, if_neg hblank, if_neg hline, if_neg hline, if_neg hblock, if_neg hblock]

/-! ### One text -/

/-- A text, the token it is meant to be, and what stands behind it. -/
structure Printed where
  text : String
  token : Token
  behind : String

/-- The text alone is its token and no more. -/
def Printed.Alone (p : Printed) : Prop :=
  ∃ stop, tokenize p.text = [p.token, stop] ∧ p.token.span = ⟨0, p.text.utf8ByteSize⟩

/-- The token with a text put before it. -/
def Token.behind (before : List Char) (t : Token) : Token :=
  { t with
    line := t.line + newlines before
    span := ⟨byteLength before + t.span.start, byteLength before + t.span.stop⟩ }

private theorem Piece.tokenAt_past (p : Piece) (kind : Kind) (before : List Char) :
    p.tokenAt kind (Place.past {} before) = (p.tokenAt kind {}).behind before := by
  simp [Piece.tokenAt, Token.behind, Place.past, Nat.add_assoc]

/-- A first piece that is as long as the text is the text. -/
private theorem Piece.front_eq_of_byteLength {c : Char} {more : List Char} {kind : Kind}
    (hkind : (Piece.front c more).kind? = some kind)
    (hlength : byteLength (c :: more) = byteLength (Piece.front c more).text) :
    Piece.front c more = ⟨some kind, c, more⟩ := by
  have hcut := Piece.front_text_append c more
  have hbehind : more.drop (Piece.front c more).more.length = [] := by
    by_contra hne
    have hpos := byteLength_pos hne
    rw [← hcut, byteLength_append] at hlength
    omega
  rw [hbehind, List.append_nil] at hcut
  obtain ⟨hfirst, hmore⟩ := List.cons.inj hcut
  calc Piece.front c more
    _ = ⟨(Piece.front c more).kind?, (Piece.front c more).first, (Piece.front c more).more⟩ := rfl
    _ = ⟨some kind, c, more⟩ := by rw [hkind, hfirst, hmore]

/-- A text that is one token is one piece. -/
theorem Printed.Alone.exists_front {p : Printed} (h : p.Alone) : ∃ c more kind,
    p.text.toList = c :: more ∧ Piece.front c more = ⟨some kind, c, more⟩ ∧
      p.token = (Piece.front c more).tokenAt kind {} := by
  obtain ⟨stop, htokens, hspan⟩ := h
  rw [← byteLength_toList] at hspan
  rw [tokenize] at htokens
  cases htext : p.text.toList with
  | nil =>
    rw [htext, pieces, locate] at htokens
    simp at htokens
  | cons c more =>
    rw [htext, pieces, locate] at htokens
    cases hkind : (Piece.front c more).kind? with
    | none =>
      -- a gap before the token would move its start
      simp only [hkind] at htokens
      have hlaid := laid_locate (Piece.front c more).text (more.drop (Piece.front c more).more.length)
      have hstart := hlaid.pairwise_start.1 p.token (by rw [htokens]; exact List.mem_cons_self)
      have hpos := byteLength_pos (List.cons_ne_nil (Piece.front c more).first (Piece.front c more).more)
      rw [hspan] at hstart
      exact absurd (Nat.lt_of_lt_of_le hpos hstart) (Nat.lt_irrefl 0)
    | some kind =>
      simp only [hkind] at htokens
      obtain ⟨htoken, -⟩ := List.cons.inj htokens
      have hlength : byteLength (c :: more) = byteLength (Piece.front c more).text := calc
        byteLength (c :: more)
        _ = p.token.span.stop := by rw [hspan, htext]
        _ = byteLength (Piece.front c more).text := by simp [← htoken, Piece.tokenAt, Place.past]
      exact ⟨c, more, kind, rfl, Piece.front_eq_of_byteLength hkind hlength, htoken.symm⟩

/-- A text gives its token wherever it stands, if the text behind it is empty or begins with a blank. -/
theorem Printed.Alone.locate_eq {p : Printed} (h : p.Alone) (before : List Char) {after : List Char}
    (hafter : after = [] ∨ (∃ w rest, isAsciiBlank w ∧ after = w :: rest) ∧ p.token.kind.isUnterminated = false) :
    locate (Place.past {} before) (pieces (p.text.toList ++ after)) =
      p.token.behind before :: locate (Place.past {} (before ++ p.text.toList)) (pieces after) := by
  obtain ⟨c, more, kind, htext, hfront, htoken⟩ := h.exists_front
  have hwhole : Piece.front c (more ++ after) = ⟨some kind, c, more⟩ := by
    rcases hafter with rfl | ⟨⟨w, rest, hw, rfl⟩, hclosed⟩
    · rw [List.append_nil, hfront]
    · rw [← hfront]
      refine Piece.front_append (endsTokens_of_isAsciiBlank hw) (by rw [hfront]) ?_ rest
      rwa [htoken] at hclosed
  rw [htext, List.cons_append, pieces, hwhole, htoken, hfront, ← Piece.tokenAt_past, Place.past_append]
  simp [locate, Piece.text]

/-! ### Any number of texts -/

/-- The texts one after the other, each with what stands behind it. -/
def printed : List Printed → String
  | [] => ""
  | p :: ps => p.text ++ p.behind ++ printed ps

/-- A separator stands behind each text, and no string lacks its closing quote.  Neither is needed of the last text if
nothing stands behind it. -/
def Separated : List Printed → Prop
  | [] => True
  | p :: ps =>
    (Separator p.behind.toList ∧ p.token.kind.isUnterminated = false ∨ p.behind = "" ∧ ps = []) ∧ Separated ps

/-- The tokens of the texts, each where its text stands behind `before`, and the end mark. -/
def placed (before : List Char) : List Printed → List Token
  | [] => [.endAt (Place.past {} before)]
  | p :: ps => p.token.behind before :: placed (before ++ p.text.toList ++ p.behind.toList) ps

private theorem locate_printed {ps : List Printed} (halone : ∀ p ∈ ps, p.Alone) (hseparated : Separated ps)
    (before : List Char) : locate (Place.past {} before) (pieces (printed ps).toList) = placed before ps := by
  induction ps generalizing before with
  | nil =>
    rw [printed, String.toList_empty, pieces]
    rfl
  | cons p ps ih =>
    have hp : p.Alone := halone p List.mem_cons_self
    obtain ⟨hbehind, hrest⟩ := hseparated
    have hps := ih (fun q hq => halone q (List.mem_cons_of_mem p hq)) hrest
    rw [printed, placed, String.toList_append, String.toList_append, List.append_assoc, ← hps]
    rcases hbehind with ⟨hseparator, hclosed⟩ | ⟨hnone, rfl⟩
    · obtain ⟨w, more, hw, hmore⟩ := hseparator.blank
      have hblank : ∃ v after, isAsciiBlank v ∧ p.behind.toList ++ (printed ps).toList = v :: after :=
        ⟨w, more ++ (printed ps).toList, hw, by rw [hmore, List.cons_append]⟩
      rw [hp.locate_eq before (Or.inr ⟨hblank, hclosed⟩), hseparator.filler.locate_eq, ← Place.past_append]
    · rw [hnone, printed, String.toList_empty, List.append_nil (before ++ p.text.toList)]
      exact hp.locate_eq before (Or.inl rfl)

/-- Texts that are one token each, with separators between them, give their tokens. -/
theorem tokenize_printed (ps : List Printed) (halone : ∀ p ∈ ps, p.Alone) (hseparated : Separated ps) :
    tokenize (printed ps) = placed [] ps := by
  have h := locate_printed halone hseparated []
  rwa [Place.past_nil] at h

/-- A word, a sign, a number and an open string, with comments between them that hold a quote and a letter. -/
def signAndNumber : List Printed :=
  [⟨"if", ⟨.keyword, "if", 1, ⟨0, 2⟩⟩, " /*\"*/"⟩,
   ⟨"-", ⟨.operator, "-", 1, ⟨0, 1⟩⟩, "\t//x\n"⟩,
   ⟨"5.", ⟨.number, "5.", 1, ⟨0, 2⟩⟩, " "⟩,
   ⟨"\"y ", ⟨.error (.unterminatedString "y "), "\"y ", 1, ⟨0, 3⟩⟩, ""⟩]

theorem tokenize_printed_signAndNumber :
    (∀ p ∈ signAndNumber, p.Alone) ∧ Separated signAndNumber ∧ tokenize "if /*\"*/-\t//x\n5. \"y " =
      [⟨.keyword, "if", 1, ⟨0, 2⟩⟩, ⟨.operator, "-", 1, ⟨8, 9⟩⟩, ⟨.number, "5.", 2, ⟨14, 16⟩⟩,
       ⟨.error (.unterminatedString "y "), "\"y ", 2, ⟨17, 20⟩⟩, ⟨.endOfInput, "", 2, ⟨20, 20⟩⟩] := by
  have halone : ∀ p ∈ signAndNumber, p.Alone := by
    simp only [signAndNumber, List.forall_mem_cons]
    refine ⟨⟨⟨.endOfInput, "", 1, ⟨2, 2⟩⟩, ?_, rfl⟩, ⟨⟨.endOfInput, "", 1, ⟨1, 1⟩⟩, ?_, rfl⟩,
      ⟨⟨.endOfInput, "", 1, ⟨2, 2⟩⟩, ?_, rfl⟩, ⟨⟨.endOfInput, "", 1, ⟨3, 3⟩⟩, ?_, rfl⟩, by simp⟩
    all_goals decide +kernel
  have hseparated : Separated signAndNumber := by
    refine ⟨Or.inl ⟨⟨.blank (by decide) (@Filler.block ['"'] [] (by decide) .nil), ' ', _, by decide, rfl⟩, rfl⟩,
      Or.inl ⟨⟨.blank (by decide) (@Filler.line ['x'] [] (by decide) .nil), '\t', _, by decide, rfl⟩, rfl⟩,
      Or.inl ⟨⟨.blank (by decide) .nil, ' ', _, by decide, rfl⟩, rfl⟩, Or.inr ⟨rfl, rfl⟩, trivial⟩
  have hsource : printed signAndNumber = "if /*\"*/-\t//x\n5. \"y " := by decide +kernel
  have h := tokenize_printed signAndNumber halone hseparated
  rw [hsource] at h
  rw [h]
  exact ⟨halone, hseparated, by decide +kernel⟩

end ThreeAddress
