import ThreeAddress.Proofs.Text
import ThreeAddress.Proofs.Token.Gap
import ThreeAddress.Token.Stream

/-!
# Tokens and gaps partition the source

The spans of the tokens of a source follow one another, each holds the text of its token, and what stands between
them are blanks and whole comments (`tokenize_partitions`).

* `Laid`: how tokens are laid out over the text behind a place;
* `laid_locate`: the tokens of the pieces are laid out over the text of the pieces, by one step for each piece;
* `Laid.stretch`, `Laid.token`, `Laid.place`, `Laid.line`: what a layout says about spans, slices and lines.
-/

namespace ThreeAddress

/-! ### Layouts -/

/-- A token as it is written in a source. -/
def Token.written (t : Token) : List Char :=
  if t.kind = .string then '"' :: (t.lexeme.toList ++ ['"']) else t.lexeme.toList

/-- A token that stands behind the text `before` and is written as `text`. -/
structure Token.StandsAt (t : Token) (before text : List Char) : Prop where
  kind : t.kind ≠ .endOfInput
  nonempty : text ≠ []
  written : t.written = text
  span : t.span = ⟨byteLength before, byteLength (before ++ text)⟩
  line : t.line = 1 + newlines before

/-- The tokens stand, with gaps before them, in the text that begins behind `before`. -/
inductive Laid : List Char → List Token → List Char → Prop
  | stop {before gap : List Char} (hgap : Gap gap []) : Laid before [.endAt (Place.past {} (before ++ gap))] gap
  | next {before gap text rest : List Char} {t : Token} {ts : List Token} (hgap : Gap gap (text ++ rest))
    (ht : t.StandsAt (before ++ gap) text) (hts : Laid (before ++ gap ++ text) ts rest) :
    Laid before (t :: ts) (gap ++ (text ++ rest))

private theorem Laid.here {before text rest : List Char} {t : Token} {ts : List Token} (ht : t.StandsAt before text)
    (hts : Laid (before ++ text) ts rest) : Laid before (t :: ts) (text ++ rest) := by
  rw [← List.append_nil before] at ht hts
  exact .next .nil ht hts

/-- What may be put before any gap may be put before the first one. -/
theorem Laid.skip {before skipped rest : List Char} {ts : List Token}
    (hskip : ∀ gap after, gap ++ after = rest → Gap gap after → Gap (skipped ++ gap) after)
    (h : Laid (before ++ skipped) ts rest) : Laid before ts (skipped ++ rest) := by
  cases h with
  | stop hgap =>
    rw [List.append_assoc]
    exact .stop (hskip _ [] (List.append_nil _) hgap)
  | @next _ gap _ _ _ _ hgap ht hts =>
    rw [List.append_assoc before skipped gap] at ht hts
    rw [← List.append_assoc]
    exact .next (hskip _ _ rfl hgap) ht hts

/-! ### The pieces of a source -/

/-- The text is its first piece with the rest behind it. -/
theorem Piece.front_text_append (c : Char) (rest : List Char) :
    (Piece.front c rest).text ++ rest.drop (Piece.front c rest).more.length = c :: rest := by
  rw [Piece.text, Piece.front_first, List.cons_append, List.prefix_iff_eq_append.1 (Piece.front_more_prefix c rest)]

private theorem Piece.front_kind_ne_endOfInput (c : Char) (rest : List Char) :
    (Piece.front c rest).kind? ≠ some .endOfInput := by
  fun_cases Piece.front c rest with
  | case4 hblank hline hblock hletter more =>
    rcases wordKind_eq (c :: more) (rest.drop more.length) with hkind | hkind <;> simp [hkind]
  | case5 hblank hline hblock hletter hnumeral more =>
    rcases numeralKind_eq (c :: more) with hkind | ⟨cause, hkind⟩ <;> simp [hkind]
  | case6 hblank hline hblock hletter hnumeral hquote =>
    rw [Piece.quoted]
    split <;> simp
  | _ => simp [Piece.gap]

/-- The piece of a string begins and ends with a quote. -/
private theorem Piece.front_string {c : Char} {rest : List Char} (h : (Piece.front c rest).kind? = some .string) :
    c = '"' ∧ ∃ body, (Piece.front c rest).more = body ++ ['"'] := by
  have hquoted : c = '"' ∧ Piece.front c rest = .quoted rest := by
    revert h
    fun_cases Piece.front c rest with
    | case4 hblank hline hblock hletter more =>
      rcases wordKind_eq (c :: more) (rest.drop more.length) with hkind | hkind <;> simp [hkind]
    | case5 hblank hline hblock hletter hnumeral more =>
      rcases numeralKind_eq (c :: more) with hkind | ⟨cause, hkind⟩ <;> simp [hkind]
    | case6 hblank hline hblock hletter hnumeral hquote => exact fun _ => ⟨hquote, rfl⟩
    | _ => simp [Piece.gap]
  obtain ⟨hc, hfront⟩ := hquoted
  rw [hfront] at h ⊢
  refine ⟨hc, ?_⟩
  unfold Piece.quoted at h ⊢
  split at h
  · cases h
  · rename_i quote after hafter
    have hquote := List.head?_dropWhile_not (fun c => decide (c ≠ '"')) rest
    rw [hafter] at hquote
    obtain rfl : quote = '"' := by simpa using hquote
    exact ⟨_, rfl⟩

theorem Piece.written_tokenAt {c : Char} {rest : List Char} {kind : Kind} (place : Place)
    (h : (Piece.front c rest).kind? = some kind) :
    ((Piece.front c rest).tokenAt kind place).written = (Piece.front c rest).text := by
  by_cases hstring : kind = .string
  · subst hstring
    obtain ⟨rfl, body, hbody⟩ := front_string h
    simp [Token.written, Piece.tokenAt, Piece.lexeme, Piece.text, h, hbody]
  · simp [Token.written, Piece.tokenAt, Piece.lexeme, h, hstring]

/-- The token of a piece stands behind the text before it. -/
theorem Piece.standsAt {c : Char} {rest : List Char} {kind : Kind} (before : List Char)
    (h : (Piece.front c rest).kind? = some kind) :
    ((Piece.front c rest).tokenAt kind (Place.past {} before)).StandsAt before (Piece.front c rest).text where
  kind := by
    rintro rfl
    exact front_kind_ne_endOfInput c rest h
  nonempty := List.cons_ne_nil _ _
  written := written_tokenAt _ h
  span := by simp [Piece.tokenAt, Place.past]
  line := by simp [Piece.tokenAt, Place.past]

theorem laid_locate (before text : List Char) :
    Laid before (locate (Place.past {} before) (pieces text)) text := by
  fun_induction pieces text generalizing before with
  | case1 =>
    have hstop : Laid before [.endAt (Place.past {} (before ++ []))] [] := .stop .nil
    rwa [List.append_nil] at hstop
  | case2 c rest p ih =>
    have htext : p.text ++ rest.drop p.more.length = c :: rest := Piece.front_text_append c rest
    have hrest := ih (before ++ p.text)
    rw [Place.past_append] at hrest
    rw [locate, ← htext]
    cases hkind : p.kind? with
    | none =>
      -- a piece without a kind joins the gap before the next token
      refine Laid.skip ?_ hrest
      intro gap after hgapText hgap
      have hp : p.text = c :: p.more := by rw [Piece.text, Piece.front_first]
      rw [hp]
      rcases Piece.front_gap hkind with ⟨hblank, hmore⟩ | hcomment
      · rw [hmore]
        exact .blank hblank hgap
      · rw [← hgapText] at hcomment
        exact .comment hcomment hgap
    | some kind => exact Laid.here (Piece.standsAt before hkind) hrest

theorem laid_tokenize (source : String) : Laid [] (tokenize source) source.toList := by
  have hlaid := laid_locate [] source.toList
  rwa [Place.past_nil] at hlaid

/-! ### What a layout says -/

/-- The stretches before each token, the first of which begins at a byte position. -/
def stretches (start : Nat) : List Token → List Span
  | [] => []
  | t :: ts => ⟨start, t.span.start⟩ :: stretches t.span.stop ts

/-- A stretch of a source that is a gap before what is behind it. -/
def IsGapIn (source : List Char) (s : Span) : Prop :=
  s.start ≤ s.stop ∧ ∃ gap front after, slice? source s.start s.stop = some gap ∧
    splitAtByte? s.stop source = some (front, after) ∧ Gap gap after

private theorem isGapIn_append {gap after : List Char} (before : List Char) (hgap : Gap gap after) :
    IsGapIn (before ++ (gap ++ after)) ⟨byteLength before, byteLength (before ++ gap)⟩ := by
  have hle : byteLength before ≤ byteLength (before ++ gap) := by
    rw [byteLength_append]
    omega
  have hcut := splitAtByte?_append (before ++ gap) after
  rw [List.append_assoc] at hcut
  exact ⟨hle, gap, before ++ gap, after, slice?_append before gap after, hcut, hgap⟩

/-- Tokens that are laid out begin one behind the other. -/
theorem Laid.pairwise_start {before rest : List Char} {tokens : List Token} (h : Laid before tokens rest) :
    (∀ t ∈ tokens, byteLength before ≤ t.span.start) ∧
      tokens.Pairwise fun t u => t.span.start < u.span.start := by
  induction h with
  | stop hgap => simp [Token.endAt, Place.past]
  | @next before gap text rest t ts hgap ht hts ih =>
    have hpos := byteLength_pos ht.nonempty
    have hstart : t.span.start = byteLength before + byteLength gap := by rw [ht.span, byteLength_append]
    simp only [byteLength_append] at ih
    obtain ⟨hbehind, hpairwise⟩ := ih
    refine ⟨?_, List.pairwise_cons.2 ⟨?_, hpairwise⟩⟩
    · intro u hu
      rcases List.mem_cons.1 hu with rfl | hu
      · omega
      · have := hbehind u hu
        omega
    · intro u hu
      have := hbehind u hu
      omega

section Says

variable {source before rest : List Char} {tokens : List Token} (h : Laid before tokens rest)
  (hsource : before ++ rest = source)
include h hsource

theorem Laid.ends : ∃ front line,
    tokens = front ++ [⟨.endOfInput, "", line, ⟨byteLength source, byteLength source⟩⟩] ∧
      ∀ t ∈ front, t.kind ≠ .endOfInput := by
  induction h with
  | @stop before gap hgap =>
    rw [← hsource]
    exact ⟨[], 1 + newlines (before ++ gap), by simp [Token.endAt, Place.past], by simp⟩
  | @next before gap text rest t ts hgap ht hts ih =>
    obtain ⟨front, line, rfl, hfront⟩ := ih (by rw [← hsource]; simp)
    refine ⟨t :: front, line, by simp, ?_⟩
    intro u hu
    rcases List.mem_cons.1 hu with rfl | hu
    · exact ht.kind
    · exact hfront u hu

theorem Laid.token {t : Token} (ht : t ∈ tokens) (hkind : t.kind ≠ .endOfInput) :
    t.span.start < t.span.stop ∧ slice? source t.span.start t.span.stop = some t.written := by
  induction h with
  | stop hgap =>
    obtain rfl := List.mem_singleton.1 ht
    exact absurd rfl hkind
  | @next before gap text rest u ts hgap hu hts ih =>
    rcases List.mem_cons.1 ht with rfl | ht
    · have hpos := byteLength_pos hu.nonempty
      rw [hu.span, hu.written, ← hsource, ← List.append_assoc before]
      refine ⟨?_, slice?_append _ _ _⟩
      simp only [byteLength_append]
      omega
    · exact ih (by rw [← hsource]; simp) ht

theorem Laid.stretch {s : Span} (hs : s ∈ stretches (byteLength before) tokens) : IsGapIn source s := by
  induction h with
  | @stop before gap hgap =>
    obtain rfl := List.mem_singleton.1 hs
    subst hsource
    have hlast := isGapIn_append before hgap
    rw [List.append_nil] at hlast
    simpa [Token.endAt, Place.past] using hlast
  | @next before gap text rest t ts hgap ht hts ih =>
    rcases List.mem_cons.1 hs with rfl | hs
    · have hfirst := isGapIn_append before hgap
      rw [hsource] at hfirst
      rwa [ht.span]
    · rw [ht.span] at hs
      exact ih (by rw [← hsource]; simp) hs

theorem Laid.place {t : Token} (ht : t ∈ tokens) : ∃ front text after, source = front ++ (text ++ after) ∧
    t.span = ⟨byteLength front, byteLength (front ++ text)⟩ ∧ t.line = 1 + newlines front := by
  induction h with
  | @stop before gap hgap =>
    obtain rfl := List.mem_singleton.1 ht
    exact ⟨before ++ gap, [], [], by simp [hsource], by simp [Token.endAt, Place.past],
      by simp [Token.endAt, Place.past]⟩
  | @next before gap text rest u ts hgap hu hts ih =>
    rcases List.mem_cons.1 ht with rfl | ht
    · exact ⟨before ++ gap, text, rest, by simp [← hsource], hu.span, hu.line⟩
    · exact ih (by rw [← hsource]; simp) ht

theorem Laid.line {t : Token} (ht : t ∈ tokens) :
    ∃ front after, source = front ++ after ∧ t.span.start = byteLength front ∧ t.line = 1 + newlines front := by
  obtain ⟨front, text, after, hcut, hspan, hline⟩ := h.place hsource ht
  exact ⟨front, text ++ after, hcut, by rw [hspan], hline⟩

end Says

/-- Tokens whose spans and the gaps between them make up a source. -/
structure Partitions (source : String) (tokens : List Token) : Prop where
  /-- There is one end mark, at the end of the source and behind all other tokens. -/
  ends : ∃ front line,
    tokens = front ++ [⟨.endOfInput, "", line, ⟨source.utf8ByteSize, source.utf8ByteSize⟩⟩] ∧
      ∀ t ∈ front, t.kind ≠ .endOfInput
  /-- Any other token has a span that is not empty and holds what is written there. -/
  token : ∀ t ∈ tokens, t.kind ≠ .endOfInput →
    t.span.start < t.span.stop ∧ slice? source.toList t.span.start t.span.stop = some t.written
  /-- Before each token stands a gap that begins at the end of the token before it. -/
  stretch : ∀ s ∈ stretches 0 tokens, IsGapIn source.toList s
  /-- Each token is on the line that its first byte is on. -/
  line : ∀ t ∈ tokens, t.line = 1 + (source.toUTF8.data.toList.take t.span.start).count 10

/-- The tokens of a source and the gaps between them make up the source. -/
theorem tokenize_partitions (source : String) : Partitions source (tokenize source) := by
  have hlaid : Laid [] (tokenize source) source.toList := by
    have := laid_locate [] source.toList
    rwa [Place.past_nil] at this
  have hsource : [] ++ source.toList = source.toList := List.nil_append _
  refine ⟨?_, ?_, ?_, ?_⟩
  · rw [← byteLength_toList]
    exact hlaid.ends hsource
  · intro t ht hkind
    exact hlaid.token hsource ht hkind
  · intro s hs
    exact hlaid.stretch hsource hs
  · intro t ht
    obtain ⟨front, after, hcut, hstart, hline⟩ := hlaid.line hsource ht
    rw [hstart, count_take_toUTF8 hcut, hline]

end ThreeAddress
