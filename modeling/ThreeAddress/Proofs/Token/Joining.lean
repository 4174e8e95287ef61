import ThreeAddress.Proofs.Token.LongestMatch
import ThreeAddress.Proofs.Token.Separation

/-!
# Texts on lines of their own

The end of a line between two texts keeps their tokens apart, if the first text does not end inside a string or a
comment that goes on over it.  So a text with another one on the lines behind it has the tokens of both
(`tokenize_append_newline`).

* `RunsOn`: a string or a comment that is not closed;
* `Piece.front_newline_or_runsOn`: the first piece of a text is the same with the end of a line behind the text, or
  it runs on;
* `pieces_newline`: all pieces;
* `locate_behind`: pieces behind a text give the tokens of the pieces, moved on by that text.
-/

namespace ThreeAddress

/-! ### What runs on over the end of a line -/

/-- The text `c :: text` is a string without its closing quote or a comment without its end. -/
inductive RunsOn : Char → List Char → Prop
  | string {text : List Char} (hquote : '"' ∉ text) : RunsOn '"' text
  | comment {text : List Char} (hclosed : ¬ ['*', '/'] <:+: text) : RunsOn '/' ('*' :: text)

private theorem not_commentEnd_concat {text : List Char} (h : ¬ ['*', '/'] <:+: text) {c : Char} (hc : c ≠ '/') :
    ¬ ['*', '/'] <:+: text ++ [c] := by
  rw [List.infix_concat_iff]
  rintro (hsuffix | hinfix)
  · have hlast : '/' = c := by simpa using hsuffix.getLast (by simp)
    exact hc hlast.symm
  · exact h hinfix

private theorem RunsOn.concat {c d : Char} {text : List Char} (h : RunsOn c text) (hquote : d ≠ '"')
    (hslash : d ≠ '/') : RunsOn c (text ++ [d]) := by
  cases h with
  | string hnone => exact .string (by simp [hnone, hquote.symm])
  | comment hopen => exact .comment (not_commentEnd_concat hopen hslash)

private theorem Piece.front_block (text : List Char) :
    Piece.front '/' ('*' :: text) = .gap '/' ('*' :: throughCommentEnd text) := by
  rw [Piece.front, if_neg (by decide), if_neg (by simp), if_pos (by rfl), List.tail_cons]

/-- The first piece is all of a text that runs on. -/
theorem RunsOn.front {c : Char} {text : List Char} (h : RunsOn c text) :
    (Piece.front c text).more = text ∧ (Piece.front c text).kind? ≠ some .delimiter := by
  cases h with
  | string hnone =>
    have hall : ∀ d ∈ text, decide (d ≠ '"') = true := by
      intro d hd
      exact decide_eq_true (ne_of_mem_of_not_mem hd hnone)
    rw [Piece.front_quote, Piece.quoted, List.takeWhile_eq_self_iff.2 hall, List.dropWhile_eq_nil_iff.2 hall]
    simp
  | @comment text hopen =>
    have hwhole : throughCommentEnd text = text := by
      rcases throughCommentEnd_cases text with ⟨body, hbody, -⟩ | ⟨hwhole, -⟩
      · obtain ⟨after, hafter⟩ := throughCommentEnd_prefix text
        rw [hbody] at hafter
        exact absurd ⟨body, after, by simpa using hafter⟩ hopen
      · exact hwhole
    rw [Piece.front_block, hwhole]
    simp [Piece.gap]

/-! ### The first piece -/

private theorem endsTokens_newline : EndsTokens '\n' := endsTokens_of_isAsciiBlank (by decide)

private theorem isUnterminated_wordKind (word rest : List Char) : (wordKind word rest).isUnterminated = false := by
  rcases wordKind_eq word rest with hkind | hkind <;> rw [hkind] <;> rfl

private theorem isUnterminated_numeralKind (text : List Char) : (numeralKind text).isUnterminated = false := by
  rw [numeralKind]
  fun_cases numeralError? text <;> rfl

/-- What is neither a blank nor a comment nor a string is a token that is closed. -/
private theorem Piece.exists_front_kind {c : Char} {text : List Char} (hblank : ¬ isWhiteSpace c) (hquote : c ≠ '"')
    (hline : ¬ (c = '/' && text.head? = some '/')) (hblock : ¬ (c = '/' && text.head? = some '*')) :
    ∃ kind, (Piece.front c text).kind? = some kind ∧ kind.isUnterminated = false := by
  rw [Piece.front, if_neg hblank, if_neg hline, if_neg hblock, if_neg hquote]
  repeat' split
  · exact ⟨_, rfl, isUnterminated_wordKind _ _⟩
  · exact ⟨_, rfl, isUnterminated_numeralKind _⟩
  · exact ⟨_, rfl, rfl⟩
  · exact ⟨_, rfl, rfl⟩
  · exact ⟨_, rfl, rfl⟩

theorem Piece.front_newline_or_runsOn (c : Char) (text : List Char) :
    (∀ rest, Piece.front c (text ++ '\n' :: rest) = Piece.front c text) ∨ RunsOn c text := by
  by_cases hblank : isWhiteSpace c
  · refine Or.inl fun rest => ?_
    rw [Piece.front, Piece.front, if_pos hblank, if_pos hblank]
  by_cases hline : c = '/' && text.head? = some '/'
  · -- a comment of one line ends where the line does
    refine Or.inl fun rest => ?_
    have hline' : c = '/' && (text ++ '\n' :: rest).head? = some '/' := by
      cases text with
      | nil => simp at hline
      | cons d text => exact hline
    rw [Piece.front, Piece.front, if_neg hblank, if_neg hblank, if_pos hline, if_pos hline',
      takeWhile_append_stop (by simp)]
  by_cases hblock : c = '/' && text.head? = some '*'
  · simp only [Bool.and_eq_true, decide_eq_true_eq] at hblock
    obtain ⟨rfl, hstar⟩ := hblock
    obtain ⟨body, rfl⟩ := List.head?_eq_some_iff.1 hstar
    rcases throughCommentEnd_cases body with ⟨inside, hinside, hfirst⟩ | ⟨-, hopen⟩
    · refine Or.inl fun rest => ?_
      obtain ⟨after, hafter⟩ := throughCommentEnd_prefix body
      rw [hinside] at hafter
      have hend : throughCommentEnd (body ++ '\n' :: rest) = throughCommentEnd body := by
        rw [hinside, ← hafter]
        simpa using throughCommentEnd_append hfirst (after ++ '\n' :: rest)
      rw [List.cons_append, front_block, front_block, hend]
    · exact Or.inr (.comment hopen)
  by_cases hquote : c = '"'
  · subst hquote
    by_cases hclosed : '"' ∈ text
    · refine Or.inl fun rest => ?_
      have hkind : (Piece.quoted text).kind? = some .string := by
        cases hdrop : text.dropWhile (· ≠ '"') with
        | nil => simpa using List.dropWhile_eq_nil_iff.1 hdrop _ hclosed
        | cons quote behind => simp only [Piece.quoted, hdrop]
      rw [Piece.front_quote, Piece.front_quote, Piece.quoted_append hkind rfl]
    · exact Or.inr (.string hclosed)
  · obtain ⟨kind, hkind, hclosed⟩ := exists_front_kind hblank hquote hline hblock
    exact Or.inl fun rest => Piece.front_append endsTokens_newline hkind hclosed rest

/-! ### All pieces -/

/-- The end of a line behind a text is a piece of its own, or the text ends with a piece that runs on over it. -/
theorem pieces_newline (text : List Char) :
    (∀ rest, pieces (text ++ '\n' :: rest) = pieces text ++ .gap '\n' [] :: pieces rest) ∨
      ∀ before p, pieces (text ++ ['\n', ';']) = before ++ [p] → p.kind? ≠ some .delimiter := by
  fun_induction pieces text with
  | case1 =>
    refine Or.inl fun rest => ?_
    have hfront : Piece.front '\n' rest = .gap '\n' [] := by rw [Piece.front, if_pos (by decide)]
    rw [List.nil_append, pieces, hfront]
    rfl
  | case2 c text p ih =>
    rcases Piece.front_newline_or_runsOn c text with hfront | hruns
    · have hlength : p.more.length ≤ text.length := (Piece.front_more_prefix c text).length_le
      have hcut : ∀ rest, pieces (c :: text ++ '\n' :: rest) =
          p :: pieces (text.drop p.more.length ++ '\n' :: rest) := by
        intro rest
        rw [List.cons_append, pieces, hfront, List.drop_append_of_le_length hlength]
      refine ih.imp ?_ ?_
      · intro hsame rest
        rw [hcut, hsame, List.cons_append]
      · intro hlast before q hq
        rw [hcut] at hq
        cases before with
        | nil =>
          have hnil := (List.cons.inj hq).2
          cases hdrop : text.drop p.more.length <;> simp [hdrop, pieces] at hnil
        | cons r before => exact hlast before q (List.cons.inj hq).2
    · -- a piece that runs on is the last one of the text with a semicolon on the next line
      refine Or.inr ?_
      intro before q hq
      have hnewline := hruns.concat (d := '\n') (by decide) (by decide)
      obtain ⟨hmore, hkind⟩ := (hnewline.concat (d := ';') (by decide) (by decide)).front
      rw [List.append_assoc, List.singleton_append] at hmore hkind
      rw [List.cons_append, pieces, hmore, List.drop_length, pieces] at hq
      cases before with
      | nil =>
        obtain ⟨rfl, -⟩ := List.cons.inj hq
        exact hkind
      | cons r before => simp at hq

/-! ### Tokens behind a text -/

theorem locate_ne_nil (place : Place) (ps : List Piece) : locate place ps ≠ [] := by
  induction ps generalizing place with
  | nil => exact List.cons_ne_nil _ _
  | cons p ps ih =>
    rw [locate]
    cases p.kind? with
    | none => exact ih _
    | some kind => exact List.cons_ne_nil _ _

private theorem locate_append (place : Place) (ps qs : List Piece) :
    locate place (ps ++ qs) = (locate place ps).dropLast ++ locate (place.past (ps.flatMap Piece.text)) qs := by
  induction ps generalizing place with
  | nil => simp [locate]
  | cons p ps ih =>
    rw [List.cons_append, locate, locate, List.flatMap_cons, Place.past_append]
    cases p.kind? with
    | none => exact ih _
    | some kind =>
      dsimp only
      rw [ih, List.dropLast_cons_of_ne_nil (locate_ne_nil _ _), List.cons_append]

/-- The place with a text put before it. -/
def Place.behind (before : List Char) (place : Place) : Place :=
  ⟨byteLength before + place.offset, place.line + newlines before⟩

private theorem Place.behind_past (before text : List Char) (place : Place) :
    (place.behind before).past text = (place.past text).behind before := by
  simp only [Place.past, Place.behind, Place.mk.injEq]
  omega

private theorem Place.past_eq_behind (before : List Char) : Place.past {} before = Place.behind before {} := by
  simp [Place.past, Place.behind]

theorem locate_behind (before : List Char) (place : Place) (ps : List Piece) :
    locate (place.behind before) ps = (locate place ps).map (Token.behind before) := by
  induction ps generalizing place with
  | nil => rfl
  | cons p ps ih =>
    rw [locate, locate, Place.behind_past, ih]
    cases p.kind? with
    | none => rfl
    | some kind =>
      have htoken : p.tokenAt kind (place.behind before) = (p.tokenAt kind place).behind before := by
        rw [Piece.tokenAt, Place.behind_past]
        rfl
      dsimp only
      rw [List.map_cons, htoken]

/-! ### Two texts -/

/-- A token that reaches to the end of a source is its last piece. -/
private theorem exists_last_piece {source : String} {t : Token} (ht : t ∈ tokenize source)
    (hkind : t.kind ≠ .endOfInput) (hstop : t.span.stop = source.utf8ByteSize) :
    ∃ before p, pieces source.toList = before ++ [p] ∧ p.kind? = some t.kind := by
  obtain ⟨before, p, after, hpieces, hp, htoken⟩ := exists_piece_of_mem_locate ht hkind
  have hspan : t.span.stop = byteLength (before.flatMap Piece.text) + byteLength p.text := by
    rw [htoken]
    simp [Piece.tokenAt, Place.past]
  have htext := congrArg byteLength (pieces_text source.toList)
  rw [hpieces, byteLength_toList, ← hstop, hspan] at htext
  cases after with
  | nil => exact ⟨before, p, hpieces, hp⟩
  | cons q after =>
    have hpos : 0 < byteLength q.text := byteLength_pos (List.cons_ne_nil q.first q.more)
    simp only [List.flatMap_append, List.flatMap_cons, byteLength_append] at htext
    omega

/-- A text in which a semicolon on the next line would be a token has, with another text on the next lines, its own
tokens but for the end mark and then those of the other text, moved on. -/
theorem tokenize_append_newline {a : String} (ha : ∃ t ∈ tokenize (a ++ "\n;"), t.kind = .delimiter ∧
      t.lexeme = ";" ∧ t.span = ⟨a.utf8ByteSize + 1, a.utf8ByteSize + 2⟩) (b : String) :
    tokenize (a ++ "\n" ++ b) =
      (tokenize a).dropLast ++ (tokenize b).map (Token.behind (a ++ "\n").toList) := by
  obtain ⟨t, ht, hkind, -, hspan⟩ := ha
  have hlength : (a ++ "\n;").utf8ByteSize = a.utf8ByteSize + 2 := by
    rw [String.utf8ByteSize_append]
    rfl
  obtain ⟨before, p, hlast, hp⟩ := exists_last_piece ht (by rw [hkind]; nofun) (by rw [hspan, hlength])
  rw [String.toList_append] at hlast
  have hpieces : ∀ rest, pieces (a.toList ++ '\n' :: rest) = pieces a.toList ++ .gap '\n' [] :: pieces rest := by
    rcases pieces_newline a.toList with hpieces | hopen
    · exact hpieces
    · exact absurd (hp.trans (congrArg some hkind)) (hopen before p hlast)
  have hsource : (a ++ "\n" ++ b).toList = a.toList ++ '\n' :: b.toList := by simp
  rw [tokenize, hsource, hpieces, locate_append, pieces_text]
  have hbehind : locate (Place.past {} a.toList) (.gap '\n' [] :: pieces b.toList) =
      locate (Place.past {} (a ++ "\n").toList) (pieces b.toList) := by
    rw [String.toList_append, Place.past_append]
    rfl
  rw [hbehind, Place.past_eq_behind, locate_behind]
  rfl

/-- The first text ends with a comment in which neither the quote nor the other comment is opened, and the second one
ends inside a comment. -/
theorem tokenize_append_newline_comment :
    (∃ t ∈ tokenize ("if 1. - //\"/*" ++ "\n;"), t.kind = .delimiter ∧ t.lexeme = ";" ∧ t.span = ⟨14, 15⟩) ∧
      tokenize ("if 1. - //\"/*" ++ "\n" ++ "-5 /*\n") =
        [⟨.keyword, "if", 1, ⟨0, 2⟩⟩, ⟨.number, "1.", 1, ⟨3, 5⟩⟩, ⟨.operator, "-", 1, ⟨6, 7⟩⟩,
         ⟨.number, "-5", 2, ⟨14, 16⟩⟩, ⟨.endOfInput, "", 3, ⟨20, 20⟩⟩] := by
  have hsemicolon : ∃ t ∈ tokenize ("if 1. - //\"/*" ++ "\n;"),
      t.kind = .delimiter ∧ t.lexeme = ";" ∧ t.span = ⟨14, 15⟩ := by
    decide +kernel
  refine ⟨hsemicolon, ?_⟩
  rw [tokenize_append_newline hsemicolon]
  decide +kernel

end ThreeAddress
