import Mathlib.Data.List.TakeWhile
import ThreeAddress.Token.Piece

/-!
# Gaps between tokens

A gap is a sequence of blanks and whole comments.  Where a comment ends depends on the text behind it, so a gap is
a gap before a certain text.

* `throughCommentEnd_cases`: a block comment goes through the first `*/`, or to the end of the text;
* `Piece.front_gap`: a piece without a kind is a blank or a whole comment.
-/

namespace ThreeAddress

/-- A whole comment before the text `after`. -/
inductive Comment : List Char → List Char → Prop
  /-- From `//` up to the end of the line or of the text. -/
  | line {body after : List Char} (hbody : '\n' ∉ body) (hafter : ∀ c ∈ after.head?, c = '\n') :
    Comment ('/' :: '/' :: body) after
  /-- From `/*` through the first `*/` behind it. -/
  | block {body after : List Char} (hbody : ¬ ['*', '/'] <:+: body ++ ['*']) :
    Comment ('/' :: '*' :: (body ++ ['*', '/'])) after
  /-- From `/*` to the end of the text. -/
  | unclosed {body : List Char} (hbody : ¬ ['*', '/'] <:+: body) : Comment ('/' :: '*' :: body) []

/-- Blanks and whole comments before the text `after`. -/
inductive Gap : List Char → List Char → Prop
  | nil {after : List Char} : Gap [] after
  | blank {c : Char} {gap after : List Char} (hc : isWhiteSpace c) (hgap : Gap gap after) : Gap (c :: gap) after
  | comment {text gap after : List Char} (htext : Comment text (gap ++ after)) (hgap : Gap gap after) :
    Gap (text ++ gap) after

/-! ### Where comments end -/

/-- A character put before a text adds an end of a comment only if it is the star of one. -/
private theorem not_commentEnd_cons {c : Char} {text : List Char} (h : ¬ ['*', '/'] <:+: text)
    (hc : ∀ rest, c = '*' → text ≠ '/' :: rest) : ¬ ['*', '/'] <:+: c :: text := by
  rw [List.infix_cons_iff]
  rintro (⟨rest, hrest⟩ | htext)
  · simp only [List.cons_append, List.nil_append, List.cons.injEq] at hrest
    exact hc rest hrest.1.symm hrest.2.symm
  · exact h htext

theorem throughCommentEnd_cases (text : List Char) :
    (∃ body, throughCommentEnd text = body ++ ['*', '/'] ∧ ¬ ['*', '/'] <:+: body ++ ['*']) ∨
      throughCommentEnd text = text ∧ ¬ ['*', '/'] <:+: text := by
  fun_induction throughCommentEnd text with
  | case1 rest => exact Or.inl ⟨[], rfl, by decide⟩
  | case2 c text hne ih =>
    have hstar : ∀ rest, c = '*' → text ≠ '/' :: rest := by
      rintro rest rfl rfl
      exact hne rest rfl rfl
    rcases ih with ⟨body, hbody, hfirst⟩ | ⟨hall, hnone⟩
    · -- the body and the star behind it are the front of the text
      obtain ⟨after, hafter⟩ := throughCommentEnd_prefix text
      have hfront : text = (body ++ ['*']) ++ '/' :: after := by
        rw [← hafter, hbody]
        simp
      have hnone : ¬ ['*', '/'] <:+: c :: (body ++ ['*']) := by
        refine not_commentEnd_cons hfirst ?_
        intro rest hc hrest
        rw [hrest] at hfront
        exact hstar _ hc hfront
      exact Or.inl ⟨c :: body, by rw [hbody]; rfl, hnone⟩
    · exact Or.inr ⟨by rw [hall], not_commentEnd_cons hnone hstar⟩
  | case3 => exact Or.inr ⟨rfl, by decide⟩

private theorem line_comment {rest : List Char} (h : rest.head? = some '/') :
    Comment ('/' :: rest.takeWhile (· ≠ '\n')) (rest.drop (rest.takeWhile (· ≠ '\n')).length) := by
  obtain ⟨text, rfl⟩ := List.head?_eq_some_iff.1 h
  have hslash : ('/' :: text).takeWhile (· ≠ '\n') = '/' :: text.takeWhile (· ≠ '\n') := by simp
  have hbehind : text.drop (text.takeWhile (· ≠ '\n')).length = text.dropWhile (· ≠ '\n') :=
    calc text.drop (text.takeWhile (· ≠ '\n')).length
      _ = (text.takeWhile (· ≠ '\n') ++ text.dropWhile (· ≠ '\n')).drop (text.takeWhile (· ≠ '\n')).length := by
        rw [List.takeWhile_append_dropWhile]
      _ = text.dropWhile (· ≠ '\n') := List.drop_left
  rw [hslash, List.length_cons, List.drop_succ_cons, hbehind]
  refine .line ?_ ?_
  · intro hmem
    have := List.mem_takeWhile_imp hmem
    simp at this
  · intro c hc
    have := List.head?_dropWhile_not (fun c => decide (c ≠ '\n')) text
    rw [Option.mem_def.1 hc] at this
    simpa using this

private theorem block_comment (text : List Char) :
    Comment ('/' :: '*' :: throughCommentEnd text) (text.drop (throughCommentEnd text).length) := by
  rcases throughCommentEnd_cases text with ⟨body, hbody, hfirst⟩ | ⟨hall, hnone⟩
  · rw [hbody]
    exact .block hfirst
  · rw [hall, List.drop_length]
    exact .unclosed hnone

theorem Piece.front_gap {c : Char} {rest : List Char} (h : (Piece.front c rest).kind? = none) :
    (isWhiteSpace c ∧ (Piece.front c rest).more = []) ∨
      Comment (c :: (Piece.front c rest).more) (rest.drop (Piece.front c rest).more.length) := by
  by_cases hblank : isWhiteSpace c
  · have hfront : Piece.front c rest = .gap c [] := by rw [Piece.front, if_pos hblank]
    rw [hfront]
    exact Or.inl ⟨hblank, rfl⟩
  by_cases hline : c = '/' && rest.head? = some '/'
  · have hfront : Piece.front c rest = .gap c (rest.takeWhile (· ≠ '\n')) := by
      rw [Piece.front, if_neg hblank, if_pos hline]
    simp only [Bool.and_eq_true, decide_eq_true_eq] at hline
    obtain ⟨rfl, hslash⟩ := hline
    rw [hfront]
    exact Or.inr (line_comment hslash)
  by_cases hblock : c = '/' && rest.head? = some '*'
  · have hfront : Piece.front c rest = .gap c ('*' :: throughCommentEnd rest.tail) := by
      rw [Piece.front, if_neg hblank, if_neg hline, if_pos hblock]
    simp only [Bool.and_eq_true, decide_eq_true_eq] at hblock
    obtain ⟨rfl, hstar⟩ := hblock
    obtain ⟨text, rfl⟩ := List.head?_eq_some_iff.1 hstar
    rw [hfront]
    exact Or.inr (block_comment text)
  · -- every other piece has a kind
    rw [Piece.front, if_neg hblank, if_neg hline, if_neg hblock] at h
    unfold Piece.quoted at h
    repeat' split at h
    all_goals cases h

end ThreeAddress
