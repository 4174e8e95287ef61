import ThreeAddress.Proofs.Program.Concatenation
import ThreeAddress.Proofs.Token.Joining

/-!
# The end mark

Tokens are read up to an end mark, and one is made up behind the last token where there is none.  A list of tokens is
read alike with an end mark of its own behind it and without one: all that may change is the place of a last error,
which is met at the end mark (`parse_append_endMark`).

The end mark that is made up is on the line on which the last token begins, and at the byte at which it ends.  So the
line of an error at the end of the first tokens of a source is that of its span exactly if the last of these tokens is
on one line (`endError_line`), and a string need not be (`endError_line_string`).

* `Pending.step_endMark`: what an end mark does depends only on its text;
* `Attempt.endMark`, `Trail.endMark`: declarations have the same fates with another end mark;
* `Accounts.append_endMark`: so the same tokens are accounted for in the same way;
* `isString_of_newline_mem`: a line ends only inside strings.
-/

namespace ThreeAddress

/-! ### Another end mark -/

theorem Pending.step_endMark {t u : Token} (ht : t.kind = .endOfInput) (hu : u.kind = .endOfInput)
    (hlexeme : t.lexeme = u.lexeme) (d : Pending) : d.step t = d.step u := by
  obtain ⟨kind, lexeme, line, span⟩ := t
  obtain ⟨kind', lexeme', line', span'⟩ := u
  cases ht
  cases hu
  cases hlexeme
  -- line and span are looked at only where a token begins a statement, and an end mark begins none
  obtain ⟨phase, blocks⟩ := d
  cases phase with
  | declaration => cases blocks <;> rfl
  | header keyword line => cases keyword <;> rfl
  | afterTerm role before last => cases role <;> rfl
  | afterThen cond body line => cases blocks <;> rfl
  | _ => rfl

/-- A declaration fails where a step of it does. -/
private theorem Pending.read_of_step_fail {stop : Token} {d d' : Pending} {ts : List Token} {k : Nat}
    {cause : SyntaxCause} (htake : d.take? (ts.take k) = some d') (hstep : d'.step (ts[k]?.getD stop) = .fail cause) :
    d.read stop ts = ⟨.error (.at cause (ts[k]?.getD stop)), ts.drop (k + 1)⟩ := by
  have hread : d.read stop ts = d'.read stop (ts.drop k) := by
    have htaken := read_of_take? htake stop (ts.drop k)
    rwa [List.take_append_drop] at htaken
  rw [hread]
  cases hk : ts[k]? with
  | none =>
    have hlength := List.getElem?_eq_none_iff.1 hk
    rw [hk, Option.getD_none] at hstep
    rw [List.drop_eq_nil_of_le hlength, List.drop_eq_nil_of_le (by omega), Pending.read, hstep]
    rfl
  | some t =>
    obtain ⟨hlt, rfl⟩ := List.getElem?_eq_some_iff.1 hk
    rw [hk, Option.getD_some] at hstep
    rw [List.drop_eq_getElem_cons hlt, Pending.read_cons, hstep]
    rfl

section Marks

variable {stop stop' : Token} (hstop : stop.kind = .endOfInput) (hstop' : stop'.kind = .endOfInput)
  (hlexeme : stop.lexeme = stop'.lexeme)
include hstop hstop' hlexeme

private theorem Pending.read_ok_endMark {d : Pending} {ts rest : List Token} {s : Stmt}
    (h : d.read stop ts = ⟨.ok s, rest⟩) : d.read stop' ts = ⟨.ok s, rest⟩ := by
  induction ts generalizing d with
  | nil =>
    rw [Pending.read] at h ⊢
    rw [← step_endMark hstop hstop' hlexeme]
    cases hstep : d.step stop with
    | fail cause =>
      rw [hstep] at h
      cases h
    | more next =>
      rw [hstep] at h
      cases h
    | _ =>
      rw [hstep] at h
      exact h
  | cons t ts ih =>
    rw [Pending.read_cons] at h ⊢
    cases hstep : d.step t with
    | more next =>
      rw [hstep] at h
      exact ih h
    | _ =>
      rw [hstep] at h
      exact h

/-- A declaration has the same fate with another end mark. -/
theorem Attempt.endMark {tokens : List Token} {i j : Nat} {fate : Fate} (h : Attempt ⟨tokens, stop⟩ i j fate) :
    Attempt ⟨tokens, stop'⟩ i j fate := by
  cases h with
  | read hij hj hread => exact .read hij hj (Pending.read_ok_endMark hstop hstop' hlexeme hread)
  | @failed p cause hi hip hp hfails hread =>
    obtain ⟨d, htake, hstep⟩ := hfails
    have hstep' : d.step (Input.tokenAt ⟨tokens, stop'⟩ p) = .fail cause := by
      rw [Input.tokenAt] at hstep ⊢
      cases htoken : tokens[p]? with
      | some t => rwa [htoken] at hstep
      | none =>
        rw [htoken, Option.getD_none, Pending.step_endMark hstop hstop' hlexeme] at hstep
        exact hstep
    have htoken : (tokens.drop i)[p - i]?.getD stop' = Input.tokenAt ⟨tokens, stop'⟩ p := by
      rw [List.getElem?_drop, Nat.add_sub_cancel' hip, Input.tokenAt]
    have hread' : Pending.start.read stop' (tokens.drop i) =
        ⟨.error (.at cause ((tokens.drop i)[p - i]?.getD stop')), (tokens.drop i).drop (p - i + 1)⟩ :=
      Pending.read_of_step_fail htake (by rwa [htoken])
    rw [htoken, List.drop_drop, ← Nat.add_assoc, Nat.add_sub_cancel' hip] at hread'
    exact .failed hi hip hp ⟨d, htake, hstep'⟩ hread'

theorem Trail.endMark {tokens : List Token} {i k : Nat} {fates : List Fate} (h : Trail ⟨tokens, stop⟩ i fates k) :
    Trail ⟨tokens, stop'⟩ i fates k := by
  induction h with
  | refl i => exact .refl i
  | cons hfirst hrest ih => exact .cons (hfirst.endMark hstop hstop' hlexeme) ih

end Marks

/-! ### Tokens with an end mark behind them -/

private theorem Input.ofTokens_append_endMark {tokens : List Token} (hend : NoEnd tokens) {mark : Token}
    (hmark : mark.kind = .endOfInput) (behind : List Token) :
    Input.ofTokens (tokens ++ mark :: behind) = ⟨tokens, mark⟩ := by
  rw [Input.ofTokens_append hend (List.cons_ne_nil mark behind)]
  simp [Input.ofTokens, Token.isEnd, hmark]

private theorem Token.lexeme_endAfter (tokens : List Token) : (Token.endAfter tokens).lexeme = "" := by
  unfold Token.endAfter
  split <;> rfl

/-- The same declarations account for the tokens with an end mark behind them. -/
theorem Accounts.append_endMark {tokens : List Token} {fates : List Fate} (h : Accounts tokens fates)
    (hend : NoEnd tokens) {mark : Token} (hmark : mark.kind = .endOfInput) (hempty : mark.lexeme = "")
    (behind : List Token) : Accounts (tokens ++ mark :: behind) fates := by
  have hindex : (tokens ++ mark :: behind).findIdx Token.isEnd = tokens.findIdx Token.isEnd := by
    rw [← Input.ofTokens_length, ← Input.ofTokens_length, Input.ofTokens_append_endMark hend hmark,
      Input.ofTokens_eq hend]
  have htrail := h.trail
  rw [Input.ofTokens_eq hend] at htrail
  apply accounts_of_trail
  rw [Input.ofTokens_append_endMark hend hmark, hindex]
  exact htrail.endMark (Token.kind_endAfter tokens) hmark ((Token.lexeme_endAfter tokens).trans hempty.symm)

private theorem Accounts.ne_nil {tokens : List Token} {fates : List Fate} (h : Accounts tokens fates) {f : FailurePoint}
    (hf : f ∈ failures fates) : tokens ≠ [] := by
  rintro rfl
  have hnone : fates = [] := Trail.eq_nil_of_end h.trail
  rw [hnone] at hf
  cases hf

/-- The error of a declaration that fails at the end is behind the last token. -/
private theorem Accounts.exists_last {tokens : List Token} {fates : List Fate} (h : Accounts tokens fates)
    {cause : SyntaxCause} (hf : ⟨tokens.length, cause⟩ ∈ failures fates) :
    ∃ last, tokens.getLast? = some last ∧
      FailurePoint.errorIn tokens ⟨tokens.length, cause⟩ = ⟨cause, last.line, ⟨last.span.stop, last.span.stop⟩⟩ := by
  have hlast := List.getLast?_eq_some_getLast (h.ne_nil hf)
  refine ⟨_, hlast, ?_⟩
  rw [FailurePoint.errorIn, List.getElem?_eq_none (Nat.le_refl _), hlast]

/-- The errors of tokens with the end mark `mark` behind them (`marked`) and without one (`errors`), when declarations
fail at the given points. -/
inductive AlikeButEnd (tokens : List Token) (mark : Token) (points : List FailurePoint)
    (marked errors : List SyntaxError) : Prop
  /-- They are the same if no declaration fails at the end. -/
  | inside (hinside : ∀ f ∈ points, f.position < tokens.length) (herrors : marked = errors)
  /-- Only the last declaration may fail there, and its error is at the end mark or behind the last token. -/
  | atEnd {before : List FailurePoint} {cause : SyntaxCause} {last : Token} {shared : List SyntaxError}
    (hpoints : points = before ++ [⟨tokens.length, cause⟩]) (hbefore : ∀ f ∈ before, f.position < tokens.length)
    (hlast : tokens.getLast? = some last) (hmarked : marked = shared ++ [⟨cause, mark.line, mark.span⟩])
    (herrors : errors = shared ++ [⟨cause, last.line, ⟨last.span.stop, last.span.stop⟩⟩])

/-- Either no declaration fails at the end, or only the last one that fails does. -/
private theorem Accounts.failures_cases {tokens : List Token} {fates : List Fate} (h : Accounts tokens fates)
    (hend : NoEnd tokens) : (∀ f ∈ failures fates, f.position < tokens.length) ∨
      ∃ before cause, failures fates = before ++ [⟨tokens.length, cause⟩] ∧
        ∀ f ∈ before, f.position < tokens.length := by
  by_cases hinside : ∀ f ∈ failures fates, f.position < tokens.length
  · exact Or.inl hinside
  push Not at hinside
  obtain ⟨f, hf, hle⟩ := hinside
  have hposition : f.position = tokens.length := by
    have hbound := (h.trail.failure_bounds f hf).2
    rw [Input.ofTokens_length, hend.findIdx_eq] at hbound
    omega
  have hbefore := h.before_end
  rw [hend.findIdx_eq] at hbefore
  have hsplit := List.dropLast_concat_getLast (List.ne_nil_of_mem hf)
  -- those before the last one fail before the end, so the last one is `f`
  have hlast : (failures fates).getLast (List.ne_nil_of_mem hf) = f := by
    rw [← hsplit, List.mem_append, List.mem_singleton] at hf
    rcases hf with hf | hf
    · have := hbefore f hf
      omega
    · exact hf.symm
  refine Or.inr ⟨(failures fates).dropLast, f.cause, ?_, hbefore⟩
  rw [← hposition, ← hlast]
  exact hsplit.symm

private theorem Accounts.alikeButEnd {tokens : List Token} (hend : NoEnd tokens) {mark : Token} {behind : List Token}
    {fates : List Fate} (h : Accounts tokens fates) (hmarked : Accounts (tokens ++ mark :: behind) fates) :
    AlikeButEnd tokens mark (failures fates) (parse (tokens ++ mark :: behind)).errors (parse tokens).errors := by
  have hshared : ∀ before : List FailurePoint, (∀ f ∈ before, f.position < tokens.length) →
      before.map (·.errorIn (tokens ++ mark :: behind)) = before.map (·.errorIn tokens) := by
    intro before hbefore
    apply List.map_congr_left
    intro f hf
    have hlt := hbefore f hf
    have hlt' : f.position < (tokens ++ mark :: behind).length := by
      rw [List.length_append]
      omega
    rw [errorIn_of_lt hlt, errorIn_of_lt hlt', List.getElem_append_left hlt]
  rw [h.errors, hmarked.errors]
  rcases h.failures_cases hend with hinside | ⟨before, cause, hpoints, hbefore⟩
  · exact .inside hinside (hshared _ hinside)
  · have hmem : ⟨tokens.length, cause⟩ ∈ failures fates := by simp [hpoints]
    obtain ⟨last, hlast, herror⟩ := h.exists_last hmem
    rw [hpoints, List.map_append, List.map_append, hshared _ hbefore, List.map_singleton, List.map_singleton, herror]
    refine .atEnd rfl hbefore hlast ?_ rfl
    simp [FailurePoint.errorIn]

/-- Tokens without an end mark are read alike when an end mark without a text is put behind them: the program is the
same, and so are the errors but for the place of one that is met at the end.  What stands behind the end mark does not
count. -/
theorem parse_append_endMark {tokens : List Token} (hend : NoEnd tokens) {mark : Token}
    (hmark : mark.kind = .endOfInput) (hempty : mark.lexeme = "") (behind : List Token) :
    (parse (tokens ++ mark :: behind)).program = (parse tokens).program ∧
      (∃ fates, Accounts tokens fates ∧ Accounts (tokens ++ mark :: behind) fates ∧
        AlikeButEnd tokens mark (failures fates) (parse (tokens ++ mark :: behind)).errors (parse tokens).errors) ∧
      ∀ behind', parse (tokens ++ mark :: behind') = parse (tokens ++ mark :: behind) := by
  obtain ⟨fates, h⟩ := exists_accounts tokens
  have hmarked := h.append_endMark hend hmark hempty behind
  refine ⟨?_, ⟨fates, h, hmarked, h.alikeButEnd hend hmarked⟩, ?_⟩
  · rw [h.program, hmarked.program]
  · intro behind'
    rw [parse, parse, Input.ofTokens_append_endMark hend hmark, Input.ofTokens_append_endMark hend hmark]

/-- The tokens of `) x = 1`, with an error before their end and one at it. -/
theorem parse_append_endMark_assignment :
    let tokens : List Token := [⟨.delimiter, ")", 1, ⟨0, 1⟩⟩, ⟨.identifier, "x", 2, ⟨2, 3⟩⟩,
      ⟨.operator, "=", 2, ⟨4, 5⟩⟩, ⟨.number, "1", 2, ⟨6, 7⟩⟩]
    let mark : Token := ⟨.endOfInput, "", 3, ⟨9, 9⟩⟩
    let behind : List Token := [⟨.delimiter, ";", 4, ⟨10, 11⟩⟩]
    let unexpected : SyntaxError := ⟨.unexpectedToken .delimiter ")", 1, ⟨0, 1⟩⟩
    let missing : SyntaxCause := .expected .delimiter ";" .endOfInput ""
    NoEnd tokens ∧ mark.kind = .endOfInput ∧ mark.lexeme = "" ∧
      parse tokens = ⟨[], [unexpected, ⟨missing, 2, ⟨7, 7⟩⟩]⟩ ∧
      parse (tokens ++ mark :: behind) = ⟨[], [unexpected, ⟨missing, 3, ⟨9, 9⟩⟩]⟩ ∧
      (∃ fates, Accounts tokens fates ∧ Accounts (tokens ++ mark :: behind) fates ∧
        AlikeButEnd tokens mark (failures fates) (parse (tokens ++ mark :: behind)).errors (parse tokens).errors) := by
  intro tokens mark behind unexpected missing
  have hend : NoEnd tokens := by
    unfold NoEnd
    decide
  refine ⟨hend, rfl, rfl, ?_, ?_, (parse_append_endMark hend rfl rfl behind).2.1⟩
  · dsimp only [tokens, unexpected, missing]
    with_unfolding_all rfl
  · dsimp only [tokens, mark, behind, unexpected, missing]
    with_unfolding_all rfl

/-! ### The line of an error at the end -/

/-- Whether a kind is that of a string, with its closing quote or without. -/
def Kind.isString : Kind → Bool
  | .string => true
  | .error (.unterminatedString _) => true
  | _ => false

theorem Scans.isString_of_newline_mem {after text : List Char} {kind? : Option Kind} (h : Scans after text kind?)
    {kind : Kind} (hkind : kind? = some kind) (hmem : '\n' ∈ text) (hfirst : text.head? ≠ some '\n') :
    kind.isString := by
  cases h with
  | @matched w text pattern hlongest hpattern htext =>
    have hstring : pattern = .string := by
      cases htext with
      | none hoperator hcomment => exact Pattern.eq_string_of_newline_mem hpattern.mem hmem
      | @run more hmore hafter =>
        rcases List.mem_append.1 hmem with hmem | hmem
        · exact Pattern.eq_string_of_newline_mem hpattern.mem hmem
        · exact absurd (hmore _ hmem) (by decide)
      | comment hcomment => cases hkind
    subst hstring
    obtain rfl := Option.some.inj hkind
    split <;> rfl
  | unmatched hnone =>
    obtain rfl := List.mem_singleton.1 hmem
    exact absurd rfl hfirst

/-- A token goes over the end of a line only if it is a string. -/
theorem isString_of_newline_mem {source : String} {t : Token} (ht : t ∈ tokenize source) (hend : t.kind ≠ .endOfInput)
    (hmem : '\n' ∈ t.written) : t.kind.isString := by
  obtain ⟨before, p, after, hpieces, hp, htoken⟩ := exists_piece_of_mem_locate ht hend
  obtain ⟨c, rest, rfl, -⟩ := exists_front before hpieces
  rw [htoken, Piece.written_tokenAt _ hp] at hmem
  have hblank : ¬ isWhiteSpace c := by
    intro h
    rw [Piece.front, if_pos h] at hp
    cases hp
  refine (Piece.front_scans hblank).isString_of_newline_mem hp hmem ?_
  rw [Piece.text, Piece.front_first, List.head?_cons]
  rintro ⟨⟩
  exact hblank (by decide)

/-- The line that a byte position of a source is on. -/
def lineAt (source : String) (position : Nat) : Nat := 1 + (source.toUTF8.data.toList.take position).count 10

/-- A token ends on the line that is as many lines below its own as ends of lines are in its text. -/
private theorem line_add_newlines {source : String} {t : Token} (ht : t ∈ tokenize source)
    (hend : t.kind ≠ .endOfInput) : t.line + newlines t.written = lineAt source t.span.stop := by
  have hlaid := laid_tokenize source
  obtain ⟨front, text, after, hcut, hspan, hline⟩ := hlaid.place (List.nil_append _) ht
  have hwritten : text = t.written := by
    have hslice := (hlaid.token (List.nil_append _) ht hend).2
    rw [hspan, hcut, slice?_append, Option.some.injEq] at hslice
    exact hslice
  rw [← List.append_assoc] at hcut
  rw [lineAt, hspan, count_take_toUTF8 hcut, newlines_append, hline, hwritten, Nat.add_assoc]

/-- The end mark of a source is not among its first tokens, unless these are all. -/
private theorem kind_ne_of_mem_take {source : String} {n : Nat} (hn : n < (tokenize source).length) {t : Token}
    (ht : t ∈ (tokenize source).take n) : t.kind ≠ .endOfInput := by
  obtain ⟨front, line, htokens, hfront⟩ := (laid_tokenize source).ends (List.nil_append _)
  rw [htokens, List.length_append, List.length_singleton] at hn
  rw [htokens, List.take_append_of_le_length (by omega)] at ht
  exact hfront t (List.mem_of_mem_take ht)

/-- An error whose cause says so is met at the end. -/
private theorem Accounts.mem_failures_of_atEnd {tokens : List Token} {fates : List Fate} (h : Accounts tokens fates)
    (hend : NoEnd tokens) {e : SyntaxError} (he : e ∈ (parse tokens).errors) (hatEnd : e.cause.atEnd) :
    ⟨tokens.length, e.cause⟩ ∈ failures fates := by
  rw [h.errors] at he
  obtain ⟨f, hf, rfl⟩ := List.mem_map.1 he
  rw [FailurePoint.cause_errorIn] at hatEnd ⊢
  have hposition := (h.atEnd_iff hend hf).1 hatEnd
  rw [← hposition]
  exact hf

/-- An error that is met behind the first tokens of a source is at the end of the last of them, and on the line on
which that token begins: that is the line of its span exactly if the token does not go over the end of a line, as only
a string can. -/
theorem endError_line {source : String} {n : Nat} (hn : n < (tokenize source).length) {fates : List Fate}
    (hfates : Accounts ((tokenize source).take n) fates) {cause : SyntaxCause} (hcause : ⟨n, cause⟩ ∈ failures fates) :
    ∃ last, ((tokenize source).take n).getLast? = some last ∧
      ∃ e ∈ (parse ((tokenize source).take n)).errors, e = ⟨cause, last.line, ⟨last.span.stop, last.span.stop⟩⟩ ∧
        e.line + newlines last.written = lineAt source e.span.start ∧
        (e.line = lineAt source e.span.start ↔ '\n' ∉ last.written) ∧
        ('\n' ∈ last.written → last.kind.isString) := by
  have hlength : ((tokenize source).take n).length = n := List.length_take_of_le (by omega)
  have hpoint : ⟨((tokenize source).take n).length, cause⟩ ∈ failures fates := by rwa [hlength]
  obtain ⟨last, hlast, herror⟩ := hfates.exists_last hpoint
  have hmem := List.mem_of_getLast? hlast
  have htoken := List.mem_of_mem_take hmem
  have hend := kind_ne_of_mem_take hn hmem
  have hlines := line_add_newlines htoken hend
  refine ⟨last, hlast, _, ?_, rfl, hlines, ?_, isString_of_newline_mem htoken hend⟩
  · rw [hfates.errors, ← herror]
    exact List.mem_map_of_mem hpoint
  · have hzero : newlines last.written = 0 ↔ '\n' ∉ last.written := List.count_eq_zero
    rw [← hzero, ← hlines]
    dsimp only
    omega

/-- The end of a string that is not closed, two lines below its quote. -/
theorem endError_line_unterminated :
    let source := "é = \"ß\n\n"
    let cause : SyntaxCause := .expected .delimiter ";" .endOfInput ""
    3 < (tokenize source).length ∧ ∃ fates, Accounts ((tokenize source).take 3) fates ∧
      ⟨3, cause⟩ ∈ failures fates ∧ ∃ last, ((tokenize source).take 3).getLast? = some last ∧
        ∃ e ∈ (parse ((tokenize source).take 3)).errors, e = ⟨cause, last.line, ⟨last.span.stop, last.span.stop⟩⟩ ∧
          e.line + newlines last.written = lineAt source e.span.start ∧
          (e.line = lineAt source e.span.start ↔ '\n' ∉ last.written) ∧
          ('\n' ∈ last.written → last.kind.isString) := by
  intro source cause
  have htokens : (tokenize source).take 3 = [⟨.identifier, "é", 1, ⟨0, 2⟩⟩, ⟨.operator, "=", 1, ⟨3, 4⟩⟩,
      ⟨.error (.unterminatedString "ß\n\n"), "\"ß\n\n", 1, ⟨5, 10⟩⟩] := by
    decide +kernel
  have hend : NoEnd ((tokenize source).take 3) := by
    rw [htokens]
    unfold NoEnd
    decide
  have herrors : (parse ((tokenize source).take 3)).errors = [⟨cause, 1, ⟨10, 10⟩⟩] := by
    rw [htokens]
    with_unfolding_all rfl
  obtain ⟨fates, hfates⟩ := exists_accounts ((tokenize source).take 3)
  have hlength : 3 < (tokenize source).length := by decide +kernel
  have hcause : ⟨3, cause⟩ ∈ failures fates := by
    have hfailure := hfates.mem_failures_of_atEnd hend (herrors ▸ List.mem_singleton_self _) rfl
    rwa [htokens] at hfailure
  exact ⟨hlength, fates, hfates, hcause, endError_line hlength hfates hcause⟩

/-- The first tokens of a source with a string in which a line ends.  The error is at the end of the string, which is on
the second line, and says that it is on the first. -/
theorem endError_line_string :
    let source := "x = \"a\nb\""
    let tokens := (tokenize source).take 3
    let error : SyntaxError := ⟨.expected .delimiter ";" .endOfInput "", 1, ⟨9, 9⟩⟩
    3 < (tokenize source).length ∧ (parse tokens).errors = [error] ∧
      (∃ fates, Accounts tokens fates ∧ ⟨3, error.cause⟩ ∈ failures fates) ∧
      error.line ≠ lineAt source error.span.start := by
  intro source tokens error
  have htokens : tokens =
      [⟨.identifier, "x", 1, ⟨0, 1⟩⟩, ⟨.operator, "=", 1, ⟨2, 3⟩⟩, ⟨.string, "a\nb", 1, ⟨4, 9⟩⟩] := by
    decide +kernel
  have herrors : (parse tokens).errors = [error] := by
    rw [htokens]
    with_unfolding_all rfl
  obtain ⟨fates, hfates⟩ := exists_accounts tokens
  have hend : NoEnd tokens := by
    rw [htokens]
    unfold NoEnd
    decide
  have hfailure : ⟨3, error.cause⟩ ∈ failures fates := by
    have hlength : tokens.length = 3 := by rw [htokens]; rfl
    rw [← hlength]
    exact hfates.mem_failures_of_atEnd hend (herrors ▸ List.mem_singleton_self error) rfl
  exact ⟨by decide +kernel, herrors, ⟨fates, hfates, hfailure⟩, by decide +kernel⟩

end ThreeAddress
