import Mathlib.Data.List.Basic
import ThreeAddress.Proofs.Program.Extension

/-!
# Programs one behind the other

Two lists of tokens, one behind the other, are read as the first and then the second, if the first one is read without
an error at its end and the second one does not go on with its last statement (`parse_append`).

* `Pending.eq_afterThen_of_doneBefore`: the only declaration that ends before a token is a conditional that might have
  had an else branch, so all that counts of that token is whether it reads `else`;
* `Pending.read_seam`: one declaration, with other tokens behind those that it is read from;
* `readProgram_concat`: all declarations.
-/

namespace ThreeAddress

/-! ### The declaration at the seam -/

theorem Pending.eq_afterThen_of_doneBefore {d : Pending} {t : Token} {s : Stmt} (h : d.step t = .doneBefore s) :
    ∃ cond body line, d = ⟨.afterThen cond body line, []⟩ ∧ s = .ifThen cond body line := by
  obtain ⟨phase, blocks⟩ := d
  cases phase with
  | afterThen cond body line =>
    simp only [Pending.step, Step.afterThen, Step.declaration, Step.begin, Step.expect, Step.closeBlock,
      Step.finish] at h
    grind
  | _ =>
    simp only [Pending.step, Step.declaration, Step.begin, Step.expect, Step.finish, Step.closeBlock, Step.term,
      Step.assigned, Step.afterExpr] at h
    grind

/-- A declaration that ends before one token ends before any other that does not read `else`. -/
private theorem Pending.step_doneBefore {d : Pending} {t u : Token} {s : Stmt} (h : d.step t = .doneBefore s)
    (hu : u.reads "else" = false) : d.step u = .doneBefore s := by
  obtain ⟨cond, body, line, rfl, rfl⟩ := eq_afterThen_of_doneBefore h
  simp [Pending.step, Step.afterThen, hu]

/-- The token that is read first: the end mark if there is no other. -/
def nextToken (stop : Token) (tokens : List Token) : Token := tokens.head?.getD stop

private theorem Pending.read_of_doneBefore {d : Pending} {t stop : Token} {s : Stmt} (h : d.step t = .doneBefore s)
    {tokens : List Token} (hnext : (nextToken stop tokens).reads "else" = false) :
    d.read stop tokens = ⟨.ok s, tokens⟩ := by
  cases tokens with
  | nil =>
    have hstop : d.step stop = .doneBefore s := step_doneBefore h hnext
    rw [Pending.read, hstop]
  | cons u rest =>
    have hu : d.step u = .doneBefore s := step_doneBefore h hnext
    rw [Pending.read_cons, hu]
    rfl

private theorem Pending.read_append_of_ok {stop : Token} (hstop : stop.isEnd) {d : Pending} {tokens : List Token}
    {s : Stmt} (hread : d.read stop tokens = ⟨.ok s, []⟩) {stop' : Token} {more : List Token}
    (hnext : (nextToken stop' more).reads "else" = false) : d.read stop' (tokens ++ more) = ⟨.ok s, more⟩ := by
  induction tokens generalizing d with
  | nil =>
    -- the end mark completes no declaration, so this one was complete before it
    rcases d.step_end (of_decide_eq_true hstop) with ⟨cause, hstep⟩ | ⟨s', hstep⟩
    · rw [Pending.read, hstep] at hread
      cases hread
    · rw [Pending.read, hstep] at hread
      cases hread
      exact read_of_doneBefore hstep hnext
  | cons t tokens ih =>
    rw [Pending.read_cons] at hread
    rw [List.cons_append, Pending.read_cons]
    cases hstep : d.step t with
    | done s' =>
      rw [hstep] at hread
      cases hread
      rfl
    | doneBefore s' =>
      rw [hstep] at hread
      cases hread
    | fail cause =>
      rw [hstep] at hread
      cases hread
    | more next =>
      rw [hstep] at hread
      exact ih hread

/-- A declaration is read alike with other tokens behind, if it does not fail at the end mark and the token at the
seam does not go on with it. -/
theorem Pending.read_seam {stop : Token} (hstop : stop.isEnd) {d : Pending} {tokens : List Token}
    (hend : NoEnd tokens) (herror : ∀ e, (d.read stop tokens).result = .error e → e.cause.atEnd = false)
    {stop' : Token} {more : List Token}
    (hseam : (nextToken stop' more).reads "else" = false ∨ ∀ s, d.read stop tokens = ⟨.ok s, []⟩ → ¬ s.isIfThen) :
    d.read stop' (tokens ++ more) = ⟨(d.read stop tokens).result, (d.read stop tokens).rest ++ more⟩ := by
  rcases d.open_or_settled hstop stop' hend more with hopen | hsettled
  · generalize hread : d.read stop tokens = reading at hopen herror hseam ⊢
    cases hopen with
    | failed hcause =>
      have hinside := herror _ rfl
      rw [SyntaxError.at, hcause] at hinside
      cases hinside
    | ended hs =>
      rcases hseam with hnext | hlast
      · exact read_append_of_ok hstop hread hnext
      · exact absurd hs (hlast _ rfl)
  · exact hsettled.read

/-! ### All declarations -/

/-- Two results, one behind the other. -/
def Parsed.append (p q : Parsed) : Parsed := ⟨p.program ++ q.program, p.errors ++ q.errors⟩

theorem Parsed.cons_append (result : Except SyntaxError Stmt) (p q : Parsed) :
    (p.cons result).append q = (p.append q).cons result := by
  cases result <;> rfl

/-- Whether an else branch may come behind the last statement. -/
def endsWithIfThen (program : Program) : Bool := program.getLast?.any Stmt.isIfThen

private theorem endsWithIfThen_of_cons {result : Except SyntaxError Stmt} {p : Parsed}
    (h : endsWithIfThen (p.cons result).program = false) : endsWithIfThen p.program = false := by
  cases result with
  | error e => exact h
  | ok s =>
    cases hprogram : p.program with
    | nil => rfl
    | cons next rest =>
      have hlast : (s :: p.program).getLast? = p.program.getLast? := by rw [hprogram, List.getLast?_cons_cons]
      rw [← hprogram, endsWithIfThen, ← hlast]
      exact h

/-- Tokens behind others are read as they are alone. -/
theorem readProgram_concat {stop : Token} (hstop : stop.isEnd) {tokens : List Token} (hend : NoEnd tokens)
    (hinside : ∀ e ∈ (readProgram stop tokens).1.errors, e.cause.atEnd = false) {stop' : Token} {more : List Token}
    (hseam : (nextToken stop' more).reads "else" = false ∨
      endsWithIfThen (readProgram stop tokens).1.program = false) :
    (readProgram stop' (tokens ++ more)).1 = (readProgram stop tokens).1.append (readProgram stop' more).1 := by
  fun_induction readProgram stop tokens with
  | case1 => rfl
  | case2 t rest reading behind ih =>
    have hread : Pending.start.read stop' (t :: rest ++ more) = ⟨reading.result, reading.rest ++ more⟩ := by
      refine Pending.read_seam hstop hend ?_ (hseam.imp_right ?_)
      · intro e he
        refine hinside e ?_
        rw [show reading.result = .error e from he]
        exact List.mem_cons_self
      · -- a declaration that takes all tokens is the last statement
        intro hlast s hs
        have hrest : readProgram stop reading.rest = ({}, []) := by
          rw [show reading = ⟨.ok s, []⟩ from hs, readProgram]
        have hresult : reading.result = .ok s := congrArg Reading.result hs
        simpa [behind, hrest, hresult, endsWithIfThen, Parsed.cons] using hlast
    have hrest : NoEnd reading.rest := by
      intro u hu
      exact hend u ((Pending.rest_suffix stop .start (t :: rest)).mem hu)
    have herrors : ∀ e ∈ (readProgram stop reading.rest).1.errors, e.cause.atEnd = false := by
      intro e he
      refine hinside e ?_
      cases reading.result with
      | ok s => exact he
      | error e' => exact List.mem_cons_of_mem e' he
    rw [Parsed.cons_append, ← ih hrest herrors (hseam.imp_right endsWithIfThen_of_cons)]
    exact congrArg Prod.fst (readProgram_of_read hread)

/-! ### Lists of tokens -/

private theorem Token.endAfter_append (a : List Token) {b : List Token} (hb : b ≠ []) :
    Token.endAfter (a ++ b) = .endAfter b := by
  rw [endAfter, endAfter, List.getLast?_append_of_ne_nil a hb]

theorem Input.ofTokens_append {a b : List Token} (ha : NoEnd a) (hb : b ≠ []) :
    Input.ofTokens (a ++ b) = ⟨a ++ (Input.ofTokens b).tokens, (Input.ofTokens b).stop⟩ := by
  have htokens : (a ++ b).takeWhile (!·.isEnd) = a ++ b.takeWhile (!·.isEnd) := by
    refine List.takeWhile_append_of_pos ?_
    intro t ht
    simp [ha t ht]
  have hfind : (a ++ b).find? Token.isEnd = b.find? Token.isEnd := by
    rw [List.find?_append, List.find?_eq_none.2 (by simpa [NoEnd] using ha), Option.none_or]
  rw [Input.ofTokens, Input.ofTokens, htokens, hfind, Token.endAfter_append a hb]

/-- The first token of a list is read first, be it the end mark or another. -/
private theorem nextToken_ofTokens (t : Token) (rest : List Token) :
    nextToken (Input.ofTokens (t :: rest)).stop (Input.ofTokens (t :: rest)).tokens = t := by
  cases ht : t.isEnd <;> simp [nextToken, Input.ofTokens, ht]

/-- No declaration fails at the end mark exactly if none of the causes says so. -/
private theorem Accounts.inside_iff {tokens : List Token} {fates : List Fate} (h : Accounts tokens fates)
    (hend : NoEnd tokens) :
    (∀ f ∈ failures fates, f.position < tokens.length) ↔ ∀ e ∈ (parse tokens).errors, e.cause.atEnd = false := by
  have hposition : ∀ f ∈ failures fates, f.position < tokens.length ↔ f.cause.atEnd = false := by
    intro f hf
    have hbound := (h.trail.failure_bounds f hf).2
    rw [Input.ofTokens_length, hend.findIdx_eq] at hbound
    rw [← Bool.not_eq_true, h.atEnd_iff hend hf]
    omega
  simp only [h.errors, List.forall_mem_map, FailurePoint.cause_errorIn]
  exact forall₂_congr hposition

/-- Tokens that are read without an error at their end, with others behind them that do not give an else branch to
their last statement, are read as both lists alone. -/
theorem parse_append {a b : List Token} (ha : NoEnd a) {fates : List Fate} (hfates : Accounts a fates)
    (hinside : ∀ f ∈ failures fates, f.position < a.length)
    (hseam : NoElse b ∨ ¬ (parse a).program.getLast?.any Stmt.isIfThen) :
    parse (a ++ b) =
      ⟨(parse a).program ++ (parse b).program, (parse a).errors ++ (parse b).errors⟩ := by
  rw [hfates.inside_iff ha] at hinside
  cases b with
  | nil =>
    have hnone : parse [] = {} := by
      rw [parse_eq noEnd_nil, readProgram]
    simp [hnone]
  | cons t rest =>
    have hnext : (nextToken (Input.ofTokens (t :: rest)).stop (Input.ofTokens (t :: rest)).tokens).reads "else" =
        false ∨ endsWithIfThen (parse a).program = false := by
      rw [nextToken_ofTokens]
      exact hseam.imp (fun h => h t rfl) Bool.eq_false_iff.2
    have hwhole : parse (a ++ t :: rest) = (readProgram (Input.ofTokens (t :: rest)).stop
        (a ++ (Input.ofTokens (t :: rest)).tokens)).1 := by
      rw [parse, Input.parse, Input.ofTokens_append ha (List.cons_ne_nil t rest)]
    rw [parse_eq ha] at hinside hnext ⊢
    rw [hwhole, readProgram_concat (Token.isEnd_endAfter a) ha hinside hnext]
    rfl

/-- The tokens of `) if (a) { }` and those of `x = 1; else`, each with an error that is met before its end; the
conditional stays without an else branch. -/
theorem parse_append_recovered :
    let token (kind : Kind) (lexeme : String) : Token := ⟨kind, lexeme, 1, ⟨0, 0⟩⟩
    let a := [token .delimiter ")", token .keyword "if", token .delimiter "(", token .identifier "a",
      token .delimiter ")", token .delimiter "\x7b", token .delimiter "\x7d"]
    let b := [token .identifier "x", token .operator "=", token .number "1", token .delimiter ";",
      token .keyword "else"]
    NoEnd a ∧ (∃ fates, Accounts a fates ∧ ∀ f ∈ failures fates, f.position < a.length) ∧ NoElse b ∧
      parse (a ++ b) = ⟨[.ifThen (.leaf (.ident "a")) [] 1, .assign ⟨"x", .leaf (.number "1"), 1⟩],
        [⟨.unexpectedToken .delimiter ")", 1, ⟨0, 0⟩⟩, ⟨.unrecognizedKeyword "else", 1, ⟨0, 0⟩⟩]⟩ := by
  intro token a b
  have hend : NoEnd a := by
    unfold NoEnd
    decide
  have hfirst : parse a = ⟨[.ifThen (.leaf (.ident "a")) [] 1], [⟨.unexpectedToken .delimiter ")", 1, ⟨0, 0⟩⟩]⟩ := by
    dsimp only [a, token]
    with_unfolding_all rfl
  have hsecond : parse b = ⟨[.assign ⟨"x", .leaf (.number "1"), 1⟩], [⟨.unrecognizedKeyword "else", 1, ⟨0, 0⟩⟩]⟩ := by
    dsimp only [b, token]
    with_unfolding_all rfl
  obtain ⟨fates, hfates⟩ := exists_accounts a
  have hinside : ∀ f ∈ failures fates, f.position < a.length := by
    rw [hfates.inside_iff hend, hfirst]
    simp [SyntaxCause.atEnd]
  have hnext : NoElse b := by
    rintro t ⟨⟩
    decide
  refine ⟨hend, ⟨fates, hfates, hinside⟩, hnext, ?_⟩
  rw [parse_append hend hfates hinside (Or.inl hnext), hfirst, hsecond]
  rfl

end ThreeAddress
