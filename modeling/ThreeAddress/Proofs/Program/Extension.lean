import ThreeAddress.Proofs.Program.Completion

/-!
# Reading more input

What has been read of a list of tokens stays when more tokens come behind it, but for what was decided by the end of
the list: an error met there, and a conditional to which an else branch may still come (`parse_take_settled`).

* `Pending.step_answers`: what is decided by the end mark and by the token behind a conditional;
* `Pending.open_or_settled`: one declaration is read alike with more tokens behind it, or it was read up to the end;
* `readProgram_append`: all declarations.
-/

namespace ThreeAddress

/-! ### Errors at the end mark -/

/-- Whether the error was met at an end mark: this is what was found there. -/
def SyntaxCause.atEnd : SyntaxCause → Bool
  | expected _ _ found _ => found = .endOfInput
  | unexpectedToken _ _ => false
  | unrecognizedKeyword _ => false
  | unexpectedEnd => true

private theorem Kind.category_eq_endOfInput {kind : Kind} : kind.category = .endOfInput ↔ kind = .endOfInput := by
  cases kind <;> simp [Kind.category]

private theorem SyntaxCause.atEnd_insteadOf (t : Token) (kind : Kind) (text : String) :
    (insteadOf t kind text).atEnd = t.isEnd := by
  simp [insteadOf, atEnd, Token.isEnd, Kind.category_eq_endOfInput]

/-- Whether an else branch may come behind the statement. -/
def Stmt.isIfThen : Stmt → Bool
  | ifThen _ _ _ => true
  | _ => false

/-- What a step may say of the token `t`: the cause of a failure tells whether `t` is an end mark, and only a
conditional without an else branch ends before `t`. -/
def Step.Answers (t : Token) : Step → Prop
  | fail cause => cause.atEnd = t.isEnd
  | doneBefore s => s.isIfThen
  | _ => True

namespace Step

variable {t : Token} {blocks : List OpenBlock}

theorem Answers.expect {next : Step} (h : next.Answers t) (kind : Kind) (text : String) :
    (Step.expect t kind text next).Answers t := by
  unfold Step.expect
  split
  · exact h
  · exact SyntaxCause.atEnd_insteadOf t kind text

private theorem answers_more (d : Pending) : (more d).Answers t := trivial

private theorem answers_finish (s : Stmt) : (finish blocks s).Answers t := by
  cases blocks <;> trivial

private theorem answers_closeBlock (block : OpenBlock) : (closeBlock block blocks).Answers t := by
  unfold closeBlock
  split
  · trivial
  · exact answers_finish _
  · exact answers_finish _
  · exact answers_finish _

private theorem answers_begin : (begin blocks t).Answers t := by
  unfold begin
  cases hkind : t.kind with
  | keyword =>
    dsimp only
    repeat' split
    all_goals simp [Answers, SyntaxCause.atEnd, Token.isEnd, hkind]
  | _ => simp [Answers, SyntaxCause.atEnd, Token.isEnd, hkind]

private theorem answers_declaration : (declaration blocks t).Answers t := by
  unfold declaration
  split
  · exact answers_begin
  · split
    · exact (answers_closeBlock _).expect _ _
    · exact answers_begin

private theorem answers_term (role : ExprRole) (before : Terms) : (term blocks role before t).Answers t := by
  unfold term
  split
  · rename_i hend
    exact hend.symm
  · trivial

private theorem answers_assigned (role : AssignRole) (a : Assign) : (assigned blocks role a).Answers t := by
  cases role with
  | statement => exact answers_finish _
  | forInit line => trivial
  | forStep init cond line => trivial

private theorem answers_afterExpr (role : ExprRole) (e : Expr) : (afterExpr blocks role e t).Answers t := by
  cases role with
  | assigned role target line => exact (answers_assigned role _).expect _ _
  | returned line => exact (answers_finish _).expect _ _
  | _ => exact (answers_more _).expect _ _

private theorem answers_afterThen (cond : Expr) (body : List Stmt) (line : Nat) :
    (afterThen blocks cond body line t).Answers t := by
  unfold afterThen
  split
  · split
    · exact SyntaxCause.atEnd_insteadOf _ _ _
    · trivial
  · split
    · rfl
    · exact answers_declaration

end Step

theorem Pending.step_answers (d : Pending) (t : Token) : (d.step t).Answers t := by
  obtain ⟨phase, blocks⟩ := d
  cases phase with
  | declaration => exact Step.answers_declaration
  | header keyword line => cases keyword <;> exact (Step.answers_more _).expect _ _
  | target role =>
    unfold step
    dsimp only
    split
    · trivial
    · exact SyntaxCause.atEnd_insteadOf _ _ _
  | equals role target line => exact (Step.answers_more _).expect _ _
  | term role before => exact Step.answers_term role before
  | afterTerm role before last =>
    unfold step
    dsimp only
    split
    · trivial
    · exact Step.answers_afterExpr role _
  | returnValue line =>
    unfold step
    dsimp only
    split
    · exact (Step.answers_finish _).expect _ _
    · exact Step.answers_term _ _
  | headerEnd init cond step line => exact (Step.answers_more _).expect _ _
  | blockStart head => exact (Step.answers_more _).expect _ _
  | afterThen cond body line => exact Step.answers_afterThen cond body line

/-! ### Declarations with more tokens behind them -/

/-- A reading that was decided by the end mark: an error met there, or a conditional that ends there. -/
inductive Reading.Open (stop : Token) : Reading → Prop
  | failed {cause : SyntaxCause} (hcause : cause.atEnd) : Open stop ⟨.error (.at cause stop), []⟩
  | ended {s : Stmt} (hs : s.isIfThen) : Open stop ⟨.ok s, []⟩

/-- A reading that stays as it is with more tokens behind it. -/
structure Reading.Settled (stop' : Token) (d : Pending) (tokens more : List Token) (r : Reading) : Prop where
  read : d.read stop' (tokens ++ more) = ⟨r.result, r.rest ++ more⟩
  error : ∀ e, r.result = .error e → e.cause.atEnd = false

/-- A declaration is read alike with more tokens behind it, unless the end mark decided the reading. -/
theorem Pending.open_or_settled {stop : Token} (hstop : stop.isEnd) (stop' : Token) (d : Pending)
    {tokens : List Token} (hend : NoEnd tokens) (more : List Token) :
    (d.read stop tokens).Open stop ∨ (d.read stop tokens).Settled stop' d tokens more := by
  induction tokens generalizing d with
  | nil =>
    left
    have hanswers := d.step_answers stop
    rw [Pending.read]
    rcases d.step_end (of_decide_eq_true hstop) with ⟨cause, hstep⟩ | ⟨s, hstep⟩
    · rw [hstep] at hanswers ⊢
      have hcause : cause.atEnd = stop.isEnd := hanswers
      exact .failed (hcause.trans hstop)
    · rw [hstep] at hanswers ⊢
      exact .ended hanswers
  | cons t tokens ih =>
    obtain ⟨ht, hrest⟩ := noEnd_cons.1 hend
    have hanswers := d.step_answers t
    rw [Pending.read_cons]
    cases hstep : d.step t with
    | done s =>
      refine Or.inr ⟨by rw [List.cons_append, Pending.read_cons, hstep]; rfl, ?_⟩
      rintro e ⟨⟩
    | doneBefore s =>
      refine Or.inr ⟨by rw [List.cons_append, Pending.read_cons, hstep]; rfl, ?_⟩
      rintro e ⟨⟩
    | fail cause =>
      rw [hstep] at hanswers
      have hcause : cause.atEnd = t.isEnd := hanswers
      refine Or.inr ⟨by rw [List.cons_append, Pending.read_cons, hstep]; rfl, ?_⟩
      rintro e ⟨⟩
      exact hcause.trans ht
    | more next =>
      rw [Step.resume_more]
      rcases ih next hrest with hopen | hsettled
      · exact Or.inl hopen
      · exact Or.inr ⟨by rw [List.cons_append, Pending.read_cons, hstep]; exact hsettled.read, hsettled.error⟩

theorem Pending.rest_suffix (stop : Token) (d : Pending) (tokens : List Token) :
    (d.read stop tokens).rest <:+ tokens := by
  induction tokens generalizing d with
  | nil =>
    have hlength := d.length_rest stop []
    exact List.suffix_nil.2 (List.eq_nil_of_length_eq_zero (Nat.le_zero.1 hlength))
  | cons t tokens ih =>
    rw [Pending.read_cons]
    cases d.step t with
    | fail cause => exact List.suffix_cons t tokens
    | done s => exact List.suffix_cons t tokens
    | doneBefore s => exact List.suffix_rfl
    | more next => exact (ih next).trans (List.suffix_cons t tokens)

/-! ### Programs with more tokens behind them -/

/-- The statements that stay when more tokens are read: an else branch may still come to the last one. -/
def settledStmts (program : Program) : Program :=
  if program.getLast?.any Stmt.isIfThen then program.dropLast else program

/-- What stays when more tokens are read. -/
def Parsed.settled (parsed : Parsed) : Parsed where
  program := settledStmts parsed.program
  errors := parsed.errors.filter (!·.cause.atEnd)

/-- One result goes on as another. -/
structure Parsed.GoesOnAs (p q : Parsed) : Prop where
  program : p.program <+: q.program
  errors : p.errors <+: q.errors

private theorem settledStmts_prefix (program : Program) : settledStmts program <+: program := by
  unfold settledStmts
  split
  · exact List.dropLast_prefix program
  · exact List.prefix_rfl

private theorem settledStmts_cons (s : Stmt) {program program' : Program}
    (h : settledStmts program <+: program') : settledStmts (s :: program) <+: s :: program' := by
  cases program with
  | nil =>
    have hs : settledStmts [s] <+: [s] := settledStmts_prefix [s]
    exact hs.trans (List.prefix_append [s] program')
  | cons next rest =>
    have hcons : settledStmts (s :: next :: rest) = s :: settledStmts (next :: rest) := by
      simp only [settledStmts, List.getLast?_cons_cons, List.dropLast_cons_cons]
      split <;> rfl
    rw [hcons]
    exact List.cons_prefix_cons.2 ⟨rfl, h⟩

theorem Parsed.GoesOnAs.cons {p q : Parsed} (h : p.settled.GoesOnAs q) {result : Except SyntaxError Stmt}
    (hresult : ∀ e, result = .error e → e.cause.atEnd = false) :
    (p.cons result).settled.GoesOnAs (q.cons result) := by
  cases result with
  | ok s => exact ⟨settledStmts_cons s h.program, h.errors⟩
  | error e =>
    have herrors : (p.cons (.error e)).settled.errors = e :: p.settled.errors := by
      simp [Parsed.cons, Parsed.settled, hresult e rfl]
    refine ⟨h.program, ?_⟩
    rw [herrors]
    exact List.cons_prefix_cons.2 ⟨rfl, h.errors⟩

private theorem Reading.Open.goesOnAs {stop : Token} {r : Reading} (h : r.Open stop) (q : Parsed) :
    ((readProgram stop r.rest).1.cons r.result).settled.GoesOnAs q := by
  cases h with
  | failed hcause =>
    rw [readProgram]
    constructor <;> simp [Parsed.cons, Parsed.settled, settledStmts, SyntaxError.at, hcause]
  | ended hs =>
    rw [readProgram]
    constructor <;> simp [Parsed.cons, Parsed.settled, settledStmts, hs]

/-- A program goes on with more tokens behind it. -/
theorem readProgram_append {stop : Token} (hstop : stop.isEnd) (stop' : Token) {tokens : List Token}
    (hend : NoEnd tokens) (more : List Token) :
    (readProgram stop tokens).1.settled.GoesOnAs (readProgram stop' (tokens ++ more)).1 := by
  fun_induction readProgram stop tokens with
  | case1 => constructor <;> simp [Parsed.settled, settledStmts]
  | case2 t rest reading behind ih =>
    rcases Pending.start.open_or_settled hstop stop' hend more with hopen | hsettled
    · exact hopen.goesOnAs _
    · have hrest : NoEnd reading.rest := by
        intro u hu
        exact hend u ((Pending.rest_suffix stop .start (t :: rest)).mem hu)
      have hprogram : (readProgram stop' (t :: rest ++ more)).1 =
          (readProgram stop' (reading.rest ++ more)).1.cons reading.result :=
        congrArg Prod.fst (readProgram_of_read hsettled.read)
      rw [hprogram]
      exact (ih hrest).cons hsettled.error

/-! ### Lists of tokens -/

/-- Where declarations fail: at the token that the cause speaks of. -/
private theorem Trail.failsAt {input : Input} {i k : Nat} {fates : List Fate} (h : Trail input i fates k) :
    ∀ f ∈ failures fates, ∃ c, input.FailsAt c f.position f.cause := by
  induction h with
  | refl i =>
    intro f hf
    cases hf
  | cons hfirst hrest ih =>
    intro f hf
    rw [failures_cons, List.mem_append, Option.mem_toList] at hf
    rcases hf with hf | hf
    · cases hfirst with
      | read hij hj hread => cases hf
      | failed hi hip hp hfails hread =>
        cases hf
        exact ⟨_, hfails⟩
    · exact ih f hf

theorem Token.isEnd_endAfter (tokens : List Token) : (Token.endAfter tokens).isEnd := by
  rw [Token.isEnd, Token.kind_endAfter]
  rfl

theorem NoEnd.findIdx_eq {tokens : List Token} (hend : NoEnd tokens) :
    tokens.findIdx Token.isEnd = tokens.length := by
  rw [List.findIdx_eq_length]
  exact hend

/-- An error is met at the end mark exactly if its cause says so. -/
theorem Accounts.atEnd_iff {tokens : List Token} {fates : List Fate} (h : Accounts tokens fates) (hend : NoEnd tokens)
    {f : FailurePoint} (hf : f ∈ failures fates) : f.cause.atEnd ↔ f.position = tokens.length := by
  have hlength := hend.findIdx_eq
  have hbound := (h.trail.failure_bounds f hf).2
  rw [Input.ofTokens_length, hlength] at hbound
  obtain ⟨c, d, -, hstep⟩ := h.trail.failsAt f hf
  have hcause : f.cause.atEnd = ((Input.ofTokens tokens).tokenAt f.position).isEnd := by
    have hanswers := d.step_answers ((Input.ofTokens tokens).tokenAt f.position)
    rwa [hstep] at hanswers
  rw [hcause, Input.tokenAt_ofTokens tokens (by omega)]
  by_cases hlast : f.position = tokens.length
  · simp [hlast, Token.isEnd_endAfter]
  · have hlt : f.position < tokens.length := by omega
    have htoken := hend _ (List.getElem_mem hlt)
    simp [hlast, List.getElem?_eq_getElem hlt, htoken]

/-- Reading more tokens keeps the errors that were met before the end of the first ones, and the statements but for a
last one to which an else branch may come. -/
theorem parse_take_settled {tokens : List Token} (hend : NoEnd tokens) {n m : Nat} (hnm : n ≤ m)
    (hm : m ≤ tokens.length) :
    (∀ fates, Accounts (tokens.take n) fates → ∀ f ∈ failures fates, f.cause.atEnd ↔ f.position = n) ∧
      (parse (tokens.take n)).settled.GoesOnAs (parse (tokens.take m)) := by
  have htake : ∀ k, NoEnd (tokens.take k) := by
    intro k t ht
    exact hend t (List.mem_of_mem_take ht)
  constructor
  · intro fates h f hf
    rw [h.atEnd_iff (htake n) hf, List.length_take, Nat.min_eq_left (by omega)]
  · have hmore : tokens.take m = tokens.take n ++ (tokens.take m).drop n := by
      have hcut := List.take_append_drop n (tokens.take m)
      rw [List.take_take, Nat.min_eq_left hnm] at hcut
      exact hcut.symm
    rw [parse_eq (htake n), parse_eq (htake m), hmore]
    exact readProgram_append (Token.isEnd_endAfter _) _ (htake n) _

/-- The tokens of `) x = 1; if (a) { } else { }` up to the first closing brace, where the conditional still lacks its
else branch, and all of them. -/
theorem parse_take_settled_else :
    let token (kind : Kind) (lexeme : String) : Token := ⟨kind, lexeme, 1, ⟨0, 0⟩⟩
    let tokens := [token .delimiter ")", token .identifier "x", token .operator "=", token .number "1",
      token .delimiter ";", token .keyword "if", token .delimiter "(", token .identifier "a", token .delimiter ")",
      token .delimiter "\x7b", token .delimiter "\x7d", token .keyword "else", token .delimiter "\x7b",
      token .delimiter "\x7d"]
    NoEnd tokens ∧ 11 ≤ 14 ∧ 14 ≤ tokens.length ∧
      (parse (tokens.take 11)).settled = ⟨[.assign ⟨"x", .leaf (.number "1"), 1⟩],
        [⟨.unexpectedToken .delimiter ")", 1, ⟨0, 0⟩⟩]⟩ ∧
      (∀ fates, Accounts (tokens.take 11) fates → ∀ f ∈ failures fates, f.cause.atEnd ↔ f.position = 11) ∧
      (parse (tokens.take 11)).settled.GoesOnAs (parse (tokens.take 14)) := by
  intro token tokens
  have hend : NoEnd tokens := by
    unfold NoEnd
    decide
  refine ⟨hend, by decide, by decide, ?_, parse_take_settled hend (by decide) (by decide)⟩
  dsimp only [tokens, token]
  with_unfolding_all rfl

end ThreeAddress
