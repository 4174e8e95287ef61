import ThreeAddress.Proofs.Code.Sketch
import ThreeAddress.Proofs.Program.Extension

/-!
# The words of code

All words in the code of a program that is read from tokens, with or without errors, are those of the tokens: the
operators of operations are operators, and the targets of assignments are names (`sketch_madeOf`).

* `ReadFrom`: declarations of the grammar, made of the tokens;
* `exists_readFrom`: what is read of any tokens are such declarations;
* `DeclPhrase.madeOf`: the code of such a declaration.
-/

namespace ThreeAddress

/-! ### The declarations that are read -/

/-- Valid declarations, whatever is behind each of them, made of the tokens. -/
def ReadFrom (tokens : List Token) (ds : List DeclPhrase) : Prop :=
  ∀ d ∈ ds, (∃ rest, d.Valid rest) ∧ ∀ t ∈ d.tokens, t ∈ tokens

private theorem ReadFrom.mono {tokens more : List Token} {ds : List DeclPhrase} (h : ReadFrom tokens ds)
    (hsub : ∀ t ∈ tokens, t ∈ more) : ReadFrom more ds := by
  intro d hd
  obtain ⟨hvalid, htokens⟩ := h d hd
  exact ⟨hvalid, fun t ht => hsub t (htokens t ht)⟩

private theorem readFrom_cons {tokens : List Token} {d : DeclPhrase} {ds : List DeclPhrase} :
    ReadFrom tokens (d :: ds) ↔ ((∃ rest, d.Valid rest) ∧ ∀ t ∈ d.tokens, t ∈ tokens) ∧ ReadFrom tokens ds :=
  List.forall_mem_cons

private theorem readFrom_of_validAll {tokens rest : List Token} {ds : List DeclPhrase} (h : ValidAll rest ds)
    (htokens : ∀ t ∈ tokensAll ds, t ∈ tokens) : ReadFrom tokens ds := by
  induction ds with
  | nil =>
    intro d hd
    cases hd
  | cons d ds ih =>
    rw [tokensAll, List.forall_mem_append] at htokens
    exact readFrom_cons.2 ⟨⟨⟨_, h.1⟩, htokens.1⟩, ih h.2 htokens.2⟩

/-- The statements that are read of any tokens, with or without errors, are those of declarations made of them. -/
theorem exists_readFrom {stop : Token} (hstop : stop.kind = .endOfInput) (helse : stop.reads "else" = false)
    {tokens : List Token} (hend : NoEnd tokens) :
    ∃ ds, (readProgram stop tokens).1.program = stmtAll ds ∧ ReadFrom tokens ds := by
  fun_induction readProgram stop tokens with
  | case1 => exact ⟨[], rfl, by simp [ReadFrom]⟩
  | case2 t tokens reading behind ih =>
    have hrest : ∀ u ∈ reading.rest, u ∈ t :: tokens := fun u hu => (Pending.rest_suffix ..).mem hu
    obtain ⟨ds, hprogram, hds⟩ := ih fun u hu => hend u (hrest u hu)
    cases hresult : reading.result with
    | error e => exact ⟨ds, hprogram, hds.mono hrest⟩
    | ok s =>
      obtain ⟨d, rest, hsplit, hd, hread⟩ := exists_declPhrase_of_ok hstop helse hend ⟨s, hresult⟩
      obtain rfl : d.stmt = s := Except.ok.inj ((congrArg Reading.result hread).symm.trans hresult)
      refine ⟨d :: ds, by rw [stmtAll, ← hprogram]; rfl, readFrom_cons.2 ⟨⟨⟨rest, hd⟩, ?_⟩, hds.mono hrest⟩⟩
      intro u hu
      rw [hsplit]
      exact List.mem_append_left rest hu

/-! ### Their code -/

/-- A word is the text of a token. -/
def Argument.MadeOf (tokens : List Token) : Argument → Prop
  | text word => ∃ t ∈ tokens, (Leaf.ofToken t).text = word
  | computed _ _ => True

/-- The words of an instruction are those of the tokens, an operator that of an operator and a target that of a
name. -/
def Sketch.MadeOf (tokens : List Token) : Sketch → Prop
  | compute op lhs rhs _ =>
    (∃ t ∈ tokens, t.kind = .operator ∧ t.lexeme = op) ∧ lhs.MadeOf tokens ∧ rhs.MadeOf tokens
  | assign target value => (∃ t ∈ tokens, t.kind = .identifier ∧ t.lexeme = target) ∧ value.MadeOf tokens
  | jumpIfFalse cond _ => cond.MadeOf tokens
  | jump _ => True
  | mark _ => True
  | ret value => ∀ a ∈ value, a.MadeOf tokens

section MadeOf

variable {tokens : List Token}

theorem ExprPhrase.madeOf (e : ExprPhrase) {next : Token} (hvalid : e.Valid next)
    (htokens : ∀ t ∈ e.tokens, t ∈ tokens) (o : Tally) :
    (∀ d ∈ e.expr.sketch o, d.MadeOf tokens) ∧ (e.expr.argument o).MadeOf tokens := by
  induction e generalizing o with
  | term t => exact ⟨by simp [ExprPhrase.expr, Expr.sketch], t, htokens t (by simp [ExprPhrase.tokens]), rfl⟩
  | chain t op rest ih =>
    simp only [ExprPhrase.tokens, List.forall_mem_cons] at htokens
    obtain ⟨ht, hop, hrest⟩ := htokens
    obtain ⟨hcode, hvalue⟩ := ih hvalid.2 hrest (o + (Expr.leaf (.ofToken t)).tally)
    refine ⟨?_, trivial⟩
    simp only [ExprPhrase.expr, Expr.sketch, List.nil_append, List.forall_mem_append, List.forall_mem_singleton]
    exact ⟨hcode, ⟨op, hop, hvalid.1, rfl⟩, ⟨t, ht, rfl⟩, hvalue⟩

theorem AssignPhrase.madeOf {a : AssignPhrase} (hvalid : a.Valid) (htokens : ∀ t ∈ a.tokens, t ∈ tokens) (o : Tally) :
    ∀ d ∈ a.assign.sketch o, d.MadeOf tokens := by
  simp only [AssignPhrase.tokens, List.forall_mem_cons, List.forall_mem_append] at htokens
  obtain ⟨htarget, -, hvalue, -⟩ := htokens
  obtain ⟨hcode, hargument⟩ := a.value.madeOf hvalid.value hvalue o
  simp only [AssignPhrase.assign, Assign.sketch, List.forall_mem_append, List.forall_mem_singleton]
  exact ⟨hcode, ⟨a.target, htarget, hvalid.target, rfl⟩, hargument⟩

private theorem madeOf_loop {e : ExprPhrase} {next : Token} (hvalid : e.Valid next)
    (htokens : ∀ t ∈ e.tokens, t ∈ tokens) {o : Tally} {body : List Sketch} (hbody : ∀ d ∈ body, d.MadeOf tokens) :
    ∀ d ∈ loopSketch e.expr o body, d.MadeOf tokens := by
  obtain ⟨hcode, hargument⟩ := e.madeOf hvalid htokens (o + ⟨1, 2, 0⟩)
  have hend : ∀ d ∈ [Sketch.jump o.nextLabel, .mark (o.nextLabel + 1)], d.MadeOf tokens := by simp [Sketch.MadeOf]
  simp only [loopSketch, List.forall_mem_append, List.forall_mem_singleton]
  exact ⟨⟨⟨⟨trivial, hcode⟩, hargument⟩, hbody⟩, hend⟩

mutual

theorem DeclPhrase.madeOf (d : DeclPhrase) {rest : List Token} (hvalid : d.Valid rest)
    (htokens : ∀ t ∈ d.tokens, t ∈ tokens) (o : Tally) : ∀ c ∈ d.stmt.sketch o, c.MadeOf tokens := by
  match d with
  | .assign a => exact AssignPhrase.madeOf hvalid htokens o
  | .ret keyword none stop => simp [DeclPhrase.stmt, Stmt.sketch, Sketch.MadeOf]
  | .ret keyword (some value) stop =>
    simp only [DeclPhrase.tokens, List.forall_mem_cons, List.forall_mem_append] at htokens
    obtain ⟨hcode, hargument⟩ := value.madeOf hvalid.2.2.1 htokens.2.1 o
    simp only [DeclPhrase.stmt, Option.map_some, Stmt.sketch, List.forall_mem_append, List.forall_mem_singleton]
    exact ⟨hcode, by simpa [Sketch.MadeOf] using hargument⟩
  | .ifThen test braces body =>
    obtain ⟨htest, -, hbody, -, -⟩ := hvalid
    simp only [DeclPhrase.tokens, TestPhrase.tokens, Braces.around, List.forall_mem_cons,
      List.forall_mem_append] at htokens
    obtain ⟨⟨-, -, hcond, -⟩, -, hinner, -⟩ := htokens
    obtain ⟨hcode, hargument⟩ := test.cond.madeOf htest.cond hcond o
    simp only [DeclPhrase.stmt, Stmt.sketch, List.forall_mem_append, List.forall_mem_singleton]
    exact ⟨⟨⟨hcode, hargument⟩, madeOf_stmtAll body (readFrom_of_validAll hbody hinner) _⟩, trivial⟩
  | .ifElse test braces body word otherBraces other =>
    obtain ⟨htest, -, hbody, -, -, -, hother, -⟩ := hvalid
    simp only [DeclPhrase.tokens, TestPhrase.tokens, Braces.around, List.forall_mem_cons,
      List.forall_mem_append] at htokens
    obtain ⟨⟨-, -, hcond, -⟩, ⟨-, hinner, -⟩, -, -, hotherInner, -⟩ := htokens
    obtain ⟨hcode, hargument⟩ := test.cond.madeOf htest.cond hcond o
    have hbetween : ∀ d ∈ [Sketch.jump (o.nextLabel + 1), .mark o.nextLabel], d.MadeOf tokens := by
      simp [Sketch.MadeOf]
    simp only [DeclPhrase.stmt, Stmt.sketch, List.forall_mem_append, List.forall_mem_singleton]
    exact ⟨⟨⟨⟨⟨hcode, hargument⟩, madeOf_stmtAll body (readFrom_of_validAll hbody hinner) _⟩, hbetween⟩,
      madeOf_stmtAll other (readFrom_of_validAll hother hotherInner) _⟩, trivial⟩
  | .while test braces body =>
    obtain ⟨htest, -, hbody, -⟩ := hvalid
    simp only [DeclPhrase.tokens, TestPhrase.tokens, Braces.around, List.forall_mem_cons,
      List.forall_mem_append] at htokens
    obtain ⟨⟨-, -, hcond, -⟩, -, hinner, -⟩ := htokens
    exact madeOf_loop htest.cond hcond (madeOf_stmtAll body (readFrom_of_validAll hbody hinner) _)
  | .for header braces body =>
    obtain ⟨hheader, -, hbody, -⟩ := hvalid
    simp only [DeclPhrase.tokens, ForPhrase.tokens, Braces.around, List.forall_mem_cons,
      List.forall_mem_append] at htokens
    obtain ⟨⟨-, -, hinit, hcond, -, hstep, -⟩, -, hinner, -⟩ := htokens
    simp only [DeclPhrase.stmt, Stmt.sketch, List.forall_mem_append]
    refine ⟨AssignPhrase.madeOf hheader.init hinit o, madeOf_loop hheader.cond hcond ?_⟩
    rw [List.forall_mem_append]
    exact ⟨madeOf_stmtAll body (readFrom_of_validAll hbody hinner) _, AssignPhrase.madeOf hheader.step hstep _⟩

private theorem madeOf_stmtAll (ds : List DeclPhrase) (h : ReadFrom tokens ds) (o : Tally) :
    ∀ c ∈ sketchAll (stmtAll ds) o, c.MadeOf tokens := by
  match ds with
  | [] => simp [stmtAll, sketchAll]
  | d :: ds =>
    obtain ⟨⟨⟨rest, hd⟩, htokens⟩, hds⟩ := readFrom_cons.1 h
    rw [stmtAll, sketchAll, List.forall_mem_append]
    exact ⟨d.madeOf hd htokens o, madeOf_stmtAll ds hds _⟩

end

end MadeOf

/-! ### Sources -/

theorem mem_ofTokens {tokens : List Token} {t : Token} (ht : t ∈ (Input.ofTokens tokens).tokens) :
    t ∈ tokens ∧ t.isEnd = false := by
  rw [Input.ofTokens] at ht
  exact ⟨(List.takeWhile_prefix _).mem ht, by simpa using List.mem_takeWhile_imp ht⟩

private theorem ofTokens_stop_reads_else (source : String) :
    (Input.ofTokens (tokenize source)).stop.reads "else" = false := by
  obtain ⟨front, line, htokens, hfront⟩ := (laid_tokenize source).ends (List.nil_append _)
  have hnone : front.find? Token.isEnd = none := by
    rw [List.find?_eq_none]
    intro t ht
    simpa [Token.isEnd] using hfront t ht
  simp [Input.ofTokens, htokens, hnone, Token.isEnd, Token.reads]

/-- The words in the code of a source are those of its tokens. -/
theorem sketch_madeOf {source : String} {d : Sketch} (hd : d ∈ sketchAll (parse (tokenize source)).program 0) :
    d.MadeOf (Input.ofTokens (tokenize source)).tokens := by
  obtain ⟨ds, hprogram, hds⟩ := exists_readFrom (Input.ofTokens_stop (tokenize source))
    (ofTokens_stop_reads_else source) fun t ht => (mem_ofTokens ht).2
  rw [parse, Input.parse, hprogram] at hd
  exact madeOf_stmtAll ds hds 0 d hd

end ThreeAddress
