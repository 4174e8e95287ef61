import ThreeAddress.Program.Parse
import ThreeAddress.Proofs.Program.Grammar

/-!
# Reading phrases

Where a valid phrase stands, the reader takes exactly its tokens and goes on behind it, whatever comes there.

* `ExprPhrase.read_eq`: an expression ends where no operator follows;
* `Pending.read_afterThen`: without an `else`, a then branch ends as any other statement does;
* `DeclPhrase.read_eq`: a declaration is read as its statement.
-/

namespace ThreeAddress

/-! ### Reading on -/

/-- Goes on behind the token `t` as a step says. -/
def Step.resume (stop t : Token) (rest : List Token) : Step → Reading
  | .fail cause => ⟨.error (.at cause t), rest⟩
  | .done s => ⟨.ok s, rest⟩
  | .doneBefore s => ⟨.ok s, t :: rest⟩
  | .more d => d.read stop rest

/-- Goes on behind a statement inside the given open blocks. -/
def readBehind (stop : Token) (blocks : List OpenBlock) (s : Stmt) (rest : List Token) : Reading :=
  match blocks with
  | [] => ⟨.ok s, rest⟩
  | block :: outer => Pending.read stop ⟨.declaration, ⟨block.head, s :: block.read⟩ :: outer⟩ rest

theorem Pending.read_cons (stop : Token) (d : Pending) (t : Token) (rest : List Token) :
    d.read stop (t :: rest) = (d.step t).resume stop t rest := by
  rw [Pending.read]
  cases d.step t <;> rfl

@[simp] theorem Step.resume_more (stop t : Token) (rest : List Token) (d : Pending) :
    (Step.more d).resume stop t rest = d.read stop rest := rfl

@[simp] theorem Step.resume_finish (stop t : Token) (rest : List Token) (blocks : List OpenBlock) (s : Stmt) :
    (Step.finish blocks s).resume stop t rest = readBehind stop blocks s rest := by
  cases blocks with
  | nil => rfl
  | cons block outer => rfl

/-- A token that is due is taken. -/
theorem Step.expect_of_is {t : Token} {kind : Kind} {text : String} (next : Step) (h : t.is kind text) :
    Step.expect t kind text next = next := by
  rw [Step.expect, if_pos h]

theorem Token.kind_eq_of_is {t : Token} {kind : Kind} {text : String} (h : t.is kind text) : t.kind = kind := by
  simp only [Token.is, Bool.and_eq_true, decide_eq_true_eq] at h
  exact h.1

private theorem Token.lexeme_eq_of_is {t : Token} {kind : Kind} {text : String} (h : t.is kind text) :
    t.lexeme = text := by
  simp only [Token.is, Bool.and_eq_true, decide_eq_true_eq] at h
  exact h.2

/-- No token marks the end of the input. -/
def NoEnd (tokens : List Token) : Prop := ∀ t ∈ tokens, t.isEnd = false

@[simp] theorem noEnd_nil : NoEnd [] := by
  intro t ht
  cases ht

@[simp] theorem noEnd_cons {t : Token} {rest : List Token} : NoEnd (t :: rest) ↔ t.isEnd = false ∧ NoEnd rest := by
  simp [NoEnd]

@[simp] theorem noEnd_append {a b : List Token} : NoEnd (a ++ b) ↔ NoEnd a ∧ NoEnd b := by
  simp only [NoEnd, List.mem_append]
  constructor
  · intro h
    exact ⟨fun t ht => h t (Or.inl ht), fun t ht => h t (Or.inr ht)⟩
  · rintro ⟨ha, hb⟩ t (ht | ht)
    · exact ha t ht
    · exact hb t ht

/-! ### What phrases are read as -/

section Read

variable {stop : Token} {blocks : List OpenBlock} {rest : List Token}

/-- The terms read so far, with an expression behind them. -/
def Terms.before (terms : Terms) (e : Expr) : Expr :=
  terms.foldl (fun rhs term => .binary term.2 (.leaf term.1) rhs) e

theorem chain_eq_before (terms : Terms) (last : Leaf) : chain terms last = terms.before (.leaf last) := rfl

theorem ExprPhrase.read_eq {role : ExprRole} (terms : Terms) {e : ExprPhrase} {next : Token} (h : e.Valid next)
    (hend : NoEnd e.tokens) :
    Pending.read stop ⟨.term role terms, blocks⟩ (e.tokens ++ next :: rest) =
      (Step.afterExpr blocks role (terms.before e.expr) next).resume stop next rest := by
  induction e generalizing terms with
  | term t =>
    have ht : t.isEnd = false := (noEnd_cons.1 hend).1
    have hnext : next.kind ≠ .operator := h
    simp [tokens, Pending.read_cons, Pending.step, Step.term, ht, hnext, expr, chain_eq_before]
  | chain t op more ih =>
    obtain ⟨hop, hmore⟩ := h
    simp only [tokens, noEnd_cons] at hend
    obtain ⟨ht, -, hmoreEnd⟩ := hend
    have hrest := ih ((Leaf.ofToken t, op.lexeme) :: terms) hmore hmoreEnd
    simpa [tokens, Pending.read_cons, Pending.step, Step.term, ht, hop, expr, Terms.before] using hrest

/-- An assignment behind its target. -/
private theorem AssignPhrase.read_eq_equals {role : AssignRole} {a : AssignPhrase} (h : a.Valid)
    (hend : NoEnd a.tokens) : Pending.read stop ⟨.equals role a.target.lexeme a.target.line, blocks⟩
        (a.equals :: (a.value.tokens ++ a.stop :: rest)) =
      (Step.assigned blocks role a.assign).resume stop a.stop rest := by
  simp only [tokens, noEnd_cons, noEnd_append] at hend
  rw [Pending.read_cons]
  simp only [Pending.step, Step.expect_of_is _ h.equals, Step.resume_more]
  rw [ExprPhrase.read_eq [] h.value hend.2.2.1]
  simp only [Step.afterExpr, Step.expect_of_is _ h.stop]
  rfl

private theorem AssignPhrase.read_eq_target {role : AssignRole} {a : AssignPhrase} (h : a.Valid)
    (hend : NoEnd a.tokens) : Pending.read stop ⟨.target role, blocks⟩ (a.tokens ++ rest) =
      (Step.assigned blocks role a.assign).resume stop a.stop rest := by
  rw [← a.read_eq_equals h hend]
  simp [tokens, Pending.read_cons, Pending.step, h.target]

/-- A token that does not close the innermost block begins a declaration. -/
theorem Pending.step_begin {t : Token} (hclose : blocks ≠ [] → t.lexeme ≠ "\x7d") (hend : t.isEnd = false) :
    Pending.step ⟨.declaration, blocks⟩ t = Step.begin blocks t := by
  cases blocks with
  | nil => rfl
  | cons block outer => simp [Pending.step, Step.declaration, hclose, hend]

theorem Step.begin_if {t : Token} (h : t.isKeyword "if") :
    Step.begin blocks t = .more ⟨.header .if t.line, blocks⟩ := by
  simp only [Token.isKeyword, Bool.and_eq_true, decide_eq_true_eq] at h
  simp [Step.begin, h.1, h.2]

theorem Step.begin_while {t : Token} (h : t.isKeyword "while") :
    Step.begin blocks t = .more ⟨.header .while t.line, blocks⟩ := by
  simp only [Token.isKeyword, Token.reads, Bool.and_eq_true, decide_eq_true_eq] at h
  simp [Step.begin, Token.reads, h.1, h.2]

theorem Step.begin_for {t : Token} (h : t.isKeyword "for") :
    Step.begin blocks t = .more ⟨.header .for t.line, blocks⟩ := by
  simp only [Token.isKeyword, Token.reads, Bool.and_eq_true, decide_eq_true_eq] at h
  simp [Step.begin, Token.reads, h.1, h.2]

theorem Step.begin_return {t : Token} (h : t.isKeyword "return") :
    Step.begin blocks t = .more ⟨.returnValue t.line, blocks⟩ := by
  simp only [Token.isKeyword, Token.reads, Bool.and_eq_true, decide_eq_true_eq] at h
  simp [Step.begin, Token.reads, h.1, h.2]

theorem Step.begin_identifier {t : Token} (h : t.kind = .identifier) :
    Step.begin blocks t = .more ⟨.equals .statement t.lexeme t.line, blocks⟩ := by
  simp [Step.begin, h]

/-- The two statements with a test differ in what the header goes on as. -/
private theorem TestPhrase.read_eq {word : String} {p : TestPhrase} {header : Header} {role : ExprRole}
    {f : Expr → BlockHead} (h : p.Valid word) (hclose : blocks ≠ [] → p.keyword.lexeme ≠ "\x7d")
    (hend : NoEnd p.tokens) (hbegin : Step.begin blocks p.keyword = .more ⟨.header header p.keyword.line, blocks⟩)
    (hheader : ∀ t, Pending.step ⟨.header header p.keyword.line, blocks⟩ t =
      .expect t .delimiter "(" (.more ⟨.term role [], blocks⟩))
    (hafter : ∀ e t, Step.afterExpr blocks role e t =
      .expect t .delimiter ")" (.more ⟨.blockStart (f e), blocks⟩)) :
    Pending.read stop ⟨.declaration, blocks⟩ (p.tokens ++ rest) =
      Pending.read stop ⟨.blockStart (f p.cond.expr), blocks⟩ rest := by
  simp only [tokens, noEnd_cons, noEnd_append] at hend
  simp only [tokens, List.cons_append, List.append_assoc, List.nil_append]
  rw [Pending.read_cons, Pending.step_begin hclose hend.1, hbegin, Step.resume_more]
  rw [Pending.read_cons, hheader, Step.expect_of_is _ h.opening, Step.resume_more]
  rw [ExprPhrase.read_eq [] h.cond hend.2.2.1, hafter, Step.expect_of_is _ h.closing, Step.resume_more]
  rfl

private theorem TestPhrase.read_eq_if {p : TestPhrase} (h : p.Valid "if")
    (hclose : blocks ≠ [] → p.keyword.lexeme ≠ "\x7d") (hend : NoEnd p.tokens) :
    Pending.read stop ⟨.declaration, blocks⟩ (p.tokens ++ rest) =
      Pending.read stop ⟨.blockStart (.thenOf p.cond.expr p.keyword.line), blocks⟩ rest :=
  read_eq (f := fun e => .thenOf e p.keyword.line) h hclose hend (Step.begin_if h.keyword) (fun _ => rfl)
    (fun _ _ => rfl)

private theorem TestPhrase.read_eq_while {p : TestPhrase} (h : p.Valid "while")
    (hclose : blocks ≠ [] → p.keyword.lexeme ≠ "\x7d") (hend : NoEnd p.tokens) :
    Pending.read stop ⟨.declaration, blocks⟩ (p.tokens ++ rest) =
      Pending.read stop ⟨.blockStart (.whileOf p.cond.expr p.keyword.line), blocks⟩ rest :=
  read_eq (f := fun e => .whileOf e p.keyword.line) h hclose hend (Step.begin_while h.keyword) (fun _ => rfl)
    (fun _ _ => rfl)

theorem ForPhrase.read_eq {p : ForPhrase} (h : p.Valid) (hclose : blocks ≠ [] → p.keyword.lexeme ≠ "\x7d")
    (hend : NoEnd p.tokens) :
    Pending.read stop ⟨.declaration, blocks⟩ (p.tokens ++ rest) =
      Pending.read stop
        ⟨.blockStart (.forOf p.init.assign p.cond.expr p.step.assign p.keyword.line), blocks⟩ rest := by
  simp only [tokens, noEnd_cons, noEnd_append] at hend
  obtain ⟨hkeyword, -, hinit, hcond, -, hstep, -⟩ := hend
  simp only [tokens, List.cons_append, List.append_assoc, List.nil_append]
  rw [Pending.read_cons, Pending.step_begin hclose hkeyword, Step.begin_for h.keyword, Step.resume_more,
    Pending.read_cons]
  simp only [Pending.step, Step.expect_of_is _ h.opening, Step.resume_more]
  rw [AssignPhrase.read_eq_target h.init hinit]
  simp only [Step.assigned, Step.resume_more]
  rw [ExprPhrase.read_eq [] h.cond hcond]
  simp only [Step.afterExpr, Step.expect_of_is _ h.separator, Step.resume_more]
  rw [AssignPhrase.read_eq_target h.step hstep]
  simp only [Step.assigned, Step.resume_more]
  rw [Pending.read_cons]
  simp only [Pending.step, Step.expect_of_is _ h.closing, Step.resume_more]
  rfl

/-- A then branch without an else branch ends as any other statement does. -/
theorem Pending.read_afterThen {cond : Expr} {body : List Stmt} {line : Nat} (h : NoElse rest)
    (hstop : stop.reads "else" = false) :
    Pending.read stop ⟨.afterThen cond body line, blocks⟩ rest =
      readBehind stop blocks (.ifThen cond body line) rest := by
  cases rest with
  | nil => cases blocks <;> simp [Pending.read, Pending.step, Step.afterThen, hstop, readBehind]
  | cons t rest =>
    have ht : t.reads "else" = false := h t rfl
    rw [Pending.read_cons]
    cases blocks with
    | nil => simp [Pending.step, Step.afterThen, ht, readBehind, Step.resume]
    | cons block outer => simp [Pending.step, Step.afterThen, ht, readBehind, Pending.read_cons]

/-- A block is read as its statements if its declarations are. -/
theorem Braces.read_eq {b : Braces} {head : BlockHead} {body : List DeclPhrase} (hb : b.Valid)
    (hbody : Pending.read stop ⟨.declaration, ⟨head, []⟩ :: blocks⟩ (tokensAll body ++ b.closing :: rest) =
      Pending.read stop ⟨.declaration, ⟨head, (stmtAll body).reverse ++ []⟩ :: blocks⟩ (b.closing :: rest)) :
    Pending.read stop ⟨.blockStart head, blocks⟩ (b.around (tokensAll body) ++ rest) =
      (Step.closeBlock ⟨head, (stmtAll body).reverse⟩ blocks).resume stop b.closing rest := by
  have hlexeme := Token.lexeme_eq_of_is hb.closing
  simp only [around, List.cons_append, List.append_assoc, List.nil_append]
  rw [Pending.read_cons]
  simp only [Pending.step, Step.expect_of_is _ hb.opening, Step.resume_more]
  rw [hbody, Pending.read_cons, List.append_nil]
  simp [Pending.step, Step.declaration, hlexeme, Step.expect_of_is _ hb.closing]

private theorem ret_read_eq {keyword semicolon : Token} {value : Option ExprPhrase}
    (h : (DeclPhrase.ret keyword value semicolon).Valid rest) (hclose : blocks ≠ [] → keyword.lexeme ≠ "\x7d")
    (hend : NoEnd (DeclPhrase.ret keyword value semicolon).tokens) :
    Pending.read stop ⟨.declaration, blocks⟩ ((DeclPhrase.ret keyword value semicolon).tokens ++ rest) =
      readBehind stop blocks (DeclPhrase.ret keyword value semicolon).stmt rest := by
  cases value with
  | none =>
    obtain ⟨hkeyword, hsemicolon⟩ := h
    have hkind := Token.kind_eq_of_is hsemicolon
    simp only [DeclPhrase.tokens, noEnd_cons] at hend
    simp only [DeclPhrase.tokens, List.cons_append, List.nil_append]
    rw [Pending.read_cons, Pending.step_begin hclose hend.1, Step.begin_return hkeyword, Step.resume_more]
    rw [Pending.read_cons]
    simp [Pending.step, hkind, Step.expect_of_is _ hsemicolon, DeclPhrase.stmt]
  | some value =>
    obtain ⟨hkeyword, hfirst, hvalue, hsemicolon⟩ := h
    simp only [DeclPhrase.tokens, noEnd_cons, noEnd_append] at hend
    obtain ⟨hkeywordEnd, hvalueEnd, -⟩ := hend
    simp only [DeclPhrase.tokens, List.cons_append, List.append_assoc, List.nil_append]
    rw [Pending.read_cons, Pending.step_begin hclose hkeywordEnd, Step.begin_return hkeyword, Step.resume_more]
    -- a token that is no delimiter is read as the first term of the value
    have hsame : Pending.read stop ⟨.returnValue keyword.line, blocks⟩ (value.tokens ++ semicolon :: rest) =
        Pending.read stop ⟨.term (.returned keyword.line) [], blocks⟩ (value.tokens ++ semicolon :: rest) := by
      obtain ⟨more, hmore⟩ := value.tokens_eq_cons
      rw [hmore, noEnd_cons] at hvalueEnd
      rw [hmore, List.cons_append, Pending.read_cons, Pending.read_cons]
      simp [Pending.step, hfirst, hvalueEnd.1]
    rw [hsame, ExprPhrase.read_eq [] hvalue hvalueEnd]
    simp only [Step.afterExpr, Step.expect_of_is _ hsemicolon, Step.resume_finish]
    rfl

end Read

mutual

/-- A valid declaration is read as its statement. -/
theorem DeclPhrase.read_eq {stop : Token} (hstop : stop.reads "else" = false) (d : DeclPhrase)
    {blocks : List OpenBlock} {rest : List Token} (h : d.Valid rest)
    (hclose : blocks ≠ [] → d.first.lexeme ≠ "\x7d") (hend : NoEnd d.tokens) :
    Pending.read stop ⟨.declaration, blocks⟩ (d.tokens ++ rest) = readBehind stop blocks d.stmt rest := by
  match d with
  | .assign a =>
    have ha : a.Valid := h
    rw [DeclPhrase.tokens] at hend ⊢
    have htarget : a.target.isEnd = false := (noEnd_cons.1 hend).1
    simp only [AssignPhrase.tokens, List.cons_append, List.append_assoc, List.nil_append]
    rw [Pending.read_cons, Pending.step_begin (t := a.target) hclose htarget, Step.begin_identifier ha.target,
      Step.resume_more, AssignPhrase.read_eq_equals ha hend]
    simp only [Step.assigned, Step.resume_finish, DeclPhrase.stmt]
  | .ret keyword value semicolon => exact ret_read_eq h hclose hend
  | .ifThen test braces body =>
    obtain ⟨htest, hbraces, hbody, hnone, helse⟩ := h
    simp only [DeclPhrase.tokens, Braces.around, noEnd_cons, noEnd_append] at hend
    obtain ⟨htestEnd, -, hbodyEnd, -⟩ := hend
    rw [DeclPhrase.tokens, List.append_assoc, TestPhrase.read_eq_if htest hclose htestEnd,
      Braces.read_eq hbraces (readAll_eq hstop body hbody hnone hbodyEnd)]
    simp only [Step.closeBlock, List.reverse_reverse, Step.resume_more, DeclPhrase.stmt]
    exact Pending.read_afterThen helse hstop
  | .ifElse test braces body word otherBraces other =>
    obtain ⟨htest, hbraces, hbody, hnone, hreads, hother, hotherBody, hotherNone⟩ := h
    simp only [DeclPhrase.tokens, Braces.around, noEnd_cons, noEnd_append] at hend
    obtain ⟨htestEnd, ⟨-, hbodyEnd, -⟩, hwordEnd, -, hotherEnd, -⟩ := hend
    simp only [DeclPhrase.tokens, List.append_assoc, List.cons_append]
    rw [TestPhrase.read_eq_if htest hclose htestEnd,
      Braces.read_eq hbraces (readAll_eq hstop body hbody hnone hbodyEnd)]
    simp only [Step.closeBlock, List.reverse_reverse, Step.resume_more]
    rw [Pending.read_cons]
    simp only [Pending.step, Step.afterThen, hreads, hwordEnd, if_true, Bool.false_eq_true, if_false,
      Step.resume_more]
    rw [Braces.read_eq hother (readAll_eq hstop other hotherBody hotherNone hotherEnd)]
    simp only [Step.closeBlock, List.reverse_reverse, Step.resume_finish, DeclPhrase.stmt]
  | .while test braces body =>
    obtain ⟨htest, hbraces, hbody, hnone⟩ := h
    simp only [DeclPhrase.tokens, Braces.around, noEnd_cons, noEnd_append] at hend
    obtain ⟨htestEnd, -, hbodyEnd, -⟩ := hend
    rw [DeclPhrase.tokens, List.append_assoc, TestPhrase.read_eq_while htest hclose htestEnd,
      Braces.read_eq hbraces (readAll_eq hstop body hbody hnone hbodyEnd)]
    simp only [Step.closeBlock, List.reverse_reverse, Step.resume_finish, DeclPhrase.stmt]
  | .for header braces body =>
    obtain ⟨hheader, hbraces, hbody, hnone⟩ := h
    simp only [DeclPhrase.tokens, Braces.around, noEnd_cons, noEnd_append] at hend
    obtain ⟨hheaderEnd, -, hbodyEnd, -⟩ := hend
    rw [DeclPhrase.tokens, List.append_assoc, ForPhrase.read_eq hheader hclose hheaderEnd,
      Braces.read_eq hbraces (readAll_eq hstop body hbody hnone hbodyEnd)]
    simp only [Step.closeBlock, List.reverse_reverse, Step.resume_finish, DeclPhrase.stmt]

/-- The declarations of a block are read as their statements. -/
private theorem readAll_eq {stop : Token} (hstop : stop.reads "else" = false) (ds : List DeclPhrase) {head : BlockHead}
    {read : List Stmt} {outer : List OpenBlock} {rest : List Token} (h : ValidAll rest ds) (hnone : NoneCloses ds)
    (hend : NoEnd (tokensAll ds)) :
    Pending.read stop ⟨.declaration, ⟨head, read⟩ :: outer⟩ (tokensAll ds ++ rest) =
      Pending.read stop ⟨.declaration, ⟨head, (stmtAll ds).reverse ++ read⟩ :: outer⟩ rest := by
  match ds with
  | [] => rfl
  | d :: more =>
    rw [tokensAll, noEnd_append] at hend
    rw [tokensAll, List.append_assoc,
      d.read_eq hstop h.1 (fun _ => hnone d (List.mem_cons_self ..)) hend.1, readBehind,
      readAll_eq hstop more h.2 (fun x hx => hnone x (List.mem_cons_of_mem _ hx)) hend.2]
    simp [stmtAll]

end

end ThreeAddress
