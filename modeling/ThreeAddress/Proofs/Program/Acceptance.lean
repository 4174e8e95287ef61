import Mathlib.Data.List.TakeWhile
import ThreeAddress.Proofs.Program.Reading

/-!
# The reader accepts the grammar

A list of tokens is read without an error exactly if it is made of valid declarations, and then their statements are
the program that is read (`parse_errors_eq_nil_iff`).

* `exists_exprPhrase`, `exists_assignPhrase`, …: where a phrase is read without an error, a valid one stands;
* `blocksStand`: the same for the inside of a block, by induction on the number of tokens ahead;
* `exists_of_errors_eq_nil`: the same for a whole program.
-/

namespace ThreeAddress

/-! ### Where phrases stand -/

/-- Whether a statement was read. -/
def Reading.Ok (r : Reading) : Prop := ∃ s, r.result = .ok s

private theorem Step.not_ok_resume_fail {stop t : Token} {rest : List Token} {cause : SyntaxCause} :
    ¬ ((Step.fail cause).resume stop t rest).Ok := by
  rintro ⟨s, hs⟩
  cases hs

private theorem Step.ok_of_expect {stop t : Token} {rest : List Token} {kind : Kind} {text : String} {next : Step}
    (h : ((Step.expect t kind text next).resume stop t rest).Ok) :
    t.is kind text ∧ (next.resume stop t rest).Ok := by
  by_cases ht : t.is kind text
  · rw [Step.expect_of_is _ ht] at h
    exact ⟨ht, h⟩
  · rw [Step.expect, if_neg ht] at h
    exact (not_ok_resume_fail h).elim

section Exists

variable {stop : Token} (hstop : stop.kind = .endOfInput) {blocks : List OpenBlock} {ts : List Token}

private theorem Pending.not_ok_nil {d : Pending} {cause : SyntaxCause} (hd : d.step stop = .fail cause) :
    ¬ (d.read stop []).Ok := by
  rintro ⟨s, hs⟩
  rw [Pending.read, hd] at hs
  cases hs

include hstop

private theorem Step.expect_stop {kind : Kind} {text : String} {next : Step} (hkind : kind ≠ .endOfInput) :
    Step.expect stop kind text next = .fail (.insteadOf stop kind text) := by
  have hne : ¬ stop.is kind text := fun his => hkind (Token.kind_eq_of_is his ▸ hstop)
  rw [Step.expect, if_neg hne]

/-- A token that is due is there. -/
private theorem exists_expected {d : Pending} {kind : Kind} {text : String} {next : Step}
    (hd : ∀ t, d.step t = .expect t kind text next) (hkind : kind ≠ .endOfInput) (h : (d.read stop ts).Ok) :
    ∃ t rest, ts = t :: rest ∧ t.is kind text ∧ (next.resume stop t rest).Ok := by
  cases ts with
  | nil =>
    exact (Pending.not_ok_nil ((hd stop).trans (Step.expect_stop hstop hkind)) h).elim
  | cons t rest =>
    rw [Pending.read_cons, hd] at h
    obtain ⟨ht, hnext⟩ := Step.ok_of_expect h
    exact ⟨t, rest, rfl, ht, hnext⟩

theorem exists_exprPhrase {role : ExprRole} {terms : Terms} {ts : List Token}
    (h : (Pending.read stop ⟨.term role terms, blocks⟩ ts).Ok) :
    ∃ e next rest, ts = ExprPhrase.tokens e ++ next :: rest ∧ e.Valid next ∧
      ((Step.afterExpr blocks role (terms.before e.expr) next).resume stop next rest).Ok := by
  cases ts with
  | nil =>
    have hfail : Pending.step ⟨.term role terms, blocks⟩ stop = .fail .unexpectedEnd := by
      simp [Pending.step, Step.term, Token.isEnd, hstop]
    exact (Pending.not_ok_nil hfail h).elim
  | cons t rest =>
    have ht : t.isEnd = false := by
      rw [Bool.eq_false_iff]
      intro ht
      simp only [Pending.read_cons, Pending.step, Step.term, ht, if_true] at h
      exact Step.not_ok_resume_fail h
    simp only [Pending.read_cons, Pending.step, Step.term, ht, Bool.false_eq_true, if_false, Step.resume_more] at h
    cases rest with
    | nil =>
      have hfail : ∃ cause, Pending.step ⟨.afterTerm role terms (.ofToken t), blocks⟩ stop = .fail cause := by
        simp only [Pending.step, hstop, reduceCtorEq, if_false]
        cases role <;> exact ⟨_, Step.expect_stop hstop (by simp)⟩
      obtain ⟨cause, hcause⟩ := hfail
      exact (Pending.not_ok_nil hcause h).elim
    | cons next rest =>
      rw [Pending.read_cons] at h
      by_cases hop : next.kind = .operator
      · simp only [Pending.step, hop, if_true, Step.resume_more] at h
        obtain ⟨e, last, more, rfl, he, hok⟩ := exists_exprPhrase h
        exact ⟨.chain t next e, last, more, rfl, ⟨hop, he⟩, hok⟩
      · simp only [Pending.step, hop, if_false, chain_eq_before] at h
        exact ⟨.term t, next, rest, rfl, hop, h⟩

/-- Behind a name, an assignment is read. -/
theorem exists_assignPhrase {role : AssignRole} {t : Token} (ht : t.kind = .identifier)
    (h : (Pending.read stop ⟨.equals role t.lexeme t.line, blocks⟩ ts).Ok) :
    ∃ a rest, t :: ts = AssignPhrase.tokens a ++ rest ∧ a.Valid ∧
      ((Step.assigned blocks role a.assign).resume stop a.stop rest).Ok := by
  obtain ⟨equals, more, rfl, hequals, hvalue⟩ := exists_expected hstop (fun _ => rfl) (by simp) h
  obtain ⟨e, next, rest, rfl, he, hnext⟩ := exists_exprPhrase hstop hvalue
  obtain ⟨hsemicolon, hok⟩ := Step.ok_of_expect hnext
  exact ⟨⟨t, equals, e, next⟩, rest, by simp [AssignPhrase.tokens], ⟨ht, hequals, he, hsemicolon⟩, hok⟩

private theorem exists_assignPhrase_target {role : AssignRole} (h : (Pending.read stop ⟨.target role, blocks⟩ ts).Ok) :
    ∃ a rest, ts = AssignPhrase.tokens a ++ rest ∧ a.Valid ∧
      ((Step.assigned blocks role a.assign).resume stop a.stop rest).Ok := by
  cases ts with
  | nil =>
    have hfail : Pending.step ⟨.target role, blocks⟩ stop = .fail (.insteadOf stop .identifier "<name>") := by
      simp [Pending.step, hstop]
    exact (Pending.not_ok_nil hfail h).elim
  | cons t rest =>
    rw [Pending.read_cons] at h
    by_cases ht : t.kind = .identifier
    · simp only [Pending.step, ht, if_true, Step.resume_more] at h
      exact exists_assignPhrase hstop ht h
    · simp only [Pending.step, ht, if_false] at h
      exact (Step.not_ok_resume_fail h).elim

private theorem exists_testPhrase {word : String} {t : Token} {header : Header} {role : ExprRole} {f : Expr → BlockHead}
    (ht : t.isKeyword word) (hheader : ∀ u, Pending.step ⟨.header header t.line, blocks⟩ u =
      .expect u .delimiter "(" (.more ⟨.term role [], blocks⟩))
    (hafter : ∀ e u, Step.afterExpr blocks role e u = .expect u .delimiter ")" (.more ⟨.blockStart (f e), blocks⟩))
    (h : (Pending.read stop ⟨.header header t.line, blocks⟩ ts).Ok) :
    ∃ p rest, t :: ts = TestPhrase.tokens p ++ rest ∧ p.keyword = t ∧ p.Valid word ∧
      (Pending.read stop ⟨.blockStart (f p.cond.expr), blocks⟩ rest).Ok := by
  obtain ⟨opening, more, rfl, hopening, hcond⟩ := exists_expected hstop hheader (by simp) h
  obtain ⟨e, next, rest, rfl, he, hnext⟩ := exists_exprPhrase hstop hcond
  rw [hafter] at hnext
  obtain ⟨hclosing, hok⟩ := Step.ok_of_expect hnext
  exact ⟨⟨t, opening, e, next⟩, rest, by simp [TestPhrase.tokens], rfl, ⟨ht, hopening, he, hclosing⟩, hok⟩

private theorem exists_forPhrase {t : Token} (ht : t.isKeyword "for")
    (h : (Pending.read stop ⟨.header .for t.line, blocks⟩ ts).Ok) :
    ∃ p rest, t :: ts = ForPhrase.tokens p ++ rest ∧ p.keyword = t ∧ p.Valid ∧
      (Pending.read stop ⟨.blockStart (.forOf p.init.assign p.cond.expr p.step.assign t.line), blocks⟩ rest).Ok := by
  obtain ⟨opening, _, rfl, hopening, hinitOk⟩ := exists_expected hstop (fun _ => rfl) (by simp) h
  obtain ⟨init, _, rfl, hinit, hcondOk⟩ := exists_assignPhrase_target hstop hinitOk
  obtain ⟨cond, separator, _, rfl, hcond, hnext⟩ := exists_exprPhrase hstop hcondOk
  obtain ⟨hseparator, hstepOk⟩ := Step.ok_of_expect hnext
  obtain ⟨step, _, rfl, hstep, hendOk⟩ := exists_assignPhrase_target hstop hstepOk
  obtain ⟨closing, rest, rfl, hclosing, hok⟩ := exists_expected hstop (fun _ => rfl) (by simp) hendOk
  exact ⟨⟨t, opening, init, cond, separator, step, closing⟩, rest, by simp [ForPhrase.tokens], rfl,
    ⟨ht, hopening, hinit, hcond, hseparator, hstep, hclosing⟩, hok⟩

private theorem exists_ret {t : Token} (ht : t.isKeyword "return")
    (h : (Pending.read stop ⟨.returnValue t.line, blocks⟩ ts).Ok) :
    ∃ value semicolon rest, t :: ts = (DeclPhrase.ret t value semicolon).tokens ++ rest ∧
      (DeclPhrase.ret t value semicolon).Valid rest ∧
      (readBehind stop blocks (DeclPhrase.ret t value semicolon).stmt rest).Ok := by
  cases ts with
  | nil =>
    have hfail : Pending.step ⟨.returnValue t.line, blocks⟩ stop = .fail (.insteadOf stop .delimiter ";") := by
      simp [Pending.step, hstop, Token.isEnd, Step.expect_stop hstop]
    exact (Pending.not_ok_nil hfail h).elim
  | cons u more =>
    rw [Pending.read_cons] at h
    by_cases hu : u.kind = .delimiter || u.isEnd
    · simp only [Pending.step, hu, if_true] at h
      obtain ⟨hsemicolon, hok⟩ := Step.ok_of_expect h
      rw [Step.resume_finish] at hok
      exact ⟨none, u, more, rfl, ⟨ht, hsemicolon⟩, hok⟩
    · simp only [Pending.step, hu] at h
      have hvalueOk : (Pending.read stop ⟨.term (.returned t.line) [], blocks⟩ (u :: more)).Ok := by
        rw [Pending.read_cons]
        exact h
      obtain ⟨e, semicolon, rest, hsplit, he, hnext⟩ := exists_exprPhrase hstop hvalueOk
      obtain ⟨hsemicolon, hok⟩ := Step.ok_of_expect hnext
      rw [Step.resume_finish] at hok
      have hfirst : e.first = u := by
        obtain ⟨tail, htail⟩ := e.tokens_eq_cons
        rw [htail] at hsplit
        exact (List.cons.inj hsplit).1.symm
      have hne : e.first.kind ≠ .delimiter := by
        intro hkind
        simp [← hfirst, hkind] at hu
      exact ⟨some e, semicolon, rest, by simp [hsplit, DeclPhrase.tokens], ⟨ht, hne, he, hsemicolon⟩, hok⟩

end Exists

section Begin

variable {stop : Token} {blocks : List OpenBlock} {rest : List Token}

/-- What can begin a declaration, with what has to come next. -/
private theorem Step.begin_cases {t : Token} (h : ((Step.begin blocks t).resume stop t rest).Ok) :
    (t.kind = .identifier ∧ (Pending.read stop ⟨.equals .statement t.lexeme t.line, blocks⟩ rest).Ok) ∨
    (t.isKeyword "return" ∧ (Pending.read stop ⟨.returnValue t.line, blocks⟩ rest).Ok) ∨
    (t.isKeyword "if" ∧ (Pending.read stop ⟨.header .if t.line, blocks⟩ rest).Ok) ∨
    (t.isKeyword "while" ∧ (Pending.read stop ⟨.header .while t.line, blocks⟩ rest).Ok) ∨
    (t.isKeyword "for" ∧ (Pending.read stop ⟨.header .for t.line, blocks⟩ rest).Ok) := by
  cases hkind : t.kind with
  | identifier =>
    rw [Step.begin_identifier hkind] at h
    exact Or.inl ⟨rfl, h⟩
  | keyword =>
    have hkey : ∀ word, t.isKeyword word = t.reads word := by
      intro word
      simp [Token.isKeyword, hkind]
    by_cases hif : t.reads "if"
    · rw [Step.begin_if ((hkey _).trans hif)] at h
      exact Or.inr (Or.inr (Or.inl ⟨(hkey _).trans hif, h⟩))
    by_cases hwhile : t.reads "while"
    · rw [Step.begin_while ((hkey _).trans hwhile)] at h
      exact Or.inr (Or.inr (Or.inr (Or.inl ⟨(hkey _).trans hwhile, h⟩)))
    by_cases hfor : t.reads "for"
    · rw [Step.begin_for ((hkey _).trans hfor)] at h
      exact Or.inr (Or.inr (Or.inr (Or.inr ⟨(hkey _).trans hfor, h⟩)))
    by_cases hreturn : t.reads "return"
    · rw [Step.begin_return ((hkey _).trans hreturn)] at h
      exact Or.inr (Or.inl ⟨(hkey _).trans hreturn, h⟩)
    · simp only [Step.begin, hkind, hif, hwhile, hfor, hreturn] at h
      exact (Step.not_ok_resume_fail h).elim
  | _ =>
    simp only [Step.begin, hkind] at h
    exact (Step.not_ok_resume_fail h).elim

/-- Inside a block, what does not close it begins a declaration. -/
private theorem Step.ok_begin {t : Token} (hclose : blocks ≠ [] → t.lexeme ≠ "\x7d")
    (h : (Pending.read stop ⟨.declaration, blocks⟩ (t :: rest)).Ok) :
    ((Step.begin blocks t).resume stop t rest).Ok := by
  rw [Pending.read_cons] at h
  by_cases hend : t.isEnd
  · obtain ⟨cause, hcause⟩ : ∃ cause, Pending.step ⟨.declaration, blocks⟩ t = .fail cause := by
      have hkind : t.kind = .endOfInput := by simpa [Token.isEnd] using hend
      cases blocks with
      | nil => exact ⟨.unexpectedEnd, by simp [Pending.step, Step.declaration, Step.begin, hkind]⟩
      | cons block outer =>
        refine ⟨.insteadOf t .delimiter "\x7d", ?_⟩
        simp [Pending.step, Step.declaration, hend, Step.expect_stop hkind]
    rw [hcause] at h
    exact (Step.not_ok_resume_fail h).elim
  · rwa [Pending.step_begin hclose (Bool.eq_false_iff.2 hend)] at h

/-- Behind a then branch stands an else branch, or no `else` is next. -/
private theorem Pending.afterThen_cases {cond : Expr} {body : List Stmt} {line : Nat}
    (hstop : stop.reads "else" = false) (h : (Pending.read stop ⟨.afterThen cond body line, blocks⟩ rest).Ok) :
    (NoElse rest ∧ (readBehind stop blocks (.ifThen cond body line) rest).Ok) ∨
    ∃ word more, rest = word :: more ∧ word.reads "else" ∧
      (Pending.read stop ⟨.blockStart (.elseOf cond body line), blocks⟩ more).Ok := by
  by_cases helse : NoElse rest
  · rw [Pending.read_afterThen helse hstop] at h
    exact Or.inl ⟨helse, h⟩
  · cases rest with
    | nil => exact (helse (by simp [NoElse])).elim
    | cons word more =>
      have hreads : word.reads "else" := by simpa [NoElse] using helse
      rw [Pending.read_cons] at h
      by_cases hend : word.isEnd
      · simp only [Pending.step, Step.afterThen, hreads, hend, if_true] at h
        exact (Step.not_ok_resume_fail h).elim
      · simp only [Pending.step, Step.afterThen, hreads, hend, if_true] at h
        exact Or.inr ⟨word, more, rfl, hreads, h⟩

end Begin

/-! ### Blocks and declarations -/

/-- Where the inside of a block of fewer than `n` tokens is read without an error, declarations stand up to a closing
brace. -/
def BlocksStand (stop : Token) (n : Nat) : Prop :=
  ∀ {ts : List Token} {head : BlockHead} {read : List Stmt} {outer : List OpenBlock}, ts.length < n →
    (Pending.read stop ⟨.declaration, ⟨head, read⟩ :: outer⟩ ts).Ok →
    ∃ ds closing rest, ts = tokensAll ds ++ closing :: rest ∧ ValidAll (closing :: rest) ds ∧ NoneCloses ds ∧
      closing.is .delimiter "\x7d" ∧
      ((Step.closeBlock ⟨head, (stmtAll ds).reverse ++ read⟩ outer).resume stop closing rest).Ok

section Blocks

variable {stop : Token} (hstop : stop.kind = .endOfInput) {n : Nat} (hblocks : BlocksStand stop n)
  {blocks : List OpenBlock} {ts : List Token}
include hstop hblocks

private theorem exists_block {head : BlockHead} (hn : ts.length ≤ n)
    (h : (Pending.read stop ⟨.blockStart head, blocks⟩ ts).Ok) :
    ∃ b body rest, ts = Braces.around b (tokensAll body) ++ rest ∧ b.Valid ∧
      ValidAll (b.closing :: rest) body ∧ NoneCloses body ∧
      ((Step.closeBlock ⟨head, (stmtAll body).reverse⟩ blocks).resume stop b.closing rest).Ok := by
  obtain ⟨opening, more, rfl, hopening, hinside⟩ := exists_expected hstop (fun _ => rfl) (by simp) h
  obtain ⟨body, closing, rest, rfl, hbody, hnone, hclosing, hok⟩ := hblocks hn hinside
  rw [List.append_nil] at hok
  exact ⟨⟨opening, closing⟩, body, rest, by simp [Braces.around], ⟨hopening, hclosing⟩, hbody, hnone, hok⟩

/-- A conditional behind its test, with or without an else branch. -/
private theorem exists_conditional {p : TestPhrase} (helse : stop.reads "else" = false) (hn : ts.length ≤ n)
    (hp : p.Valid "if")
    (h : (Pending.read stop ⟨.blockStart (.thenOf p.cond.expr p.keyword.line), blocks⟩ ts).Ok) :
    ∃ d rest, p.tokens ++ ts = DeclPhrase.tokens d ++ rest ∧ d.Valid rest ∧
      (readBehind stop blocks d.stmt rest).Ok := by
  obtain ⟨b, body, tail, rfl, hb, hbody, hnone, hthen⟩ := exists_block hstop hblocks hn h
  simp only [Step.closeBlock, List.reverse_reverse, Step.resume_more] at hthen
  rcases Pending.afterThen_cases helse hthen with ⟨hno, hrest⟩ | ⟨word, more, rfl, hword, hotherOk⟩
  · exact ⟨.ifThen p b body, tail, by simp [DeclPhrase.tokens], ⟨hp, hb, hbody, hnone, hno⟩, hrest⟩
  · simp only [List.length_append, List.length_cons] at hn
    obtain ⟨c, other, rest, rfl, hc, hother, hotherNone, hrest⟩ := exists_block hstop hblocks (by omega) hotherOk
    simp only [Step.closeBlock, List.reverse_reverse, Step.resume_finish] at hrest
    exact ⟨.ifElse p b body word c other, rest, by simp [DeclPhrase.tokens],
      ⟨hp, hb, hbody, hnone, hword, hc, hother, hotherNone⟩, hrest⟩

private theorem exists_declPhrase {t : Token} (helse : stop.reads "else" = false) (hn : (t :: ts).length ≤ n)
    (hclose : blocks ≠ [] → t.lexeme ≠ "\x7d") (h : (Pending.read stop ⟨.declaration, blocks⟩ (t :: ts)).Ok) :
    ∃ d rest, t :: ts = DeclPhrase.tokens d ++ rest ∧ d.Valid rest ∧ (readBehind stop blocks d.stmt rest).Ok := by
  rcases Step.begin_cases (Step.ok_begin hclose h) with
    ⟨ht, hok⟩ | ⟨ht, hok⟩ | ⟨ht, hok⟩ | ⟨ht, hok⟩ | ⟨ht, hok⟩
  · obtain ⟨a, rest, hsplit, ha, hrest⟩ := exists_assignPhrase hstop ht hok
    rw [Step.assigned, Step.resume_finish] at hrest
    exact ⟨.assign a, rest, hsplit, ha, hrest⟩
  · obtain ⟨value, semicolon, rest, hsplit, hvalid, hrest⟩ := exists_ret hstop ht hok
    exact ⟨.ret t value semicolon, rest, hsplit, hvalid, hrest⟩
  · obtain ⟨p, inner, hsplit, rfl, hp, hblockOk⟩ :=
      exists_testPhrase (f := fun e => .thenOf e t.line) hstop ht (fun _ => rfl) (fun _ _ => rfl) hok
    have hlength := congrArg List.length hsplit
    rw [List.length_append] at hlength
    rw [hsplit]
    exact exists_conditional hstop hblocks helse (by omega) hp hblockOk
  · obtain ⟨p, inner, hsplit, rfl, hp, hblockOk⟩ :=
      exists_testPhrase (f := fun e => .whileOf e t.line) hstop ht (fun _ => rfl) (fun _ _ => rfl) hok
    have hlength := congrArg List.length hsplit
    rw [List.length_append] at hlength
    obtain ⟨b, body, rest, rfl, hb, hbody, hnone, hrest⟩ := exists_block hstop hblocks (by omega) hblockOk
    simp only [Step.closeBlock, List.reverse_reverse, Step.resume_finish] at hrest
    exact ⟨.while p b body, rest, by simp [hsplit, DeclPhrase.tokens], ⟨hp, hb, hbody, hnone⟩, hrest⟩
  · obtain ⟨p, inner, hsplit, rfl, hp, hblockOk⟩ := exists_forPhrase hstop ht hok
    have hlength := congrArg List.length hsplit
    rw [List.length_append] at hlength
    obtain ⟨b, body, rest, rfl, hb, hbody, hnone, hrest⟩ := exists_block hstop hblocks (by omega) hblockOk
    simp only [Step.closeBlock, List.reverse_reverse, Step.resume_finish] at hrest
    exact ⟨.for p b body, rest, by simp [hsplit, DeclPhrase.tokens], ⟨hp, hb, hbody, hnone⟩, hrest⟩

end Blocks

theorem blocksStand {stop : Token} (hstop : stop.kind = .endOfInput) (helse : stop.reads "else" = false) (n : Nat) :
    BlocksStand stop n := by
  induction n with
  | zero =>
    intro ts head read outer hn
    omega
  | succ n ih =>
    intro ts head read outer hn h
    cases ts with
    | nil =>
      have hfail : Pending.step ⟨.declaration, ⟨head, read⟩ :: outer⟩ stop =
          .fail (.insteadOf stop .delimiter "\x7d") := by
        simp [Pending.step, Step.declaration, Token.isEnd, hstop, Step.expect_stop hstop]
      exact (Pending.not_ok_nil hfail h).elim
    | cons t ts =>
      by_cases hclose : t.lexeme = "\x7d"
      · simp only [Pending.read_cons, Pending.step, Step.declaration, hclose, decide_true, Bool.true_or, if_true] at h
        obtain ⟨ht, hok⟩ := Step.ok_of_expect h
        exact ⟨[], t, ts, rfl, trivial, by simp [NoneCloses], ht, hok⟩
      · -- one declaration, and then the rest of the block, which is shorter
        obtain ⟨d, tail, hsplit, hd, htail⟩ :=
          exists_declPhrase hstop ih helse (by omega) (fun _ => hclose) h
        obtain ⟨front, hfront⟩ := d.tokens_eq_cons
        rw [hfront, List.cons_append, List.cons.injEq] at hsplit
        obtain ⟨rfl, rfl⟩ := hsplit
        simp only [List.length_cons, List.length_append] at hn
        obtain ⟨ds, closing, rest, rfl, hds, hnone, hclosing, hok⟩ := ih (by omega) htail
        refine ⟨d :: ds, closing, rest, by simp [tokensAll, hfront], ⟨hd, hds⟩, ?_, hclosing, ?_⟩
        · intro x hx
          rcases List.mem_cons.1 hx with rfl | hx
          · exact hclose
          · exact hnone x hx
        · simpa [stmtAll] using hok

/-! ### Programs -/

section Program

variable {stop : Token}

/-- A program of valid declarations is read without an error as their statements. -/
private theorem readProgram_tokensAll (helse : stop.reads "else" = false) {ds : List DeclPhrase} (h : ValidAll [] ds)
    (hend : NoEnd (tokensAll ds)) : (readProgram stop (tokensAll ds)).1 = ⟨stmtAll ds, []⟩ := by
  induction ds with
  | nil => simp [tokensAll, stmtAll, readProgram]
  | cons d ds ih =>
    obtain ⟨hd, hds⟩ := h
    rw [List.append_nil] at hd
    rw [tokensAll, noEnd_append] at hend
    have hread : Pending.read stop ⟨.declaration, []⟩ (d.tokens ++ tokensAll ds) = ⟨.ok d.stmt, tokensAll ds⟩ :=
      d.read_eq helse hd (fun hne => (hne rfl).elim) hend.1
    obtain ⟨front, hfront⟩ := d.tokens_eq_cons
    rw [hfront, List.cons_append] at hread
    rw [tokensAll, hfront, List.cons_append, readProgram_of_read hread, ih hds hend.2]
    rfl

/-- A declaration that is read without an error is a valid one. -/
theorem exists_declPhrase_of_ok (hstop : stop.kind = .endOfInput) (helse : stop.reads "else" = false) {t : Token}
    {ts : List Token} (hend : NoEnd (t :: ts)) (h : (Pending.start.read stop (t :: ts)).Ok) :
    ∃ d rest, t :: ts = DeclPhrase.tokens d ++ rest ∧ d.Valid rest ∧
      Pending.start.read stop (t :: ts) = ⟨.ok d.stmt, rest⟩ := by
  obtain ⟨d, rest, hsplit, hd, -⟩ := exists_declPhrase hstop (blocksStand hstop helse _) helse (Nat.le_refl _)
    (fun hne => (hne rfl).elim) h
  rw [hsplit, noEnd_append] at hend
  refine ⟨d, rest, hsplit, hd, ?_⟩
  rw [hsplit]
  exact d.read_eq helse hd (fun hne => (hne rfl).elim) hend.1

/-- Tokens that are read without an error are those of valid declarations. -/
theorem exists_of_errors_eq_nil (hstop : stop.kind = .endOfInput) (helse : stop.reads "else" = false)
    {ts : List Token} (hend : NoEnd ts) (h : (readProgram stop ts).1.errors = []) :
    ∃ ds, tokensAll ds = ts ∧ ValidAll [] ds := by
  induction hn : ts.length using Nat.strongRecOn generalizing ts with
  | ind n ih =>
    cases ts with
    | nil => exact ⟨[], rfl, trivial⟩
    | cons t ts =>
      rw [readProgram] at h
      have hok : (Pending.start.read stop (t :: ts)).Ok := by
        cases hresult : (Pending.start.read stop (t :: ts)).result with
        | error e => simp [hresult, Parsed.cons] at h
        | ok s => exact ⟨s, hresult⟩
      -- the declaration is the one that is read, so the rest of the program begins behind it
      obtain ⟨d, rest, hsplit, hd, hread⟩ := exists_declPhrase_of_ok hstop helse hend hok
      rw [hsplit, noEnd_append] at hend
      simp only [hread, Parsed.cons] at h
      have hlength : rest.length < n := by
        obtain ⟨front, hfront⟩ := d.tokens_eq_cons
        rw [← hn, hsplit, hfront, List.length_append, List.length_cons]
        omega
      obtain ⟨ds, rfl, hds⟩ := ih rest.length hlength hend.2 h rfl
      refine ⟨d :: ds, hsplit.symm, ?_, hds⟩
      rwa [List.append_nil]

end Program

/-- The phrases of a program: valid declarations that are made of the tokens. -/
def Derives (tokens : List Token) (ds : List DeclPhrase) : Prop := tokensAll ds = tokens ∧ ValidAll [] ds

/-- Without an end mark among them, all tokens are read, up to an end mark behind them. -/
theorem Input.ofTokens_eq {tokens : List Token} (h : NoEnd tokens) :
    Input.ofTokens tokens = ⟨tokens, .endAfter tokens⟩ := by
  have htokens : tokens.takeWhile (!·.isEnd) = tokens := by
    rw [List.takeWhile_eq_self_iff]
    intro t ht
    simp [h t ht]
  have hfind : tokens.find? Token.isEnd = none := by
    rw [List.find?_eq_none]
    intro t ht
    simp [h t ht]
  rw [Input.ofTokens, htokens, hfind, Option.getD_none]

theorem Token.kind_endAfter (tokens : List Token) : (Token.endAfter tokens).kind = .endOfInput := by
  unfold Token.endAfter
  split <;> rfl

theorem Token.endAfter_reads_else (tokens : List Token) : (Token.endAfter tokens).reads "else" = false := by
  unfold Token.endAfter
  split <;> rfl

theorem parse_eq {tokens : List Token} (h : NoEnd tokens) :
    parse tokens = (readProgram (.endAfter tokens) tokens).1 := by
  rw [parse, Input.ofTokens_eq h, Input.parse]

/-- Tokens without an end mark are read without an error exactly if they are derived in the grammar; there is only
one derivation then, and its statements are the program. -/
theorem parse_errors_eq_nil_iff {tokens : List Token} (h : ∀ t ∈ tokens, t.kind ≠ .endOfInput) :
    ((parse tokens).errors = [] ↔ ∃ ds, Derives tokens ds) ∧
      ∀ ds, Derives tokens ds → (parse tokens).program = stmtAll ds ∧ ∀ ds', Derives tokens ds' → ds' = ds := by
  have hend : NoEnd tokens := by
    intro t ht
    simpa [Token.isEnd] using h t ht
  have hstop := Token.kind_endAfter tokens
  have helse := Token.endAfter_reads_else tokens
  rw [parse_eq hend]
  have hread : ∀ ds, Derives tokens ds → (readProgram (.endAfter tokens) tokens).1 = ⟨stmtAll ds, []⟩ := by
    rintro ds ⟨hds, hvalid⟩
    rw [← hds] at hend
    have := readProgram_tokensAll helse hvalid hend
    rwa [hds] at this
  refine ⟨⟨?_, ?_⟩, ?_⟩
  · exact exists_of_errors_eq_nil hstop helse hend
  · rintro ⟨ds, hds⟩
    rw [hread ds hds]
  · intro ds hds
    refine ⟨by rw [hread ds hds], ?_⟩
    intro ds' hds'
    exact eq_of_tokensAll_eq hds'.2 hds.2 (hds'.1.trans hds.1.symm)

/-- The tokens of `IF ()) { x = = + 3; }`, in which a parenthesis and a sign of assignment are terms. -/
theorem parse_errors_eq_nil_iff_terms :
    let token (kind : Kind) (lexeme : String) : Token := ⟨kind, lexeme, 1, ⟨0, 0⟩⟩
    let tokens : List Token := [token .keyword "IF", token .delimiter "(", token .delimiter ")",
      token .delimiter ")", token .delimiter "\x7b", token .identifier "x", token .operator "=",
      token .operator "=", token .operator "+", token .number "3", token .delimiter ";", token .delimiter "\x7d"]
    (∀ t ∈ tokens, t.kind ≠ .endOfInput) ∧ (parse tokens).errors = [] ∧
      (parse tokens).program = [.ifThen (.leaf (.raw ")"))
        [.assign ⟨"x", .binary "+" (.leaf (.raw "=")) (.leaf (.number "3")), 1⟩] 1] := by
  intro token tokens
  have hend : ∀ t ∈ tokens, t.kind ≠ .endOfInput := by decide
  let value : ExprPhrase := .chain (token .operator "=") (token .operator "+") (.term (token .number "3"))
  let body : AssignPhrase := ⟨token .identifier "x", token .operator "=", value, token .delimiter ";"⟩
  let test : TestPhrase :=
    ⟨token .keyword "IF", token .delimiter "(", .term (token .delimiter ")"), token .delimiter ")"⟩
  let braces : Braces := ⟨token .delimiter "\x7b", token .delimiter "\x7d"⟩
  have htest : test.Valid "if" := ⟨by decide +kernel, by decide, nofun, by decide⟩
  have hbody : body.Valid := ⟨by decide, by decide, ⟨by decide, nofun⟩, by decide⟩
  have hds : Derives tokens [.ifThen test braces [.assign body]] := by
    refine ⟨rfl, ⟨htest, ⟨by decide, by decide⟩, ⟨hbody, trivial⟩, ?_, ?_⟩, trivial⟩
    · intro d hd
      obtain rfl := List.mem_singleton.1 hd
      decide
    · intro t ht
      cases ht
  obtain ⟨hiff, hprogram⟩ := parse_errors_eq_nil_iff hend
  exact ⟨hend, hiff.2 ⟨_, hds⟩, (hprogram _ hds).1⟩

end ThreeAddress
