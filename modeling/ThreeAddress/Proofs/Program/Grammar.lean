import ThreeAddress.Program.Declaration

/-!
# Phrases of the grammar

A phrase is a derivation in the grammar of declarations: it keeps every token that it is made of.  Any token may be a
term of an expression, so whether a phrase is valid also depends on the token behind it.

* `DeclPhrase.tokens`: the tokens of a declaration in order;
* `DeclPhrase.stmt`: the statement that it derives;
* `DeclPhrase.Valid`: whether it follows the rules, given the tokens behind it;
* `DeclPhrase.unique`: the tokens ahead determine the valid declaration that they begin with, and so do those of a
  whole program (`eq_of_tokensAll_eq`).
-/

namespace ThreeAddress

/-- Whether the token is this keyword in any case. -/
def Token.isKeyword (t : Token) (word : String) : Bool := t.kind = .keyword && t.reads word

/-! ### Expressions -/

/-- A term, or a term with an operator and an expression behind it. -/
inductive ExprPhrase where
  | term (t : Token)
  | chain (t op : Token) (rest : ExprPhrase)

def ExprPhrase.tokens : ExprPhrase → List Token
  | term t => [t]
  | chain t op rest => t :: op :: rest.tokens

def ExprPhrase.first : ExprPhrase → Token
  | term t => t
  | chain t _ _ => t

def ExprPhrase.expr : ExprPhrase → Expr
  | term t => .leaf (.ofToken t)
  | chain t op rest => .binary op.lexeme (.leaf (.ofToken t)) rest.expr

/-- The expression is as long as the operators go: no operator follows its last term. -/
def ExprPhrase.Valid (next : Token) : ExprPhrase → Prop
  | term _ => next.kind ≠ .operator
  | chain _ op rest => op.kind = .operator ∧ rest.Valid next

theorem ExprPhrase.tokens_eq_cons (e : ExprPhrase) : ∃ more, e.tokens = e.first :: more := by
  cases e with
  | term t => exact ⟨_, rfl⟩
  | chain t op rest => exact ⟨_, rfl⟩

theorem ExprPhrase.unique {e e' : ExprPhrase} {next next' : Token} {rest rest' : List Token} (h : e.Valid next)
    (h' : e'.Valid next') (heq : e.tokens ++ next :: rest = e'.tokens ++ next' :: rest') :
    e = e' ∧ next = next' ∧ rest = rest' := by
  induction e generalizing e' with
  | term t =>
    cases e' with
    | term t' =>
      simp only [tokens, List.cons_append, List.nil_append, List.cons.injEq] at heq
      obtain ⟨rfl, rfl, rfl⟩ := heq
      exact ⟨rfl, rfl, rfl⟩
    | chain t' op' more' =>
      simp only [tokens, List.cons_append, List.nil_append, List.cons.injEq] at heq
      obtain ⟨-, rfl, -⟩ := heq
      exact absurd h'.1 h
  | chain t op more ih =>
    cases e' with
    | term t' =>
      simp only [tokens, List.cons_append, List.nil_append, List.cons.injEq] at heq
      obtain ⟨-, rfl, -⟩ := heq
      exact absurd h.1 h'
    | chain t' op' more' =>
      simp only [tokens, List.cons_append, List.cons.injEq] at heq
      obtain ⟨rfl, rfl, heq⟩ := heq
      obtain ⟨rfl, rfl, rfl⟩ := ih h.2 h'.2 heq
      exact ⟨rfl, rfl, rfl⟩

/-! ### Assignments and headers -/

/-- `target = value ;` -/
structure AssignPhrase where
  target : Token
  equals : Token
  value : ExprPhrase
  stop : Token

namespace AssignPhrase

def tokens (a : AssignPhrase) : List Token := a.target :: a.equals :: (a.value.tokens ++ [a.stop])

def assign (a : AssignPhrase) : Assign := ⟨a.target.lexeme, a.value.expr, a.target.line⟩

structure Valid (a : AssignPhrase) : Prop where
  target : a.target.kind = .identifier
  equals : a.equals.is .operator "="
  value : a.value.Valid a.stop
  stop : a.stop.is .delimiter ";"

theorem unique {a a' : AssignPhrase} {rest rest' : List Token} (h : a.Valid) (h' : a'.Valid)
    (heq : a.tokens ++ rest = a'.tokens ++ rest') : a = a' ∧ rest = rest' := by
  obtain ⟨target, equals, value, stop⟩ := a
  obtain ⟨target', equals', value', stop'⟩ := a'
  simp only [tokens, List.cons_append, List.append_assoc, List.nil_append, List.cons.injEq] at heq
  obtain ⟨rfl, rfl, heq⟩ := heq
  obtain ⟨rfl, rfl, rfl⟩ := ExprPhrase.unique h.value h'.value heq
  exact ⟨rfl, rfl⟩

end AssignPhrase

/-- `if ( cond )` or `while ( cond )` -/
structure TestPhrase where
  keyword : Token
  opening : Token
  cond : ExprPhrase
  closing : Token

namespace TestPhrase

def tokens (p : TestPhrase) : List Token := p.keyword :: p.opening :: (p.cond.tokens ++ [p.closing])

structure Valid (word : String) (p : TestPhrase) : Prop where
  keyword : p.keyword.isKeyword word
  opening : p.opening.is .delimiter "("
  cond : p.cond.Valid p.closing
  closing : p.closing.is .delimiter ")"

theorem unique {word word' : String} {p p' : TestPhrase} {rest rest' : List Token} (h : p.Valid word)
    (h' : p'.Valid word') (heq : p.tokens ++ rest = p'.tokens ++ rest') : p = p' ∧ rest = rest' := by
  obtain ⟨keyword, opening, cond, closing⟩ := p
  obtain ⟨keyword', opening', cond', closing'⟩ := p'
  simp only [tokens, List.cons_append, List.append_assoc, List.nil_append, List.cons.injEq] at heq
  obtain ⟨rfl, rfl, heq⟩ := heq
  obtain ⟨rfl, rfl, rfl⟩ := ExprPhrase.unique h.cond h'.cond heq
  exact ⟨rfl, rfl⟩

end TestPhrase

/-- `for ( init cond ; step )`, where each assignment brings its own semicolon -/
structure ForPhrase where
  keyword : Token
  opening : Token
  init : AssignPhrase
  cond : ExprPhrase
  separator : Token
  step : AssignPhrase
  closing : Token

namespace ForPhrase

def tokens (p : ForPhrase) : List Token :=
  p.keyword :: p.opening :: (p.init.tokens ++ (p.cond.tokens ++ p.separator :: (p.step.tokens ++ [p.closing])))

structure Valid (p : ForPhrase) : Prop where
  keyword : p.keyword.isKeyword "for"
  opening : p.opening.is .delimiter "("
  init : p.init.Valid
  cond : p.cond.Valid p.separator
  separator : p.separator.is .delimiter ";"
  step : p.step.Valid
  closing : p.closing.is .delimiter ")"

theorem unique {p p' : ForPhrase} {rest rest' : List Token} (h : p.Valid) (h' : p'.Valid)
    (heq : p.tokens ++ rest = p'.tokens ++ rest') : p = p' ∧ rest = rest' := by
  obtain ⟨keyword, opening, init, cond, separator, step, closing⟩ := p
  obtain ⟨keyword', opening', init', cond', separator', step', closing'⟩ := p'
  simp only [tokens, List.cons_append, List.append_assoc, List.nil_append, List.cons.injEq] at heq
  obtain ⟨rfl, rfl, hinit⟩ := heq
  obtain ⟨rfl, hcond⟩ := AssignPhrase.unique h.init h'.init hinit
  obtain ⟨rfl, rfl, hstep⟩ := ExprPhrase.unique h.cond h'.cond hcond
  obtain ⟨rfl, hclosing⟩ := AssignPhrase.unique h.step h'.step hstep
  obtain ⟨rfl, rfl⟩ := List.cons.inj hclosing
  exact ⟨rfl, rfl⟩

end ForPhrase

/-- The braces around a block. -/
structure Braces where
  opening : Token
  closing : Token

def Braces.around (b : Braces) (inner : List Token) : List Token := b.opening :: (inner ++ [b.closing])

structure Braces.Valid (b : Braces) : Prop where
  opening : b.opening.is .delimiter "\x7b"
  closing : b.closing.is .delimiter "\x7d"

/-! ### Declarations -/

/-- A declaration; a block is a list of them between braces. -/
inductive DeclPhrase where
  | assign (a : AssignPhrase)
  | ret (keyword : Token) (value : Option ExprPhrase) (stop : Token)
  | ifThen (test : TestPhrase) (braces : Braces) (body : List DeclPhrase)
  | ifElse (test : TestPhrase) (braces : Braces) (body : List DeclPhrase) (word : Token) (otherBraces : Braces)
    (other : List DeclPhrase)
  | while (test : TestPhrase) (braces : Braces) (body : List DeclPhrase)
  | for (header : ForPhrase) (braces : Braces) (body : List DeclPhrase)

/-- The token that a declaration begins with. -/
def DeclPhrase.first : DeclPhrase → Token
  | .assign a => a.target
  | .ret keyword _ _ => keyword
  | .ifThen test _ _ => test.keyword
  | .ifElse test _ _ _ _ _ => test.keyword
  | .while test _ _ => test.keyword
  | .for header _ _ => header.keyword

mutual

def DeclPhrase.tokens : DeclPhrase → List Token
  | .assign a => a.tokens
  | .ret keyword none stop => [keyword, stop]
  | .ret keyword (some value) stop => keyword :: (value.tokens ++ [stop])
  | .ifThen test braces body => test.tokens ++ braces.around (tokensAll body)
  | .ifElse test braces body word otherBraces other =>
    test.tokens ++ (braces.around (tokensAll body) ++ word :: otherBraces.around (tokensAll other))
  | .while test braces body => test.tokens ++ braces.around (tokensAll body)
  | .for header braces body => header.tokens ++ braces.around (tokensAll body)

/-- The tokens of consecutive declarations. -/
def tokensAll : List DeclPhrase → List Token
  | [] => []
  | d :: rest => d.tokens ++ tokensAll rest

end

mutual

def DeclPhrase.stmt : DeclPhrase → Stmt
  | .assign a => .assign a.assign
  | .ret keyword value _ => .ret (value.map ExprPhrase.expr) keyword.line
  | .ifThen test _ body => .ifThen test.cond.expr (stmtAll body) test.keyword.line
  | .ifElse test _ body _ _ other => .ifElse test.cond.expr (stmtAll body) (stmtAll other) test.keyword.line
  | .while test _ body => .while test.cond.expr (stmtAll body) test.keyword.line
  | .for header _ body =>
    .for header.init.assign header.cond.expr header.step.assign (stmtAll body) header.keyword.line

/-- The statements of consecutive declarations. -/
def stmtAll : List DeclPhrase → List Stmt
  | [] => []
  | d :: rest => d.stmt :: stmtAll rest

end

/-- No `else` is next. -/
def NoElse (rest : List Token) : Prop := ∀ t ∈ rest.head?, t.reads "else" = false

/-- No declaration begins with what would close the block around it. -/
def NoneCloses (body : List DeclPhrase) : Prop := ∀ d ∈ body, d.first.lexeme ≠ "\x7d"

mutual

/-- Whether a declaration follows the rules when `rest` is behind it. -/
def DeclPhrase.Valid (rest : List Token) : DeclPhrase → Prop
  | .assign a => a.Valid
  | .ret keyword none stop => keyword.isKeyword "return" ∧ stop.is .delimiter ";"
  | .ret keyword (some value) stop =>
    keyword.isKeyword "return" ∧ value.first.kind ≠ .delimiter ∧ value.Valid stop ∧ stop.is .delimiter ";"
  | .ifThen test braces body =>
    test.Valid "if" ∧ braces.Valid ∧ ValidAll (braces.closing :: rest) body ∧ NoneCloses body ∧ NoElse rest
  | .ifElse test braces body word otherBraces other =>
    test.Valid "if" ∧
      braces.Valid ∧
      ValidAll (braces.closing :: word :: (otherBraces.around (tokensAll other) ++ rest)) body ∧ NoneCloses body ∧
      word.reads "else" ∧
      otherBraces.Valid ∧ ValidAll (otherBraces.closing :: rest) other ∧ NoneCloses other
  | .while test braces body =>
    test.Valid "while" ∧ braces.Valid ∧ ValidAll (braces.closing :: rest) body ∧ NoneCloses body
  | .for header braces body =>
    header.Valid ∧ braces.Valid ∧ ValidAll (braces.closing :: rest) body ∧ NoneCloses body

/-- Whether consecutive declarations follow the rules when `rest` is behind them. -/
def ValidAll (rest : List Token) : List DeclPhrase → Prop
  | [] => True
  | d :: ds => d.Valid (tokensAll ds ++ rest) ∧ ValidAll rest ds

end

theorem DeclPhrase.tokens_eq_cons (d : DeclPhrase) : ∃ more, d.tokens = d.first :: more := by
  cases d with
  | ret keyword value stop => cases value <;> exact ⟨_, rfl⟩
  | _ => exact ⟨_, rfl⟩

private theorem DeclPhrase.first_eq_of_append {d : DeclPhrase} {more : List DeclPhrase} {t : Token}
    {rest rest' : List Token} (heq : t :: rest = tokensAll (d :: more) ++ rest') : t = d.first := by
  obtain ⟨tail, htail⟩ := d.tokens_eq_cons
  rw [tokensAll, htail] at heq
  exact (List.cons.inj heq).1

/-! ### Uniqueness -/

/-- The keyword that a declaration begins with; an assignment begins with none. -/
def DeclPhrase.word? : DeclPhrase → Option String
  | .assign _ => none
  | .ret _ _ _ => some "return"
  | .ifThen _ _ _ => some "if"
  | .ifElse _ _ _ _ _ _ => some "if"
  | .while _ _ _ => some "while"
  | .for _ _ _ => some "for"

private theorem DeclPhrase.first_eq {d : DeclPhrase} {rest : List Token} (h : d.Valid rest) :
    (d.word? = none ∧ d.first.kind = .identifier) ∨ ∃ word, d.word? = some word ∧ d.first.isKeyword word := by
  cases d with
  | assign a => exact Or.inl ⟨rfl, h.target⟩
  | ret keyword value stop => cases value <;> exact Or.inr ⟨_, rfl, h.1⟩
  | _ => exact Or.inr ⟨_, rfl, h.1.keyword⟩

/-- The first token tells what kind of declaration it begins. -/
private theorem DeclPhrase.word?_eq {d d' : DeclPhrase} {rest rest' : List Token} (h : d.Valid rest)
    (h' : d'.Valid rest') (heq : d.tokens ++ rest = d'.tokens ++ rest') : d.word? = d'.word? := by
  have hfirst : d.first = d'.first := by
    obtain ⟨more, hmore⟩ := d.tokens_eq_cons
    obtain ⟨more', hmore'⟩ := d'.tokens_eq_cons
    rw [hmore, hmore'] at heq
    exact (List.cons.inj heq).1
  rcases first_eq h with ⟨hword, hkind⟩ | ⟨word, hword, hkey⟩ <;>
    rcases first_eq h' with ⟨hword', hkind'⟩ | ⟨word', hword', hkey'⟩
  · rw [hword, hword']
  · rw [hfirst] at hkind
    simp [Token.isKeyword, hkind] at hkey'
  · rw [hfirst] at hkey
    simp [Token.isKeyword, hkind'] at hkey
  · rw [hfirst] at hkey
    simp only [Token.isKeyword, Token.reads, Bool.and_eq_true, decide_eq_true_eq] at hkey hkey'
    rw [hword, hword', String.toList_injective (hkey.2.symm.trans hkey'.2)]

/-- The contents of a block are determined by the tokens ahead if its declarations are. -/
private theorem block_unique {body body' : List DeclPhrase} {b b' : Braces} {rest rest' : List Token}
    (hunique : ∀ {c c' : Token} {rest rest' : List Token}, c.lexeme = "\x7d" → c'.lexeme = "\x7d" →
      ValidAll (c :: rest) body → NoneCloses body → ValidAll (c' :: rest') body' → NoneCloses body' →
      tokensAll body ++ c :: rest = tokensAll body' ++ c' :: rest' → body = body' ∧ c = c' ∧ rest = rest')
    (hb : b.Valid) (hbody : ValidAll (b.closing :: rest) body) (hnone : NoneCloses body)
    (hb' : b'.Valid) (hbody' : ValidAll (b'.closing :: rest') body') (hnone' : NoneCloses body')
    (heq : b.around (tokensAll body) ++ rest = b'.around (tokensAll body') ++ rest') :
    b = b' ∧ body = body' ∧ rest = rest' := by
  obtain ⟨opening, closing⟩ := b
  obtain ⟨opening', closing'⟩ := b'
  have hclosing := hb.closing
  have hclosing' := hb'.closing
  simp only [Token.is, Bool.and_eq_true, decide_eq_true_eq] at hclosing hclosing'
  simp only [Braces.around, List.cons_append, List.append_assoc, List.nil_append, List.cons.injEq] at heq
  obtain ⟨rfl, heq⟩ := heq
  obtain ⟨rfl, rfl, rfl⟩ := hunique hclosing.2 hclosing'.2 hbody hnone hbody' hnone' heq
  exact ⟨rfl, rfl, rfl⟩

/-- A return has a value exactly if no delimiter is next. -/
private theorem ret_unique {keyword keyword' stop stop' : Token} {value value' : Option ExprPhrase}
    {rest rest' : List Token} (h : (DeclPhrase.ret keyword value stop).Valid rest)
    (h' : (DeclPhrase.ret keyword' value' stop').Valid rest')
    (heq : (DeclPhrase.ret keyword value stop).tokens ++ rest =
      (DeclPhrase.ret keyword' value' stop').tokens ++ rest') :
    keyword = keyword' ∧ value = value' ∧ stop = stop' ∧ rest = rest' := by
  have hmixed : ∀ {stop : Token} {value : ExprPhrase} {rest rest' : List Token}, stop.is .delimiter ";" →
      value.first.kind ≠ .delimiter → stop :: rest ≠ value.tokens ++ rest' := by
    intro stop value rest rest' hstop hfirst heq
    obtain ⟨more, hmore⟩ := value.tokens_eq_cons
    rw [hmore] at heq
    obtain ⟨rfl, -⟩ := List.cons.inj heq
    simp only [Token.is, Bool.and_eq_true, decide_eq_true_eq] at hstop
    exact hfirst hstop.1
  cases value with
  | none =>
    cases value' with
    | none =>
      simp only [DeclPhrase.tokens, List.cons_append, List.nil_append, List.cons.injEq] at heq
      obtain ⟨rfl, rfl, rfl⟩ := heq
      exact ⟨rfl, rfl, rfl, rfl⟩
    | some value' =>
      simp only [DeclPhrase.tokens, List.cons_append, List.append_assoc, List.nil_append, List.cons.injEq] at heq
      exact (hmixed h.2 h'.2.1 heq.2).elim
  | some value =>
    cases value' with
    | none =>
      simp only [DeclPhrase.tokens, List.cons_append, List.append_assoc, List.nil_append, List.cons.injEq] at heq
      exact (hmixed h'.2 h.2.1 heq.2.symm).elim
    | some value' =>
      simp only [DeclPhrase.tokens, List.cons_append, List.append_assoc, List.nil_append, List.cons.injEq] at heq
      obtain ⟨rfl, heq⟩ := heq
      obtain ⟨rfl, rfl, rfl⟩ := ExprPhrase.unique h.2.2.1 h'.2.2.1 heq
      exact ⟨rfl, rfl, rfl, rfl⟩

/-- What comes behind a conditional with an else branch begins with `else`, so the branch cannot be left out. -/
private theorem NoElse.absurd {word : Token} {rest : List Token} (h : NoElse (word :: rest))
    (hword : word.reads "else") : False := by
  have := h word rfl
  simp [hword] at this

mutual

theorem DeclPhrase.unique (d : DeclPhrase) {d' : DeclPhrase} {rest rest' : List Token} (h : d.Valid rest)
    (h' : d'.Valid rest') (heq : d.tokens ++ rest = d'.tokens ++ rest') : d = d' ∧ rest = rest' := by
  -- both begin with the same token, so they are of the same kind
  have hword := DeclPhrase.word?_eq h h' heq
  match d with
  | .assign a =>
    cases d' with
    | assign a' =>
      obtain ⟨rfl, rfl⟩ := AssignPhrase.unique h h' heq
      exact ⟨rfl, rfl⟩
    | _ => simp [DeclPhrase.word?] at hword
  | .ret keyword value stop =>
    cases d' with
    | ret keyword' value' stop' =>
      obtain ⟨rfl, rfl, rfl, rfl⟩ := ret_unique h h' heq
      exact ⟨rfl, rfl⟩
    | _ => simp [DeclPhrase.word?] at hword
  | .ifThen test braces body =>
    obtain ⟨htest, hbraces, hbody, hnone, helse⟩ := h
    cases d' with
    | ifThen test' braces' body' =>
      obtain ⟨htest', hbraces', hbody', hnone', -⟩ := h'
      simp only [DeclPhrase.tokens, List.append_assoc] at heq
      obtain ⟨rfl, hblock⟩ := TestPhrase.unique htest htest' heq
      obtain ⟨rfl, rfl, rfl⟩ :=
        block_unique (unique_of_closes body) hbraces hbody hnone hbraces' hbody' hnone' hblock
      exact ⟨rfl, rfl⟩
    | ifElse test' braces' body' word' otherBraces' other' =>
      obtain ⟨htest', hbraces', hbody', hnone', hreads', -⟩ := h'
      simp only [DeclPhrase.tokens, List.append_assoc, List.cons_append] at heq
      obtain ⟨rfl, hblock⟩ := TestPhrase.unique htest htest' heq
      obtain ⟨rfl, rfl, rfl⟩ :=
        block_unique (unique_of_closes body) hbraces hbody hnone hbraces' hbody' hnone' hblock
      exact (helse.absurd hreads').elim
    | _ => simp [DeclPhrase.word?] at hword
  | .ifElse test braces body word otherBraces other =>
    obtain ⟨htest, hbraces, hbody, hnone, hreads, hother, hotherBody, hotherNone⟩ := h
    cases d' with
    | ifThen test' braces' body' =>
      obtain ⟨htest', hbraces', hbody', hnone', helse'⟩ := h'
      simp only [DeclPhrase.tokens, List.append_assoc, List.cons_append] at heq
      obtain ⟨rfl, hblock⟩ := TestPhrase.unique htest htest' heq
      obtain ⟨rfl, rfl, rfl⟩ :=
        block_unique (unique_of_closes body) hbraces hbody hnone hbraces' hbody' hnone' hblock
      exact (helse'.absurd hreads).elim
    | ifElse test' braces' body' word' otherBraces' other' =>
      obtain ⟨htest', hbraces', hbody', hnone', -, hother', hotherBody', hotherNone'⟩ := h'
      simp only [DeclPhrase.tokens, List.append_assoc, List.cons_append] at heq
      obtain ⟨rfl, hblock⟩ := TestPhrase.unique htest htest' heq
      obtain ⟨rfl, rfl, htail⟩ :=
        block_unique (unique_of_closes body) hbraces hbody hnone hbraces' hbody' hnone' hblock
      obtain ⟨rfl, hsecond⟩ := List.cons.inj htail
      obtain ⟨rfl, rfl, rfl⟩ :=
        block_unique (unique_of_closes other) hother hotherBody hotherNone hother' hotherBody' hotherNone' hsecond
      exact ⟨rfl, rfl⟩
    | _ => simp [DeclPhrase.word?] at hword
  | .while test braces body =>
    obtain ⟨htest, hbraces, hbody, hnone⟩ := h
    cases d' with
    | «while» test' braces' body' =>
      obtain ⟨htest', hbraces', hbody', hnone'⟩ := h'
      simp only [DeclPhrase.tokens, List.append_assoc] at heq
      obtain ⟨rfl, hblock⟩ := TestPhrase.unique htest htest' heq
      obtain ⟨rfl, rfl, rfl⟩ :=
        block_unique (unique_of_closes body) hbraces hbody hnone hbraces' hbody' hnone' hblock
      exact ⟨rfl, rfl⟩
    | _ => simp [DeclPhrase.word?] at hword
  | .for header braces body =>
    obtain ⟨hheader, hbraces, hbody, hnone⟩ := h
    cases d' with
    | «for» header' braces' body' =>
      obtain ⟨hheader', hbraces', hbody', hnone'⟩ := h'
      simp only [DeclPhrase.tokens, List.append_assoc] at heq
      obtain ⟨rfl, hblock⟩ := ForPhrase.unique hheader hheader' heq
      obtain ⟨rfl, rfl, rfl⟩ :=
        block_unique (unique_of_closes body) hbraces hbody hnone hbraces' hbody' hnone' hblock
      exact ⟨rfl, rfl⟩
    | _ => simp [DeclPhrase.word?] at hword

/-- The declarations of a block are determined up to the token that closes it. -/
private theorem unique_of_closes (ds : List DeclPhrase) {ds' : List DeclPhrase} {c c' : Token} {rest rest' : List Token}
    (hc : c.lexeme = "\x7d") (hc' : c'.lexeme = "\x7d") (h : ValidAll (c :: rest) ds) (hnone : NoneCloses ds)
    (h' : ValidAll (c' :: rest') ds') (hnone' : NoneCloses ds')
    (heq : tokensAll ds ++ c :: rest = tokensAll ds' ++ c' :: rest') : ds = ds' ∧ c = c' ∧ rest = rest' := by
  match ds with
  | [] =>
    cases ds' with
    | nil =>
      obtain ⟨rfl, rfl⟩ := List.cons.inj heq
      exact ⟨rfl, rfl, rfl⟩
    | cons d' more' =>
      have hfirst := DeclPhrase.first_eq_of_append heq
      exact absurd (hfirst ▸ hc) (hnone' d' (List.mem_cons_self ..))
  | d :: more =>
    cases ds' with
    | nil =>
      have hfirst := DeclPhrase.first_eq_of_append heq.symm
      exact absurd (hfirst ▸ hc') (hnone d (List.mem_cons_self ..))
    | cons d' more' =>
      simp only [tokensAll, List.append_assoc] at heq
      obtain ⟨rfl, hmore⟩ := d.unique h.1 h'.1 heq
      obtain ⟨rfl, rfl, rfl⟩ := unique_of_closes more hc hc' h.2 (fun x hx => hnone x (List.mem_cons_of_mem _ hx))
        h'.2 (fun x hx => hnone' x (List.mem_cons_of_mem _ hx)) hmore
      exact ⟨rfl, rfl, rfl⟩

end

/-- Two valid programs with the same tokens are the same. -/
theorem eq_of_tokensAll_eq {ds ds' : List DeclPhrase} (h : ValidAll [] ds) (h' : ValidAll [] ds')
    (heq : tokensAll ds = tokensAll ds') : ds = ds' := by
  induction ds generalizing ds' with
  | nil =>
    cases ds' with
    | nil => rfl
    | cons d' more' =>
      obtain ⟨tail, htail⟩ := d'.tokens_eq_cons
      simp [tokensAll, htail] at heq
  | cons d more ih =>
    cases ds' with
    | nil =>
      obtain ⟨tail, htail⟩ := d.tokens_eq_cons
      simp [tokensAll, htail] at heq
    | cons d' more' =>
      obtain ⟨hd, hmore⟩ := h
      obtain ⟨hd', hmore'⟩ := h'
      rw [List.append_nil] at hd hd'
      obtain ⟨rfl, htail⟩ := d.unique hd hd' heq
      rw [ih hmore hmore' htail]

end ThreeAddress
