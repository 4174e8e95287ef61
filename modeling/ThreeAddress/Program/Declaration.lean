import ThreeAddress.Program
import ThreeAddress.Program.SyntaxError

/-!
# Declarations under construction

Declarations are read one token at a time.  A `Pending` is a declaration of which some tokens have been read: the
blocks that are open around the current place, innermost first, and the phase, which says what may come next.
`Pending.step` takes the next token.  The grammar is

    declaration = "if" "(" expr ")" block [ "else" block ]
                | "while" "(" expr ")" block
                | "for" "(" assignment expr ";" assignment ")" block
                | "return" [ expr ] ";"
                | assignment
    assignment  = identifier "=" expr ";"
    block       = "{" { declaration } "}"
    expr        = term [ operator expr ]

A term is any one token.  Operators have no precedence and lean to the right.  Keywords are read in any case, and
so is `else`, which may be a token of any kind.

Main statement: the end of the input never extends a declaration (`Pending.step_end`).
-/

namespace ThreeAddress

/-- A statement keyword that is followed by a header in parentheses. -/
inductive Header where
  | if | while | for
deriving DecidableEq, Repr

/-- What an open block belongs to: all of its statement that stands before the brace. -/
inductive BlockHead where
  | thenOf (cond : Expr) (line : Nat)
  | elseOf (cond : Expr) (body : List Stmt) (line : Nat)
  | whileOf (cond : Expr) (line : Nat)
  | forOf (init : Assign) (cond : Expr) (step : Assign) (line : Nat)
deriving Repr

/-- An open block with the statements read so far, the latest first. -/
structure OpenBlock where
  head : BlockHead
  read : List Stmt
deriving Repr

/-- What an assignment is part of. -/
inductive AssignRole where
  | statement
  | forInit (line : Nat)
  | forStep (init : Assign) (cond : Expr) (line : Nat)
deriving DecidableEq, Repr

/-- What an expression is part of. -/
inductive ExprRole where
  | ifCond (line : Nat)
  | whileCond (line : Nat)
  | forCond (init : Assign) (line : Nat)
  | assigned (role : AssignRole) (target : String) (line : Nat)
  | returned (line : Nat)
deriving DecidableEq, Repr

/-- The terms of an expression before its current one, each with the operator after it, the latest first. -/
abbrev Terms := List (Leaf × String)

/-- The expression with the given last term. -/
def chain (before : Terms) (last : Leaf) : Expr :=
  before.foldl (fun rhs term => .binary term.2 (.leaf term.1) rhs) (.leaf last)

/-- What may come next in a declaration. -/
inductive Phase where
  /-- A declaration, or the end of the innermost open block. -/
  | declaration
  /-- The parenthesis after `if`, `while` or `for`. -/
  | header (keyword : Header) (line : Nat)
  /-- The name that begins an assignment of a `for` header. -/
  | target (role : AssignRole)
  /-- The sign of an assignment. -/
  | equals (role : AssignRole) (target : String) (line : Nat)
  /-- A term of an expression. -/
  | term (role : ExprRole) (before : Terms)
  /-- An operator, or what follows the expression. -/
  | afterTerm (role : ExprRole) (before : Terms) (last : Leaf)
  /-- The value of a `return`, or its semicolon. -/
  | returnValue (line : Nat)
  /-- The parenthesis that closes a `for` header. -/
  | headerEnd (init : Assign) (cond : Expr) (step : Assign) (line : Nat)
  /-- The brace that opens a block. -/
  | blockStart (head : BlockHead)
  /-- An `else`, or whatever follows the conditional. -/
  | afterThen (cond : Expr) (body : List Stmt) (line : Nat)
deriving Repr

/-- A declaration of which some tokens have been read. -/
structure Pending where
  phase : Phase
  blocks : List OpenBlock
deriving Repr

/-- A declaration of which nothing has been read. -/
def Pending.start : Pending := ⟨.declaration, []⟩

/-- What a token does to a declaration. -/
inductive Step where
  /-- The token belongs to the declaration, and more is due. -/
  | more (d : Pending)
  /-- The token is the last of the declaration. -/
  | done (s : Stmt)
  /-- The declaration ended before the token. -/
  | doneBefore (s : Stmt)
  /-- The declaration cannot go on at the token. -/
  | fail (cause : SyntaxCause)
deriving Repr

/-- The cause when a token of another kind or text is due. -/
def SyntaxCause.insteadOf (t : Token) (kind : Kind) (text : String) : SyntaxCause :=
  .expected kind.category text t.kind.category t.text

/-- Goes on if the token has exactly this kind and text. -/
def Step.expect (t : Token) (kind : Kind) (text : String) (next : Step) : Step :=
  if t.is kind text then next else .fail (.insteadOf t kind text)

/-- Ends a statement inside the given open blocks. -/
def Step.finish (blocks : List OpenBlock) (s : Stmt) : Step :=
  match blocks with
  | [] => .done s
  | block :: outer => .more ⟨.declaration, ⟨block.head, s :: block.read⟩ :: outer⟩

/-- Ends the innermost open block. -/
def Step.closeBlock (block : OpenBlock) (outer : List OpenBlock) : Step :=
  let body := block.read.reverse
  match block.head with
  | .thenOf cond line => .more ⟨.afterThen cond body line, outer⟩
  | .elseOf cond thenBody line => .finish outer (.ifElse cond thenBody body line)
  | .whileOf cond line => .finish outer (.while cond body line)
  | .forOf init cond step line => .finish outer (.for init cond step body line)

/-- The token as a leaf of an expression. -/
def Leaf.ofToken (t : Token) : Leaf :=
  match t.kind with
  | .identifier => .ident t.lexeme
  | .number => .number t.lexeme
  | .string => .str t.lexeme
  | _ => .raw t.lexeme

/-- Begins a declaration. -/
def Step.begin (blocks : List OpenBlock) (t : Token) : Step :=
  match t.kind with
  | .keyword =>
    if t.reads "if" then .more ⟨.header .if t.line, blocks⟩
    else if t.reads "while" then .more ⟨.header .while t.line, blocks⟩
    else if t.reads "for" then .more ⟨.header .for t.line, blocks⟩
    else if t.reads "return" then .more ⟨.returnValue t.line, blocks⟩
    else .fail (.unrecognizedKeyword t.lexeme)
  | .identifier => .more ⟨.equals .statement t.lexeme t.line, blocks⟩
  | .endOfInput => .fail .unexpectedEnd
  | _ => .fail (.unexpectedToken t.kind.category t.text)

/-- Begins a declaration or ends the innermost block.  A token whose text is a closing brace has to be one. -/
def Step.declaration (blocks : List OpenBlock) (t : Token) : Step :=
  match blocks with
  | [] => .begin [] t
  | block :: outer =>
    if t.lexeme = "\x7d" || t.isEnd then .expect t .delimiter "\x7d" (.closeBlock block outer)
    else .begin (block :: outer) t

/-- Takes a term of an expression. -/
def Step.term (blocks : List OpenBlock) (role : ExprRole) (before : Terms) (t : Token) : Step :=
  if t.isEnd then .fail .unexpectedEnd else .more ⟨.afterTerm role before (.ofToken t), blocks⟩

/-- Goes on behind an assignment. -/
def Step.assigned (blocks : List OpenBlock) (role : AssignRole) (a : Assign) : Step :=
  match role with
  | .statement => .finish blocks (.assign a)
  | .forInit line => .more ⟨.term (.forCond a line) [], blocks⟩
  | .forStep init cond line => .more ⟨.headerEnd init cond a line, blocks⟩

/-- Takes the token behind an expression. -/
def Step.afterExpr (blocks : List OpenBlock) (role : ExprRole) (e : Expr) (t : Token) : Step :=
  match role with
  | .ifCond line => .expect t .delimiter ")" (.more ⟨.blockStart (.thenOf e line), blocks⟩)
  | .whileCond line => .expect t .delimiter ")" (.more ⟨.blockStart (.whileOf e line), blocks⟩)
  | .forCond init line => .expect t .delimiter ";" (.more ⟨.target (.forStep init e line), blocks⟩)
  | .assigned role target line => .expect t .delimiter ";" (.assigned blocks role ⟨target, e, line⟩)
  | .returned line => .expect t .delimiter ";" (.finish blocks (.ret (some e) line))

/-- Takes the token behind a then branch. -/
def Step.afterThen (blocks : List OpenBlock) (cond : Expr) (body : List Stmt) (line : Nat) (t : Token) : Step :=
  if t.reads "else" then
    if t.isEnd then .fail (.insteadOf t .delimiter "\x7b")
    else .more ⟨.blockStart (.elseOf cond body line), blocks⟩
  else
    match blocks with
    | [] => .doneBefore (.ifThen cond body line)
    | block :: outer => .declaration (⟨block.head, .ifThen cond body line :: block.read⟩ :: outer) t

/-- Takes the next token of a declaration. -/
def Pending.step (d : Pending) (t : Token) : Step :=
  match d.phase with
  | .declaration => .declaration d.blocks t
  | .header .if line => .expect t .delimiter "(" (.more ⟨.term (.ifCond line) [], d.blocks⟩)
  | .header .while line => .expect t .delimiter "(" (.more ⟨.term (.whileCond line) [], d.blocks⟩)
  | .header .for line => .expect t .delimiter "(" (.more ⟨.target (.forInit line), d.blocks⟩)
  | .target role =>
    if t.kind = .identifier then .more ⟨.equals role t.lexeme t.line, d.blocks⟩
    else .fail (.insteadOf t .identifier "<name>")
  | .equals role target line => .expect t .operator "=" (.more ⟨.term (.assigned role target line) [], d.blocks⟩)
  | .term role before => .term d.blocks role before t
  | .afterTerm role before last =>
    if t.kind = .operator then .more ⟨.term role ((last, t.lexeme) :: before), d.blocks⟩
    else .afterExpr d.blocks role (chain before last) t
  | .returnValue line =>
    if t.kind = .delimiter || t.isEnd then .expect t .delimiter ";" (.finish d.blocks (.ret none line))
    else .term d.blocks (.returned line) [] t
  | .headerEnd init cond step line =>
    .expect t .delimiter ")" (.more ⟨.blockStart (.forOf init cond step line), d.blocks⟩)
  | .blockStart head => .expect t .delimiter "\x7b" (.more ⟨.declaration, ⟨head, []⟩ :: d.blocks⟩)
  | .afterThen cond body line => .afterThen d.blocks cond body line t

/-- The end of the input ends a declaration: there it either fails or was complete before. -/
theorem Pending.step_end (d : Pending) {t : Token} (h : t.kind = .endOfInput) :
    (∃ cause, d.step t = .fail cause) ∨ ∃ s, d.step t = .doneBefore s := by
  have hexpect (kind : Kind) (text : String) (next : Step) (hkind : kind ≠ .endOfInput) :
      ∃ cause, Step.expect t kind text next = .fail cause :=
    ⟨.insteadOf t kind text, by simp [Step.expect, Token.is, h, Ne.symm hkind]⟩
  have hdeclaration (blocks : List OpenBlock) : ∃ cause, Step.declaration blocks t = .fail cause := by
    cases blocks with
    | nil => exact ⟨.unexpectedEnd, by simp [Step.declaration, Step.begin, h]⟩
    | cons block outer =>
      simp only [Step.declaration, Token.isEnd, h, decide_true, Bool.or_true, if_true]
      exact hexpect _ _ _ (by simp)
  obtain ⟨phase, blocks⟩ := d
  cases phase with
  | declaration => exact Or.inl (hdeclaration blocks)
  | header keyword line => cases keyword <;> exact Or.inl (hexpect _ _ _ (by simp))
  | target role => exact Or.inl ⟨.insteadOf t .identifier "<name>", by simp [Pending.step, h]⟩
  | equals role target line => exact Or.inl (hexpect _ _ _ (by simp))
  | term role before => exact Or.inl ⟨.unexpectedEnd, by simp [Pending.step, Step.term, Token.isEnd, h]⟩
  | afterTerm role before last =>
    refine Or.inl ?_
    simp only [Pending.step, h, reduceCtorEq, if_false]
    cases role <;> exact hexpect _ _ _ (by simp)
  | returnValue line =>
    simp only [Pending.step, Token.isEnd, h, decide_true, Bool.or_true, if_true]
    exact Or.inl (hexpect _ _ _ (by simp))
  | headerEnd init cond step line => exact Or.inl (hexpect _ _ _ (by simp))
  | blockStart head => exact Or.inl (hexpect _ _ _ (by simp))
  | afterThen cond body line =>
    simp only [Pending.step, Step.afterThen, Token.isEnd, h, decide_true, if_true]
    split
    · exact Or.inl ⟨_, rfl⟩
    · cases blocks with
      | nil => exact Or.inr ⟨_, rfl⟩
      | cons block outer => exact Or.inl (hdeclaration _)

end ThreeAddress
