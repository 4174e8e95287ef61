/-!
# Programs

A program is a list of statements: assignments, conditionals, two kinds of loops, and `return`.  An expression is
a leaf or a binary operation.  Any token may stand as a leaf, so a leaf records only what it was read from.
-/

namespace ThreeAddress

/-- A leaf of an expression. -/
inductive Leaf where
  | ident (name : String)
  | number (text : String)
  /-- A string literal; holds the text between the quotes. -/
  | str (body : String)
  /-- Any other token, as it is written. -/
  | raw (text : String)
deriving DecidableEq, Repr

/-- The text of a leaf as in a source. -/
def Leaf.text : Leaf → String
  | ident name => name
  | number text => text
  | str body => "\"" ++ body ++ "\""
  | raw text => text

/-- An expression. -/
inductive Expr where
  | leaf (l : Leaf)
  | binary (op : String) (lhs rhs : Expr)
deriving DecidableEq, Repr

/-- The assignment `target = value;`. -/
structure Assign where
  target : String
  value : Expr
  line : Nat
deriving DecidableEq, Repr

/-- A statement, with the line of its first token. -/
inductive Stmt where
  | assign (a : Assign)
  /-- A conditional without an else branch. -/
  | ifThen (cond : Expr) (body : List Stmt) (line : Nat)
  /-- A conditional with an else branch. -/
  | ifElse (cond : Expr) (body other : List Stmt) (line : Nat)
  | while (cond : Expr) (body : List Stmt) (line : Nat)
  | for (init : Assign) (cond : Expr) (step : Assign) (body : List Stmt) (line : Nat)
  /-- The end of the program, with or without a value. -/
  | ret (value : Option Expr) (line : Nat)
deriving Repr

/-- A program: its statements in source order. -/
abbrev Program := List Stmt

/-- The line of the first token of a statement. -/
def Stmt.line : Stmt → Nat
  | assign a => a.line
  | ifThen _ _ line => line
  | ifElse _ _ _ line => line
  | .while _ _ line => line
  | .for _ _ _ _ line => line
  | ret _ line => line

end ThreeAddress
