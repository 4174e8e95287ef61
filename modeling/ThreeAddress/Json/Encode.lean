import ThreeAddress.Code.Instruction
import ThreeAddress.Json
import ThreeAddress.Program
import ThreeAddress.Token

/-!
# Tokens, programs and code as JSON values

A record is an object with its fields in order.  A variant without content is a string, and one with content an
object with the name of the variant as its only key.
-/

namespace ThreeAddress

/-- A variant with content. -/
def Json.variant (name : String) (content : Json) : Json := .obj [(name, content)]

/-! ### Tokens -/

/-- A span with its two ends. -/
def Span.toJson (s : Span) : Json := .obj [("start", .num s.start), ("end", .num s.stop)]

/-- A lexical error: a variant with the text it holds. -/
def LexError.toJson : LexError → Json
  | unterminatedString body => .variant "UnterminatedString" (.str body)
  | invalidFloat text => .variant "InvalidFloat" (.str text)
  | floatOverflow text => .variant "FloatOverflow" (.str text)
  | invalidInteger text => .variant "InvalidInteger" (.str text)
  | integerOverflow text => .variant "IntegerOverflow" (.str text)
  | unrecognizedCharacter c => .variant "UnrecognizedCharacter" (.str c.toString)

/-- The kind of a token. -/
def Kind.toJson : Kind → Json
  | keyword => .str "Keyword"
  | identifier => .str "Identifier"
  | operator => .str "Operator"
  | number => .str "Number"
  | string => .str "String"
  | delimiter => .str "Delimiter"
  | error cause => .variant "Error" cause.toJson
  | endOfInput => .str "End"

/-- A token with its four fields. -/
def Token.toJson (t : Token) : Json :=
  .obj [("kind", t.kind.toJson), ("lexeme", .str t.lexeme), ("line", .num t.line), ("span", t.span.toJson)]

/-! ### Programs -/

/-- A leaf: a variant with its text, a string without quotes. -/
def Leaf.toJson : Leaf → Json
  | ident name => .variant "Ident" (.str name)
  | number text => .variant "Number" (.str text)
  | str body => .variant "Str" (.str body)
  | raw text => .variant "Raw" (.str text)

/-- An expression: its leaves stand beside binary operations. -/
def Expr.toJson : Expr → Json
  | leaf l => l.toJson
  | binary op lhs rhs => .variant "Binary" (.obj [("op", .str op), ("lhs", lhs.toJson), ("rhs", rhs.toJson)])

/-- An assignment with its three fields. -/
def Assign.toJson (a : Assign) : Json :=
  .obj [("target", .str a.target), ("value", a.value.toJson), ("line", .num a.line)]

mutual

/-- A statement: a variant with its parts.  A missing else branch, or a missing value, is null. -/
def Stmt.toJson : Stmt → Json
  | .assign a => .variant "Assign" a.toJson
  | .ifThen cond body line =>
    .variant "If" (.obj
      [("cond", cond.toJson), ("then_block", .obj [("stmts", .arr (stmtsToJson body))]), ("else_block", .null),
       ("line", .num line)])
  | .ifElse cond body other line =>
    .variant "If" (.obj
      [("cond", cond.toJson), ("then_block", .obj [("stmts", .arr (stmtsToJson body))]),
       ("else_block", .obj [("stmts", .arr (stmtsToJson other))]), ("line", .num line)])
  | .while cond body line =>
    .variant "While" (.obj
      [("cond", cond.toJson), ("body", .obj [("stmts", .arr (stmtsToJson body))]), ("line", .num line)])
  | .for init cond step body line =>
    .variant "For" (.obj
      [("init", init.toJson), ("cond", cond.toJson), ("step", step.toJson),
       ("body", .obj [("stmts", .arr (stmtsToJson body))]), ("line", .num line)])
  | .ret value line =>
    .variant "Return" (.obj [("value", (value.map Expr.toJson).getD .null), ("line", .num line)])

/-- The statements of a block. -/
def stmtsToJson : List Stmt → List Json
  | [] => []
  | s :: rest => s.toJson :: stmtsToJson rest

end

/-- A program, or a block, is an object with its list of statements. -/
def programToJson (program : Program) : Json := .obj [("stmts", .arr (stmtsToJson program))]

/-! ### Code -/

/-- An opcode: a binary operator is a variant with its spelling. -/
def Opcode.toJson : Opcode → Json
  | binary op => .variant "Binary" (.str op)
  | assign => .str "Assign"
  | ifFalse => .str "IfFalse"
  | goto => .str "Goto"
  | label => .str "Label"
  | ret => .str "Return"

/-- An operand: a variant with its text or number. -/
def Operand.toJson : Operand → Json
  | name text => .variant "Name" (.str text)
  | temp t => .variant "Temp" (.num t.number.toNat)
  | label l => .variant "Label" (.num l.number.toNat)
  | ref index => .variant "Ref" (.num index)
  | empty => .str "Empty"

/-- A triple with its three fields. -/
def Triple.toJson (t : Triple) : Json :=
  .obj [("op", t.op.toJson), ("arg1", t.arg1.toJson), ("arg2", t.arg2.toJson)]

/-- A quadruple with its four fields. -/
def Quadruple.toJson (q : Quadruple) : Json :=
  .obj [("op", q.op.toJson), ("arg1", q.arg1.toJson), ("arg2", q.arg2.toJson), ("result", q.result.toJson)]

end ThreeAddress
