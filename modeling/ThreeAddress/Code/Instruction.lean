/-!
# Instructions

Three-address code comes in two shapes.  A triple `(op, arg1, arg2)` has no place for its result: a computed value
is referred to by the index of its triple.  A quadruple `(op, arg1, arg2, result)` names the result, for a computed
value a temporary.
-/

namespace ThreeAddress

/-- A jump target. -/
structure Label where
  number : UInt32
deriving DecidableEq, Repr

/-- A place for a computed value. -/
structure Temp where
  number : UInt32
deriving DecidableEq, Repr

/-- A label as it is printed. -/
def Label.display (l : Label) : String := "L" ++ l.number.toNat.repr

/-- A temporary as it is printed. -/
def Temp.display (t : Temp) : String := "t" ++ t.number.toNat.repr

/-- What an instruction does. -/
inductive Opcode where
  /-- A binary operator, spelled as in the source. -/
  | binary (op : String)
  | assign
  /-- A jump if a value is false. -/
  | ifFalse
  | goto
  /-- A place to jump to. -/
  | label
  | ret
deriving DecidableEq, Repr

/-- An opcode as it is printed. -/
def Opcode.display : Opcode → String
  | binary op => op
  | assign => "="
  | ifFalse => "IF_FALSE"
  | goto => "GOTO"
  | label => "LABEL"
  | ret => "RETURN"

/-- What an instruction works on. -/
inductive Operand where
  /-- A variable or a literal, as in the source. -/
  | name (text : String)
  | temp (t : Temp)
  | label (l : Label)
  /-- The value of the triple at this index. -/
  | ref (index : Nat)
  | empty
deriving DecidableEq, Repr

/-- An operand as it is printed. -/
def Operand.display : Operand → String
  | name text => text
  | temp t => t.display
  | label l => l.display
  | ref index => "(" ++ index.repr ++ ")"
  | empty => "_"

/-- An instruction that is identified by its index. -/
structure Triple where
  op : Opcode
  arg1 : Operand
  arg2 : Operand
deriving DecidableEq, Repr

/-- An instruction that names its result. -/
structure Quadruple where
  op : Opcode
  arg1 : Operand
  arg2 : Operand
  result : Operand
deriving DecidableEq, Repr

/-- A triple as it is printed. -/
def Triple.display (t : Triple) : String :=
  "(" ++ t.op.display ++ ", " ++ t.arg1.display ++ ", " ++ t.arg2.display ++ ")"

/-- A quadruple as it is printed. -/
def Quadruple.display (q : Quadruple) : String :=
  "(" ++ q.op.display ++ ", " ++ q.arg1.display ++ ", " ++ q.arg2.display ++ ", " ++ q.result.display ++ ")"

end ThreeAddress
