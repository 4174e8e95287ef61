import ThreeAddress.Code.Instruction
import ThreeAddress.Table

/-!
# Listings of code

Triples are listed one to a line with their index, quadruples in a table.
-/

namespace ThreeAddress

/-- The listing of triples: `index: (op, arg1, arg2)`. -/
def listTriples (code : List Triple) : String :=
  String.join (code.zipIdx.map fun (t, index) => index.repr ++ ": " ++ t.display ++ "\n")

/-- The table of quadruples. -/
def quadrupleTable (code : List Quadruple) : Table where
  columns := [⟨"No.", 5⟩, ⟨"Operator", 15⟩, ⟨"Operand 1", 15⟩, ⟨"Operand 2", 15⟩, ⟨"Result", 15⟩]
  rows := code.zipIdx.map fun (q, index) =>
    [index.repr, q.op.display, q.arg1.display, q.arg2.display, q.result.display]

end ThreeAddress
