import ThreeAddress.Code.Pass
import ThreeAddress.Program

/-!
# From programs to instructions

One traversal serves both shapes.  A jump forward names a label that is placed later, so no instruction is changed
once it has been emitted.  A conditional without an else branch needs one label, any other conditional and a loop
two.
-/

namespace ThreeAddress

variable {ι : Type} [Shape ι]

/-- Emits the operations of an expression, left side first; gives the operand that stands for its value. -/
def Expr.lower : Expr → Pass ι → Operand × Pass ι
  | .leaf l, pass => (.name l.text, pass)
  | .binary op lhs rhs, pass =>
    let (left, pass) := lhs.lower pass
    let (right, pass) := rhs.lower pass
    Shape.compute op left right pass

/-- Emits an assignment. -/
def Assign.lower (a : Assign) (pass : Pass ι) : Pass ι :=
  let (value, pass) := a.value.lower pass
  (pass.emit (Shape.assign a.target value)).2

mutual

/-- Emits a statement. -/
def Stmt.lower : Stmt → Pass ι → Pass ι
  | .assign a, pass => a.lower pass
  | .ifThen cond body _, pass =>
    let (value, pass) := cond.lower pass
    let (done, pass) := pass.freshLabel
    let pass := (pass.emit (Shape.jumpIfFalse value done)).2
    let pass := lowerAll body pass
    (pass.emit (Shape.mark done)).2
  | .ifElse cond body other _, pass =>
    let (value, pass) := cond.lower pass
    let (otherwise, pass) := pass.freshLabel
    let (done, pass) := pass.freshLabel
    let pass := (pass.emit (Shape.jumpIfFalse value otherwise)).2
    let pass := lowerAll body pass
    let pass := (pass.emit (Shape.jump done)).2
    let pass := (pass.emit (Shape.mark otherwise)).2
    let pass := lowerAll other pass
    (pass.emit (Shape.mark done)).2
  | .while cond body _, pass =>
    let (again, pass) := pass.freshLabel
    let (done, pass) := pass.freshLabel
    let pass := (pass.emit (Shape.mark again)).2
    let (value, pass) := cond.lower pass
    let pass := (pass.emit (Shape.jumpIfFalse value done)).2
    let pass := lowerAll body pass
    let pass := (pass.emit (Shape.jump again)).2
    (pass.emit (Shape.mark done)).2
  | .for init cond step body _, pass =>
    let pass := init.lower pass
    let (again, pass) := pass.freshLabel
    let (done, pass) := pass.freshLabel
    let pass := (pass.emit (Shape.mark again)).2
    let (value, pass) := cond.lower pass
    let pass := (pass.emit (Shape.jumpIfFalse value done)).2
    let pass := lowerAll body pass
    let pass := step.lower pass
    let pass := (pass.emit (Shape.jump again)).2
    (pass.emit (Shape.mark done)).2
  | .ret none _, pass => (pass.emit (Shape.ret none)).2
  | .ret (some value) _, pass =>
    let (value, pass) := value.lower pass
    (pass.emit (Shape.ret (some value))).2

/-- Emits consecutive statements. -/
def lowerAll : List Stmt → Pass ι → Pass ι
  | [], pass => pass
  | s :: rest, pass => lowerAll rest (s.lower pass)

end

/-- The instructions that a pass holds after a program. -/
def Pass.lower (pass : Pass ι) (program : Program) : List ι := (lowerAll program pass).code.toList

/-- The triples of a program. -/
def triples (program : Program) : List Triple := Pass.lower {} program

/-- The quadruples of a program. -/
def quadruples (program : Program) : List Quadruple := Pass.lower {} program

end ThreeAddress
