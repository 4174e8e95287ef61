import ThreeAddress.Code.Instruction

/-!
# Passes

A pass holds the instructions emitted so far and the numbers of the next label and the next temporary.  A shape
says how each kind of instruction is written; only the value of a binary operation is referred to differently.
-/

namespace ThreeAddress

/-- The state of emitting instructions of type `ι`.  Labels and temporaries are numbered from 1. -/
structure Pass (ι : Type) where
  code : Array ι := #[]
  nextLabel : UInt32 := 1
  nextTemp : UInt32 := 1

/-- Emits an instruction; its index comes with the new state. -/
def Pass.emit {ι : Type} (pass : Pass ι) (instruction : ι) : Nat × Pass ι :=
  (pass.code.size, { pass with code := pass.code.push instruction })

/-- A label that has not been used. -/
def Pass.freshLabel {ι : Type} (pass : Pass ι) : Label × Pass ι :=
  (⟨pass.nextLabel⟩, { pass with nextLabel := pass.nextLabel + 1 })

/-- A temporary that has not been used. -/
def Pass.freshTemp {ι : Type} (pass : Pass ι) : Temp × Pass ι :=
  (⟨pass.nextTemp⟩, { pass with nextTemp := pass.nextTemp + 1 })

/-- How instructions of type `ι` are written. -/
class Shape (ι : Type) where
  /-- Emits `lhs op rhs`; the operand that stands for its value comes with the new state. -/
  compute : String → Operand → Operand → Pass ι → Operand × Pass ι
  assign : String → Operand → ι
  jumpIfFalse : Operand → Label → ι
  jump : Label → ι
  mark : Label → ι
  ret : Option Operand → ι

instance : Shape Triple where
  compute op lhs rhs pass :=
    let (index, pass) := pass.emit ⟨.binary op, lhs, rhs⟩
    (.ref index, pass)
  assign target value := ⟨.assign, .name target, value⟩
  jumpIfFalse cond target := ⟨.ifFalse, cond, .label target⟩
  jump target := ⟨.goto, .label target, .empty⟩
  mark label := ⟨.label, .label label, .empty⟩
  ret value := ⟨.ret, value.getD .empty, .empty⟩

instance : Shape Quadruple where
  compute op lhs rhs pass :=
    let (temp, pass) := pass.freshTemp
    (.temp temp, (pass.emit ⟨.binary op, lhs, rhs, .temp temp⟩).2)
  assign target value := ⟨.assign, value, .empty, .name target⟩
  jumpIfFalse cond target := ⟨.ifFalse, cond, .empty, .label target⟩
  jump target := ⟨.goto, .empty, .empty, .label target⟩
  mark label := ⟨.label, .empty, .empty, .label label⟩
  ret value := ⟨.ret, value.getD .empty, .empty, .empty⟩

end ThreeAddress
