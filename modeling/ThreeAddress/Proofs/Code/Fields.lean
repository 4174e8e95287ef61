import ThreeAddress.Proofs.Code.Layout

/-!
# Fields of instructions

The two shapes put labels and values into different fields.  `Fields` says where each shape has them, so that a
property of code can be stated once for both shapes.

* `LawfulFields`: the fields of an instruction hold what its sketch says;
* `Throughout`: a property of every instruction of a part, given the code before and behind it.
-/

namespace ThreeAddress

/-! ### Where the shapes have labels and values -/

/-- The fields of an instruction that both shapes have. -/
class Fields (ι : Type) where
  op : ι → Opcode
  /-- The operands from left to right. -/
  args : ι → List Operand
  /-- The field that holds the label of a mark or of a jump. -/
  label : ι → Operand
  /-- The operand under which others read the value that the instruction at an index computes. -/
  value : Nat → ι → Operand

instance : Fields Triple where
  op := Triple.op
  args t := [t.arg1, t.arg2]
  label t := if t.op = .ifFalse then t.arg2 else t.arg1
  value index _ := .ref index

instance : Fields Quadruple where
  op := Quadruple.op
  args q := [q.arg1, q.arg2]
  label := Quadruple.result
  value _ q := q.result

/-- Whether an opcode computes a value. -/
def Opcode.isBinary : Opcode → Bool
  | binary _ => true
  | _ => false

/-- Whether an operand stands for a computed value. -/
def Operand.isValue : Operand → Bool
  | temp _ => true
  | ref _ => true
  | _ => false

/-- The opcode of a sketch. -/
def Sketch.op : Sketch → Opcode
  | compute op _ _ _ => .binary op
  | assign _ _ => .assign
  | jumpIfFalse _ _ => .ifFalse
  | jump _ => .goto
  | mark _ => .label
  | ret _ => .ret

/-- The number of the label that a sketch places or jumps to. -/
def Sketch.label? : Sketch → Option Nat
  | jumpIfFalse _ label => some label
  | jump label => some label
  | mark label => some label
  | _ => none

/-- The index and the temporary of a computed value. -/
def Argument.computed? : Argument → Option (Nat × Nat)
  | text _ => none
  | computed index temp => some (index, temp)

/-- The computed values that a sketch reads, from left to right. -/
def Sketch.reads (d : Sketch) : List (Nat × Nat) := d.arguments.filterMap Argument.computed?

/-- The fields of an instruction hold what its sketch says. -/
class LawfulFields (ι : Type) [Shape ι] [Spelling ι] [Fields ι] : Prop where
  op_spell (d : Sketch) : Fields.op (d.spell ι) = d.op
  label_spell {d : Sketch} {n : Nat} (h : d.label? = some n) : Fields.label (d.spell ι) = .label ⟨.ofNat n⟩
  args_spell (d : Sketch) : (Fields.args (d.spell ι)).filter Operand.isValue =
    (d.arguments.map (Argument.operand ι)).filter Operand.isValue
  value_spell {d : Sketch} {temp : Nat} (h : d.temp? = some temp) (index : Nat) :
    Fields.value index (d.spell ι) = Spelling.value ι index temp
  isValue_value (index temp : Nat) : (Spelling.value ι index temp).isValue
  /-- A value is known by its index or by its temporary. -/
  value_inj {index temp index' temp' : Nat} (htemp : temp < 2 ^ 32) (htemp' : temp' < 2 ^ 32)
    (h : Spelling.value ι index temp = Spelling.value ι index' temp') : index = index' ∨ temp = temp'

instance : LawfulFields Triple where
  op_spell d := by cases d <;> rfl
  label_spell {d n} h := by cases d <;> cases h <;> rfl
  args_spell d := by
    cases d with
    | ret value => cases value <;> rfl
    | _ => rfl
  value_spell _ _ := rfl
  isValue_value _ _ := rfl
  value_inj _ _ h := Or.inl (Operand.ref.inj h)

instance : LawfulFields Quadruple where
  op_spell d := by cases d <;> rfl
  label_spell {d n} h := by cases d <;> cases h <;> rfl
  args_spell d := by
    cases d with
    | ret value => cases value <;> rfl
    | _ => rfl
  value_spell {d temp} h _ := by cases d <;> cases h; rfl
  isValue_value _ _ := rfl
  value_inj {index temp index' temp'} htemp htemp' h := by
    have hnumber := congrArg (fun t : Temp => t.number.toNat) (Operand.temp.inj h)
    right
    rwa [UInt32.toNat_ofNat_of_lt' htemp, UInt32.toNat_ofNat_of_lt' htemp'] at hnumber

/-- The values among the operands of an instruction are those that its sketch reads. -/
theorem filter_args_spell {ι : Type} [Shape ι] [Spelling ι] [Fields ι] [LawfulFields ι] (d : Sketch) :
    (Fields.args (d.spell ι)).filter Operand.isValue = d.reads.map fun r => Spelling.value ι r.1 r.2 := by
  rw [LawfulFields.args_spell, Sketch.reads]
  induction d.arguments with
  | nil => rfl
  | cons a arguments ih =>
    cases a with
    | text word => exact ih
    | computed index temp =>
      have hvalue : (Argument.operand ι (.computed index temp)).isValue := LawfulFields.isValue_value index temp
      rw [List.map_cons, List.filter_cons_of_pos hvalue, ih]
      rfl

/-! ### Instructions between others -/

/-- Every instruction of a part has the property, given the code before it and the code behind it. -/
def Throughout (P : List Sketch → Sketch → List Sketch → Prop) (before : List Sketch) :
    List Sketch → List Sketch → Prop
  | [], _ => True
  | d :: part, after => P before d (part ++ after) ∧ Throughout P (before ++ [d]) part after

section Throughout

variable {P : List Sketch → Sketch → List Sketch → Prop} {before after : List Sketch}

@[simp] theorem throughout_nil : Throughout P before [] after := trivial

@[simp] theorem throughout_cons {d : Sketch} {part : List Sketch} :
    Throughout P before (d :: part) after ↔
      P before d (part ++ after) ∧ Throughout P (before ++ [d]) part after := Iff.rfl

@[simp] theorem throughout_append {a b : List Sketch} :
    Throughout P before (a ++ b) after ↔
      Throughout P before a (b ++ after) ∧ Throughout P (before ++ a) b after := by
  induction a generalizing before with
  | nil => simp
  | cons d a ih => simp [ih, and_assoc]

theorem Throughout.at {part : List Sketch} (h : Throughout P before part after) {i : Nat} {d : Sketch}
    (hi : part[i]? = some d) : P (before ++ part.take i) d (part.drop (i + 1) ++ after) := by
  induction part generalizing before i with
  | nil => simp at hi
  | cons e part ih =>
    obtain ⟨he, hpart⟩ := h
    cases i with
    | zero =>
      obtain rfl : e = d := by simpa using hi
      simpa using he
    | succ i =>
      have hd := ih hpart (i := i) (by simpa using hi)
      simpa using hd

end Throughout

end ThreeAddress
