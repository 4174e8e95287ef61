import Mathlib.Algebra.Group.Nat.Defs
import ThreeAddress.Code.Lower

/-!
# Sketches of code

What a program is lowered to does not depend on the state of a pass but for three numbers: the instructions, the
labels and the temporaries before it.  This file draws up the code from these numbers alone.  A sketch of an
instruction knows a computed value both by its index and by its temporary, so the same sketches stand for triples and
for quadruples (`Spelling`).

* `Stmt.lower_emitted`: lowering a statement appends the spelling of its sketches and moves the numbers on by its
  `Stmt.tally`;
* `Pass.lower_eq`: a whole program, behind anything that a pass already holds.
-/

namespace ThreeAddress

/-! ### Tallies -/

/-- A number of instructions, of labels and of temporaries. -/
@[ext] structure Tally where
  instructions : Nat
  labels : Nat
  temps : Nat
deriving DecidableEq, Repr

instance : Add Tally where
  add a b := ⟨a.instructions + b.instructions, a.labels + b.labels, a.temps + b.temps⟩

instance : Zero Tally where
  zero := ⟨0, 0, 0⟩

@[simp] theorem Tally.add_instructions (a b : Tally) :
    (a + b).instructions = a.instructions + b.instructions := rfl

@[simp] theorem Tally.add_labels (a b : Tally) : (a + b).labels = a.labels + b.labels := rfl

@[simp] theorem Tally.add_temps (a b : Tally) : (a + b).temps = a.temps + b.temps := rfl

@[simp] theorem Tally.zero_instructions : (0 : Tally).instructions = 0 := rfl

@[simp] theorem Tally.zero_labels : (0 : Tally).labels = 0 := rfl

@[simp] theorem Tally.zero_temps : (0 : Tally).temps = 0 := rfl

instance : AddCommMonoid Tally where
  add_assoc a b c := by simp [Tally.ext_iff, Nat.add_assoc]
  zero_add a := by simp [Tally.ext_iff]
  add_zero a := by simp [Tally.ext_iff]
  add_comm a b := by simp [Tally.ext_iff, Nat.add_comm]
  nsmul := nsmulRec

/-- The number of the label that is handed out next. -/
def Tally.nextLabel (o : Tally) : Nat := o.labels + 1

/-- The number of the temporary that is handed out next. -/
def Tally.nextTemp (o : Tally) : Nat := o.temps + 1

/-- What an expression needs: an instruction and a temporary for each operation. -/
def Expr.tally : Expr → Tally
  | leaf _ => 0
  | binary _ lhs rhs => lhs.tally + rhs.tally + ⟨1, 0, 1⟩

@[simp] theorem Expr.tally_labels (e : Expr) : e.tally.labels = 0 := by
  induction e with
  | leaf l => rfl
  | binary op lhs rhs ihl ihr => simp [Expr.tally, ihl, ihr]

/-- What an assignment needs. -/
def Assign.tally (a : Assign) : Tally := a.value.tally + ⟨1, 0, 0⟩

mutual

/-- What a statement needs.  A conditional without an else branch takes one label, any other conditional and a
loop two. -/
def Stmt.tally : Stmt → Tally
  | .assign a => a.tally
  | .ifThen cond body _ => cond.tally + tallyAll body + ⟨2, 1, 0⟩
  | .ifElse cond body other _ => cond.tally + tallyAll body + tallyAll other + ⟨4, 2, 0⟩
  | .while cond body _ => cond.tally + tallyAll body + ⟨4, 2, 0⟩
  | .for init cond step body _ => init.tally + cond.tally + tallyAll body + step.tally + ⟨4, 2, 0⟩
  | .ret none _ => ⟨1, 0, 0⟩
  | .ret (some value) _ => value.tally + ⟨1, 0, 0⟩

/-- What consecutive statements need. -/
def tallyAll : List Stmt → Tally
  | [] => 0
  | s :: rest => s.tally + tallyAll rest

end

/-- The counters of a pass, of 32 bits each, suffice for all labels and temporaries of the program. -/
structure WithinCounters (program : Program) : Prop where
  labels : (tallyAll program).labels < 2 ^ 32 - 1
  temps : (tallyAll program).temps < 2 ^ 32 - 1

/-! ### Sketches -/

/-- What an instruction reads. -/
inductive Argument where
  /-- A variable or a literal, as in the source. -/
  | text (word : String)
  /-- The value computed at an index of the code, in the temporary with the given number. -/
  | computed (index temp : Nat)
deriving DecidableEq, Repr

/-- An instruction in neither shape. -/
inductive Sketch where
  | compute (op : String) (lhs rhs : Argument) (temp : Nat)
  | assign (target : String) (value : Argument)
  | jumpIfFalse (cond : Argument) (label : Nat)
  | jump (label : Nat)
  | mark (label : Nat)
  | ret (value : Option Argument)
deriving DecidableEq, Repr

/-- What stands for the value of an expression whose code begins behind `o`. -/
def Expr.argument (e : Expr) (o : Tally) : Argument :=
  match e with
  | leaf l => .text l.text
  | binary _ lhs rhs => .computed (o + lhs.tally + rhs.tally).instructions (o + lhs.tally + rhs.tally).nextTemp

/-- The code of an expression behind `o`. -/
def Expr.sketch : Expr → Tally → List Sketch
  | leaf _, _ => []
  | binary op lhs rhs, o =>
    lhs.sketch o ++ rhs.sketch (o + lhs.tally) ++
      [.compute op (lhs.argument o) (rhs.argument (o + lhs.tally)) (o + lhs.tally + rhs.tally).nextTemp]

/-- The code of an assignment behind `o`. -/
def Assign.sketch (a : Assign) (o : Tally) : List Sketch :=
  a.value.sketch o ++ [.assign a.target (a.value.argument o)]

/-- Where the body of a loop begins whose code begins behind `o`. -/
def Tally.inLoop (o : Tally) (cond : Expr) : Tally := o + ⟨1, 2, 0⟩ + cond.tally + ⟨1, 0, 0⟩

/-- The code of a loop behind `o`, around the code of its body. -/
def loopSketch (cond : Expr) (o : Tally) (body : List Sketch) : List Sketch :=
  [.mark o.nextLabel] ++ cond.sketch (o + ⟨1, 2, 0⟩) ++
    [.jumpIfFalse (cond.argument (o + ⟨1, 2, 0⟩)) (o.nextLabel + 1)] ++ body ++
    [.jump o.nextLabel, .mark (o.nextLabel + 1)]

mutual

/-- The code of a statement behind `o`. -/
def Stmt.sketch : Stmt → Tally → List Sketch
  | .assign a, o => a.sketch o
  | .ifThen cond body _, o =>
    cond.sketch o ++ [.jumpIfFalse (cond.argument o) o.nextLabel] ++
      sketchAll body (o + cond.tally + ⟨1, 1, 0⟩) ++ [.mark o.nextLabel]
  | .ifElse cond body other _, o =>
    cond.sketch o ++ [.jumpIfFalse (cond.argument o) o.nextLabel] ++
      sketchAll body (o + cond.tally + ⟨1, 2, 0⟩) ++ [.jump (o.nextLabel + 1), .mark o.nextLabel] ++
      sketchAll other (o + cond.tally + tallyAll body + ⟨3, 2, 0⟩) ++ [.mark (o.nextLabel + 1)]
  | .while cond body _, o => loopSketch cond o (sketchAll body (o.inLoop cond))
  | .for init cond step body _, o =>
    let start := o + init.tally
    init.sketch o ++ loopSketch cond start
      (sketchAll body (start.inLoop cond) ++ step.sketch (start.inLoop cond + tallyAll body))
  | .ret none _, _ => [.ret none]
  | .ret (some value) _, o => value.sketch o ++ [.ret (some (value.argument o))]

/-- The code of consecutive statements behind `o`. -/
def sketchAll : List Stmt → Tally → List Sketch
  | [], _ => []
  | s :: rest, o => s.sketch o ++ sketchAll rest (o + s.tally)

end

@[simp] theorem tallyAll_append (a b : List Stmt) : tallyAll (a ++ b) = tallyAll a + tallyAll b := by
  induction a with
  | nil => simp [tallyAll]
  | cons s a ih => simp [tallyAll, ih, add_assoc]

@[simp] theorem sketchAll_append (a b : List Stmt) (o : Tally) :
    sketchAll (a ++ b) o = sketchAll a o ++ sketchAll b (o + tallyAll a) := by
  induction a generalizing o with
  | nil => simp [sketchAll, tallyAll]
  | cons s a ih => simp [sketchAll, tallyAll, ih, add_assoc]

/-! ### Spelling -/

/-- How a shape writes computed values, given their index and the number of their temporary. -/
class Spelling (ι : Type) [Shape ι] where
  /-- The operand that stands for a computed value. -/
  value : Nat → Nat → Operand
  /-- The instruction that computes a value into a temporary. -/
  computation : String → Operand → Operand → Nat → ι
  /-- Whether a counter hands out the temporary with the given number next. -/
  HandsOut : UInt32 → Nat → Prop
  /-- Computing emits one instruction and takes one temporary. -/
  compute_eq (pass : Pass ι) (temp : Nat) (h : HandsOut pass.nextTemp temp) (op : String) (lhs rhs : Operand) :
    ∃ next, HandsOut next (temp + 1) ∧ Shape.compute op lhs rhs pass =
      (value pass.code.size temp, ⟨pass.code.push (computation op lhs rhs temp), pass.nextLabel, next⟩)

/-- A triple is known by its index, and the counter for temporaries stays unused. -/
instance : Spelling Triple where
  value index _ := .ref index
  computation op lhs rhs _ := ⟨.binary op, lhs, rhs⟩
  HandsOut _ _ := True
  compute_eq pass _ _ _ _ _ := ⟨pass.nextTemp, trivial, rfl⟩

/-- A quadruple names its temporary. -/
instance : Spelling Quadruple where
  value _ temp := .temp ⟨.ofNat temp⟩
  computation op lhs rhs temp := ⟨.binary op, lhs, rhs, .temp ⟨.ofNat temp⟩⟩
  HandsOut counter temp := counter = .ofNat temp
  compute_eq pass temp h _ _ _ :=
    ⟨.ofNat (temp + 1), rfl, by simp [Shape.compute, Pass.freshTemp, Pass.emit, h, UInt32.ofNat_add]⟩

variable {ι : Type} [Shape ι] [Spelling ι]

variable (ι) in
/-- An argument as an operand. -/
def Argument.operand : Argument → Operand
  | text word => .name word
  | computed index temp => Spelling.value ι index temp

variable (ι) in
/-- A sketch as an instruction. -/
def Sketch.spell : Sketch → ι
  | compute op lhs rhs temp => Spelling.computation op (lhs.operand ι) (rhs.operand ι) temp
  | assign target value => Shape.assign target (value.operand ι)
  | jumpIfFalse cond label => Shape.jumpIfFalse (cond.operand ι) ⟨.ofNat label⟩
  | jump label => Shape.jump ⟨.ofNat label⟩
  | mark label => Shape.mark ⟨.ofNat label⟩
  | ret value => Shape.ret (value.map (Argument.operand ι))

/-- A pass that stands behind `o`. -/
structure Pass.Behind (pass : Pass ι) (o : Tally) : Prop where
  instructions : pass.code.size = o.instructions
  labels : pass.nextLabel = .ofNat o.nextLabel
  temps : Spelling.HandsOut ι pass.nextTemp o.nextTemp

/-- A pass that has emitted the sketches since `before` and stands behind `o`. -/
structure Pass.Emitted (before : Pass ι) (sketches : List Sketch) (o : Tally) (after : Pass ι) : Prop where
  code : after.code.toList = before.code.toList ++ sketches.map (Sketch.spell ι)
  behind : after.Behind o

private theorem Pass.Behind.emitted_nil {pass : Pass ι} {o : Tally} (h : pass.Behind o) : pass.Emitted [] o pass :=
  ⟨by simp, h⟩

namespace Pass.Emitted

variable {before after : Pass ι} {sketches : List Sketch} {o : Tally}

theorem congr {sketches' : List Sketch} {o' : Tally} (h : before.Emitted sketches o after)
    (hsketches : sketches = sketches') (ho : o = o') : before.Emitted sketches' o' after := by
  subst hsketches ho
  exact h

theorem emit (h : before.Emitted sketches o after) (d : Sketch) :
    before.Emitted (sketches ++ [d]) (o + ⟨1, 0, 0⟩) (after.emit (d.spell ι)).2 := by
  refine ⟨?_, ⟨?_, h.behind.labels, h.behind.temps⟩⟩
  · simp [Pass.emit, h.code]
  · simp [Pass.emit, h.behind.instructions]

theorem compute (h : before.Emitted sketches o after) (op : String) (lhs rhs : Argument) :
    (Shape.compute op (lhs.operand ι) (rhs.operand ι) after).1 = Spelling.value ι o.instructions o.nextTemp ∧
      before.Emitted (sketches ++ [.compute op lhs rhs o.nextTemp]) (o + ⟨1, 0, 1⟩)
        (Shape.compute op (lhs.operand ι) (rhs.operand ι) after).2 := by
  obtain ⟨next, hnext, hcompute⟩ :=
    Spelling.compute_eq after _ h.behind.temps op (lhs.operand ι) (rhs.operand ι)
  rw [hcompute, h.behind.instructions]
  refine ⟨rfl, ?_, ?_, h.behind.labels, hnext⟩
  · simp [h.code, Sketch.spell]
  · simp [h.behind.instructions]

private theorem freshLabel_fst (h : before.Emitted sketches o after) : after.freshLabel.1 = ⟨.ofNat o.nextLabel⟩ := by
  rw [Pass.freshLabel, h.behind.labels]

theorem freshLabel (h : before.Emitted sketches o after) :
    before.Emitted sketches (o + ⟨0, 1, 0⟩) after.freshLabel.2 := by
  refine ⟨h.code, ⟨h.behind.instructions, ?_, h.behind.temps⟩⟩
  rw [Pass.freshLabel, h.behind.labels, Tally.nextLabel, Tally.nextLabel]
  exact (UInt32.ofNat_add _ 1).symm

end Pass.Emitted

/-! ### Lowering emits the sketches -/

theorem Expr.lower_emitted {before pass : Pass ι} {sketches : List Sketch} {o : Tally} (e : Expr)
    (h : before.Emitted sketches o pass) :
    (e.lower pass).1 = (e.argument o).operand ι ∧
      before.Emitted (sketches ++ e.sketch o) (o + e.tally) (e.lower pass).2 := by
  induction e generalizing pass sketches o with
  | leaf l => exact ⟨rfl, h.congr (by simp [Expr.sketch]) (by simp [Expr.tally])⟩
  | binary op lhs rhs ihl ihr =>
    obtain ⟨hl, hlhs⟩ := ihl h
    obtain ⟨hr, hrhs⟩ := ihr hlhs
    obtain ⟨hvalue, hcode⟩ := hrhs.compute op (lhs.argument o) (rhs.argument (o + lhs.tally))
    simp only [Expr.lower, hl, hr]
    exact ⟨hvalue, hcode.congr (by simp [Expr.sketch]) (by simp [Tally.ext_iff, Expr.tally]; omega)⟩

theorem Assign.lower_emitted {before pass : Pass ι} {sketches : List Sketch} {o : Tally} (a : Assign)
    (h : before.Emitted sketches o pass) :
    before.Emitted (sketches ++ a.sketch o) (o + a.tally) (a.lower pass) := by
  obtain ⟨hvalue, hcode⟩ := a.value.lower_emitted h
  simp only [Assign.lower, hvalue]
  exact (hcode.emit (.assign a.target (a.value.argument o))).congr (by simp [Assign.sketch])
    (by simp [Tally.ext_iff, Assign.tally]; omega)

/-- Emits a loop around what `body` emits. -/
def lowerLoop (cond : Expr) (body : Pass ι → Pass ι) (pass : Pass ι) : Pass ι :=
  let (again, pass) := pass.freshLabel
  let (done, pass) := pass.freshLabel
  let pass := (pass.emit (Shape.mark again)).2
  let (value, pass) := cond.lower pass
  let pass := (pass.emit (Shape.jumpIfFalse value done)).2
  let pass := (body pass).emit (Shape.jump again)
  (pass.2.emit (Shape.mark done)).2

private theorem lowerLoop_emitted {before pass : Pass ι} {sketches : List Sketch} {o : Tally} (cond : Expr)
    (h : before.Emitted sketches o pass) (body : Pass ι → Pass ι) {bodySketches : List Sketch} {bodyTally : Tally}
    (hbody : ∀ {sketches pass}, before.Emitted sketches (o.inLoop cond) pass →
      before.Emitted (sketches ++ bodySketches) (o.inLoop cond + bodyTally) (body pass)) :
    before.Emitted (sketches ++ loopSketch cond o bodySketches) (o + cond.tally + bodyTally + ⟨4, 2, 0⟩)
      (lowerLoop cond body pass) := by
  have hdone : (o + ⟨0, 1, 0⟩).nextLabel = o.nextLabel + 1 := by simp [Tally.nextLabel]
  have hmark := (h.freshLabel.freshLabel.emit (.mark o.nextLabel)).congr rfl
    (show _ = o + ⟨1, 2, 0⟩ by simp [Tally.ext_iff])
  obtain ⟨hcond, htest⟩ := cond.lower_emitted hmark
  have hjump := (htest.emit (.jumpIfFalse (cond.argument (o + ⟨1, 2, 0⟩)) (o.nextLabel + 1))).congr rfl
    (show _ = o.inLoop cond by simp [Tally.inLoop])
  have hend := ((hbody hjump).emit (.jump o.nextLabel)).emit (.mark (o.nextLabel + 1))
  simp only [lowerLoop, h.freshLabel_fst, h.freshLabel.freshLabel_fst, hdone]
  simp only [Sketch.spell] at hcond hend
  rw [hcond]
  refine hend.congr ?_ ?_
  · simp [loopSketch]
  · simp [Tally.ext_iff, Tally.inLoop]
    omega

mutual

theorem Stmt.lower_emitted {before pass : Pass ι} {sketches : List Sketch} {o : Tally} (s : Stmt)
    (h : before.Emitted sketches o pass) :
    before.Emitted (sketches ++ s.sketch o) (o + s.tally) (s.lower pass) := by
  match s with
  | .assign a => exact a.lower_emitted h
  | .ifThen cond body _ =>
    obtain ⟨hcond, htest⟩ := cond.lower_emitted h
    have hlabel : (o + cond.tally).nextLabel = o.nextLabel := by simp [Tally.nextLabel]
    have hjump := (htest.freshLabel.emit (.jumpIfFalse (cond.argument o) o.nextLabel)).congr rfl
      (show _ = o + cond.tally + ⟨1, 1, 0⟩ by simp [Tally.ext_iff])
    have hbody := (lowerAll_emitted body hjump).emit (.mark o.nextLabel)
    simp only [Stmt.lower, hcond, htest.freshLabel_fst, hlabel]
    refine hbody.congr ?_ ?_
    · simp [Stmt.sketch]
    · simp [Tally.ext_iff, Stmt.tally]
      omega
  | .ifElse cond body other _ =>
    obtain ⟨hcond, htest⟩ := cond.lower_emitted h
    have hotherwise : (o + cond.tally).nextLabel = o.nextLabel := by simp [Tally.nextLabel]
    have hdone : (o + cond.tally + ⟨0, 1, 0⟩).nextLabel = o.nextLabel + 1 := by simp [Tally.nextLabel]
    have hjump := (htest.freshLabel.freshLabel.emit (.jumpIfFalse (cond.argument o) o.nextLabel)).congr rfl
      (show _ = o + cond.tally + ⟨1, 2, 0⟩ by simp [Tally.ext_iff])
    have hbody := (((lowerAll_emitted body hjump).emit (.jump (o.nextLabel + 1))).emit (.mark o.nextLabel)).congr rfl
      (show _ = o + cond.tally + tallyAll body + ⟨3, 2, 0⟩ by simp [Tally.ext_iff]; omega)
    have hother := (lowerAll_emitted other hbody).emit (.mark (o.nextLabel + 1))
    simp only [Stmt.lower, hcond, htest.freshLabel_fst, htest.freshLabel.freshLabel_fst, hotherwise, hdone]
    refine hother.congr ?_ ?_
    · simp [Stmt.sketch]
    · simp [Tally.ext_iff, Stmt.tally]
      omega
  | .while cond body _ =>
    have hloop := lowerLoop_emitted cond h (lowerAll body) (fun hpass => lowerAll_emitted body hpass)
    refine hloop.congr ?_ ?_
    · simp [Stmt.sketch]
    · simp [Tally.ext_iff, Stmt.tally]
      omega
  | .for init cond step body _ =>
    have hloop := lowerLoop_emitted cond (init.lower_emitted h) (fun pass => step.lower (lowerAll body pass))
      (fun hpass => (step.lower_emitted (lowerAll_emitted body hpass)).congr (List.append_assoc ..)
        (show _ = _ + (tallyAll body + step.tally) by simp [Tally.ext_iff]; omega))
    refine hloop.congr ?_ ?_
    · simp [Stmt.sketch]
    · simp [Tally.ext_iff, Stmt.tally]
      omega
  | .ret none _ => exact (h.emit (.ret none)).congr rfl (by simp [Stmt.tally])
  | .ret (some value) _ =>
    obtain ⟨hvalue, hcode⟩ := value.lower_emitted h
    have hret := hcode.emit (.ret (some (value.argument o)))
    simp only [Stmt.lower, hvalue]
    refine hret.congr ?_ ?_
    · simp [Stmt.sketch]
    · simp [Tally.ext_iff, Stmt.tally]
      omega

private theorem lowerAll_emitted {before pass : Pass ι} {sketches : List Sketch} {o : Tally} (program : List Stmt)
    (h : before.Emitted sketches o pass) :
    before.Emitted (sketches ++ sketchAll program o) (o + tallyAll program) (lowerAll program pass) := by
  match program with
  | [] => exact h.congr (by simp [sketchAll]) (by simp [tallyAll])
  | s :: rest =>
    have hrest := lowerAll_emitted rest (s.lower_emitted h)
    exact hrest.congr (by simp [sketchAll]) (by simp [Tally.ext_iff, tallyAll]; omega)

end

/-- A pass holds after a program what it held before and the sketches of the program. -/
theorem Pass.lower_eq {pass : Pass ι} {o : Tally} (h : pass.Behind o) (program : Program) :
    pass.lower program = pass.code.toList ++ (sketchAll program o).map (Sketch.spell ι) := by
  rw [Pass.lower, (lowerAll_emitted program h.emitted_nil).code, List.nil_append]

theorem triples_eq (program : Program) : triples program = (sketchAll program 0).map (Sketch.spell Triple) :=
  Pass.lower_eq ⟨rfl, rfl, trivial⟩ program

theorem quadruples_eq (program : Program) :
    quadruples program = (sketchAll program 0).map (Sketch.spell Quadruple) :=
  Pass.lower_eq ⟨rfl, rfl, rfl⟩ program

end ThreeAddress
