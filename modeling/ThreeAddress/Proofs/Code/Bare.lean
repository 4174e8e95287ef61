import ThreeAddress.Proofs.Code.Labels
import ThreeAddress.Proofs.Code.Values

/-!
# What code tells about its program

The triples of a program determine it but for the lines, the kinds of its leaves, and whether a loop was written as a
`for` loop.  What is left is its bare form, in which a `for` loop is an assignment and a `while` loop.  Two programs
have the same triples exactly if they have the same bare form (`triples_eq_iff_bareAll_eq`).

* `sketchAll_toStmtAll`: a program and its bare form have the same code, so the bare form determines the code;
* `BareExpr.eq_of_code`: an expression is read off its code from the operand that stands for its value;
* `ne_mark_of_mem_bareCode`: the label behind a block is not placed in the block, so it tells where the block ends;
* `BareStmt.eq_of_code`: the code of a statement determines the statement and what is behind it.
-/

namespace ThreeAddress

/-! ### Bare programs -/

/-- An expression of which the leaves are texts. -/
inductive BareExpr where
  | word (text : String)
  | binary (op : String) (lhs rhs : BareExpr)
deriving DecidableEq, Repr

/-- A statement without its line.  There are no `for` loops. -/
inductive BareStmt where
  | assign (target : String) (value : BareExpr)
  | ifThen (cond : BareExpr) (body : List BareStmt)
  | ifElse (cond : BareExpr) (body other : List BareStmt)
  | while (cond : BareExpr) (body : List BareStmt)
  | ret (value : Option BareExpr)
deriving Repr

/-- The expression with every leaf replaced by its text. -/
def Expr.bare : Expr → BareExpr
  | leaf l => .word l.text
  | binary op lhs rhs => .binary op lhs.bare rhs.bare

def Assign.bare (a : Assign) : BareStmt := .assign a.target a.value.bare

mutual

/-- The bare form of a statement.  A `for` loop becomes its first assignment and a `while` loop whose body ends with
the other one. -/
def Stmt.bare : Stmt → List BareStmt
  | .assign a => [a.bare]
  | .ifThen cond body _ => [.ifThen cond.bare (bareAll body)]
  | .ifElse cond body other _ => [.ifElse cond.bare (bareAll body) (bareAll other)]
  | .while cond body _ => [.while cond.bare (bareAll body)]
  | .for init cond step body _ => [init.bare, .while cond.bare (bareAll body ++ [step.bare])]
  | .ret value _ => [.ret (value.map Expr.bare)]

/-- The bare form of consecutive statements. -/
def bareAll : List Stmt → List BareStmt
  | [] => []
  | s :: rest => s.bare ++ bareAll rest

end

/-! ### A program has the code of its bare form -/

/-- An expression with this bare form. -/
def BareExpr.toExpr : BareExpr → Expr
  | word text => .leaf (.raw text)
  | binary op lhs rhs => .binary op lhs.toExpr rhs.toExpr

mutual

/-- A statement with this bare form. -/
def BareStmt.toStmt : BareStmt → Stmt
  | .assign target value => .assign ⟨target, value.toExpr, 0⟩
  | .ifThen cond body => .ifThen cond.toExpr (toStmtAll body) 0
  | .ifElse cond body other => .ifElse cond.toExpr (toStmtAll body) (toStmtAll other) 0
  | .while cond body => .while cond.toExpr (toStmtAll body) 0
  | .ret value => .ret (value.map BareExpr.toExpr) 0

def toStmtAll : List BareStmt → List Stmt
  | [] => []
  | s :: rest => s.toStmt :: toStmtAll rest

end

@[simp] theorem toStmtAll_append (a b : List BareStmt) : toStmtAll (a ++ b) = toStmtAll a ++ toStmtAll b := by
  induction a with
  | nil => rfl
  | cons s a ih => simp [toStmtAll, ih]

@[simp] theorem Expr.tally_toExpr (e : Expr) : e.bare.toExpr.tally = e.tally := by
  induction e with
  | leaf l => rfl
  | binary op lhs rhs ihl ihr => simp [Expr.bare, BareExpr.toExpr, Expr.tally, ihl, ihr]

@[simp] theorem Expr.argument_toExpr (e : Expr) (o : Tally) : e.bare.toExpr.argument o = e.argument o := by
  cases e with
  | leaf l => rfl
  | binary op lhs rhs => simp [Expr.bare, BareExpr.toExpr, Expr.argument]

@[simp] theorem Expr.sketch_toExpr (e : Expr) (o : Tally) : e.bare.toExpr.sketch o = e.sketch o := by
  induction e generalizing o with
  | leaf l => rfl
  | binary op lhs rhs ihl ihr => simp [Expr.bare, BareExpr.toExpr, Expr.sketch, ihl, ihr]

mutual

private theorem Stmt.tally_toStmtAll (s : Stmt) : tallyAll (toStmtAll s.bare) = s.tally := by
  match s with
  | .assign a => simp [Stmt.bare, Assign.bare, toStmtAll, BareStmt.toStmt, tallyAll, Stmt.tally, Assign.tally]
  | .ifThen cond body _ =>
    simp [Stmt.bare, toStmtAll, BareStmt.toStmt, tallyAll, Stmt.tally, tallyAll_toStmtAll body]
  | .ifElse cond body other _ =>
    simp [Stmt.bare, toStmtAll, BareStmt.toStmt, tallyAll, Stmt.tally, tallyAll_toStmtAll body,
      tallyAll_toStmtAll other]
  | .while cond body _ =>
    simp [Stmt.bare, toStmtAll, BareStmt.toStmt, tallyAll, Stmt.tally, tallyAll_toStmtAll body]
  | .for init cond step body _ =>
    simp [Stmt.bare, Assign.bare, toStmtAll, BareStmt.toStmt, tallyAll, Stmt.tally, Assign.tally,
      tallyAll_toStmtAll body, add_assoc]
  | .ret none _ => simp [Stmt.bare, toStmtAll, BareStmt.toStmt, tallyAll, Stmt.tally]
  | .ret (some value) _ => simp [Stmt.bare, toStmtAll, BareStmt.toStmt, tallyAll, Stmt.tally]

private theorem tallyAll_toStmtAll (program : List Stmt) :
    tallyAll (toStmtAll (bareAll program)) = tallyAll program := by
  match program with
  | [] => rfl
  | s :: rest => simp [bareAll, tallyAll, s.tally_toStmtAll, tallyAll_toStmtAll rest]

end

mutual

private theorem Stmt.sketch_toStmtAll (s : Stmt) (o : Tally) : sketchAll (toStmtAll s.bare) o = s.sketch o := by
  match s with
  | .assign a =>
    simp [Stmt.bare, Assign.bare, toStmtAll, BareStmt.toStmt, sketchAll, Stmt.sketch, Assign.sketch]
  | .ifThen cond body _ =>
    simp [Stmt.bare, toStmtAll, BareStmt.toStmt, sketchAll, Stmt.sketch, sketchAll_toStmtAll body]
  | .ifElse cond body other _ =>
    simp [Stmt.bare, toStmtAll, BareStmt.toStmt, sketchAll, Stmt.sketch, sketchAll_toStmtAll body,
      sketchAll_toStmtAll other, tallyAll_toStmtAll]
  | .while cond body _ =>
    simp [Stmt.bare, toStmtAll, BareStmt.toStmt, sketchAll, Stmt.sketch, Tally.inLoop, loopSketch,
      sketchAll_toStmtAll body]
  | .for init cond step body _ =>
    simp [Stmt.bare, Assign.bare, toStmtAll, BareStmt.toStmt, sketchAll, Stmt.sketch, Stmt.tally, Assign.sketch,
      Assign.tally, Tally.inLoop, loopSketch, sketchAll_toStmtAll body, tallyAll_toStmtAll]
  | .ret none _ => rfl
  | .ret (some value) _ => simp [Stmt.bare, toStmtAll, BareStmt.toStmt, sketchAll, Stmt.sketch]

theorem sketchAll_toStmtAll (program : List Stmt) (o : Tally) :
    sketchAll (toStmtAll (bareAll program)) o = sketchAll program o := by
  match program with
  | [] => rfl
  | s :: rest =>
    simp [bareAll, sketchAll, s.sketch_toStmtAll, s.tally_toStmtAll, sketchAll_toStmtAll rest]

end

/-! ### The code of a bare program -/

/-- The triples of sketches. -/
def triplesOf (part : List Sketch) : List Triple := part.map (Sketch.spell Triple)

@[simp] theorem triplesOf_nil : triplesOf [] = [] := rfl

@[simp] theorem triplesOf_cons (d : Sketch) (part : List Sketch) :
    triplesOf (d :: part) = d.spell Triple :: triplesOf part := rfl

@[simp] theorem triplesOf_append (a b : List Sketch) : triplesOf (a ++ b) = triplesOf a ++ triplesOf b :=
  List.map_append

def BareExpr.tally (e : BareExpr) : Tally := e.toExpr.tally

/-- The code of an expression behind `o`. -/
def BareExpr.code (e : BareExpr) (o : Tally) : List Triple := triplesOf (e.toExpr.sketch o)

/-- The operand that stands for the value of an expression whose code begins behind `o`. -/
def BareExpr.operand (e : BareExpr) (o : Tally) : Operand := (e.toExpr.argument o).operand Triple

def BareStmt.tally (s : BareStmt) : Tally := s.toStmt.tally

/-- The code of a statement behind `o`. -/
def BareStmt.code (s : BareStmt) (o : Tally) : List Triple := triplesOf (s.toStmt.sketch o)

def bareTally (program : List BareStmt) : Tally := tallyAll (toStmtAll program)

/-- The code of consecutive statements behind `o`. -/
def bareCode (program : List BareStmt) (o : Tally) : List Triple := triplesOf (sketchAll (toStmtAll program) o)

private theorem triples_eq_bareCode (program : Program) : triples program = bareCode (bareAll program) 0 := by
  rw [triples_eq, bareCode, sketchAll_toStmtAll]
  rfl

/-! ### Expressions -/

private theorem BareExpr.code_binary (op : String) (lhs rhs : BareExpr) (o : Tally) :
    (binary op lhs rhs).code o = lhs.code o ++ rhs.code (o + lhs.tally) ++
      [⟨.binary op, lhs.operand o, rhs.operand (o + lhs.tally)⟩] := by
  simp [code, toExpr, Expr.sketch, Sketch.spell, Spelling.computation, operand, tally]

private theorem BareExpr.operand_ne_empty (e : BareExpr) (o : Tally) : e.operand o ≠ .empty := by
  cases e <;> simp [operand, toExpr, Expr.argument, Argument.operand, Spelling.value]

/-- The operand tells how long the code is: a computed value is that of the last instruction. -/
private theorem BareExpr.length_code_eq {e e' : BareExpr} {o : Tally} (h : e.operand o = e'.operand o) :
    (e.code o).length = (e'.code o).length := by
  cases e with
  | word text =>
    cases e' with
    | word text' => rfl
    | binary op' lhs' rhs' => simp [operand, toExpr, Expr.argument, Argument.operand, Spelling.value] at h
  | binary op lhs rhs =>
    cases e' with
    | word text' => simp [operand, toExpr, Expr.argument, Argument.operand, Spelling.value] at h
    | binary op' lhs' rhs' =>
      simp only [operand, toExpr, Expr.argument, Argument.operand, Spelling.value, Operand.ref.injEq,
        Tally.add_instructions] at h
      simp only [code, toExpr, triplesOf, List.length_map, Expr.sketch_length, Expr.tally, Tally.add_instructions]
      omega

/-- An expression is determined by its code and the operand that stands for its value. -/
theorem BareExpr.eq_of_code {e e' : BareExpr} {o : Tally} (hcode : e.code o = e'.code o)
    (hoperand : e.operand o = e'.operand o) : e = e' := by
  induction e generalizing e' o with
  | word text =>
    cases e' with
    | word text' =>
      have htext : text = text' := Operand.name.inj hoperand
      rw [htext]
    | binary op' lhs' rhs' => cases hoperand
  | binary op lhs rhs ihl ihr =>
    cases e' with
    | word text' => cases hoperand
    | binary op' lhs' rhs' =>
      rw [code_binary, code_binary] at hcode
      obtain ⟨hparts, hlast⟩ := List.append_inj' hcode rfl
      simp only [List.cons.injEq, and_true, Triple.mk.injEq, Opcode.binary.injEq] at hlast
      obtain ⟨rfl, hl, hr⟩ := hlast
      obtain ⟨hlcode, hrcode⟩ := List.append_inj hparts (length_code_eq hl)
      obtain rfl := ihl hlcode hl
      obtain rfl := ihr hrcode hr
      rfl

/-! ### Where parts end -/

/-- A list is cut in one way before its first element without a property. -/
theorem append_cons_inj {α : Type} {p : α → Prop} {a a' b b' : List α} {d d' : α} (ha : ∀ c ∈ a, p c)
    (hd : ¬ p d) (ha' : ∀ c ∈ a', p c) (hd' : ¬ p d') (h : a ++ d :: b = a' ++ d' :: b') :
    a = a' ∧ d = d' ∧ b = b' := by
  induction a generalizing a' with
  | nil =>
    cases a' with
    | nil => exact ⟨rfl, List.cons.inj h⟩
    | cons c' a' =>
      obtain ⟨rfl, -⟩ := List.cons.inj h
      exact absurd (ha' d List.mem_cons_self) hd
  | cons c a ih =>
    cases a' with
    | nil =>
      obtain ⟨rfl, -⟩ := List.cons.inj h
      exact absurd (ha c List.mem_cons_self) hd'
    | cons c' a' =>
      obtain ⟨rfl, htail⟩ := List.cons.inj h
      obtain ⟨rfl, hrest⟩ := ih (fun x hx => ha x (List.mem_cons_of_mem c hx))
        (fun x hx => ha' x (List.mem_cons_of_mem c hx)) htail
      exact ⟨rfl, hrest⟩

private theorem BareExpr.isBinary_of_mem_code {e : BareExpr} {o : Tally} {c : Triple} (hc : c ∈ e.code o) :
    c.op.isBinary := by
  obtain ⟨d, hd, rfl⟩ := List.mem_map.1 hc
  exact (isBinary_op_spell (ι := Triple) d).trans (e.toExpr.sketch_computes o d hd)

/-- An expression and the instruction that reads it, both of which are determined: an expression ends where the first
instruction stands that computes nothing. -/
private theorem BareExpr.read_inj {e e' : BareExpr} {o : Tally} (f f' : Operand → Triple) {rest rest' : List Triple}
    (hf : ¬ (f (e.operand o)).op.isBinary) (hf' : ¬ (f' (e'.operand o)).op.isBinary)
    (hinj : ∀ v v', f v = f' v' → v = v')
    (h : e.code o ++ f (e.operand o) :: rest = e'.code o ++ f' (e'.operand o) :: rest') :
    e = e' ∧ f (e.operand o) = f' (e'.operand o) ∧ rest = rest' := by
  obtain ⟨hcode, hread, hrest⟩ := append_cons_inj (p := fun c : Triple => c.op.isBinary)
    (fun _ => isBinary_of_mem_code) hf (fun _ => isBinary_of_mem_code) hf' h
  exact ⟨eq_of_code hcode (hinj _ _ hread), hread, hrest⟩

/-- The counter for labels suffices for `t` behind `o`. -/
def Tally.Fits (o t : Tally) : Prop := o.labels + t.labels < 2 ^ 32 - 1

/-- A label from before `o` is not placed behind it. -/
theorem ne_mark_of_mem_bareCode {program : List BareStmt} {o : Tally} {n : Nat} (hn : n < o.nextLabel)
    (hfits : o.Fits (bareTally program)) : ∀ c ∈ bareCode program o, c ≠ Shape.mark ⟨.ofNat n⟩ := by
  rintro c hc rfl
  obtain ⟨d, hd, hmark⟩ := List.mem_map.1 hc
  cases d with
  | mark m =>
    have hword : UInt32.ofNat m = UInt32.ofNat n := by
      simpa [Sketch.spell, Shape.mark] using hmark
    have hm : m ∈ marks (sketchAll (toStmtAll program) o) := List.mem_filterMap.2 ⟨_, hd, rfl⟩
    rw [(sketchAll_marks (toStmtAll program) o).mem_iff, List.mem_range'_1] at hm
    simp only [Tally.nextLabel, Tally.Fits, bareTally] at hn hm hfits
    have hmlt : m < 2 ^ 32 := by omega
    have hnlt : n < 2 ^ 32 := by omega
    have heq := congrArg UInt32.toNat hword
    rw [UInt32.toNat_ofNat_of_lt' hmlt, UInt32.toNat_ofNat_of_lt' hnlt] at heq
    omega
  | _ => simp [Sketch.spell, Shape.mark, Shape.assign, Shape.jumpIfFalse, Shape.jump, Shape.ret,
      Spelling.computation] at hmark

/-- No code ends with a jump, since a label stands behind every jump. -/
private theorem bareCode_ne_append_jump (program : List BareStmt) (o : Tally) (part : List Triple) (n : Nat) :
    bareCode program o ≠ part ++ [Shape.jump ⟨.ofNat n⟩] := by
  intro h
  obtain ⟨before, last, hsplit, -, hlast⟩ := List.map_eq_append_iff.1 h
  obtain ⟨d, rfl, hd⟩ := List.map_eq_singleton_iff.1 hlast
  have hflows := (structuredAll (toStmtAll program) o).flows [] []
  rw [hsplit, throughout_append, throughout_cons] at hflows
  cases d with
  | jump m =>
    obtain ⟨cond, k, hhead, -⟩ := hflows.2.1
    cases hhead
  | _ => simp [Sketch.spell, Shape.mark, Shape.assign, Shape.jumpIfFalse, Shape.jump, Shape.ret,
      Spelling.computation] at hd

/-! ### Statements -/

section Code

variable (o : Tally) (rest : List Triple)

private theorem BareStmt.code_assign (target : String) (value : BareExpr) :
    (assign target value).code o ++ rest = value.code o ++ Shape.assign target (value.operand o) :: rest := by
  simp [code, toStmt, Stmt.sketch, Assign.sketch, Sketch.spell, BareExpr.code, BareExpr.operand]

private theorem BareStmt.code_ifThen (cond : BareExpr) (body : List BareStmt) :
    (ifThen cond body).code o ++ rest =
      cond.code o ++ Shape.jumpIfFalse (cond.operand o) ⟨.ofNat o.nextLabel⟩ ::
        (bareCode body (o + cond.tally + ⟨1, 1, 0⟩) ++ Shape.mark ⟨.ofNat o.nextLabel⟩ :: rest) := by
  simp [code, toStmt, Stmt.sketch, Sketch.spell, BareExpr.code, BareExpr.operand, BareExpr.tally, bareCode]

private theorem BareStmt.code_ifElse (cond : BareExpr) (body other : List BareStmt) :
    (ifElse cond body other).code o ++ rest =
      cond.code o ++ Shape.jumpIfFalse (cond.operand o) ⟨.ofNat o.nextLabel⟩ ::
        ((bareCode body (o + cond.tally + ⟨1, 2, 0⟩) ++ [Shape.jump ⟨.ofNat (o.nextLabel + 1)⟩]) ++
          Shape.mark ⟨.ofNat o.nextLabel⟩ ::
            (bareCode other (o + cond.tally + bareTally body + ⟨3, 2, 0⟩) ++
              Shape.mark ⟨.ofNat (o.nextLabel + 1)⟩ :: rest)) := by
  simp [code, toStmt, Stmt.sketch, Sketch.spell, BareExpr.code, BareExpr.operand, BareExpr.tally, bareCode,
    bareTally]

private theorem BareStmt.code_while (cond : BareExpr) (body : List BareStmt) :
    («while» cond body).code o ++ rest = Shape.mark ⟨.ofNat o.nextLabel⟩ :: (cond.code (o + ⟨1, 2, 0⟩) ++
      Shape.jumpIfFalse (cond.operand (o + ⟨1, 2, 0⟩)) ⟨.ofNat (o.nextLabel + 1)⟩ ::
        ((bareCode body (o + ⟨1, 2, 0⟩ + cond.tally + ⟨1, 0, 0⟩) ++ [Shape.jump ⟨.ofNat o.nextLabel⟩]) ++
          Shape.mark ⟨.ofNat (o.nextLabel + 1)⟩ :: rest)) := by
  simp [code, toStmt, Stmt.sketch, loopSketch, Tally.inLoop, Sketch.spell, BareExpr.code, BareExpr.operand,
    BareExpr.tally, bareCode]

private theorem BareStmt.code_ret_none : (ret none).code o ++ rest = Shape.ret none :: rest := rfl

private theorem BareStmt.code_ret_some (value : BareExpr) :
    (ret (some value)).code o ++ rest = value.code o ++ Shape.ret (some (value.operand o)) :: rest := by
  simp [code, toStmt, Stmt.sketch, Sketch.spell, BareExpr.code, BareExpr.operand]

private theorem bareCode_cons (s : BareStmt) (program : List BareStmt) :
    bareCode (s :: program) o = s.code o ++ bareCode program (o + s.tally) := by
  simp [bareCode, toStmtAll, sketchAll, BareStmt.code, BareStmt.tally]

private theorem bareTally_cons (s : BareStmt) (program : List BareStmt) :
    bareTally (s :: program) = s.tally + bareTally program := rfl

end Code

/-- The opcode of the first instruction of a statement that computes nothing. -/
def BareStmt.leadOp : BareStmt → Opcode
  | assign _ _ => .assign
  | ifThen _ _ => .ifFalse
  | ifElse _ _ _ => .ifFalse
  | «while» _ _ => .label
  | ret _ => .ret

private theorem BareStmt.exists_lead (s : BareStmt) (o : Tally) (rest : List Triple) : ∃ computes d tail,
    s.code o ++ rest = computes ++ d :: tail ∧ (∀ c ∈ computes, c.op.isBinary) ∧ d.op = s.leadOp := by
  have hcode (e : BareExpr) : ∀ c ∈ e.code o, c.op.isBinary := fun _ => BareExpr.isBinary_of_mem_code
  cases s with
  | assign target value => exact ⟨_, _, _, code_assign o rest target value, hcode value, rfl⟩
  | ifThen cond body => exact ⟨_, _, _, code_ifThen o rest cond body, hcode cond, rfl⟩
  | ifElse cond body other => exact ⟨_, _, _, code_ifElse o rest cond body other, hcode cond, rfl⟩
  | «while» cond body => exact ⟨[], _, _, code_while o rest cond body, by simp, rfl⟩
  | ret value =>
    cases value with
    | none => exact ⟨[], _, _, code_ret_none o rest, by simp, rfl⟩
    | some value => exact ⟨_, _, _, code_ret_some o rest value, hcode value, rfl⟩

private theorem bareCode_cons_ne_nil (o : Tally) (s : BareStmt) (program : List BareStmt) :
    bareCode (s :: program) o ≠ bareCode [] o := by
  obtain ⟨computes, d, tail, hcode, -⟩ := s.exists_lead o (bareCode program (o + s.tally))
  rw [bareCode_cons, hcode]
  simp [bareCode, toStmtAll, sketchAll]

private theorem BareStmt.leadOp_eq {s s' : BareStmt} {o : Tally} {rest rest' : List Triple}
    (h : s.code o ++ rest = s'.code o ++ rest') : s.leadOp = s'.leadOp := by
  have hplain (s : BareStmt) : ¬ s.leadOp.isBinary := by cases s <;> simp [leadOp, Opcode.isBinary]
  obtain ⟨computes, d, tail, hcode, hcomputes, hd⟩ := s.exists_lead o rest
  obtain ⟨computes', d', tail', hcode', hcomputes', hd'⟩ := s'.exists_lead o rest'
  rw [hcode, hcode'] at h
  obtain ⟨-, rfl, -⟩ := append_cons_inj (p := fun c : Triple => c.op.isBinary) hcomputes (hd ▸ hplain s) hcomputes'
    (hd' ▸ hplain s') h
  rw [← hd, ← hd']

private theorem BareExpr.test_inj {e e' : BareExpr} {o : Tally} {l : Label} {rest rest' : List Triple}
    (h : e.code o ++ Shape.jumpIfFalse (e.operand o) l :: rest =
      e'.code o ++ Shape.jumpIfFalse (e'.operand o) l :: rest') : e = e' ∧ rest = rest' := by
  have hop (v : Operand) : ¬ (Shape.jumpIfFalse v l : Triple).op.isBinary := by
    simp [Shape.jumpIfFalse, Opcode.isBinary]
  have hinj (v v' : Operand) (hread : (Shape.jumpIfFalse v l : Triple) = Shape.jumpIfFalse v' l) : v = v' := by
    simpa [Shape.jumpIfFalse] using hread
  obtain ⟨he, -, hrest⟩ := read_inj (Shape.jumpIfFalse · l) (Shape.jumpIfFalse · l) (hop _) (hop _) hinj h
  exact ⟨he, hrest⟩

private theorem BareStmt.assign_inj {target target' : String} {value value' : BareExpr} {o : Tally}
    {rest rest' : List Triple} (h : (assign target value).code o ++ rest = (assign target' value').code o ++ rest') :
    target = target' ∧ value = value' ∧ rest = rest' := by
  have hop (target : String) (v : Operand) : ¬ (Shape.assign target v : Triple).op.isBinary := by
    simp [Shape.assign, Opcode.isBinary]
  have hinj (v v' : Operand) (hread : (Shape.assign target v : Triple) = Shape.assign target' v') :
      target = target' ∧ v = v' := by
    simpa [Shape.assign] using hread
  rw [code_assign, code_assign] at h
  obtain ⟨hvalue, hread, hrest⟩ := BareExpr.read_inj (Shape.assign target) (Shape.assign target')
    (hop target _) (hop target' _) (fun v v' hread => (hinj v v' hread).2) h
  exact ⟨(hinj _ _ hread).1, hvalue, hrest⟩

/-- A return without a value reads nothing, so that it differs from one with a value. -/
private theorem BareStmt.ret_inj {value value' : Option BareExpr} {o : Tally} {rest rest' : List Triple}
    (h : (ret value).code o ++ rest = (ret value').code o ++ rest') : value = value' ∧ rest = rest' := by
  have hop (v : Option Operand) : ¬ (Shape.ret v : Triple).op.isBinary := by simp [Shape.ret, Opcode.isBinary]
  have hmixed (e : BareExpr) (rest rest' : List Triple) :
      e.code o ++ Shape.ret (some (e.operand o)) :: rest ≠ Shape.ret none :: rest' := by
    intro h
    have hnone : ∀ c ∈ ([] : List Triple), c.op.isBinary := by simp
    obtain ⟨-, hread, -⟩ := append_cons_inj (p := fun c : Triple => c.op.isBinary)
      (fun _ => BareExpr.isBinary_of_mem_code) (hop _) hnone (hop _) h
    have hempty : e.operand o = .empty := by simpa [Shape.ret] using hread
    exact e.operand_ne_empty o hempty
  cases value with
  | none =>
    cases value' with
    | none => exact ⟨rfl, (List.cons.inj h).2⟩
    | some e' =>
      rw [code_ret_some] at h
      exact (hmixed e' _ _ h.symm).elim
  | some e =>
    rw [code_ret_some] at h
    cases value' with
    | none => exact (hmixed e _ _ h).elim
    | some e' =>
      rw [code_ret_some] at h
      have hinj (v v' : Operand) (hread : (Shape.ret (some v) : Triple) = Shape.ret (some v')) : v = v' := by
        simpa [Shape.ret] using hread
      obtain ⟨rfl, -, hrest⟩ := BareExpr.read_inj (Shape.ret <| some ·) (Shape.ret <| some ·) (hop _) (hop _) hinj h
      exact ⟨rfl, hrest⟩

/-- A part of code ends where a label stands that is not placed in it. -/
private theorem append_mark_inj {a a' rest rest' : List Triple} {l : Label} (ha : ∀ c ∈ a, c ≠ Shape.mark l)
    (ha' : ∀ c ∈ a', c ≠ Shape.mark l) (h : a ++ Shape.mark l :: rest = a' ++ Shape.mark l :: rest') :
    a = a' ∧ rest = rest' := by
  obtain ⟨hpart, -, hrest⟩ := append_cons_inj (p := fun c => c ≠ Shape.mark l) ha (by simp) ha' (by simp) h
  exact ⟨hpart, hrest⟩

private theorem ne_mark_of_mem_append_jump {program : List BareStmt} {o : Tally} {n : Nat} {l : Label}
    (hn : n < o.nextLabel) (hfits : o.Fits (bareTally program)) :
    ∀ c ∈ bareCode program o ++ [Shape.jump l], c ≠ Shape.mark ⟨.ofNat n⟩ := by
  intro c hc
  rcases List.mem_append.1 hc with hc | hc
  · exact ne_mark_of_mem_bareCode hn hfits c hc
  · obtain rfl := List.mem_singleton.1 hc
    simp [Shape.jump, Shape.mark]

section Block

variable {body body' : List BareStmt} {o : Tally} {n : Nat} {rest rest' : List Triple}
  (ih : ∀ {o : Tally}, o.Fits (bareTally body) → o.Fits (bareTally body') → bareCode body o = bareCode body' o →
    body = body')
  (hn : n < o.nextLabel) (hfits : o.Fits (bareTally body)) (hfits' : o.Fits (bareTally body'))
include ih hn hfits hfits'

/-- A block ends at its label. -/
private theorem block_inj (h : bareCode body o ++ Shape.mark ⟨.ofNat n⟩ :: rest =
    bareCode body' o ++ Shape.mark ⟨.ofNat n⟩ :: rest') : body = body' ∧ rest = rest' := by
  obtain ⟨hcode, hrest⟩ :=
    append_mark_inj (ne_mark_of_mem_bareCode hn hfits) (ne_mark_of_mem_bareCode hn hfits') h
  exact ⟨ih hfits hfits' hcode, hrest⟩

/-- A block before a jump ends at the label behind the jump. -/
private theorem block_jump_inj {l : Label} (h : (bareCode body o ++ [Shape.jump l]) ++ Shape.mark ⟨.ofNat n⟩ :: rest =
    (bareCode body' o ++ [Shape.jump l]) ++ Shape.mark ⟨.ofNat n⟩ :: rest') : body = body' ∧ rest = rest' := by
  obtain ⟨hcode, hrest⟩ :=
    append_mark_inj (ne_mark_of_mem_append_jump hn hfits) (ne_mark_of_mem_append_jump hn hfits') h
  exact ⟨ih hfits hfits' (List.append_cancel_right hcode), hrest⟩

end Block

section Labels

variable {cond : BareExpr} {body other : List BareStmt} {o : Tally}

@[simp] theorem BareExpr.tally_labels (e : BareExpr) : e.tally.labels = 0 := Expr.tally_labels _

private theorem BareStmt.fits_ifThen :
    o.Fits (ifThen cond body).tally ↔ (o + cond.tally + ⟨1, 1, 0⟩).Fits (bareTally body) := by
  simp only [Tally.Fits, tally, toStmt, Stmt.tally, bareTally, Tally.add_labels, Expr.tally_labels,
    BareExpr.tally_labels]
  omega

private theorem BareStmt.fits_ifElse (h : o.Fits (ifElse cond body other).tally) :
    (o + cond.tally + ⟨1, 2, 0⟩).Fits (bareTally body) ∧
      (o + cond.tally + bareTally body + ⟨3, 2, 0⟩).Fits (bareTally other) := by
  simp only [Tally.Fits, tally, toStmt, Stmt.tally, bareTally, Tally.add_labels, Expr.tally_labels,
    BareExpr.tally_labels] at h ⊢
  omega

private theorem BareStmt.fits_while : o.Fits («while» cond body).tally ↔
    (o + ⟨1, 2, 0⟩ + cond.tally + ⟨1, 0, 0⟩).Fits (bareTally body) := by
  simp only [Tally.Fits, tally, toStmt, Stmt.tally, bareTally, Tally.add_labels, Expr.tally_labels,
    BareExpr.tally_labels]
  omega

end Labels

/-- A conditional with an else branch has a jump before the label at which one without ends. -/
private theorem BareStmt.code_ifThen_ne_ifElse {cond cond' : BareExpr} {body body' other' : List BareStmt} {o : Tally}
    {rest rest' : List Triple} (hs : o.Fits (ifThen cond body).tally)
    (hs' : o.Fits (ifElse cond' body' other').tally) :
    (ifThen cond body).code o ++ rest ≠ (ifElse cond' body' other').code o ++ rest' := by
  intro h
  rw [code_ifThen, code_ifElse] at h
  obtain ⟨rfl, hblock⟩ := BareExpr.test_inj h
  obtain ⟨hbody, -⟩ := append_mark_inj
    (ne_mark_of_mem_bareCode (by simp [Tally.nextLabel]) (fits_ifThen.1 hs))
    (ne_mark_of_mem_append_jump (by simp [Tally.nextLabel]) (fits_ifElse hs').1) hblock
  exact bareCode_ne_append_jump _ _ _ _ hbody

mutual

/-- The code of a statement determines the statement and where it ends. -/
theorem BareStmt.eq_of_code (s : BareStmt) {s' : BareStmt} {o : Tally} {rest rest' : List Triple}
    (hs : o.Fits s.tally) (hs' : o.Fits s'.tally) (h : s.code o ++ rest = s'.code o ++ rest') :
    s = s' ∧ rest = rest' := by
  -- both have the same first instruction that computes nothing, so they are of the same kind
  have hlead := BareStmt.leadOp_eq h
  match s with
  | .assign target value =>
    cases s' with
    | assign target' value' =>
      obtain ⟨rfl, rfl, hrest⟩ := BareStmt.assign_inj h
      exact ⟨rfl, hrest⟩
    | _ => cases hlead
  | .ret value =>
    cases s' with
    | ret value' =>
      obtain ⟨rfl, hrest⟩ := BareStmt.ret_inj h
      exact ⟨rfl, hrest⟩
    | _ => cases hlead
  | .ifThen cond body =>
    cases s' with
    | ifThen cond' body' =>
      rw [BareStmt.code_ifThen, BareStmt.code_ifThen] at h
      obtain ⟨rfl, hblock⟩ := BareExpr.test_inj h
      obtain ⟨rfl, hrest⟩ := block_inj (eq_of_bareCode body) (by simp [Tally.nextLabel]) (BareStmt.fits_ifThen.1 hs)
        (BareStmt.fits_ifThen.1 hs') hblock
      exact ⟨rfl, hrest⟩
    | ifElse cond' body' other' => exact (BareStmt.code_ifThen_ne_ifElse hs hs' h).elim
    | _ => cases hlead
  | .ifElse cond body other =>
    cases s' with
    | ifThen cond' body' => exact (BareStmt.code_ifThen_ne_ifElse hs' hs h.symm).elim
    | ifElse cond' body' other' =>
      rw [BareStmt.code_ifElse, BareStmt.code_ifElse] at h
      obtain ⟨rfl, hblocks⟩ := BareExpr.test_inj h
      obtain ⟨hbody, hother⟩ := BareStmt.fits_ifElse hs
      obtain ⟨hbody', hother'⟩ := BareStmt.fits_ifElse hs'
      obtain ⟨rfl, hsecond⟩ := block_jump_inj (eq_of_bareCode body) (by simp [Tally.nextLabel]) hbody hbody' hblocks
      -- with the same first block, the second one begins behind the same tally
      have hlabel : o.nextLabel + 1 < (o + cond.tally + bareTally body + ⟨3, 2, 0⟩).nextLabel := by
        simp only [Tally.nextLabel, Tally.add_labels]
        omega
      obtain ⟨rfl, hrest⟩ := block_inj (eq_of_bareCode other) hlabel hother hother' hsecond
      exact ⟨rfl, hrest⟩
    | _ => cases hlead
  | .while cond body =>
    cases s' with
    | «while» cond' body' =>
      rw [BareStmt.code_while, BareStmt.code_while] at h
      obtain ⟨rfl, hblock⟩ := BareExpr.test_inj (List.cons.inj h).2
      obtain ⟨rfl, hrest⟩ := block_jump_inj (eq_of_bareCode body) (by simp [Tally.nextLabel])
        (BareStmt.fits_while.1 hs) (BareStmt.fits_while.1 hs') hblock
      exact ⟨rfl, hrest⟩
    | _ => cases hlead

/-- The code of consecutive statements determines them. -/
private theorem eq_of_bareCode (program : List BareStmt) {program' : List BareStmt} {o : Tally}
    (hs : o.Fits (bareTally program)) (hs' : o.Fits (bareTally program'))
    (h : bareCode program o = bareCode program' o) : program = program' := by
  match program with
  | [] =>
    cases program' with
    | nil => rfl
    | cons s' rest' => exact absurd h.symm (bareCode_cons_ne_nil o s' rest')
  | s :: rest =>
    cases program' with
    | nil => exact absurd h (bareCode_cons_ne_nil o s rest)
    | cons s' rest' =>
      simp only [Tally.Fits, bareTally_cons, Tally.add_labels] at hs hs'
      rw [bareCode_cons, bareCode_cons] at h
      obtain ⟨rfl, hrest⟩ := BareStmt.eq_of_code s (show _ < _ by omega) (show _ < _ by omega) h
      have hfits : (o + s.tally).Fits (bareTally rest) := by
        simp only [Tally.Fits, Tally.add_labels]
        omega
      have hfits' : (o + s.tally).Fits (bareTally rest') := by
        simp only [Tally.Fits, Tally.add_labels]
        omega
      rw [eq_of_bareCode rest hfits hfits' hrest]

end

/-- Two programs have the same triples exactly if they have the same bare form. -/
theorem triples_eq_iff_bareAll_eq {p q : Program} (hp : (tallyAll p).labels < 2 ^ 32 - 1)
    (hq : (tallyAll q).labels < 2 ^ 32 - 1) : triples p = triples q ↔ bareAll p = bareAll q := by
  rw [triples_eq_bareCode, triples_eq_bareCode]
  constructor
  · intro h
    rw [← tallyAll_toStmtAll] at hp hq
    refine eq_of_bareCode (bareAll p) ?_ ?_ h
    · simpa [Tally.Fits, bareTally] using hp
    · simpa [Tally.Fits, bareTally] using hq
  · intro h
    rw [h]

/-- A loop `for (i = 0; i < n; i = i + 1;) { if ("s") { } }`, and the same written as a `while` loop on other lines
with leaves of other kinds. -/
theorem triples_eq_iff_bareAll_eq_for :
    let i := Expr.leaf (.ident "i")
    let p : Program :=
      [.for ⟨"i", .leaf (.number "0"), 1⟩ (.binary "<" i (.leaf (.ident "n")))
        ⟨"i", .binary "+" i (.leaf (.number "1")), 1⟩ [.ifThen (.leaf (.str "s")) [] 2] 1]
    let q : Program :=
      [.assign ⟨"i", .leaf (.raw "0"), 5⟩,
       .while (.binary "<" i (.leaf (.raw "n")))
        [.ifThen (.leaf (.raw "\"s\"")) [] 7, .assign ⟨"i", .binary "+" i (.leaf (.raw "1")), 8⟩] 6]
    (tallyAll p).labels < 2 ^ 32 - 1 ∧ (tallyAll q).labels < 2 ^ 32 - 1 ∧
      (triples p = triples q ↔ bareAll p = bareAll q) ∧ triples p = triples q :=
  ⟨by decide, by decide, triples_eq_iff_bareAll_eq (by decide) (by decide), by decide⟩

end ThreeAddress
