import ThreeAddress.Proofs.Code.Labels
import ThreeAddress.Proofs.Code.Values

/-!
# Relocation

What a pass emits for a program does not depend on what it holds already, but for the numbers of labels, temporaries
and instructions: behind what it holds comes the code of a fresh pass with these numbers raised
(`lower_relocates`).  Nothing that has been emitted is changed.

* `Pass.Reached`: what a fresh pass can become by any calls;
* `sketchAll_add`: the sketches of a program behind more are its sketches, raised;
* `within_tallyAll`: a program uses only the numbers that its tally counts, so none of them overflows when raised;
* `LawfulRaise`: the raised sketch is spelled as the raised instruction.
-/

namespace ThreeAddress

/-! ### Passes that are reached -/

section Reached

variable {ι : Type} [Shape ι]

/-- What one call makes of a pass. -/
inductive Pass.Call : Pass ι → Pass ι → Prop
  | freshLabel (pass : Pass ι) : Call pass pass.freshLabel.2
  | freshTemp (pass : Pass ι) : Call pass pass.freshTemp.2
  | compute (pass : Pass ι) (op : String) (lhs rhs : Operand) : Call pass (Shape.compute op lhs rhs pass).2
  | emit (pass : Pass ι) (instruction : ι) : Call pass (pass.emit instruction).2

/-- A pass that calls have made of a fresh one.  No counter has overflowed: an overflow would take it down to zero. -/
inductive Pass.Reached : Pass ι → Prop
  | fresh : Reached {}
  | call {pass next : Pass ι} (hpass : Reached pass) (hcall : pass.Call next)
    (hlabel : pass.nextLabel ≤ next.nextLabel) (htemp : pass.nextTemp ≤ next.nextTemp) : Reached next

private theorem Pass.Reached.one_le {pass : Pass ι} (h : pass.Reached) :
    1 ≤ pass.nextLabel.toNat ∧ 1 ≤ pass.nextTemp.toNat := by
  induction h with
  | fresh => exact ⟨Nat.le_refl 1, Nat.le_refl 1⟩
  | call hpass hcall hlabel htemp ih =>
    have hlabel' := UInt32.le_iff_toNat_le.1 hlabel
    have htemp' := UInt32.le_iff_toNat_le.1 htemp
    omega

/-- What a pass has emitted and handed out. -/
def Pass.tally (pass : Pass ι) : Tally := ⟨pass.code.size, pass.nextLabel.toNat - 1, pass.nextTemp.toNat - 1⟩

private theorem Pass.Reached.nextLabel_tally_add {pass : Pass ι} (h : pass.Reached) (t : Tally) :
    (pass.tally + t).nextLabel = pass.nextLabel.toNat + t.labels := by
  have hlabel := h.one_le.1
  simp only [Pass.tally, Tally.nextLabel, Tally.add_labels]
  omega

private theorem Pass.Reached.nextTemp_tally_add {pass : Pass ι} (h : pass.Reached) (t : Tally) :
    (pass.tally + t).nextTemp = pass.nextTemp.toNat + t.temps := by
  have htemp := h.one_le.2
  simp only [Pass.tally, Tally.nextTemp, Tally.add_temps]
  omega

end Reached

/-! ### Raised numbers -/

/-- The operand with its label, its temporary or its index raised by what `o` counts. -/
def Operand.raise (o : Tally) : Operand → Operand
  | .name text => .name text
  | .temp t => .temp ⟨.ofNat (t.number.toNat + o.temps)⟩
  | .label l => .label ⟨.ofNat (l.number.toNat + o.labels)⟩
  | .ref index => .ref (index + o.instructions)
  | .empty => .empty

/-- Whether the raised number is within 32 bits. -/
def Operand.CanRaise (o : Tally) : Operand → Prop
  | .temp t => t.number.toNat + o.temps < 2 ^ 32
  | .label l => l.number.toNat + o.labels < 2 ^ 32
  | _ => True

/-- Instructions with operands that can be raised. -/
class Raise (ι : Type) where
  operands : ι → List Operand
  /-- The instruction with all operands raised and the same opcode. -/
  raise : Tally → ι → ι
  /-- The counters that the shape uses stay below their end when all that is tallied is handed out. -/
  Room : Tally → Prop

instance : Raise Triple where
  operands t := [t.arg1, t.arg2]
  raise o t := ⟨t.op, t.arg1.raise o, t.arg2.raise o⟩
  Room o := o.nextLabel < 2 ^ 32

instance : Raise Quadruple where
  operands q := [q.arg1, q.arg2, q.result]
  raise o q := ⟨q.op, q.arg1.raise o, q.arg2.raise o, q.result.raise o⟩
  Room o := o.nextLabel < 2 ^ 32 ∧ o.nextTemp < 2 ^ 32

/-- The whole is the code raised by what `o` counts, behind what comes before it, and no number overflows. -/
structure Relocated {ι : Type} [Raise ι] (o : Tally) (code before whole : List ι) : Prop where
  whole_eq : whole = before ++ code.map (Raise.raise o)
  canRaise : ∀ c ∈ code, ∀ a ∈ Raise.operands c, a.CanRaise o

/-! ### Sketches behind more -/

def Argument.raise (k : Tally) : Argument → Argument
  | text word => .text word
  | computed index temp => .computed (index + k.instructions) (temp + k.temps)

/-- The sketch with all numbers raised. -/
def Sketch.raise (k : Tally) : Sketch → Sketch
  | compute op lhs rhs temp => .compute op (lhs.raise k) (rhs.raise k) (temp + k.temps)
  | assign target value => .assign target (value.raise k)
  | jumpIfFalse cond label => .jumpIfFalse (cond.raise k) (label + k.labels)
  | jump label => .jump (label + k.labels)
  | mark label => .mark (label + k.labels)
  | ret value => .ret (value.map (Argument.raise k))

section Add

variable (k : Tally)

private theorem Tally.nextLabel_add (o : Tally) : (k + o).nextLabel = o.nextLabel + k.labels := by
  simp only [Tally.nextLabel, Tally.add_labels]
  omega

private theorem Tally.nextTemp_add (o : Tally) : (k + o).nextTemp = o.nextTemp + k.temps := by
  simp only [Tally.nextTemp, Tally.add_temps]
  omega

private theorem Expr.argument_add (e : Expr) (o : Tally) : e.argument (k + o) = (e.argument o).raise k := by
  cases e with
  | leaf l => rfl
  | binary op lhs rhs =>
    simp only [Expr.argument, Argument.raise, add_assoc, Tally.nextTemp_add, Tally.add_instructions]
    congr 1
    omega

private theorem Expr.sketch_add (e : Expr) (o : Tally) : e.sketch (k + o) = (e.sketch o).map (Sketch.raise k) := by
  induction e generalizing o with
  | leaf l => rfl
  | binary op lhs rhs ihl ihr =>
    simp only [Expr.sketch, add_assoc, ihl, ihr, Expr.argument_add, Tally.nextTemp_add, List.map_append,
      List.map_cons, List.map_nil, Sketch.raise]

private theorem Assign.sketch_add (a : Assign) (o : Tally) : a.sketch (k + o) = (a.sketch o).map (Sketch.raise k) := by
  simp only [Assign.sketch, Expr.sketch_add, Expr.argument_add, List.map_append, List.map_cons, List.map_nil,
    Sketch.raise]

private theorem loopSketch_add (cond : Expr) (o : Tally) (body : List Sketch) :
    loopSketch cond (k + o) (body.map (Sketch.raise k)) = (loopSketch cond o body).map (Sketch.raise k) := by
  simp only [loopSketch, add_assoc, Expr.sketch_add, Expr.argument_add, Tally.nextLabel_add, List.map_append,
    List.map_cons, List.map_nil, Sketch.raise, Nat.add_right_comm _ k.labels 1]

private theorem Tally.inLoop_add (o : Tally) (cond : Expr) : (k + o).inLoop cond = k + o.inLoop cond := by
  simp only [Tally.inLoop, add_assoc]

mutual

private theorem Stmt.sketch_add (s : Stmt) (o : Tally) : s.sketch (k + o) = (s.sketch o).map (Sketch.raise k) := by
  match s with
  | .assign a => exact a.sketch_add k o
  | .ifThen cond body _ =>
    simp only [Stmt.sketch, add_assoc, Expr.sketch_add, Expr.argument_add, sketchAll_add body, Tally.nextLabel_add,
      List.map_append, List.map_cons, List.map_nil, Sketch.raise]
  | .ifElse cond body other _ =>
    simp only [Stmt.sketch, add_assoc, Expr.sketch_add, Expr.argument_add, sketchAll_add body, sketchAll_add other,
      Tally.nextLabel_add, List.map_append, List.map_cons, List.map_nil, Sketch.raise,
      Nat.add_right_comm _ k.labels 1]
  | .while cond body _ =>
    simp only [Stmt.sketch, Tally.inLoop_add, sketchAll_add body, loopSketch_add]
  | .for init cond step body _ =>
    simp only [Stmt.sketch, add_assoc, Tally.inLoop_add, sketchAll_add body, Assign.sketch_add, ← List.map_append,
      loopSketch_add]
  | .ret none _ => rfl
  | .ret (some value) _ =>
    simp only [Stmt.sketch, Expr.sketch_add, Expr.argument_add, List.map_append, List.map_cons, List.map_nil,
      Sketch.raise, Option.map_some]

/-- The code of consecutive statements behind more is their code, raised. -/
theorem sketchAll_add (program : List Stmt) (o : Tally) :
    sketchAll program (k + o) = (sketchAll program o).map (Sketch.raise k) := by
  match program with
  | [] => rfl
  | s :: rest =>
    simp only [sketchAll, add_assoc, s.sketch_add, sketchAll_add rest, List.map_append]

end

private theorem sketchAll_eq_raise (program : List Stmt) :
    sketchAll program k = (sketchAll program 0).map (Sketch.raise k) := by
  rw [← sketchAll_add, add_zero]

end Add

/-! ### The numbers of a program -/

/-- The labels and temporaries of a sketch are among those that a tally counts. -/
structure Sketch.Within (bound : Tally) (d : Sketch) : Prop where
  label_le {n : Nat} : d.label? = some n → n ≤ bound.labels
  temp_le {n : Nat} : d.temp? = some n → n ≤ bound.temps
  read_le {index temp : Nat} : .computed index temp ∈ d.arguments → temp ≤ bound.temps

section Bounds

variable {program : Program} {d : Sketch}

private theorem label_le (hd : d ∈ sketchAll program 0) {n : Nat} (hn : d.label? = some n) :
    n ≤ (tallyAll program).labels := by
  obtain ⟨i, hi⟩ := List.mem_iff_getElem?.1 hd
  cases d with
  | mark label =>
    cases hn
    exact (exists_mark_iff.1 ⟨i, hi⟩).2
  | jump label => exact (exists_target_iff.1 ⟨i, _, hi, hn⟩).2
  | jumpIfFalse cond label => exact (exists_target_iff.1 ⟨i, _, hi, hn⟩).2
  | _ => cases hn

private theorem temp_le (hd : d ∈ sketchAll program 0) {n : Nat} (hn : d.temp? = some n) :
    n ≤ (tallyAll program).temps := by
  have hmem : n ∈ temps (sketchAll program 0) := List.mem_filterMap.2 ⟨d, hd, hn⟩
  rw [sketchAll_temps, List.mem_range'_1, Tally.nextTemp, Tally.zero_temps] at hmem
  omega

theorem within_tallyAll (hd : d ∈ sketchAll program 0) : d.Within (tallyAll program) := by
  refine ⟨label_le hd, temp_le hd, ?_⟩
  intro index temp ha
  -- what is read has been computed by an instruction of the program
  obtain ⟨op, lhs, rhs, hindex⟩ := sketchAll_reads program (o := 0) (holdsAt_self _) d hd _ ha
  exact temp_le (List.mem_of_getElem? hindex) rfl

end Bounds

/-! ### Instructions of raised sketches -/

/-- A shape has the numbers of a sketch in the operands of its instruction. -/
class LawfulRaise (ι : Type) [Shape ι] [Spelling ι] [Raise ι] : Prop where
  handsOut_toNat (counter : UInt32) : Spelling.HandsOut ι counter counter.toNat
  spell_raise (k : Tally) (d : Sketch) : (d.raise k).spell ι = Raise.raise k (d.spell ι)
  canRaise_spell {o bound : Tally} {d : Sketch} (hd : d.Within bound) (hroom : Raise.Room ι (o + bound)) :
    ∀ a ∈ Raise.operands (d.spell ι), a.CanRaise o

/-- Addition in 32 bits may be done on the natural numbers. -/
private theorem ofNat_raise (n k : Nat) : UInt32.ofNat ((UInt32.ofNat n).toNat + k) = UInt32.ofNat (n + k) := by
  rw [UInt32.ofNat_add, UInt32.ofNat_toNat, UInt32.ofNat_add]

private theorem toNat_ofNat_le (n : Nat) : (UInt32.ofNat n).toNat ≤ n := by
  rw [UInt32.toNat_ofNat']
  exact Nat.mod_le _ _

section Operand

variable (k : Tally)

@[simp] theorem Operand.raise_name (text : String) : (Operand.name text).raise k = .name text := rfl

@[simp] theorem Operand.raise_empty : Operand.empty.raise k = .empty := rfl

@[simp] theorem Operand.raise_label (n : Nat) :
    (Operand.label ⟨.ofNat n⟩).raise k = .label ⟨.ofNat (n + k.labels)⟩ := by
  rw [Operand.raise, ofNat_raise]

@[simp] theorem Operand.raise_temp (n : Nat) :
    (Operand.temp ⟨.ofNat n⟩).raise k = .temp ⟨.ofNat (n + k.temps)⟩ := by
  rw [Operand.raise, ofNat_raise]

@[simp] theorem Operand.canRaise_name (text : String) : (Operand.name text).CanRaise k := trivial

@[simp] theorem Operand.canRaise_empty : Operand.empty.CanRaise k := trivial

variable {k} {bound : Tally} {n : Nat}

private theorem Operand.canRaise_label (hn : n ≤ bound.labels) (hroom : (k + bound).nextLabel < 2 ^ 32) :
    (Operand.label ⟨.ofNat n⟩).CanRaise k := by
  have hle := toNat_ofNat_le n
  simp only [Tally.nextLabel, Tally.add_labels] at hroom
  simp only [Operand.CanRaise]
  omega

private theorem Operand.canRaise_temp (hn : n ≤ bound.temps) (hroom : (k + bound).nextTemp < 2 ^ 32) :
    (Operand.temp ⟨.ofNat n⟩).CanRaise k := by
  have hle := toNat_ofNat_le n
  simp only [Tally.nextTemp, Tally.add_temps] at hroom
  simp only [Operand.CanRaise]
  omega

end Operand

instance : LawfulRaise Triple where
  handsOut_toNat _ := trivial
  spell_raise k d := by
    have hargument (a : Argument) : (a.raise k).operand Triple = (a.operand Triple).raise k := by cases a <;> rfl
    cases d with
    | ret value => cases value <;> simp [Sketch.raise, Sketch.spell, Shape.ret, Raise.raise, hargument]
    | _ =>
      simp [Sketch.raise, Sketch.spell, Spelling.computation, Shape.assign, Shape.jumpIfFalse, Shape.jump, Shape.mark,
        Raise.raise, hargument]
  canRaise_spell {o bound d} hd hroom := by
    have hargument (a : Argument) : (a.operand Triple).CanRaise o := by cases a <;> trivial
    have hlabel {n : Nat} (hn : d.label? = some n) := Operand.canRaise_label (hd.label_le hn) hroom
    cases d with
    | compute op lhs rhs temp => simp [Raise.operands, Sketch.spell, Spelling.computation, hargument]
    | assign target value => simp [Raise.operands, Sketch.spell, Shape.assign, hargument]
    | jumpIfFalse cond label => simp [Raise.operands, Sketch.spell, Shape.jumpIfFalse, hargument, hlabel rfl]
    | jump label => simp [Raise.operands, Sketch.spell, Shape.jump, hlabel rfl]
    | mark label => simp [Raise.operands, Sketch.spell, Shape.mark, hlabel rfl]
    | ret value => cases value <;> simp [Raise.operands, Sketch.spell, Shape.ret, hargument]

instance : LawfulRaise Quadruple where
  handsOut_toNat counter := UInt32.ofNat_toNat.symm
  spell_raise k d := by
    have hargument (a : Argument) : (a.raise k).operand Quadruple = (a.operand Quadruple).raise k := by
      cases a with
      | text word => rfl
      | computed index temp => exact (Operand.raise_temp k temp).symm
    cases d with
    | ret value => cases value <;> simp [Sketch.raise, Sketch.spell, Shape.ret, Raise.raise, hargument]
    | _ =>
      simp [Sketch.raise, Sketch.spell, Spelling.computation, Shape.assign, Shape.jumpIfFalse, Shape.jump, Shape.mark,
        Raise.raise, hargument]
  canRaise_spell {o bound d} hd hroom := by
    have hargument {a : Argument} (ha : a ∈ d.arguments) : (a.operand Quadruple).CanRaise o := by
      cases a with
      | text word => trivial
      | computed index temp => exact Operand.canRaise_temp (hd.read_le ha) hroom.2
    have hlabel {n : Nat} (hn : d.label? = some n) := Operand.canRaise_label (hd.label_le hn) hroom.1
    have htemp {n : Nat} (hn : d.temp? = some n) := Operand.canRaise_temp (hd.temp_le hn) hroom.2
    cases d with
    | compute op lhs rhs temp =>
      simp [Raise.operands, Sketch.spell, Spelling.computation, hargument (.head _), hargument (.tail _ (.head _)),
        htemp rfl]
    | assign target value => simp [Raise.operands, Sketch.spell, Shape.assign, hargument (.head _)]
    | jumpIfFalse cond label =>
      simp [Raise.operands, Sketch.spell, Shape.jumpIfFalse, hargument (.head _), hlabel rfl]
    | jump label => simp [Raise.operands, Sketch.spell, Shape.jump, hlabel rfl]
    | mark label => simp [Raise.operands, Sketch.spell, Shape.mark, hlabel rfl]
    | ret value =>
      cases value with
      | none => simp [Raise.operands, Sketch.spell, Shape.ret]
      | some value => simp [Raise.operands, Sketch.spell, Shape.ret, hargument (.head _)]

/-! ### Relocation -/

section Relocation

variable {ι : Type} [Shape ι] [Spelling ι] [Raise ι] [LawfulRaise ι]

private theorem relocated_sketchAll {o : Tally} (program : Program) (hroom : Raise.Room ι (o + tallyAll program))
    (before : List ι) : Relocated o ((sketchAll program 0).map (Sketch.spell ι)) before
      (before ++ (sketchAll program o).map (Sketch.spell ι)) := by
  constructor
  · rw [sketchAll_eq_raise o program, List.map_map, List.map_map]
    congr 2
    funext d
    exact LawfulRaise.spell_raise o d
  · intro c hc
    obtain ⟨d, hd, rfl⟩ := List.mem_map.1 hc
    exact LawfulRaise.canRaise_spell (within_tallyAll hd) hroom

theorem Pass.Reached.behind {pass : Pass ι} (h : pass.Reached) : pass.Behind pass.tally := by
  obtain ⟨hlabel, htemp⟩ := h.one_le
  refine ⟨rfl, ?_, ?_⟩
  · rw [Pass.tally, Tally.nextLabel, Nat.sub_add_cancel hlabel, UInt32.ofNat_toNat]
  · rw [Pass.tally, Tally.nextTemp, Nat.sub_add_cancel htemp]
    exact LawfulRaise.handsOut_toNat pass.nextTemp

variable (ι) in
private theorem lower_fresh (program : Program) : Pass.lower {} program = (sketchAll program 0).map (Sketch.spell ι) :=
  Pass.lower_eq Pass.Reached.fresh.behind program

private theorem Pass.Reached.relocated {pass : Pass ι} (h : pass.Reached) (program : Program)
    (hroom : Raise.Room ι (pass.tally + tallyAll program)) :
    Relocated pass.tally (Pass.lower {} program) pass.code.toList (pass.lower program) := by
  rw [Pass.lower_eq h.behind, lower_fresh]
  exact relocated_sketchAll program hroom pass.code.toList

private theorem relocated_append (first second : Program) (hroom : Raise.Room ι (tallyAll first + tallyAll second)) :
    Relocated (tallyAll first) (Pass.lower (ι := ι) {} second) (Pass.lower {} first)
      (Pass.lower {} (first ++ second)) := by
  rw [lower_fresh, lower_fresh, lower_fresh, sketchAll_append, List.map_append, zero_add]
  exact relocated_sketchAll second hroom _

end Relocation

/-- Behind all that a pass holds, a program is lowered to the code of a fresh pass with raised numbers, as long as the
counters suffice.  So the code of two programs is that of the first and behind it that of the second, raised by what
the first one needs. -/
theorem lower_relocates (program : Program) :
    (∀ pass : Pass Triple, pass.Reached → pass.nextLabel.toNat + (tallyAll program).labels < 2 ^ 32 →
      Relocated pass.tally (triples program) pass.code.toList (pass.lower program)) ∧
    (∀ pass : Pass Quadruple, pass.Reached → pass.nextLabel.toNat + (tallyAll program).labels < 2 ^ 32 →
      pass.nextTemp.toNat + (tallyAll program).temps < 2 ^ 32 →
      Relocated pass.tally (quadruples program) pass.code.toList (pass.lower program)) ∧
    (∀ next : Program, (tallyAll (program ++ next)).labels < 2 ^ 32 - 1 →
      Relocated (tallyAll program) (triples next) (triples program) (triples (program ++ next))) ∧
    (∀ next : Program, WithinCounters (program ++ next) →
      Relocated (tallyAll program) (quadruples next) (quadruples program) (quadruples (program ++ next))) := by
  refine ⟨?_, ?_, ?_, ?_⟩
  · intro pass hpass hlabels
    refine hpass.relocated program ?_
    rwa [← hpass.nextLabel_tally_add] at hlabels
  · intro pass hpass hlabels htemps
    refine hpass.relocated program ⟨?_, ?_⟩
    · rwa [← hpass.nextLabel_tally_add] at hlabels
    · rwa [← hpass.nextTemp_tally_add] at htemps
  · intro next hlabels
    rw [tallyAll_append] at hlabels
    exact relocated_append program next (Nat.add_lt_of_lt_sub hlabels)
  · intro next h
    have hlabels := h.labels
    have htemps := h.temps
    rw [tallyAll_append] at hlabels htemps
    exact relocated_append program next ⟨Nat.add_lt_of_lt_sub hlabels, Nat.add_lt_of_lt_sub htemps⟩

/-- The loop `while (a < b) { a = a + b; }` behind a label that is placed and a value that is computed from it. -/
theorem lower_relocates_loop :
    let a := Expr.leaf (.ident "a")
    let b := Expr.leaf (.ident "b")
    let program : Program := [.while (.binary "<" a b) [.assign ⟨"a", .binary "+" a b, 1⟩] 1]
    let triple := (({} : Pass Triple).freshLabel.2.emit (Shape.mark ⟨1⟩)).2
    let quadruple := (Shape.compute "*" (.label ⟨7⟩) .empty ({} : Pass Quadruple).freshLabel.2).2
    (triple.Reached ∧ Relocated triple.tally (triples program) triple.code.toList (triple.lower program)) ∧
      (quadruple.Reached ∧
        Relocated quadruple.tally (quadruples program) quadruple.code.toList (quadruple.lower program)) ∧
      Relocated (tallyAll program) (triples program) (triples program) (triples (program ++ program)) ∧
      Relocated (tallyAll program) (quadruples program) (quadruples program) (quadruples (program ++ program)) := by
  intro a b program triple quadruple
  have htriple : triple.Reached :=
    .call (.call .fresh (.freshLabel _) (by decide) (by decide)) (.emit _ _) (by decide) (by decide)
  have hquadruple : quadruple.Reached :=
    .call (.call .fresh (.freshLabel _) (by decide) (by decide)) (.compute _ _ _ _) (by decide) (by decide)
  obtain ⟨htriples, hquadruples, hnextTriples, hnextQuadruples⟩ := lower_relocates program
  exact ⟨⟨htriple, htriples triple htriple (by decide)⟩,
    ⟨hquadruple, hquadruples quadruple hquadruple (by decide) (by decide)⟩,
    hnextTriples program (by decide), hnextQuadruples program ⟨by decide, by decide⟩⟩

end ThreeAddress
