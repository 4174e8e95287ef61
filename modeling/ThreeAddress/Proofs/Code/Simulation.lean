import ThreeAddress.Proofs.Code.Contract
import ThreeAddress.Proofs.Code.Layout

/-!
# Lowering preserves meaning

The quadruples of a program, run by the machine, stop exactly when the structured execution of the program stops,
with the same ending and the same store (`stops_iff_runsAll`).

* `Expr.reaches`: the code of an expression leaves its value where its argument says and keeps the values of all
  temporaries before it, so a left operand survives the computation of the right one;
* `Machine.target?_mark`: a jump finds the one place of its label, wherever it is;
* `Stmt.implements`: the code of a statement implements its execution.
-/

namespace ThreeAddress

open Machine

universe u

variable {V : Type u} (I : Interpretation V) {program : Program}

/-- The step at an instruction of a program. -/
theorem Machine.step_eq {s : State V} {d : Sketch} (hd : (sketchAll program 0)[s.pc]? = some d) :
    step I (quadruples program) s = s.perform I (quadruples program) (d.spell Quadruple) := by
  simp [step, quadruples_eq, hd]

/-! ### Expressions -/

/-- The value of an expression stays as long as the temporaries up to its own stay. -/
private theorem Expr.value?_argument_congr (e : Expr) (o : Tally) {s t : State V} (hstore : s.store = t.store)
    (htemps : ∀ n ≤ (o + e.tally).temps, s.temps ⟨.ofNat n⟩ = t.temps ⟨.ofNat n⟩) :
    s.value? I ((e.argument o).operand Quadruple) = t.value? I ((e.argument o).operand Quadruple) := by
  cases e with
  | leaf l => exact congrArg (fun store => some (I.leaf l.text store)) hstore
  | binary op lhs rhs =>
    refine htemps (o + lhs.tally + rhs.tally).nextTemp ?_
    simp only [Expr.tally, Tally.nextTemp, Tally.add_temps]
    omega

theorem Expr.reaches (e : Expr) {o : Tally} (hcode : HoldsAt (sketchAll program 0) o.instructions (e.sketch o))
    (hsmall : (o + e.tally).temps < 2 ^ 32) (store : Store V) (temps : Temp → Option V) :
    ∃ temps', Reaches I (quadruples program) e.tally.instructions ⟨o.instructions, store, temps⟩
        ⟨(o + e.tally).instructions, store, temps'⟩ ∧
      (∀ pc, State.value? I ⟨pc, store, temps'⟩ ((e.argument o).operand Quadruple) = some (e.eval I store)) ∧
      ∀ n ≤ o.temps, temps' ⟨.ofNat n⟩ = temps ⟨.ofNat n⟩ := by
  induction e generalizing o temps with
  | leaf l => exact ⟨temps, rfl, fun _ => rfl, fun _ _ => rfl⟩
  | binary op lhs rhs ihl ihr =>
    obtain ⟨hl, hr, hop⟩ := holdsAt_binary.1 hcode
    simp only [Expr.tally, Tally.add_temps] at hsmall
    obtain ⟨temps₁, hreach₁, hvalue₁, hkeep₁⟩ := ihl hl (by simp only [Tally.add_temps]; omega) temps
    obtain ⟨temps₂, hreach₂, hvalue₂, hkeep₂⟩ := ihr hr (by simp only [Tally.add_temps]; omega) temps₁
    -- the right side uses later temporaries, so the value of the left side is still there
    have hleft : ∀ pc, State.value? I ⟨pc, store, temps₂⟩ ((lhs.argument o).operand Quadruple) =
        some (lhs.eval I store) := by
      intro pc
      rw [← hvalue₁ pc]
      exact lhs.value?_argument_congr I o rfl hkeep₂
    have hstep := step_eq I (s := ⟨_, store, temps₂⟩) hop
    simp only [Sketch.spell, Spelling.computation, State.perform, hleft, hvalue₂] at hstep
    have hpc : (o + (Expr.binary op lhs rhs).tally).instructions = (o + lhs.tally + rhs.tally).instructions + 1 := by
      simp only [Expr.tally, Tally.add_instructions]
      omega
    have htemp : (o + lhs.tally + rhs.tally).nextTemp = o.temps + lhs.tally.temps + rhs.tally.temps + 1 := rfl
    refine ⟨(State.setTemp ⟨0, store, temps₂⟩ ⟨.ofNat (o + lhs.tally + rhs.tally).nextTemp⟩
      (I.apply op (lhs.eval I store) (rhs.eval I store))).temps, ?_, ?_, ?_⟩
    · rw [hpc]
      exact (hreach₁.trans hreach₂).trans (.one hstep)
    · intro pc
      simp [Expr.argument, Argument.operand, Spelling.value, State.value?, State.setTemp, Expr.eval]
    · intro n hn
      have hne : (⟨.ofNat n⟩ : Temp) ≠ ⟨.ofNat (o + lhs.tally + rhs.tally).nextTemp⟩ := by
        intro heq
        have := congrArg (fun t : Temp => t.number.toNat) heq
        simp only [UInt32.toNat_ofNat_of_lt' (show n < 2 ^ 32 by omega),
          UInt32.toNat_ofNat_of_lt' (show (o + lhs.tally + rhs.tally).nextTemp < 2 ^ 32 by omega)] at this
        omega
      simp only [State.setTemp, hne, if_false]
      rw [hkeep₂ n (by simp only [Tally.add_temps]; omega), hkeep₁ n hn]

theorem Assign.implements (a : Assign) {o : Tally}
    (hcode : HoldsAt (sketchAll program 0) o.instructions (a.sketch o)) (hsmall : (o + a.tally).temps < 2 ^ 32) :
    Implements I (quadruples program) o.instructions (o + a.tally).instructions (a.Runs I) := by
  obtain ⟨hvalue, hassign⟩ := holdsAt_assign.1 hcode
  refine .change fun store temps => ?_
  obtain ⟨temps', hreach, heval, -⟩ := a.value.reaches I hvalue hsmall store temps
  have hstep := step_eq I (s := ⟨_, store, temps'⟩) hassign
  simp only [Sketch.spell, Shape.assign, State.perform, heval] at hstep
  exact ⟨_, temps', hreach.trans (.one hstep)⟩

/-! ### Labels and jumps -/

theorem Sketch.spell_places_label {d : Sketch} {l : Label} :
    ((d.spell Quadruple).op = .label && (d.spell Quadruple).result = .label l) = true ↔
      ∃ n, d.mark? = some n ∧ l = ⟨.ofNat n⟩ := by
  cases d <;> simp [Sketch.spell, Sketch.mark?, Spelling.computation, Shape.assign, Shape.jumpIfFalse, Shape.jump,
    Shape.mark, Shape.ret, eq_comm]

private theorem Machine.implements_mark {i n : Nat} (hi : (sketchAll program 0)[i]? = some (.mark n)) :
    Implements I (quadruples program) i (i + 1) (.change id) :=
  .change fun store temps => ⟨1, temps, .one (step_eq I (s := ⟨i, store, temps⟩) hi)⟩

section Program

variable (h : WithinCounters program)
include h

/-- A label is found where it is placed. -/
theorem Machine.target?_mark {i n : Nat} (hi : (sketchAll program 0)[i]? = some (.mark n)) :
    target? (quadruples program) ⟨.ofNat n⟩ = some i := by
  obtain ⟨hlt, hget⟩ := List.getElem?_eq_some_iff.1 hi
  rw [target?, quadruples_eq, List.findIdx?_eq_some_iff_getElem]
  refine ⟨by simpa using hlt, ?_, ?_⟩
  · rw [List.getElem_map, Sketch.spell_places_label]
    exact ⟨n, by rw [hget]; rfl, rfl⟩
  · intro j hj hlabel
    rw [List.getElem_map, Sketch.spell_places_label] at hlabel
    obtain ⟨m, hm, hmn⟩ := hlabel
    have heq : j = i := mark_unique h (List.getElem?_eq_getElem (by omega)) hm hi rfl
      (congrArg Label.number hmn).symm
    omega

private theorem Machine.implements_jump {i j n : Nat} (hi : (sketchAll program 0)[i]? = some (.jump n))
    (hj : (sketchAll program 0)[j]? = some (.mark n)) :
    Implements I (quadruples program) i j (.change id) := by
  refine .change fun store temps => ⟨1, temps, .one ?_⟩
  rw [step_eq I (s := ⟨i, store, temps⟩) hi]
  simp only [Sketch.spell, Shape.jump, State.perform, State.jump, target?_mark h hj]
  rfl

/-- The code of a condition goes on behind its jump or at the label of the jump. -/
private theorem Expr.tests (cond : Expr) {o : Tally}
    (hcond : HoldsAt (sketchAll program 0) o.instructions (cond.sketch o))
    (hsmall : (o + cond.tally).temps < 2 ^ 32) {n i : Nat}
    (hjump : (sketchAll program 0)[(o + cond.tally).instructions]? = some (.jumpIfFalse (cond.argument o) n))
    (hmark : (sketchAll program 0)[i]? = some (.mark n)) :
    Tests I (quadruples program) o.instructions (cond.holds I) ((o + cond.tally).instructions + 1) i := by
  intro store temps
  obtain ⟨temps', hreach, hvalue, -⟩ := cond.reaches I hcond hsmall store temps
  have hstep := step_eq I (s := ⟨_, store, temps'⟩) hjump
  simp only [Sketch.spell, Shape.jumpIfFalse, State.perform, hvalue, State.jump, target?_mark h hmark] at hstep
  refine ⟨cond.tally.instructions + 1, temps', by omega, hreach.trans (.one ?_)⟩
  refine hstep.trans ?_
  rw [Expr.holds]
  split <;> rfl

/-! ### Statements -/

/-- The code of a loop implements the loop around whatever the code of its body implements. -/
private theorem implements_loop (cond : Expr) {o : Tally} {body : List Sketch} {bodyTally : Tally} {b : Behaviour V}
    (hlength : body.length = bodyTally.instructions)
    (hcode : HoldsAt (sketchAll program 0) o.instructions (loopSketch cond o body))
    (hsmall : (o + cond.tally).temps < 2 ^ 32)
    (hbody : Implements I (quadruples program) (o.inLoop cond).instructions
      (o.inLoop cond + bodyTally).instructions b) :
    Implements I (quadruples program) o.instructions (o.inLoop cond + bodyTally + ⟨2, 0, 0⟩).instructions
      (.Loop (cond.holds I) b) := by
  obtain ⟨hmark, hcond, hjump, -, hback, hdone⟩ := (holdsAt_loop hlength).1 hcode
  have henter : ∀ store temps, step I (quadruples program) ⟨o.instructions, store, temps⟩ =
      .go ⟨(o + ⟨1, 2, 0⟩).instructions, store, temps⟩ :=
    fun store temps => step_eq I (s := ⟨_, store, temps⟩) hmark
  have htest := Tests.of_step henter (cond.tests I h hcond (by simpa using hsmall) hjump hdone)
  have hround := hbody.seq_skip (implements_jump I h hback hmark)
  exact (Implements.loop htest hround).seq_skip (implements_mark I hdone)

/-- The code of a conditional implements the choice between what the code of its body implements and nothing. -/
private theorem implements_ifThen {cond : Expr} {body : List Stmt} {line : Nat} {o : Tally} {b : Behaviour V}
    (hcode : HoldsAt (sketchAll program 0) o.instructions ((Stmt.ifThen cond body line).sketch o))
    (hsmall : (o + cond.tally).temps < 2 ^ 32)
    (hbody : Implements I (quadruples program) (o + cond.tally + ⟨1, 1, 0⟩).instructions
      (o + cond.tally + ⟨1, 1, 0⟩ + tallyAll body).instructions b) :
    Implements I (quadruples program) o.instructions (o + (Stmt.ifThen cond body line).tally).instructions
      (.choose (cond.holds I) b (.change id)) := by
  obtain ⟨hcond, hjump, -, hmark⟩ := holdsAt_ifThen.1 hcode
  have hend : (o + cond.tally + ⟨1, 1, 0⟩ + tallyAll body).instructions =
      (o + cond.tally + tallyAll body + ⟨1, 1, 0⟩).instructions := by
    simp only [Tally.add_instructions]
    omega
  have hstop : (o + (Stmt.ifThen cond body line).tally).instructions =
      (o + cond.tally + tallyAll body + ⟨1, 1, 0⟩).instructions + 1 := by
    simp only [Stmt.tally, Tally.add_instructions]
    omega
  have htest := cond.tests I h hcond hsmall hjump hmark
  have hlast := implements_mark I hmark
  rw [hend] at hbody
  rw [hstop]
  exact .branch htest (hbody.seq_skip hlast) hlast

/-- The code of a conditional with an else branch implements the choice between what its two parts implement. -/
private theorem implements_ifElse {cond : Expr} {body other : List Stmt} {line : Nat} {o : Tally} {b c : Behaviour V}
    (hcode : HoldsAt (sketchAll program 0) o.instructions ((Stmt.ifElse cond body other line).sketch o))
    (hsmall : (o + cond.tally).temps < 2 ^ 32)
    (hbody : Implements I (quadruples program) (o + cond.tally + ⟨1, 2, 0⟩).instructions
      (o + cond.tally + ⟨1, 2, 0⟩ + tallyAll body).instructions b)
    (hother : Implements I (quadruples program) (o + cond.tally + tallyAll body + ⟨3, 2, 0⟩).instructions
      (o + cond.tally + tallyAll body + ⟨3, 2, 0⟩ + tallyAll other).instructions c) :
    Implements I (quadruples program) o.instructions (o + (Stmt.ifElse cond body other line).tally).instructions
      (.choose (cond.holds I) b c) := by
  obtain ⟨hcond, hjump, -, hskip, hmark, -, hdone⟩ := holdsAt_ifElse.1 hcode
  have hbodyEnd : (o + cond.tally + ⟨1, 2, 0⟩ + tallyAll body).instructions =
      (o + cond.tally + tallyAll body + ⟨1, 2, 0⟩).instructions := by
    simp only [Tally.add_instructions]
    omega
  have hotherEnd : (o + cond.tally + tallyAll body + ⟨3, 2, 0⟩ + tallyAll other).instructions =
      (o + cond.tally + tallyAll body + tallyAll other + ⟨3, 2, 0⟩).instructions := by
    simp only [Tally.add_instructions]
    omega
  have hstop : (o + (Stmt.ifElse cond body other line).tally).instructions =
      (o + cond.tally + tallyAll body + tallyAll other + ⟨3, 2, 0⟩).instructions + 1 := by
    simp only [Stmt.tally, Tally.add_instructions]
    omega
  have htest := cond.tests I h hcond hsmall hjump hmark
  have hlast := implements_mark I hdone
  rw [hbodyEnd] at hbody
  rw [hotherEnd] at hother
  rw [hstop]
  -- the body jumps over the other part, and the other part begins with the label of the jump
  have hskipped := hbody.seq_skip (implements_jump I h hskip hdone)
  have hentered := Implements.skip_seq (implements_mark I hmark) hother
  exact .branch htest (hskipped.seq_skip hlast) (hentered.seq_skip hlast)

/-- The code of a `for` statement implements its first assignment and then the loop around its body and its step. -/
private theorem implements_for {init step : Assign} {cond : Expr} {body : List Stmt} {line : Nat} {o : Tally}
    {b : Behaviour V}
    (hcode : HoldsAt (sketchAll program 0) o.instructions ((Stmt.for init cond step body line).sketch o))
    (hsmall : (o + (Stmt.for init cond step body line).tally).temps < 2 ^ 32)
    (hbody : Implements I (quadruples program) ((o + init.tally).inLoop cond).instructions
      ((o + init.tally).inLoop cond + tallyAll body).instructions b) :
    Implements I (quadruples program) o.instructions (o + (Stmt.for init cond step body line).tally).instructions
      (.Then (init.Runs I) (.Loop (cond.holds I) (b.Then (step.Runs I)))) := by
  obtain ⟨hinitCode, hloopCode, -, hstepCode⟩ := holdsAt_for hcode
  simp only [Stmt.tally, Tally.add_temps] at hsmall
  have hinit := init.implements I hinitCode (by simp only [Tally.add_temps]; omega)
  have hstep := step.implements I hstepCode (by simp only [Tally.inLoop, Tally.add_temps]; omega)
  have hround := hbody.seq hstep
  have hend : ((o + init.tally).inLoop cond + tallyAll body + step.tally).instructions =
      ((o + init.tally).inLoop cond + (tallyAll body + step.tally)).instructions := by
    simp only [Tally.add_instructions]
    omega
  have hstop : (o + (Stmt.for init cond step body line).tally).instructions =
      ((o + init.tally).inLoop cond + (tallyAll body + step.tally) + ⟨2, 0, 0⟩).instructions := by
    simp only [Stmt.tally, Tally.inLoop, Tally.add_instructions]
    omega
  rw [hend] at hround
  rw [hstop]
  exact hinit.seq (implements_loop I h cond (forRound_length ..) hloopCode (by simp only [Tally.add_temps]; omega)
    hround)

end Program

/-- The code of a return implements it, wherever the code around it goes on. -/
private theorem implements_ret (value : Option Expr) {line : Nat} {o : Tally} (stop : Nat)
    (hcode : HoldsAt (sketchAll program 0) o.instructions ((Stmt.ret value line).sketch o))
    (hsmall : (o + (Stmt.ret value line).tally).temps < 2 ^ 32) :
    Implements I (quadruples program) o.instructions stop ((Stmt.ret value line).Runs I) := by
  refine .ret stop fun store temps => ?_
  cases value with
  | none =>
    have hret : (sketchAll program 0)[o.instructions]? = some (.ret none) := (holdsAt_cons.1 hcode).1
    exact ⟨0, _, rfl, step_eq I (s := ⟨_, store, temps⟩) hret⟩
  | some value =>
    simp only [Stmt.tally, Tally.add_temps] at hsmall
    obtain ⟨hvalue, hlast⟩ := holdsAt_append.1 hcode
    rw [Expr.sketch_length] at hlast
    have hret := (holdsAt_cons.1 hlast).1
    obtain ⟨temps', hreach, heval, -⟩ := value.reaches I hvalue (by simp only [Tally.add_temps]; omega) store temps
    have hstep := step_eq I (s := ⟨_, store, temps'⟩) hret
    have hne : (value.argument o).operand Quadruple ≠ .empty := by
      intro hempty
      have := heval 0
      rw [hempty] at this
      cases this
    refine ⟨_, _, hreach, hstep.trans ?_⟩
    simp only [Sketch.spell, Shape.ret, State.perform, Option.map_some, Option.getD_some, hne, heval, if_false]

mutual

theorem Stmt.implements (h : WithinCounters program) (s : Stmt) {o : Tally}
    (hcode : HoldsAt (sketchAll program 0) o.instructions (s.sketch o)) (hsmall : (o + s.tally).temps < 2 ^ 32) :
    Implements I (quadruples program) o.instructions (o + s.tally).instructions (s.Runs I) := by
  match s with
  | .assign a => exact a.implements I hcode hsmall
  | .ifThen cond body line =>
    simp only [Stmt.tally, Tally.add_temps] at hsmall
    obtain ⟨-, -, hbody, -⟩ := holdsAt_ifThen.1 hcode
    have hyes := implementsAll h body hbody (by simp only [Tally.add_temps]; omega)
    exact implements_ifThen I h hcode (by simp only [Tally.add_temps]; omega) hyes
  | .ifElse cond body other line =>
    simp only [Stmt.tally, Tally.add_temps] at hsmall
    obtain ⟨-, -, hbody, -, -, hother, -⟩ := holdsAt_ifElse.1 hcode
    have hyes := implementsAll h body hbody (by simp only [Tally.add_temps]; omega)
    have hno := implementsAll h other hother (by simp only [Tally.add_temps]; omega)
    exact implements_ifElse I h hcode (by simp only [Tally.add_temps]; omega) hyes hno
  | .while cond body line =>
    simp only [Stmt.tally, Tally.add_temps] at hsmall
    have hlength := sketchAll_length body (o.inLoop cond)
    obtain ⟨-, -, -, hbody, -⟩ := (holdsAt_loop hlength).1 hcode
    have hround := implementsAll h body hbody (by simp only [Tally.inLoop, Tally.add_temps]; omega)
    have hloop := implements_loop I h cond hlength hcode (by simp only [Tally.add_temps]; omega) hround
    have hstop : (o + (Stmt.while cond body line).tally).instructions =
        (o.inLoop cond + tallyAll body + ⟨2, 0, 0⟩).instructions := by
      simp only [Stmt.tally, Tally.inLoop, Tally.add_instructions]
      omega
    rw [hstop]
    exact hloop
  | .for init cond step body line =>
    obtain ⟨-, -, hbody, -⟩ := holdsAt_for hcode
    have hruns := implementsAll h body hbody (by
      simp only [Stmt.tally, Tally.inLoop, Tally.add_temps] at hsmall ⊢
      omega)
    exact implements_for I h hcode hsmall hruns
  | .ret value line => exact implements_ret I value _ hcode hsmall

private theorem implementsAll (h : WithinCounters program) (body : List Stmt) {o : Tally}
    (hcode : HoldsAt (sketchAll program 0) o.instructions (sketchAll body o))
    (hsmall : (o + tallyAll body).temps < 2 ^ 32) :
    Implements I (quadruples program) o.instructions (o + tallyAll body).instructions (RunsAll I body) := by
  match body with
  | [] => exact .change fun store temps => ⟨0, temps, rfl⟩
  | s :: rest =>
    simp only [tallyAll, Tally.add_temps] at hsmall
    obtain ⟨hs, hrest⟩ := holdsAt_append.1 hcode
    rw [Stmt.sketch_length] at hrest
    have hfirst := s.implements h hs (by simp only [Tally.add_temps]; omega)
    have hsecond := implementsAll h rest (o := o + s.tally) hrest (by simp only [Tally.add_temps]; omega)
    have hstop : (o + tallyAll (s :: rest)).instructions = (o + s.tally + tallyAll rest).instructions := by
      simp only [tallyAll, Tally.add_instructions]
      omega
    rw [hstop]
    exact hfirst.seq hsecond

end

/-! ### Programs -/

/-- The machine stops as soon as it is behind the last instruction. -/
theorem Machine.step_end (store : Store V) (temps : Temp → Option V) :
    step I (quadruples program) ⟨(tallyAll program).instructions, store, temps⟩ =
      .halt (.normal .finished store) := by
  have hlength : (quadruples program).length = (tallyAll program).instructions := by
    rw [quadruples_eq, List.length_map, sketchAll_length]
  have hnone : (quadruples program)[(tallyAll program).instructions]? = none :=
    List.getElem?_eq_none (Nat.le_of_eq hlength)
  simp only [step, hnone]

/-- The code of a program stops as its structured execution does, and it is never stuck. -/
theorem stops_iff_runsAll (h : WithinCounters program) (store : Store V) (halt : Halt V) :
    Stops I (quadruples program) store halt ↔
      ∃ ending after, halt = .normal ending after ∧ RunsAll I program store ending after := by
  have hcode := implementsAll I h program (o := 0) (holdsAt_self _)
    (by have := h.temps; simp only [Tally.add_temps, Tally.zero_temps]; omega)
  have hstop : (0 + tallyAll program).instructions = (tallyAll program).instructions := by
    simp only [Tally.add_instructions, Tally.zero_instructions]
    omega
  rw [hstop] at hcode
  constructor
  · rintro ⟨n, hrun⟩
    rcases hcode.stops hrun with ⟨value, after, hruns, rfl⟩ | ⟨m, after, temps, -, hruns, hm⟩
    · exact ⟨_, after, rfl, hruns⟩
    · cases m with
      | zero => cases hm
      | succ m =>
        simp only [run, step_end] at hm
        exact ⟨_, after, (Option.some.inj hm).symm, hruns⟩
  · rintro ⟨ending, after, rfl, hruns⟩
    have hleads := hcode.leads (fun _ => none) hruns
    cases ending with
    | finished =>
      obtain ⟨k, temps, hreach⟩ := hleads
      exact ⟨1 + k, hreach.run_eq_some_iff.2 ⟨1, rfl, by simp only [run, step_end]⟩⟩
    | returned value => exact hleads

/-- Numbers, with `<` and addition, and one for every variable without a value. -/
def counting : Interpretation Nat where
  leaf text store := (store text).getD 1
  apply op lhs rhs := if op = "<" then (if lhs < rhs then 1 else 0) else lhs + rhs
  isTrue value := value ≠ 0

/-- The program `while (i < n) { if (i < one) { i = i + one; } else { return i + i; } }`, started with `i = 0` and
`n = 2`, leaves the loop by the return in its second round. -/
theorem stops_iff_runsAll_return :
    let i := Expr.leaf (.ident "i")
    let one := Expr.leaf (.ident "one")
    let program : Program := [.while (.binary "<" i (.leaf (.ident "n"))) [.ifElse (.binary "<" i one)
      [.assign ⟨"i", .binary "+" i one, 1⟩] [.ret (some (.binary "+" i i)) 1] 1] 1]
    let store : Store Nat := Store.set (Store.set (fun _ => none) "i" 0) "n" 2
    WithinCounters program ∧
      Stops counting (quadruples program) store (.normal (.returned (some 2)) (store.set "i" 1)) := by
  intro i one program store
  have h : WithinCounters program := ⟨by decide, by decide⟩
  have hfirst : (Expr.binary "<" i one).holds counting store = true := by decide
  have hsecond : (Expr.binary "<" i one).holds counting (store.set "i" 1) = false := by decide
  have hround : (Stmt.ifElse (.binary "<" i one) [.assign ⟨"i", .binary "+" i one, 1⟩]
      [.ret (some (.binary "+" i i)) 1] 1).Runs counting store .finished (store.set "i" 1) := by
    simp only [Stmt.Runs, Behaviour.choose, hfirst, if_true]
    exact .next ⟨rfl, rfl⟩ ⟨rfl, rfl⟩
  have hruns : RunsAll counting program store (.returned (some 2)) (store.set "i" 1) := by
    refine .ret (.again (by decide) (.next hround ⟨rfl, rfl⟩) (.ret (by decide) (.ret ?_)))
    simp only [Stmt.Runs, Behaviour.choose, id, hsecond, Bool.false_eq_true, if_false]
    exact .ret ⟨rfl, rfl⟩
  exact ⟨h, (stops_iff_runsAll counting h store _).2 ⟨_, _, rfl, hruns⟩⟩

end ThreeAddress
