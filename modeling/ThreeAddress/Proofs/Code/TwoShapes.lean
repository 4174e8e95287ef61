import Mathlib.Logic.ExistsUnique
import ThreeAddress.Proofs.Code.Layout

/-!
# Triples and quadruples of a program

The two shapes are two spellings of the same code: the triple at an index is the quadruple at that index with its
fields rearranged and each temporary replaced by a reference to the one instruction that computes it
(`triples_eq_map_toTriple`).
-/

namespace ThreeAddress

/-- An operand of the code in which values are referred to by index. -/
def Operand.refer (code : List Quadruple) : Operand → Operand
  | .temp t => .ref (code.findIdx (·.result = .temp t))
  | other => other

/-- The instruction of the code as a triple. -/
def Quadruple.toTriple (code : List Quadruple) (q : Quadruple) : Triple :=
  match q.op with
  | .binary op => ⟨.binary op, q.arg1.refer code, q.arg2.refer code⟩
  | .assign => ⟨.assign, q.result, q.arg1.refer code⟩
  | .ifFalse => ⟨.ifFalse, q.arg1.refer code, q.result⟩
  | .goto => ⟨.goto, q.result, .empty⟩
  | .label => ⟨.label, q.result, .empty⟩
  | .ret => ⟨.ret, q.arg1.refer code, .empty⟩

theorem Sketch.spell_result_eq_temp {d : Sketch} {t : Temp} :
    (d.spell Quadruple).result = .temp t ↔ ∃ n, d.temp? = some n ∧ t = ⟨.ofNat n⟩ := by
  cases d <;> simp [Sketch.spell, Sketch.temp?, Spelling.computation, Shape.assign, Shape.jumpIfFalse, Shape.jump,
    Shape.mark, Shape.ret, eq_comm]

/-- A temporary that an instruction reads is that of one of its arguments. -/
private theorem Sketch.exists_argument {d : Sketch} {t : Temp}
    (h : (d.spell Quadruple).arg1 = .temp t ∨ (d.spell Quadruple).arg2 = .temp t) :
    ∃ a ∈ d.arguments, a.operand Quadruple = .temp t := by
  cases d with
  | compute op lhs rhs temp => simpa [Sketch.arguments, Sketch.spell, Spelling.computation] using h
  | assign target value => simpa [Sketch.arguments, Sketch.spell, Shape.assign] using h
  | jumpIfFalse cond label => simpa [Sketch.arguments, Sketch.spell, Shape.jumpIfFalse] using h
  | jump label => simp [Sketch.spell, Shape.jump] at h
  | mark label => simp [Sketch.spell, Shape.mark] at h
  | ret value => cases value <;> simp_all [Sketch.arguments, Sketch.spell, Shape.ret]

section Lookup

variable {program : Program}

/-- The one quadruple with the temporary of a computed value is the one at the index of the value. -/
private theorem result_eq_temp_iff (h : WithinCounters program) {index temp : Nat}
    (ha : (Argument.computed index temp).ComputedIn (sketchAll program 0)) (j : Nat) :
    (∃ q, (quadruples program)[j]? = some q ∧ q.result = .temp ⟨.ofNat temp⟩) ↔ j = index := by
  obtain ⟨op, lhs, rhs, hindex⟩ := ha
  simp only [quadruples_eq, List.getElem?_map, Option.map_eq_some_iff]
  constructor
  · rintro ⟨q, ⟨d, hj, rfl⟩, hq⟩
    obtain ⟨n, hn, htemp⟩ := Sketch.spell_result_eq_temp.1 hq
    exact temp_unique h hj hn hindex rfl (congrArg Temp.number htemp).symm
  · rintro rfl
    exact ⟨_, ⟨_, hindex, rfl⟩, Sketch.spell_result_eq_temp.2 ⟨temp, rfl, rfl⟩⟩

private theorem Argument.refer_operand (h : WithinCounters program) {a : Argument}
    (ha : a.ComputedIn (sketchAll program 0)) :
    (a.operand Quadruple).refer (quadruples program) = a.operand Triple := by
  cases a with
  | text word => rfl
  | computed index temp =>
    have hiff := result_eq_temp_iff h ha
    obtain ⟨q, hq, hresult⟩ := (hiff index).2 rfl
    obtain ⟨hlt, rfl⟩ := List.getElem?_eq_some_iff.1 hq
    have hfind : (quadruples program).findIdx (·.result = .temp ⟨.ofNat temp⟩) = index := by
      rw [List.findIdx_eq hlt]
      refine ⟨by simpa using hresult, fun j hj => ?_⟩
      rw [decide_eq_false_iff_not]
      intro heq
      have hj' := (hiff j).1 ⟨_, List.getElem?_eq_getElem (by omega), heq⟩
      omega
    exact congrArg Operand.ref hfind

end Lookup

/-- An instruction that reads computed values is spelled in both shapes alike. -/
private theorem Sketch.toTriple_spell {program : Program} (h : WithinCounters program) {d : Sketch}
    (hd : ∀ a ∈ d.arguments, a.ComputedIn (sketchAll program 0)) :
    (d.spell Quadruple).toTriple (quadruples program) = d.spell Triple := by
  have hrefer : ∀ a ∈ d.arguments, (a.operand Quadruple).refer (quadruples program) = a.operand Triple :=
    fun a ha => a.refer_operand h (hd a ha)
  cases d with
  | compute op lhs rhs temp =>
    have hl := hrefer lhs (by simp [Sketch.arguments])
    have hr := hrefer rhs (by simp [Sketch.arguments])
    simp [Sketch.spell, Spelling.computation, Quadruple.toTriple, hl, hr]
  | assign target value =>
    have hvalue := hrefer value (by simp [Sketch.arguments])
    simp [Sketch.spell, Shape.assign, Quadruple.toTriple, hvalue]
  | jumpIfFalse cond label =>
    have hcond := hrefer cond (by simp [Sketch.arguments])
    simp [Sketch.spell, Shape.jumpIfFalse, Quadruple.toTriple, hcond]
  | jump label => rfl
  | mark label => rfl
  | ret value =>
    cases value with
    | none => rfl
    | some value =>
      have hvalue := hrefer value (by simp [Sketch.arguments])
      simp [Sketch.spell, Shape.ret, Quadruple.toTriple, hvalue]

/-- The triples of a program are its quadruples, translated one by one, and each temporary that a quadruple reads is
the result of exactly one quadruple. -/
theorem triples_eq_map_toTriple {program : Program} (h : WithinCounters program) :
    triples program = (quadruples program).map (Quadruple.toTriple (quadruples program)) ∧
      ∀ q ∈ quadruples program, ∀ t, q.arg1 = .temp t ∨ q.arg2 = .temp t →
        ∃! i : Nat, ∃ q', (quadruples program)[i]? = some q' ∧ q'.result = .temp t := by
  have hreads : ReadsFrom (sketchAll program 0) (sketchAll program 0) := sketchAll_reads program (holdsAt_self _)
  constructor
  · rw [triples_eq]
    conv => rhs; arg 2; rw [quadruples_eq]
    rw [List.map_map]
    refine List.map_congr_left fun d hd => ?_
    exact (d.toTriple_spell h (hreads d hd)).symm
  · intro q hq t ht
    rw [quadruples_eq, List.mem_map] at hq
    obtain ⟨d, hd, rfl⟩ := hq
    obtain ⟨a, ha, hat⟩ := Sketch.exists_argument ht
    cases a with
    | text word => cases hat
    | computed index temp =>
      cases hat
      have hiff := result_eq_temp_iff h (hreads d hd _ ha)
      exact ⟨index, (hiff index).2 rfl, fun j hj => (hiff j).1 hj⟩

/-- The loop `while (a < b) { a = a + (b * a); }`, whose temporaries are numbered differently from the indices at
which they are computed. -/
theorem triples_eq_map_toTriple_loop :
    let a := Expr.leaf (.ident "a")
    let b := Expr.leaf (.ident "b")
    let program : Program :=
      [.while (.binary "<" a b) [.assign ⟨"a", .binary "+" a (.binary "*" b a), 2⟩] 1]
    WithinCounters program ∧
      triples program = (quadruples program).map (Quadruple.toTriple (quadruples program)) :=
  ⟨⟨by decide, by decide⟩, (triples_eq_map_toTriple ⟨by decide, by decide⟩).1⟩

end ThreeAddress
