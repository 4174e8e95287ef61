import ThreeAddress.Proofs.Code.Labels
import ThreeAddress.Proofs.Code.Simulation
import ThreeAddress.Proofs.Code.Values

/-!
# The machine is never stuck

The machine carries out every instruction of the quadruples of a program, whatever the number of its labels and
temporaries: a jump finds a place to go to, and a temporary has a value when it is read (`Ready.not_stuck`).

* `Ready`: what the machine needs to go on, by the instruction that it stands at;
* `ready_of_mark`: a jump needs nothing, since no value is kept across the place of a label;
* `Ready.step`: one step, by the kinds of instructions.
-/

namespace ThreeAddress.Machine

universe u

variable {V : Type u} {program : Program} {s : State V}

/-- All values that are computed before the current instruction and read from there on are in their temporaries. -/
structure Ready (program : Program) (s : State V) : Prop where
  filled : ∀ {i j temp : Nat} {d c : Sketch}, (sketchAll program 0)[i]? = some d → d.temp? = some temp → i < s.pc →
    (sketchAll program 0)[j]? = some c → temp ∈ c.reads.map Prod.snd → s.pc ≤ j → (s.temps ⟨.ofNat temp⟩).isSome

theorem ready_start (program : Program) (store : Store V) : Ready program (.start store) := by
  constructor
  intro i j temp d c _ _ hlt
  cases hlt

/-- An instruction can read its arguments. -/
private theorem Ready.exists_value (I : Interpretation V) (h : Ready program s) {c : Sketch}
    (hc : (sketchAll program 0)[s.pc]? = some c) {a : Argument} (ha : a ∈ c.arguments) :
    ∃ v, s.value? I (a.operand Quadruple) = some v := by
  cases a with
  | text word => exact ⟨_, rfl⟩
  | computed index temp =>
    have hread : (index, temp) ∈ c.reads := List.mem_filterMap.2 ⟨_, ha, rfl⟩
    have htemp : temp ∈ c.reads.map Prod.snd := List.mem_map_of_mem hread
    obtain ⟨op, lhs, rhs, hindex⟩ := computedIn_of_mem_reads (List.mem_of_getElem? hc) hread
    obtain ⟨j, d, hlt, hj, hd, -⟩ := exists_read_behind hindex rfl
    -- the value is read only here, so it is computed before
    obtain rfl : j = s.pc := read_unique hj hd hc htemp
    exact Option.isSome_iff_exists.1 (h.filled hindex rfl hlt hc htemp (Nat.le_refl _))

/-- The next instruction needs the value of the current one and what was needed here. -/
theorem Ready.next (h : Ready program s) {t : State V} (hpc : t.pc = s.pc + 1)
    (hkeep : ∀ x, (s.temps x).isSome → (t.temps x).isSome)
    (hnew : ∀ {d temp}, (sketchAll program 0)[s.pc]? = some d → d.temp? = some temp →
      (t.temps ⟨.ofNat temp⟩).isSome) : Ready program t := by
  constructor
  intro i j temp d c hi hd hlt hj hc hle
  rw [hpc] at hlt hle
  rcases Nat.lt_succ_iff_lt_or_eq.1 hlt with hlt | rfl
  · exact hkeep _ (h.filled hi hd hlt hj hc (by omega))
  · exact hnew hi hd

theorem Ready.skip (h : Ready program s) {d : Sketch} (hd : (sketchAll program 0)[s.pc]? = some d)
    (htemp : d.temp? = none) (store : Store V) : Ready program ⟨s.pc + 1, store, s.temps⟩ := by
  refine h.next rfl (fun _ hx => hx) fun hd' htemp' => ?_
  rw [hd, Option.some.injEq] at hd'
  rw [← hd', htemp] at htemp'
  cases htemp'

/-- At the place of a label no value is needed. -/
theorem ready_of_mark {n : Nat} (hmark : (sketchAll program 0)[s.pc]? = some (.mark n)) : Ready program s := by
  constructor
  intro i j temp d c hi hd hlt hj hc hle
  obtain ⟨k, e, -, hk, he, hbetween⟩ := exists_read_behind hi hd
  obtain rfl : k = j := read_unique hk he hj hc
  rcases Nat.lt_or_eq_of_le hle with hlt' | rfl
  · cases hbetween s.pc _ hlt hlt' hmark
  · rw [hmark, Option.some.injEq] at hj
    subst hj
    cases hc

/-- The label of a jump is placed. -/
private theorem exists_target {i n : Nat} {d : Sketch}
    (hi : (sketchAll program 0)[i]? = some d) (hd : d.target? = some n) :
    ∃ j m, target? (quadruples program) ⟨.ofNat n⟩ = some j ∧ (sketchAll program 0)[j]? = some (.mark m) := by
  obtain ⟨k, hk⟩ := exists_mark_iff.2 (exists_target_iff.1 ⟨i, d, hi, hd⟩)
  cases hfind : target? (quadruples program) ⟨.ofNat n⟩ with
  | none =>
    rw [target?, List.findIdx?_eq_none_iff] at hfind
    have hplace := hfind ((Sketch.mark n).spell Quadruple)
      (by rw [quadruples_eq]; exact List.mem_map_of_mem (List.mem_of_getElem? hk))
    rw [Sketch.spell_places_label.2 ⟨n, rfl, rfl⟩] at hplace
    cases hplace
  | some j =>
    rw [target?, quadruples_eq, List.findIdx?_eq_some_iff_getElem] at hfind
    obtain ⟨hlt, hplace, -⟩ := hfind
    rw [List.getElem_map, Sketch.spell_places_label] at hplace
    obtain ⟨m, hm, -⟩ := hplace
    rw [List.length_map] at hlt
    refine ⟨j, m, rfl, List.getElem?_eq_some_iff.2 ⟨hlt, ?_⟩⟩
    cases hget : (sketchAll program 0)[j] with
    | mark k =>
      rw [hget] at hm
      cases hm
      rfl
    | _ =>
      rw [hget] at hm
      cases hm

private theorem ready_jump {d : Sketch}
    (hd : (sketchAll program 0)[s.pc]? = some d) {n : Nat} (hn : d.target? = some n) :
    ∃ t, s.jump (quadruples program) ⟨.ofNat n⟩ = .go t ∧ Ready program t := by
  obtain ⟨j, m, htarget, hj⟩ := exists_target hd hn
  exact ⟨⟨j, s.store, s.temps⟩, by rw [State.jump, htarget], ready_of_mark hj⟩

/-- The machine stops at a return or behind the last instruction, or it goes on and is ready again. -/
theorem Ready.step (I : Interpretation V) (h : Ready program s) :
    (∃ ending store, step I (quadruples program) s = .halt (.normal ending store)) ∨
      ∃ t, step I (quadruples program) s = .go t ∧ Ready program t := by
  cases hd : (sketchAll program 0)[s.pc]? with
  | none =>
    left
    exact ⟨.finished, s.store, by simp [Machine.step, quadruples_eq, hd]⟩
  | some d =>
    rw [step_eq I hd]
    cases d with
    | compute op lhs rhs temp =>
      obtain ⟨v, hv⟩ := h.exists_value I hd (a := lhs) (by simp [Sketch.arguments])
      obtain ⟨w, hw⟩ := h.exists_value I hd (a := rhs) (by simp [Sketch.arguments])
      right
      refine ⟨s.setTemp ⟨.ofNat temp⟩ (I.apply op v w), ?_, ?_⟩
      · simp only [Sketch.spell, Spelling.computation, State.perform, hv, hw]
      · refine h.next rfl ?_ ?_
        · intro x hx
          simp only [State.setTemp]
          split
          · rfl
          · exact hx
        · intro d temp' hd' htemp
          rw [hd, Option.some.injEq] at hd'
          subst hd'
          cases htemp
          simp [State.setTemp]
    | assign target value =>
      obtain ⟨v, hv⟩ := h.exists_value I hd (a := value) (by simp [Sketch.arguments])
      right
      exact ⟨s.setName target v, by simp only [Sketch.spell, Shape.assign, State.perform, hv], h.skip hd rfl _⟩
    | jumpIfFalse cond n =>
      obtain ⟨v, hv⟩ := h.exists_value I hd (a := cond) (by simp [Sketch.arguments])
      right
      simp only [Sketch.spell, Shape.jumpIfFalse, State.perform, hv]
      split
      · exact ⟨s.next, rfl, h.skip hd rfl _⟩
      · exact ready_jump hd rfl
    | jump n =>
      right
      exact ready_jump hd rfl
    | mark n =>
      right
      exact ⟨s.next, rfl, h.skip hd rfl _⟩
    | ret value =>
      left
      cases value with
      | none => exact ⟨_, _, rfl⟩
      | some value =>
        obtain ⟨v, hv⟩ := h.exists_value I hd (a := value) (by simp [Sketch.arguments])
        have hsome : value.operand Quadruple ≠ .empty := by cases value <;> simp [Argument.operand, Spelling.value]
        refine ⟨.returned (some v), s.store, ?_⟩
        simp [Sketch.spell, Shape.ret, State.perform, hsome, hv]

theorem Ready.not_stuck (I : Interpretation V) (h : Ready program s) :
    Machine.step I (quadruples program) s ≠ .halt .stuck := by
  rcases h.step I with ⟨ending, store, hstep⟩ | ⟨t, hstep, -⟩
  · simp [hstep]
  · simp [hstep]

end ThreeAddress.Machine
