import ThreeAddress.Proofs.Code.Sketch

/-!
# Where sketches stand

The sketches of a program are numbered in three ways, and each number is used once.

* `sketchAll_length`: a statement takes as many instructions as it is tallied with, so the index of an instruction is
  the tally before it;
* `sketchAll_temps`: the temporaries are numbered in the order of their operations;
* `sketchAll_marks`: each label is placed exactly once, though not in the order of the numbers;
* `sketchAll_reads`: a computed value is read only under the index and the temporary at which it was computed.
-/

namespace ThreeAddress

/-! ### Parts of a code -/

/-- The code holds a part from the given index on. -/
def HoldsAt (code : List Sketch) (index : Nat) (part : List Sketch) : Prop :=
  ∀ k < part.length, code[index + k]? = part[k]?

theorem holdsAt_self (code : List Sketch) : HoldsAt code 0 code := by
  intro k _
  rw [Nat.zero_add]

@[simp] theorem holdsAt_nil (code : List Sketch) (index : Nat) : HoldsAt code index [] := by
  intro k hk
  simp at hk

@[simp] theorem holdsAt_append {code a b : List Sketch} {index : Nat} :
    HoldsAt code index (a ++ b) ↔ HoldsAt code index a ∧ HoldsAt code (index + a.length) b := by
  constructor
  · intro h
    refine ⟨fun k hk => ?_, fun k hk => ?_⟩
    · rw [h k (by rw [List.length_append]; omega), List.getElem?_append_left hk]
    · have := h (a.length + k) (by rw [List.length_append]; omega)
      rwa [List.getElem?_append_right (by omega), Nat.add_sub_cancel_left, ← Nat.add_assoc] at this
  · rintro ⟨ha, hb⟩ k hk
    rw [List.length_append] at hk
    by_cases hka : k < a.length
    · rw [ha k hka, List.getElem?_append_left hka]
    · have := hb (k - a.length) (by omega)
      rwa [List.getElem?_append_right (by omega), show index + k = index + a.length + (k - a.length) by omega]

@[simp] theorem holdsAt_cons {code part : List Sketch} {d : Sketch} {index : Nat} :
    HoldsAt code index (d :: part) ↔ code[index]? = some d ∧ HoldsAt code (index + 1) part := by
  have hsingle : HoldsAt code index [d] ↔ code[index]? = some d := by
    constructor
    · intro h
      simpa using h 0 (by simp)
    · intro h k hk
      obtain rfl : k = 0 := by simpa using hk
      simpa using h
  rw [← List.singleton_append, holdsAt_append, hsingle, List.length_singleton]

/-! ### The number of instructions -/

@[simp] theorem Expr.sketch_length (e : Expr) (o : Tally) : (e.sketch o).length = e.tally.instructions := by
  induction e generalizing o with
  | leaf l => rfl
  | binary op lhs rhs ihl ihr => simp [Expr.sketch, Expr.tally, ihl, ihr]; omega

@[simp] theorem Assign.sketch_length (a : Assign) (o : Tally) : (a.sketch o).length = a.tally.instructions := by
  simp [Assign.sketch, Assign.tally]

mutual

@[simp] theorem Stmt.sketch_length (s : Stmt) (o : Tally) : (s.sketch o).length = s.tally.instructions := by
  match s with
  | .assign a => exact a.sketch_length o
  | .ifThen cond body _ => simp [Stmt.sketch, Stmt.tally, sketchAll_length body]; omega
  | .ifElse cond body other _ =>
    simp [Stmt.sketch, Stmt.tally, sketchAll_length body, sketchAll_length other]; omega
  | .while cond body _ => simp [Stmt.sketch, Stmt.tally, loopSketch, sketchAll_length body]; omega
  | .for init cond step body _ => simp [Stmt.sketch, Stmt.tally, loopSketch, sketchAll_length body]; omega
  | .ret none _ => rfl
  | .ret (some value) _ => simp [Stmt.sketch, Stmt.tally]

@[simp] theorem sketchAll_length (program : List Stmt) (o : Tally) :
    (sketchAll program o).length = (tallyAll program).instructions := by
  match program with
  | [] => rfl
  | s :: rest => simp [sketchAll, tallyAll, Stmt.sketch_length s, sketchAll_length rest]

end

/-! ### The parts of a statement -/

section Parts

variable {code : List Sketch} {o : Tally}

theorem holdsAt_binary {op : String} {lhs rhs : Expr} :
    HoldsAt code o.instructions ((Expr.binary op lhs rhs).sketch o) ↔
      HoldsAt code o.instructions (lhs.sketch o) ∧
      HoldsAt code (o + lhs.tally).instructions (rhs.sketch (o + lhs.tally)) ∧
      code[(o + lhs.tally + rhs.tally).instructions]? = some (.compute op (lhs.argument o)
        (rhs.argument (o + lhs.tally)) (o + lhs.tally + rhs.tally).nextTemp) := by
  simp [Expr.sketch]

theorem holdsAt_assign {a : Assign} :
    HoldsAt code o.instructions (a.sketch o) ↔ HoldsAt code o.instructions (a.value.sketch o) ∧
      code[(o + a.value.tally).instructions]? = some (.assign a.target (a.value.argument o)) := by
  simp [Assign.sketch]

theorem holdsAt_ifThen {cond : Expr} {body : List Stmt} {line : Nat} :
    HoldsAt code o.instructions ((Stmt.ifThen cond body line).sketch o) ↔
      HoldsAt code o.instructions (cond.sketch o) ∧
      code[(o + cond.tally).instructions]? = some (.jumpIfFalse (cond.argument o) o.nextLabel) ∧
      HoldsAt code (o + cond.tally + ⟨1, 1, 0⟩).instructions (sketchAll body (o + cond.tally + ⟨1, 1, 0⟩)) ∧
      code[(o + cond.tally + tallyAll body + ⟨1, 1, 0⟩).instructions]? = some (.mark o.nextLabel) := by
  simp [Stmt.sketch, Nat.add_right_comm _ 1 (tallyAll body).instructions]

theorem holdsAt_ifElse {cond : Expr} {body other : List Stmt} {line : Nat} :
    HoldsAt code o.instructions ((Stmt.ifElse cond body other line).sketch o) ↔
      HoldsAt code o.instructions (cond.sketch o) ∧
      code[(o + cond.tally).instructions]? = some (.jumpIfFalse (cond.argument o) o.nextLabel) ∧
      HoldsAt code (o + cond.tally + ⟨1, 2, 0⟩).instructions (sketchAll body (o + cond.tally + ⟨1, 2, 0⟩)) ∧
      code[(o + cond.tally + tallyAll body + ⟨1, 2, 0⟩).instructions]? = some (.jump (o.nextLabel + 1)) ∧
      code[(o + cond.tally + tallyAll body + ⟨2, 2, 0⟩).instructions]? = some (.mark o.nextLabel) ∧
      HoldsAt code (o + cond.tally + tallyAll body + ⟨3, 2, 0⟩).instructions
        (sketchAll other (o + cond.tally + tallyAll body + ⟨3, 2, 0⟩)) ∧
      code[(o + cond.tally + tallyAll body + tallyAll other + ⟨3, 2, 0⟩).instructions]? =
        some (.mark (o.nextLabel + 1)) := by
  simp [Stmt.sketch, Nat.add_right_comm _ 1 (tallyAll body).instructions,
    Nat.add_right_comm _ 3 (tallyAll other).instructions]

theorem holdsAt_loop {cond : Expr} {body : List Sketch} {bodyTally : Tally}
    (hlength : body.length = bodyTally.instructions) :
    HoldsAt code o.instructions (loopSketch cond o body) ↔
      code[o.instructions]? = some (.mark o.nextLabel) ∧
      HoldsAt code (o + ⟨1, 2, 0⟩).instructions (cond.sketch (o + ⟨1, 2, 0⟩)) ∧
      code[(o + ⟨1, 2, 0⟩ + cond.tally).instructions]? =
        some (.jumpIfFalse (cond.argument (o + ⟨1, 2, 0⟩)) (o.nextLabel + 1)) ∧
      HoldsAt code (o.inLoop cond).instructions body ∧
      code[(o.inLoop cond + bodyTally).instructions]? = some (.jump o.nextLabel) ∧
      code[(o.inLoop cond + bodyTally + ⟨1, 0, 0⟩).instructions]? = some (.mark (o.nextLabel + 1)) := by
  simp [loopSketch, Tally.inLoop, hlength]

/-- The code of one round of a `for` loop that begins behind `o`. -/
def forRound (cond : Expr) (o : Tally) (body : List Stmt) (step : Assign) : List Sketch :=
  sketchAll body (o.inLoop cond) ++ step.sketch (o.inLoop cond + tallyAll body)

theorem forRound_length (cond : Expr) (o : Tally) (body : List Stmt) (step : Assign) :
    (forRound cond o body step).length = (tallyAll body + step.tally).instructions := by
  simp [forRound]

theorem holdsAt_for {init step : Assign} {cond : Expr} {body : List Stmt} {line : Nat}
    (h : HoldsAt code o.instructions ((Stmt.for init cond step body line).sketch o)) :
    HoldsAt code o.instructions (init.sketch o) ∧
      HoldsAt code (o + init.tally).instructions
        (loopSketch cond (o + init.tally) (forRound cond (o + init.tally) body step)) ∧
      HoldsAt code ((o + init.tally).inLoop cond).instructions (sketchAll body ((o + init.tally).inLoop cond)) ∧
      HoldsAt code ((o + init.tally).inLoop cond + tallyAll body).instructions
        (step.sketch ((o + init.tally).inLoop cond + tallyAll body)) := by
  obtain ⟨hinit, hloop⟩ := holdsAt_append.1 h
  rw [Assign.sketch_length] at hloop
  obtain ⟨-, -, -, hround, -⟩ := (holdsAt_loop (forRound_length cond (o + init.tally) body step)).1 hloop
  obtain ⟨hbody, hstep⟩ := holdsAt_append.1 hround
  rw [sketchAll_length] at hstep
  exact ⟨hinit, hloop, hbody, hstep⟩

end Parts

/-- A number that is used once tells the index of the instruction that uses it. -/
theorem index_unique {f : Sketch → Option Nat} {code : List Sketch} (hnodup : (code.filterMap f).Nodup)
    {i j n : Nat} {d d' : Sketch} (hi : code[i]? = some d) (hd : f d = some n) (hj : code[j]? = some d')
    (hd' : f d' = some n) : i = j := by
  induction code generalizing i j with
  | nil => simp at hi
  | cons e code ih =>
    have hlater : ∀ {k : Nat} {d : Sketch}, code[k]? = some d → f d = some n → f e ≠ some n := by
      intro k d hk hd he
      rw [List.filterMap_cons_some he, List.nodup_cons] at hnodup
      exact hnodup.1 (List.mem_filterMap.2 ⟨d, List.mem_of_getElem? hk, hd⟩)
    have htail : (code.filterMap f).Nodup := hnodup.sublist ((List.sublist_cons_self e code).filterMap f)
    cases i with
    | zero =>
      obtain rfl : e = d := by simpa using hi
      cases j with
      | zero => rfl
      | succ j => exact absurd hd (hlater (by simpa using hj) hd')
    | succ i =>
      cases j with
      | zero =>
        obtain rfl : e = d' := by simpa using hj
        exact absurd hd' (hlater (by simpa using hi) hd)
      | succ j => exact congrArg (· + 1) (ih htail (by simpa using hi) (by simpa using hj))

/-- The same for numbers that are handed out by a counter of 32 bits. -/
theorem index_unique_word {f : Sketch → Option Nat} {code : List Sketch} (hnodup : (code.filterMap f).Nodup)
    (hsmall : ∀ k ∈ code.filterMap f, k < 2 ^ 32) {i j m n : Nat} {d d' : Sketch} (hi : code[i]? = some d)
    (hd : f d = some m) (hj : code[j]? = some d') (hd' : f d' = some n)
    (hmn : UInt32.ofNat m = UInt32.ofNat n) : i = j := by
  have hm := hsmall m (List.mem_filterMap.2 ⟨d, List.mem_of_getElem? hi, hd⟩)
  have hn := hsmall n (List.mem_filterMap.2 ⟨d', List.mem_of_getElem? hj, hd'⟩)
  have heq : m = n := by
    have := congrArg UInt32.toNat hmn
    rwa [UInt32.toNat_ofNat_of_lt' hm, UInt32.toNat_ofNat_of_lt' hn] at this
  subst heq
  exact index_unique hnodup hi hd hj hd'

/-! ### The numbers of temporaries -/

/-- The number of the temporary that an instruction computes. -/
def Sketch.temp? : Sketch → Option Nat
  | compute _ _ _ temp => some temp
  | _ => none

/-- The numbers of the temporaries of a code, in its order. -/
def temps (code : List Sketch) : List Nat := code.filterMap Sketch.temp?

@[simp] theorem temps_append (a b : List Sketch) : temps (a ++ b) = temps a ++ temps b := List.filterMap_append

@[simp] theorem temps_nil : temps [] = [] := rfl

@[simp] theorem temps_cons (d : Sketch) (code : List Sketch) : temps (d :: code) = d.temp?.toList ++ temps code := by
  cases d <;> rfl

/-- The numbers handed out by two parts of a code follow each other. -/
private theorem range_temps (o t : Tally) (n : Nat) :
    List.range' o.nextTemp t.temps ++ List.range' (o + t).nextTemp n = List.range' o.nextTemp (t.temps + n) := by
  rw [← List.range'_append_1, Tally.nextTemp, Tally.nextTemp, Tally.add_temps, Nat.add_right_comm]

private theorem Expr.sketch_temps (e : Expr) (o : Tally) :
    temps (e.sketch o) = List.range' o.nextTemp e.tally.temps := by
  induction e generalizing o with
  | leaf l => rfl
  | binary op lhs rhs ihl ihr =>
    have hop : [(o + lhs.tally + rhs.tally).nextTemp] = List.range' (o + (lhs.tally + rhs.tally)).nextTemp 1 := by
      simp [Tally.nextTemp, Nat.add_assoc]
    simp only [Expr.sketch, temps_append, temps_cons, temps_nil, Sketch.temp?, Option.toList, List.append_nil,
      ihl, ihr]
    rw [range_temps, hop]
    exact range_temps o (lhs.tally + rhs.tally) 1

private theorem Assign.sketch_temps (a : Assign) (o : Tally) :
    temps (a.sketch o) = List.range' o.nextTemp a.tally.temps := by
  simp [Assign.sketch, Assign.tally, Sketch.temp?, Expr.sketch_temps]

/-- The label and the jumps of a loop compute nothing. -/
private theorem loopSketch_temps (cond : Expr) (o : Tally) (body : List Sketch) (n : Nat)
    (hbody : temps body = List.range' (o + cond.tally).nextTemp n) :
    temps (loopSketch cond o body) = List.range' o.nextTemp (cond.tally.temps + n) := by
  simp only [loopSketch, temps_append, temps_cons, temps_nil, Sketch.temp?, Option.toList_none, List.nil_append,
    List.append_nil, Expr.sketch_temps, hbody]
  exact range_temps o cond.tally n

mutual

private theorem Stmt.sketch_temps (s : Stmt) (o : Tally) :
    temps (s.sketch o) = List.range' o.nextTemp s.tally.temps := by
  match s with
  | .assign a => exact a.sketch_temps o
  | .ifThen cond body _ =>
    have hbody := sketchAll_temps body (o + cond.tally + ⟨1, 1, 0⟩)
    simp only [Stmt.sketch, temps_append, temps_cons, temps_nil, Sketch.temp?, Option.toList_none, List.append_nil,
      Expr.sketch_temps, hbody]
    exact range_temps o cond.tally _
  | .ifElse cond body other _ =>
    have hbody := sketchAll_temps body (o + cond.tally + ⟨1, 2, 0⟩)
    have hother := sketchAll_temps other (o + cond.tally + tallyAll body + ⟨3, 2, 0⟩)
    have hstart : (o + cond.tally + tallyAll body + ⟨3, 2, 0⟩).nextTemp =
        (o + (cond.tally + tallyAll body)).nextTemp := by simp [Tally.nextTemp, Nat.add_assoc]
    simp only [Stmt.sketch, temps_append, temps_cons, temps_nil, Sketch.temp?, Option.toList_none, List.append_nil,
      Expr.sketch_temps, hbody, hother, hstart]
    calc _ = List.range' o.nextTemp (cond.tally + tallyAll body).temps ++ _ :=
          congrArg (· ++ _) (range_temps o cond.tally _)
      _ = _ := range_temps o (cond.tally + tallyAll body) _
  | .while cond body _ =>
    exact loopSketch_temps cond o _ _ (sketchAll_temps body (o.inLoop cond))
  | .for init cond step body _ =>
    have hbody := sketchAll_temps body ((o + init.tally).inLoop cond)
    have hstep := step.sketch_temps ((o + init.tally).inLoop cond + tallyAll body)
    have hround : temps (sketchAll body ((o + init.tally).inLoop cond) ++
        step.sketch ((o + init.tally).inLoop cond + tallyAll body)) =
          List.range' (o + init.tally + cond.tally).nextTemp (tallyAll body + step.tally).temps := by
      rw [temps_append, hbody, hstep]
      exact range_temps _ (tallyAll body) _
    have hloop := loopSketch_temps cond (o + init.tally) _ _ hround
    rw [Stmt.sketch, temps_append, init.sketch_temps, hloop, range_temps]
    congr 1
    simp only [Stmt.tally, Tally.add_temps]
    omega
  | .ret none _ => rfl
  | .ret (some value) _ =>
    simp [Stmt.sketch, Stmt.tally, Sketch.temp?, Expr.sketch_temps]

theorem sketchAll_temps (program : List Stmt) (o : Tally) :
    temps (sketchAll program o) = List.range' o.nextTemp (tallyAll program).temps := by
  match program with
  | [] => rfl
  | s :: rest =>
    rw [sketchAll, temps_append, Stmt.sketch_temps s, sketchAll_temps rest, range_temps, tallyAll, Tally.add_temps]

end

/-! ### The numbers of labels -/

/-- The number of the label that an instruction places. -/
def Sketch.mark? : Sketch → Option Nat
  | mark label => some label
  | _ => none

/-- The numbers of the labels that a code places, in its order. -/
def marks (code : List Sketch) : List Nat := code.filterMap Sketch.mark?

@[simp] theorem marks_append (a b : List Sketch) : marks (a ++ b) = marks a ++ marks b := List.filterMap_append

@[simp] theorem marks_nil : marks [] = [] := rfl

@[simp] theorem marks_cons (d : Sketch) (code : List Sketch) : marks (d :: code) = d.mark?.toList ++ marks code := by
  cases d <;> rfl

@[simp] theorem Expr.sketch_marks (e : Expr) (o : Tally) : marks (e.sketch o) = [] := by
  induction e generalizing o with
  | leaf l => rfl
  | binary op lhs rhs ihl ihr => simp [Expr.sketch, Sketch.mark?, ihl, ihr]

@[simp] theorem Assign.sketch_marks (a : Assign) (o : Tally) : marks (a.sketch o) = [] := by
  simp [Assign.sketch, Sketch.mark?]

@[simp] theorem Assign.tally_labels (a : Assign) : a.tally.labels = 0 := by simp [Assign.tally]

private theorem loopSketch_marks (cond : Expr) (o : Tally) (body : List Sketch) (n : Nat)
    (hbody : (marks body).Perm (List.range' (o.inLoop cond).nextLabel n)) :
    (marks (loopSketch cond o body)).Perm (List.range' o.nextLabel (n + 2)) := by
  rw [List.perm_iff_count]
  intro k
  have hk := hbody.count_eq k
  simp only [List.count_range_1', Tally.inLoop, Tally.nextLabel, Tally.add_labels, Expr.tally_labels] at hk
  simp only [loopSketch, marks_append, marks_cons, marks_nil, Sketch.mark?, Option.toList, Expr.sketch_marks,
    List.count_append, List.count_cons, List.count_nil, hk, beq_iff_eq, List.count_range_1', Tally.nextLabel]
  grind

mutual

/-- Each of the labels of a statement is placed once. -/
private theorem Stmt.sketch_marks (s : Stmt) (o : Tally) :
    (marks (s.sketch o)).Perm (List.range' o.nextLabel s.tally.labels) := by
  match s with
  | .assign a => simp [Stmt.sketch, Stmt.tally]
  | .ifThen cond body _ =>
    rw [List.perm_iff_count]
    intro k
    have hbody := (sketchAll_marks body (o + cond.tally + ⟨1, 1, 0⟩)).count_eq k
    simp only [List.count_range_1', Tally.nextLabel, Tally.add_labels, Expr.tally_labels] at hbody
    simp only [Stmt.sketch, Stmt.tally, marks_append, marks_cons, marks_nil, Sketch.mark?, Option.toList,
      Expr.sketch_marks, List.count_append, List.count_cons, List.count_nil, hbody, beq_iff_eq,
      List.count_range_1', Tally.nextLabel, Tally.add_labels, Expr.tally_labels]
    grind
  | .ifElse cond body other _ =>
    rw [List.perm_iff_count]
    intro k
    have hbody := (sketchAll_marks body (o + cond.tally + ⟨1, 2, 0⟩)).count_eq k
    have hother := (sketchAll_marks other (o + cond.tally + tallyAll body + ⟨3, 2, 0⟩)).count_eq k
    simp only [List.count_range_1', Tally.nextLabel, Tally.add_labels, Expr.tally_labels] at hbody hother
    simp only [Stmt.sketch, Stmt.tally, marks_append, marks_cons, marks_nil, Sketch.mark?, Option.toList,
      Expr.sketch_marks, List.count_append, List.count_cons, List.count_nil, hbody, hother, beq_iff_eq,
      List.count_range_1', Tally.nextLabel, Tally.add_labels, Expr.tally_labels]
    grind
  | .while cond body _ =>
    have hloop := loopSketch_marks cond o _ _ (sketchAll_marks body (o.inLoop cond))
    simpa [Stmt.sketch, Stmt.tally] using hloop
  | .for init cond step body _ =>
    have hbody := sketchAll_marks body ((o + init.tally).inLoop cond)
    have hloop := loopSketch_marks cond (o + init.tally) (sketchAll body ((o + init.tally).inLoop cond) ++
      step.sketch ((o + init.tally).inLoop cond + tallyAll body)) _ (by simpa using hbody)
    simpa [Stmt.sketch, Stmt.tally, Tally.nextLabel] using hloop
  | .ret none _ => simp [Stmt.sketch, Stmt.tally, Sketch.mark?]
  | .ret (some value) _ => simp [Stmt.sketch, Stmt.tally, Sketch.mark?]

theorem sketchAll_marks (program : List Stmt) (o : Tally) :
    (marks (sketchAll program o)).Perm (List.range' o.nextLabel (tallyAll program).labels) := by
  match program with
  | [] => exact List.Perm.refl _
  | s :: rest =>
    have hstart : (o + s.tally).nextLabel = o.nextLabel + s.tally.labels := by
      simp only [Tally.nextLabel, Tally.add_labels]
      omega
    have h := (s.sketch_marks o).append (sketchAll_marks rest (o + s.tally))
    rwa [hstart, List.range'_append_1, ← marks_append] at h

end

/-! ### The numbers of a program -/

section Numbers

variable {program : Program} (h : WithinCounters program)
include h

/-- The temporaries of a program are told apart by the counter. -/
theorem temp_unique {i j m n : Nat} {d d' : Sketch} (hi : (sketchAll program 0)[i]? = some d)
    (hd : d.temp? = some m) (hj : (sketchAll program 0)[j]? = some d') (hd' : d'.temp? = some n)
    (hmn : UInt32.ofNat m = UInt32.ofNat n) : i = j := by
  have htemps : (sketchAll program 0).filterMap Sketch.temp? = List.range' 1 (tallyAll program).temps :=
    sketchAll_temps program 0
  refine index_unique_word ?_ ?_ hi hd hj hd' hmn
  · rw [htemps]
    exact List.nodup_range'
  · intro k hk
    rw [htemps, List.mem_range'_1] at hk
    have := h.temps
    omega

/-- The labels of a program are told apart by the counter. -/
theorem mark_unique {i j m n : Nat} {d d' : Sketch} (hi : (sketchAll program 0)[i]? = some d)
    (hd : d.mark? = some m) (hj : (sketchAll program 0)[j]? = some d') (hd' : d'.mark? = some n)
    (hmn : UInt32.ofNat m = UInt32.ofNat n) : i = j := by
  have hmarks : ((sketchAll program 0).filterMap Sketch.mark?).Perm (List.range' 1 (tallyAll program).labels) :=
    sketchAll_marks program 0
  refine index_unique_word ?_ ?_ hi hd hj hd' hmn
  · exact hmarks.nodup_iff.2 List.nodup_range'
  · intro k hk
    rw [hmarks.mem_iff, List.mem_range'_1] at hk
    have := h.labels
    omega

end Numbers

/-! ### The values that instructions read -/

/-- What an instruction reads, from left to right. -/
def Sketch.arguments : Sketch → List Argument
  | compute _ lhs rhs _ => [lhs, rhs]
  | assign _ value => [value]
  | jumpIfFalse cond _ => [cond]
  | jump _ => []
  | mark _ => []
  | ret value => value.toList

/-- A computed value goes by the index and the temporary of the instruction that computes it. -/
def Argument.ComputedIn (code : List Sketch) : Argument → Prop
  | text _ => True
  | computed index temp => ∃ op lhs rhs, code[index]? = some (.compute op lhs rhs temp)

/-- All that the part reads is computed in the code. -/
def ReadsFrom (code part : List Sketch) : Prop := ∀ d ∈ part, ∀ a ∈ d.arguments, a.ComputedIn code

@[simp] theorem readsFrom_nil (code : List Sketch) : ReadsFrom code [] := by
  intro d hd
  cases hd

@[simp] theorem readsFrom_append {code a b : List Sketch} :
    ReadsFrom code (a ++ b) ↔ ReadsFrom code a ∧ ReadsFrom code b := by
  simp only [ReadsFrom, List.mem_append, or_imp, forall_and]

@[simp] theorem readsFrom_cons {code part : List Sketch} {d : Sketch} :
    ReadsFrom code (d :: part) ↔ (∀ a ∈ d.arguments, a.ComputedIn code) ∧ ReadsFrom code part := by
  simp only [ReadsFrom, List.mem_cons, forall_eq_or_imp]

section Reads

variable {code : List Sketch} {o : Tally}

private theorem Expr.argument_computed (e : Expr) (h : HoldsAt code o.instructions (e.sketch o)) :
    (e.argument o).ComputedIn code := by
  cases e with
  | leaf l => exact trivial
  | binary op lhs rhs => exact ⟨_, _, _, (holdsAt_binary.1 h).2.2⟩

private theorem Expr.sketch_reads (e : Expr) (h : HoldsAt code o.instructions (e.sketch o)) :
    ReadsFrom code (e.sketch o) := by
  induction e generalizing o with
  | leaf l => exact readsFrom_nil code
  | binary op lhs rhs ihl ihr =>
    obtain ⟨hl, hr, -⟩ := holdsAt_binary.1 h
    simp [Expr.sketch, Sketch.arguments, ihl hl, ihr hr, lhs.argument_computed hl, rhs.argument_computed hr]

private theorem Assign.sketch_reads (a : Assign) (h : HoldsAt code o.instructions (a.sketch o)) :
    ReadsFrom code (a.sketch o) := by
  obtain ⟨hvalue, -⟩ := holdsAt_assign.1 h
  simp [Assign.sketch, Sketch.arguments, a.value.sketch_reads hvalue, a.value.argument_computed hvalue]

private theorem loopSketch_reads (cond : Expr) {body : List Sketch} (bodyTally : Tally)
    (hlength : body.length = bodyTally.instructions) (h : HoldsAt code o.instructions (loopSketch cond o body))
    (hbody : ReadsFrom code body) : ReadsFrom code (loopSketch cond o body) := by
  obtain ⟨-, hcond, -⟩ := (holdsAt_loop hlength).1 h
  simp [loopSketch, Sketch.arguments, cond.sketch_reads hcond, cond.argument_computed hcond, hbody]

mutual

private theorem Stmt.sketch_reads {o : Tally} (s : Stmt) (h : HoldsAt code o.instructions (s.sketch o)) :
    ReadsFrom code (s.sketch o) := by
  match s with
  | .assign a => exact a.sketch_reads h
  | .ifThen cond body _ =>
    obtain ⟨hcond, -, hbody, -⟩ := holdsAt_ifThen.1 h
    simp [Stmt.sketch, Sketch.arguments, cond.sketch_reads hcond, cond.argument_computed hcond,
      sketchAll_reads body hbody]
  | .ifElse cond body other _ =>
    obtain ⟨hcond, -, hbody, -, -, hother, -⟩ := holdsAt_ifElse.1 h
    simp [Stmt.sketch, Sketch.arguments, cond.sketch_reads hcond, cond.argument_computed hcond,
      sketchAll_reads body hbody, sketchAll_reads other hother]
  | .while cond body _ =>
    have hlength := sketchAll_length body (o.inLoop cond)
    obtain ⟨-, -, -, hbody, -⟩ := (holdsAt_loop hlength).1 h
    exact loopSketch_reads cond _ hlength h (sketchAll_reads body hbody)
  | .for init cond step body _ =>
    obtain ⟨hinit, hloop, hbody, hstep⟩ := holdsAt_for h
    have hreads := readsFrom_append.2 ⟨sketchAll_reads body hbody, step.sketch_reads hstep⟩
    have hround := loopSketch_reads cond _ (forRound_length cond _ body step) hloop hreads
    exact readsFrom_append.2 ⟨init.sketch_reads hinit, hround⟩
  | .ret none _ => simp [Stmt.sketch, Sketch.arguments]
  | .ret (some value) _ =>
    obtain ⟨hvalue, -⟩ := holdsAt_append.1 h
    simp [Stmt.sketch, Sketch.arguments, value.sketch_reads hvalue, value.argument_computed hvalue]

theorem sketchAll_reads {o : Tally} (program : List Stmt) (h : HoldsAt code o.instructions (sketchAll program o)) :
    ReadsFrom code (sketchAll program o) := by
  match program with
  | [] => exact readsFrom_nil code
  | s :: rest =>
    obtain ⟨hs, hrest⟩ := holdsAt_append.1 h
    rw [Stmt.sketch_length] at hrest
    exact readsFrom_append.2 ⟨s.sketch_reads hs, sketchAll_reads rest hrest⟩

end

end Reads

end ThreeAddress
