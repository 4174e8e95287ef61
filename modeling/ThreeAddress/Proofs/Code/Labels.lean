import Mathlib.Logic.ExistsUnique
import ThreeAddress.Proofs.Code.Fields

/-!
# The labels of a program

Each label is placed once and is the target of one jump.  A jump on a false value goes forward, and behind every other
jump stands the label of such a jump (`labelDiscipline`), in triples and in quadruples alike.

* `Structured`: code that is nested as conditionals and loops are;
* `Stmt.structured`: the code of a statement is;
* `Structured.targets_perm_marks`, `Structured.flows`: what follows for jumps and labels, by rule induction.
-/

namespace ThreeAddress

/-! ### Structured code -/

/-- Code that is nested as conditionals and loops are. -/
inductive Structured : List Sketch → Prop
  | nil : Structured []
  /-- An instruction that neither places a label nor jumps. -/
  | plain {d : Sketch} (hd : d.label? = none) : Structured [d]
  | append {a b : List Sketch} (ha : Structured a) (hb : Structured b) : Structured (a ++ b)
  | ifThen {cond : Argument} {n : Nat} {body : List Sketch} (hbody : Structured body) :
    Structured ([.jumpIfFalse cond n] ++ body ++ [.mark n])
  | ifElse {cond : Argument} {n m : Nat} {body other : List Sketch} (hbody : Structured body)
    (hother : Structured other) :
    Structured ([.jumpIfFalse cond n] ++ body ++ [.jump m, .mark n] ++ other ++ [.mark m])
  | loop {cond : Argument} {n m : Nat} {test body : List Sketch} (htest : Structured test)
    (hbody : Structured body) :
    Structured ([.mark m] ++ test ++ [.jumpIfFalse cond n] ++ body ++ [.jump m, .mark n])

theorem Expr.structured (e : Expr) (o : Tally) : Structured (e.sketch o) := by
  induction e generalizing o with
  | leaf l => exact .nil
  | binary op lhs rhs ihl ihr => exact ((ihl o).append (ihr _)).append (.plain rfl)

theorem Assign.structured (a : Assign) (o : Tally) : Structured (a.sketch o) :=
  (a.value.structured o).append (.plain rfl)

mutual

theorem Stmt.structured (s : Stmt) (o : Tally) : Structured (s.sketch o) := by
  match s with
  | .assign a => exact a.structured o
  | .ifThen cond body _ =>
    have hbranch : Structured ([.jumpIfFalse (cond.argument o) o.nextLabel] ++
        sketchAll body (o + cond.tally + ⟨1, 1, 0⟩) ++ [.mark o.nextLabel]) := .ifThen (structuredAll body _)
    have hcode := (cond.structured o).append hbranch
    simpa [Stmt.sketch] using hcode
  | .ifElse cond body other _ =>
    have hbranches : Structured ([.jumpIfFalse (cond.argument o) o.nextLabel] ++
        sketchAll body (o + cond.tally + ⟨1, 2, 0⟩) ++ [.jump (o.nextLabel + 1), .mark o.nextLabel] ++
        sketchAll other (o + cond.tally + tallyAll body + ⟨3, 2, 0⟩) ++ [.mark (o.nextLabel + 1)]) :=
      .ifElse (structuredAll body _) (structuredAll other _)
    have hcode := (cond.structured o).append hbranches
    simpa [Stmt.sketch] using hcode
  | .while cond body _ => exact .loop (cond.structured _) (structuredAll body _)
  | .for init cond step body _ =>
    exact (init.structured o).append
      (.loop (cond.structured _) ((structuredAll body _).append (step.structured _)))
  | .ret none _ => exact .plain rfl
  | .ret (some value) _ => exact (value.structured o).append (.plain rfl)

theorem structuredAll (program : List Stmt) (o : Tally) : Structured (sketchAll program o) := by
  match program with
  | [] => exact .nil
  | s :: rest => exact (s.structured o).append (structuredAll rest _)

end

/-! ### Jumps and labels of structured code -/

/-- The number of the label that an instruction jumps to. -/
def Sketch.target? : Sketch → Option Nat
  | jumpIfFalse _ label => some label
  | jump label => some label
  | _ => none

/-- The numbers of the labels that a code jumps to, in its order. -/
def targets (code : List Sketch) : List Nat := code.filterMap Sketch.target?

@[simp] theorem targets_append (a b : List Sketch) : targets (a ++ b) = targets a ++ targets b :=
  List.filterMap_append

@[simp] theorem targets_nil : targets [] = [] := rfl

@[simp] theorem targets_cons (d : Sketch) (code : List Sketch) :
    targets (d :: code) = d.target?.toList ++ targets code := by
  cases d <;> rfl

/-- The labels that a structured code jumps to are those that it places. -/
theorem Structured.targets_perm_marks {code : List Sketch} (h : Structured code) :
    (targets code).Perm (marks code) := by
  rw [List.perm_iff_count]
  intro k
  induction h with
  | nil => rfl
  | @plain d hd => cases d <;> simp_all [Sketch.label?, Sketch.target?, Sketch.mark?]
  | append ha hb iha ihb => simp [iha, ihb]
  | ifThen hbody ihbody =>
    simp only [targets_append, targets_cons, targets_nil, marks_append, marks_cons, marks_nil, Sketch.target?,
      Sketch.mark?, Option.toList, List.append_nil, List.nil_append, List.count_append, ihbody]
    omega
  | ifElse hbody hother ihbody ihother =>
    simp only [targets_append, targets_cons, targets_nil, marks_append, marks_cons, marks_nil, Sketch.target?,
      Sketch.mark?, Option.toList, List.append_nil, List.nil_append, List.count_append, ihbody, ihother]
    omega
  | loop htest hbody ihtest ihbody =>
    simp only [targets_append, targets_cons, targets_nil, marks_append, marks_cons, marks_nil, Sketch.target?,
      Sketch.mark?, Option.toList, List.append_nil, List.nil_append, List.count_append, ihtest, ihbody]
    omega

/-- Where the label of a jump stands: that of a jump on a false value behind it, and right behind any other jump the
label of an earlier jump on a false value. -/
def Sketch.Flows (before : List Sketch) (d : Sketch) (after : List Sketch) : Prop :=
  match d with
  | .jumpIfFalse _ n => .mark n ∈ after
  | .jump _ => ∃ cond n, after.head? = some (.mark n) ∧ .jumpIfFalse cond n ∈ before
  | _ => True

theorem Structured.flows {code : List Sketch} (h : Structured code) (before after : List Sketch) :
    Throughout Sketch.Flows before code after := by
  induction h generalizing before after with
  | nil => exact throughout_nil
  | @plain d hd => cases d <;> simp_all [Sketch.label?, Sketch.Flows]
  | append ha hb iha ihb => exact throughout_append.2 ⟨iha _ _, ihb _ _⟩
  | ifThen hbody ihbody => simp [Sketch.Flows, ihbody]
  | @ifElse cond n m body other hbody hother ihbody ihother =>
    have hjump : Sketch.Flows (before ++ [.jumpIfFalse cond n] ++ body) (.jump m)
        ([.mark n] ++ (other ++ ([.mark m] ++ after))) := ⟨cond, n, by simp⟩
    simp_all [Sketch.Flows]
  | @loop cond n m test body htest hbody ihtest ihbody =>
    have hjump : Sketch.Flows (before ++ [.mark m] ++ test ++ [.jumpIfFalse cond n] ++ body) (.jump m)
        ([.mark n] ++ after) := ⟨cond, n, by simp⟩
    simp_all [Sketch.Flows]

/-! ### Labels of instructions -/

section Instructions

variable {ι : Type} [Fields ι]

/-- The instruction at an index has the opcode and carries the label. -/
def CarriesAt (code : List ι) (op : Opcode) (i : Nat) (l : Label) : Prop :=
  ∃ c, code[i]? = some c ∧ Fields.op c = op ∧ Fields.label c = .label l

/-- The instruction at an index jumps to the label, always or on a false value. -/
def JumpsAt (code : List ι) (i : Nat) (l : Label) : Prop := CarriesAt code .ifFalse i l ∨ CarriesAt code .goto i l

/-- Labels and jumps are in order. -/
structure LabelDiscipline (code : List ι) : Prop where
  /-- Every mark and every jump carries a label. -/
  carried : ∀ c ∈ code, Fields.op c ∈ [.label, .ifFalse, .goto] → ∃ l, Fields.label c = .label l
  /-- The labels that are placed are numbered from 1. -/
  numbered : ∃ n < 2 ^ 32 - 1, ∀ l : Label,
    (∃ i, CarriesAt code .label i l) ↔ 1 ≤ l.number.toNat ∧ l.number.toNat ≤ n
  /-- No label is placed twice. -/
  placed_once : ∀ {i j l}, CarriesAt code .label i l → CarriesAt code .label j l → i = j
  /-- Exactly one jump goes to a label that is placed. -/
  reached_once : ∀ {i l}, CarriesAt code .label i l → ∃! j, JumpsAt code j l
  /-- Jumps go to labels that are placed. -/
  reaches_placed : ∀ {j l}, JumpsAt code j l → ∃ i, CarriesAt code .label i l
  /-- A jump on a false value goes forward. -/
  forward : ∀ {i j l}, CarriesAt code .ifFalse i l → CarriesAt code .label j l → i < j
  /-- Right behind any other jump stands the label of an earlier jump on a false value. -/
  behind_goto : ∀ {i l}, CarriesAt code .goto i l →
    ∃ l', CarriesAt code .label (i + 1) l' ∧ ∃ j < i, CarriesAt code .ifFalse j l'

end Instructions

section Spelled

variable {ι : Type} [Shape ι] [Spelling ι] [Fields ι] [LawfulFields ι] {code : List Sketch} {i : Nat} {l : Label}

private theorem Sketch.exists_label {d : Sketch} (h : d.op ∈ [.label, .ifFalse, .goto]) : ∃ n, d.label? = some n := by
  cases d <;> simp_all [Sketch.op, Sketch.label?]

private theorem carriesAt_spell {op : Opcode} (hop : op ∈ [.label, .ifFalse, .goto]) :
    CarriesAt (code.map (Sketch.spell ι)) op i l ↔
      ∃ d n, code[i]? = some d ∧ d.op = op ∧ d.label? = some n ∧ l = ⟨.ofNat n⟩ := by
  simp only [CarriesAt, List.getElem?_map, Option.map_eq_some_iff]
  constructor
  · rintro ⟨c, ⟨d, hd, rfl⟩, hc, hl⟩
    rw [LawfulFields.op_spell] at hc
    obtain ⟨n, hn⟩ := Sketch.exists_label (hc ▸ hop)
    rw [LawfulFields.label_spell hn] at hl
    exact ⟨d, n, hd, hc, hn, (Operand.label.inj hl).symm⟩
  · rintro ⟨d, n, hd, hc, hn, rfl⟩
    exact ⟨_, ⟨d, hd, rfl⟩, by rw [LawfulFields.op_spell, hc], LawfulFields.label_spell hn⟩

private theorem carriesAt_label : CarriesAt (code.map (Sketch.spell ι)) .label i l ↔
    ∃ n, code[i]? = some (.mark n) ∧ l = ⟨.ofNat n⟩ := by
  rw [carriesAt_spell (by simp)]
  constructor
  · rintro ⟨d, n, hd, hop, hn, rfl⟩
    cases d <;> cases hop
    cases hn
    exact ⟨n, hd, rfl⟩
  · rintro ⟨n, hd, rfl⟩
    exact ⟨_, n, hd, rfl, rfl, rfl⟩

private theorem carriesAt_ifFalse : CarriesAt (code.map (Sketch.spell ι)) .ifFalse i l ↔
    ∃ cond n, code[i]? = some (.jumpIfFalse cond n) ∧ l = ⟨.ofNat n⟩ := by
  rw [carriesAt_spell (by simp)]
  constructor
  · rintro ⟨d, n, hd, hop, hn, rfl⟩
    cases d <;> cases hop
    cases hn
    exact ⟨_, n, hd, rfl⟩
  · rintro ⟨cond, n, hd, rfl⟩
    exact ⟨_, n, hd, rfl, rfl, rfl⟩

private theorem carriesAt_goto : CarriesAt (code.map (Sketch.spell ι)) .goto i l ↔
    ∃ n, code[i]? = some (.jump n) ∧ l = ⟨.ofNat n⟩ := by
  rw [carriesAt_spell (by simp)]
  constructor
  · rintro ⟨d, n, hd, hop, hn, rfl⟩
    cases d <;> cases hop
    cases hn
    exact ⟨n, hd, rfl⟩
  · rintro ⟨n, hd, rfl⟩
    exact ⟨_, n, hd, rfl, rfl, rfl⟩

private theorem jumpsAt_spell : JumpsAt (code.map (Sketch.spell ι)) i l ↔
    ∃ d n, code[i]? = some d ∧ d.target? = some n ∧ l = ⟨.ofNat n⟩ := by
  rw [JumpsAt, carriesAt_ifFalse, carriesAt_goto]
  constructor
  · rintro (⟨cond, n, hd, rfl⟩ | ⟨n, hd, rfl⟩)
    · exact ⟨_, n, hd, rfl, rfl⟩
    · exact ⟨_, n, hd, rfl, rfl⟩
  · rintro ⟨d, n, hd, hn, rfl⟩
    cases d <;> cases hn
    · exact Or.inl ⟨_, n, hd, rfl⟩
    · exact Or.inr ⟨n, hd, rfl⟩

end Spelled

/-! ### Programs -/

section Program

variable {program : Program}

theorem exists_mark_iff {n : Nat} :
    (∃ i : Nat, (sketchAll program 0)[i]? = some (.mark n)) ↔ 1 ≤ n ∧ n ≤ (tallyAll program).labels := by
  have hmem : (∃ i : Nat, (sketchAll program 0)[i]? = some (.mark n)) ↔ n ∈ marks (sketchAll program 0) := by
    rw [marks, List.mem_filterMap]
    constructor
    · rintro ⟨i, hi⟩
      exact ⟨_, List.mem_of_getElem? hi, rfl⟩
    · rintro ⟨d, hd, hn⟩
      cases d <;> cases hn
      exact List.mem_iff_getElem?.1 hd
  rw [hmem, (sketchAll_marks program 0).mem_iff, List.mem_range'_1, Tally.nextLabel, Tally.zero_labels]
  omega

private theorem targets_perm_range (program : Program) :
    (targets (sketchAll program 0)).Perm (List.range' 1 (tallyAll program).labels) :=
  (structuredAll program 0).targets_perm_marks.trans (sketchAll_marks program 0)

theorem exists_target_iff {n : Nat} :
    (∃ (i : Nat) (d : Sketch), (sketchAll program 0)[i]? = some d ∧ d.target? = some n) ↔
      1 ≤ n ∧ n ≤ (tallyAll program).labels := by
  have hmem : (∃ (i : Nat) (d : Sketch), (sketchAll program 0)[i]? = some d ∧ d.target? = some n) ↔
      n ∈ targets (sketchAll program 0) := by
    rw [targets, List.mem_filterMap]
    constructor
    · rintro ⟨i, d, hi, hn⟩
      exact ⟨d, List.mem_of_getElem? hi, hn⟩
    · rintro ⟨d, hd, hn⟩
      obtain ⟨i, hi⟩ := List.mem_iff_getElem?.1 hd
      exact ⟨i, d, hi, hn⟩
  rw [hmem, (targets_perm_range program).mem_iff, List.mem_range'_1]
  omega

/-- The jumps of a program are told apart by their labels. -/
private theorem target_unique (h : WithinCounters program) {i j m n : Nat} {d d' : Sketch}
    (hi : (sketchAll program 0)[i]? = some d) (hd : d.target? = some m) (hj : (sketchAll program 0)[j]? = some d')
    (hd' : d'.target? = some n) (hmn : UInt32.ofNat m = UInt32.ofNat n) : i = j := by
  have hperm := targets_perm_range program
  refine index_unique_word (f := Sketch.target?) (hperm.nodup_iff.2 List.nodup_range') ?_ hi hd hj hd' hmn
  intro k hk
  have hlabel := List.mem_range'_1.1 (hperm.mem_iff.1 hk)
  have hsmall := h.labels
  omega

private theorem mark_behind_jumpIfFalse {i n : Nat} {cond : Argument}
    (hi : (sketchAll program 0)[i]? = some (.jumpIfFalse cond n)) :
    ∃ j > i, (sketchAll program 0)[j]? = some (.mark n) := by
  have hmem := ((structuredAll program 0).flows [] []).at hi
  obtain ⟨k, hk⟩ := List.mem_iff_getElem?.1 hmem
  rw [List.append_nil, List.getElem?_drop] at hk
  exact ⟨i + 1 + k, by omega, hk⟩

private theorem mark_behind_jump {i m : Nat} (hi : (sketchAll program 0)[i]? = some (.jump m)) :
    ∃ n, (sketchAll program 0)[i + 1]? = some (.mark n) ∧
      ∃ j < i, ∃ cond, (sketchAll program 0)[j]? = some (.jumpIfFalse cond n) := by
  obtain ⟨cond, n, hnext, hearlier⟩ := ((structuredAll program 0).flows [] []).at hi
  rw [List.append_nil, List.head?_drop] at hnext
  obtain ⟨j, hj⟩ := List.mem_iff_getElem?.1 hearlier
  rw [List.nil_append, List.getElem?_take, Option.ite_none_right_eq_some] at hj
  exact ⟨n, hnext, j, hj.1, cond, hj.2⟩

private theorem labelDiscipline_spell (h : WithinCounters program) (ι : Type) [Shape ι] [Spelling ι] [Fields ι]
    [LawfulFields ι] : LabelDiscipline ((sketchAll program 0).map (Sketch.spell ι)) := by
  constructor
  case carried =>
    intro c hc hop
    obtain ⟨d, -, rfl⟩ := List.mem_map.1 hc
    rw [LawfulFields.op_spell] at hop
    obtain ⟨n, hn⟩ := Sketch.exists_label hop
    exact ⟨_, LawfulFields.label_spell hn⟩
  case numbered =>
    have hsmall := h.labels
    refine ⟨(tallyAll program).labels, hsmall, ?_⟩
    intro l
    simp only [carriesAt_label]
    constructor
    · rintro ⟨i, n, hi, rfl⟩
      have hn := exists_mark_iff.1 ⟨i, hi⟩
      rwa [UInt32.toNat_ofNat_of_lt' (show n < 2 ^ 32 by omega)]
    · intro hl
      obtain ⟨i, hi⟩ := exists_mark_iff.2 hl
      exact ⟨i, l.number.toNat, hi, by rw [UInt32.ofNat_toNat]⟩
  case placed_once =>
    intro i j l hi hj
    obtain ⟨m, hm, rfl⟩ := carriesAt_label.1 hi
    obtain ⟨n, hn, hmn⟩ := carriesAt_label.1 hj
    exact mark_unique h hm rfl hn rfl (congrArg Label.number hmn)
  case reached_once =>
    intro i l hi
    obtain ⟨n, hn, rfl⟩ := carriesAt_label.1 hi
    obtain ⟨j, d, hj, hd⟩ := exists_target_iff.2 (exists_mark_iff.1 ⟨i, hn⟩)
    refine ⟨j, jumpsAt_spell.2 ⟨d, n, hj, hd, rfl⟩, ?_⟩
    intro k hk
    obtain ⟨d', m, hd', hm, hmn⟩ := jumpsAt_spell.1 hk
    exact target_unique h hd' hm hj hd (congrArg Label.number hmn).symm
  case reaches_placed =>
    intro j l hj
    obtain ⟨d, n, hd, hn, rfl⟩ := jumpsAt_spell.1 hj
    obtain ⟨i, hi⟩ := exists_mark_iff.2 (exists_target_iff.1 ⟨j, d, hd, hn⟩)
    exact ⟨i, carriesAt_label.2 ⟨n, hi, rfl⟩⟩
  case forward =>
    intro i j l hi hj
    obtain ⟨cond, n, hn, rfl⟩ := carriesAt_ifFalse.1 hi
    obtain ⟨m, hm, hmn⟩ := carriesAt_label.1 hj
    obtain ⟨k, hik, hk⟩ := mark_behind_jumpIfFalse hn
    -- the label is placed once, so the place behind the jump is the given one
    have hjk := mark_unique h hk rfl hm rfl (congrArg Label.number hmn)
    omega
  case behind_goto =>
    intro i l hi
    obtain ⟨m, hm, rfl⟩ := carriesAt_goto.1 hi
    obtain ⟨n, hn, j, hji, cond, hj⟩ := mark_behind_jump hm
    exact ⟨_, carriesAt_label.2 ⟨n, hn, rfl⟩, j, hji, carriesAt_ifFalse.2 ⟨cond, n, hj, rfl⟩⟩

end Program

/-- The labels and jumps of a program are in order in both shapes. -/
theorem labelDiscipline {program : Program} (h : WithinCounters program) :
    LabelDiscipline (triples program) ∧ LabelDiscipline (quadruples program) := by
  rw [triples_eq, quadruples_eq]
  exact ⟨labelDiscipline_spell h Triple, labelDiscipline_spell h Quadruple⟩

/-- A conditional with two branches inside a loop, and another one inside its first branch. -/
theorem labelDiscipline_nested :
    let a := Expr.leaf (.ident "a")
    let program : Program := [.while a [.ifElse (.binary "<" a a) [.ifThen a [] 1] [.ret none 1] 1] 1]
    WithinCounters program ∧ LabelDiscipline (triples program) ∧ LabelDiscipline (quadruples program) :=
  ⟨⟨by decide, by decide⟩, labelDiscipline ⟨by decide, by decide⟩⟩

end ThreeAddress
