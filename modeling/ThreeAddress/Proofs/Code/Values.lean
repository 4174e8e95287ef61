import Mathlib.Data.List.Nodup
import ThreeAddress.Proofs.Code.Fields
import ThreeAddress.Proofs.Code.TwoShapes

/-!
# The values of a program

Each computed value is read exactly once, behind the instruction that computes it, and no other instruction than
computations stands between the two (`linearValues`), in triples and in quadruples alike.

* `Evaluates`: code in which an expression is evaluated right before the instruction that reads it;
* `Stmt.evaluates`: the code of a statement is such a code;
* `Evaluates.reads_perm_temps`, `Evaluates.awaited`: how often and where its values are read, by rule induction.
-/

namespace ThreeAddress

/-! ### Code that evaluates expressions -/

/-- Code in which an expression is evaluated right before the instruction that reads it. -/
inductive Evaluates : List Sketch → Prop
  | nil : Evaluates []
  /-- An instruction that neither computes nor reads a value. -/
  | plain {d : Sketch} {rest : List Sketch} (hreads : d.arguments = []) (htemp : d.temp? = none)
    (hrest : Evaluates rest) : Evaluates (d :: rest)
  /-- An expression and the instruction that reads it. -/
  | expr {e : Expr} {o : Tally} {d : Sketch} {rest : List Sketch} (hreads : d.arguments = [e.argument o])
    (htemp : d.temp? = none) (hrest : Evaluates rest) : Evaluates (e.sketch o ++ d :: rest)

theorem Evaluates.append {a b : List Sketch} (ha : Evaluates a) (hb : Evaluates b) : Evaluates (a ++ b) := by
  induction ha with
  | nil => exact hb
  | plain hreads htemp hrest ih => exact .plain hreads htemp ih
  | expr hreads htemp hrest ih =>
    rw [List.append_assoc]
    exact .expr hreads htemp ih

theorem Evaluates.read {e : Expr} {o : Tally} {d : Sketch} (hreads : d.arguments = [e.argument o])
    (htemp : d.temp? = none) : Evaluates (e.sketch o ++ [d]) :=
  .expr hreads htemp .nil

theorem Assign.evaluates (a : Assign) (o : Tally) : Evaluates (a.sketch o) := .read rfl rfl

private theorem evaluates_loop {cond : Expr} {o : Tally} {body : List Sketch} (hbody : Evaluates body) :
    Evaluates (loopSketch cond o body) := by
  have htest : Evaluates (cond.sketch (o + ⟨1, 2, 0⟩) ++
      [.jumpIfFalse (cond.argument (o + ⟨1, 2, 0⟩)) (o.nextLabel + 1)]) := .read rfl rfl
  have hend : Evaluates [.jump o.nextLabel, .mark (o.nextLabel + 1)] := .plain rfl rfl (.plain rfl rfl .nil)
  have hcode : Evaluates (.mark o.nextLabel :: _) := .plain rfl rfl ((htest.append hbody).append hend)
  simpa [loopSketch] using hcode

mutual

theorem Stmt.evaluates (s : Stmt) (o : Tally) : Evaluates (s.sketch o) := by
  match s with
  | .assign a => exact a.evaluates o
  | .ifThen cond body _ =>
    have htest : Evaluates (cond.sketch o ++ [.jumpIfFalse (cond.argument o) o.nextLabel]) := .read rfl rfl
    exact (htest.append (evaluatesAll body _)).append (.plain rfl rfl .nil)
  | .ifElse cond body other _ =>
    have htest : Evaluates (cond.sketch o ++ [.jumpIfFalse (cond.argument o) o.nextLabel]) := .read rfl rfl
    have hbetween : Evaluates [.jump (o.nextLabel + 1), .mark o.nextLabel] := .plain rfl rfl (.plain rfl rfl .nil)
    exact (((htest.append (evaluatesAll body _)).append hbetween).append (evaluatesAll other _)).append
      (.plain rfl rfl .nil)
  | .while cond body _ => exact evaluates_loop (evaluatesAll body _)
  | .for init cond step body _ =>
    exact (init.evaluates o).append (evaluates_loop ((evaluatesAll body _).append (step.evaluates _)))
  | .ret none _ => exact .plain rfl rfl .nil
  | .ret (some value) _ => exact .read rfl rfl

private theorem evaluatesAll (program : List Stmt) (o : Tally) : Evaluates (sketchAll program o) := by
  match program with
  | [] => exact .nil
  | s :: rest => exact (s.evaluates o).append (evaluatesAll rest _)

end

/-! ### How often values are read -/

/-- The computed values that a code reads, each with its index and its temporary. -/
def reads (code : List Sketch) : List (Nat × Nat) := code.flatMap Sketch.reads

@[simp] theorem reads_nil : reads [] = [] := rfl

@[simp] theorem reads_cons (d : Sketch) (code : List Sketch) : reads (d :: code) = d.reads ++ reads code := rfl

@[simp] theorem reads_append (a b : List Sketch) : reads (a ++ b) = reads a ++ reads b := List.flatMap_append

/-- The temporaries that the code of an expression reads, with that of its value, are those that it computes. -/
theorem Expr.reads_perm_temps (e : Expr) (o : Tally) :
    ((reads (e.sketch o) ++ (e.argument o).computed?.toList).map Prod.snd).Perm (temps (e.sketch o)) := by
  induction e generalizing o with
  | leaf l => exact List.Perm.refl _
  | binary op lhs rhs ihl ihr =>
    rw [List.perm_iff_count]
    intro k
    have hl := (ihl o).count_eq k
    have hr := (ihr (o + lhs.tally)).count_eq k
    have hop : Sketch.reads (.compute op (lhs.argument o) (rhs.argument (o + lhs.tally))
        (o + lhs.tally + rhs.tally).nextTemp) =
          (lhs.argument o).computed?.toList ++ (rhs.argument (o + lhs.tally)).computed?.toList := by
      cases lhs <;> cases rhs <;> rfl
    have hvalue : ((Expr.binary op lhs rhs).argument o).computed?.toList.map Prod.snd =
        [(o + lhs.tally + rhs.tally).nextTemp] := rfl
    simp only [List.map_append, List.count_append] at hl hr
    simp only [Expr.sketch, reads_append, reads_cons, reads_nil, temps_append, temps_cons, temps_nil, Sketch.temp?,
      Option.toList_some, hop, hvalue, List.map_append, List.append_nil, List.count_append]
    omega

/-- The temporaries that a code reads are those that it computes. -/
theorem Evaluates.reads_perm_temps {code : List Sketch} (h : Evaluates code) :
    ((reads code).map Prod.snd).Perm (temps code) := by
  induction h with
  | nil => exact List.Perm.refl _
  | plain hreads htemp hrest ih => simpa [Sketch.reads, hreads, htemp] using ih
  | @expr e o d rest hreads htemp hrest ih =>
    have hd : d.reads = (e.argument o).computed?.toList := by
      rw [Sketch.reads, hreads]
      cases (e.argument o) <;> rfl
    have hcode := (e.reads_perm_temps o).append ih
    simpa [hd, htemp] using hcode

/-! ### Where values are read -/

/-- Whether an instruction computes a value. -/
def Sketch.isCompute (d : Sketch) : Bool := d.temp?.isSome

/-- The code reads a temporary, and up to there only values are computed. -/
def Awaits (temp : Nat) (code : List Sketch) : Prop :=
  ∃ between d behind, code = between ++ d :: behind ∧ (∀ c ∈ between, c.isCompute) ∧ temp ∈ d.reads.map Prod.snd

theorem Awaits.skip {temp : Nat} {computes code : List Sketch} (hcomputes : ∀ c ∈ computes, c.isCompute)
    (h : Awaits temp code) : Awaits temp (computes ++ code) := by
  obtain ⟨between, d, behind, rfl, hbetween, hd⟩ := h
  refine ⟨computes ++ between, d, behind, (List.append_assoc ..).symm, ?_, hd⟩
  intro c hc
  rcases List.mem_append.1 hc with hc | hc
  · exact hcomputes c hc
  · exact hbetween c hc

/-- The value of an instruction, if it computes one, is read behind it. -/
def Sketch.Awaited (_ : List Sketch) (d : Sketch) (after : List Sketch) : Prop :=
  ∀ temp, d.temp? = some temp → Awaits temp after

theorem Expr.sketch_computes (e : Expr) (o : Tally) : ∀ c ∈ e.sketch o, c.isCompute := by
  induction e generalizing o with
  | leaf l =>
    intro c hc
    cases hc
  | binary op lhs rhs ihl ihr =>
    intro c hc
    simp only [Expr.sketch, List.mem_append, List.mem_singleton] at hc
    rcases hc with (hc | hc) | rfl
    · exact ihl o c hc
    · exact ihr _ c hc
    · rfl

/-- In front of code that reads its value, all values of an expression are read. -/
theorem Expr.awaited (e : Expr) {o : Tally} (before : List Sketch) {after : List Sketch}
    (h : ∀ r ∈ (e.argument o).computed?, Awaits r.2 after) :
    Throughout Sketch.Awaited before (e.sketch o) after := by
  induction e generalizing o before after with
  | leaf l => exact throughout_nil
  | binary op lhs rhs ihl ihr =>
    -- the operation reads both sides; its own value is read behind it
    have hop : ∀ r, r ∈ (lhs.argument o).computed? ∨ r ∈ (rhs.argument (o + lhs.tally)).computed? →
        Awaits r.2 ([.compute op (lhs.argument o) (rhs.argument (o + lhs.tally))
          (o + lhs.tally + rhs.tally).nextTemp] ++ after) := by
      intro r hr
      refine ⟨[], _, after, rfl, by simp, List.mem_map.2 ⟨r, ?_, rfl⟩⟩
      simpa [Sketch.reads, Sketch.arguments] using hr
    rw [Expr.sketch, throughout_append, throughout_append]
    refine ⟨⟨ihl before ?_, ihr _ ?_⟩, ?_, trivial⟩
    · intro r hr
      exact (hop r (Or.inl hr)).skip (rhs.sketch_computes _)
    · intro r hr
      exact hop r (Or.inr hr)
    · rintro temp ⟨⟩
      exact h _ rfl

theorem Evaluates.awaited {code : List Sketch} (h : Evaluates code) (before after : List Sketch) :
    Throughout Sketch.Awaited before code after := by
  induction h generalizing before with
  | nil => exact throughout_nil
  | @plain d rest hreads htemp hrest ih =>
    refine ⟨?_, ih _⟩
    intro temp hd
    rw [htemp] at hd
    cases hd
  | @expr e o d rest hreads htemp hrest ih =>
    rw [throughout_append]
    refine ⟨e.awaited before ?_, ?_, ih _⟩
    · intro r hr
      refine ⟨[], d, rest ++ after, rfl, by simp, List.mem_map.2 ⟨r, ?_, rfl⟩⟩
      simpa [Sketch.reads, hreads] using hr
    · intro temp hd
      rw [htemp] at hd
      cases hd

/-! ### The values of instructions -/

section Instructions

variable {ι : Type} [Fields ι]

/-- An operand is read once in the code, behind the index `i`, and up to there only values are computed. -/
structure ReadOnce (code : List ι) (i : Nat) (v : Operand) : Prop where
  once : (code.flatMap Fields.args).count v = 1
  behind : ∃ j c, i < j ∧ code[j]? = some c ∧ v ∈ Fields.args c ∧
    ∀ k b, i < k → k < j → code[k]? = some b → (Fields.op b).isBinary

/-- Each value is computed before it is read, and is read once. -/
structure LinearValues (code : List ι) : Prop where
  read_once : ∀ {i c}, code[i]? = some c → (Fields.op c).isBinary → ReadOnce code i (Fields.value i c)
  computed : ∀ {j c v}, code[j]? = some c → v ∈ Fields.args c → v.isValue →
    ∃ i < j, ∃ b, code[i]? = some b ∧ (Fields.op b).isBinary ∧ Fields.value i b = v

end Instructions

/-- The computations have the temporaries as results in the order of their numbers, from 1 on, and each temporary is
the result of no other instruction. -/
def NumberedResults (code : List Quadruple) : Prop :=
  ∀ {i q}, code[i]? = some q → q.op.isBinary → ∃ t : Temp, q.result = .temp t ∧
    t.number.toNat = (code.take (i + 1)).countP (·.op.isBinary) ∧
    ∀ {j q'}, code[j]? = some q' → q'.result = .temp t → j = i

section Program

variable {program : Program}

/-- The number of a temporary is the number of computations up to its own. -/
private theorem temp_eq_countP {i temp : Nat} {d : Sketch} (hi : (sketchAll program 0)[i]? = some d)
    (hd : d.temp? = some temp) : temp = ((sketchAll program 0).take (i + 1)).countP Sketch.isCompute := by
  have htemps : temps (sketchAll program 0) = List.range' 1 (tallyAll program).temps := sketchAll_temps program 0
  generalize sketchAll program 0 = code at hi htemps ⊢
  have hfront : temps (code.take (i + 1)) = temps (code.take i) ++ [temp] := by
    simp [List.take_add_one, hi, hd]
  have hget : (temps code)[(temps (code.take i)).length]? = some temp := by
    rw [← List.take_append_drop (i + 1) code, temps_append, hfront, List.append_assoc]
    simp
  rw [htemps, List.getElem?_eq_some_iff] at hget
  obtain ⟨_, hnumber⟩ := hget
  rw [List.getElem_range', Nat.one_mul] at hnumber
  have hcount : (temps (code.take (i + 1))).length = (code.take (i + 1)).countP Sketch.isCompute :=
    List.length_filterMap_eq_countP
  rw [hfront, List.length_append, List.length_singleton] at hcount
  omega

private theorem temp_lt (h : WithinCounters program) {i temp : Nat} {d : Sketch}
    (hi : (sketchAll program 0)[i]? = some d) (hd : d.temp? = some temp) : temp < 2 ^ 32 := by
  have hmem : temp ∈ temps (sketchAll program 0) := List.mem_filterMap.2 ⟨d, List.mem_of_getElem? hi, hd⟩
  rw [sketchAll_temps, List.mem_range'_1, Tally.nextTemp, Tally.zero_temps] at hmem
  have hsmall := h.temps
  omega

/-- The temporaries that a program reads are those that it computes, each once. -/
private theorem reads_nodup (program : Program) : ((reads (sketchAll program 0)).map Prod.snd).Nodup := by
  rw [(evaluatesAll program 0).reads_perm_temps.nodup_iff, sketchAll_temps]
  exact List.nodup_range'

theorem read_unique {i j temp : Nat} {d d' : Sketch} (hi : (sketchAll program 0)[i]? = some d)
    (hd : temp ∈ d.reads.map Prod.snd) (hj : (sketchAll program 0)[j]? = some d')
    (hd' : temp ∈ d'.reads.map Prod.snd) : i = j := by
  have hnodup := reads_nodup program
  rw [reads, List.map_flatMap, List.nodup_flatMap] at hnodup
  have hdisjoint := List.pairwise_iff_getElem.1 hnodup.2
  obtain ⟨hilt, rfl⟩ := List.getElem?_eq_some_iff.1 hi
  obtain ⟨hjlt, rfl⟩ := List.getElem?_eq_some_iff.1 hj
  rcases Nat.lt_trichotomy i j with hij | hij | hij
  · exact (hdisjoint i j hilt hjlt hij hd hd').elim
  · exact hij
  · exact (hdisjoint j i hjlt hilt hij hd' hd).elim

/-- The value of a computation is read behind it, and up to there only values are computed. -/
theorem exists_read_behind {i temp : Nat} {d : Sketch} (hi : (sketchAll program 0)[i]? = some d)
    (hd : d.temp? = some temp) :
    ∃ j c, i < j ∧ (sketchAll program 0)[j]? = some c ∧ temp ∈ c.reads.map Prod.snd ∧
      ∀ k b, i < k → k < j → (sketchAll program 0)[k]? = some b → b.isCompute := by
  have hawaits := ((evaluatesAll program 0).awaited [] []).at hi temp hd
  obtain ⟨between, c, behind, hsplit, hbetween, hc⟩ := hawaits
  rw [List.append_nil] at hsplit
  have hahead : ∀ k, (sketchAll program 0)[i + 1 + k]? = (between ++ c :: behind)[k]? := by
    intro k
    rw [← hsplit, List.getElem?_drop]
  refine ⟨i + 1 + between.length, c, by omega, by rw [hahead]; simp, hc, ?_⟩
  intro k b hik hkj hk
  obtain ⟨m, rfl⟩ := Nat.exists_eq_add_of_lt hik
  rw [Nat.add_right_comm, hahead, List.getElem?_append_left (by omega)] at hk
  exact hbetween b (List.mem_of_getElem? hk)

/-- Values that are read go by the index and the temporary at which they are computed. -/
theorem computedIn_of_mem_reads {d : Sketch} (hd : d ∈ sketchAll program 0) {r : Nat × Nat} (hr : r ∈ d.reads) :
    (Argument.computed r.1 r.2).ComputedIn (sketchAll program 0) := by
  obtain ⟨a, ha, har⟩ := List.mem_filterMap.1 hr
  have hcomputed := sketchAll_reads program (o := 0) (holdsAt_self _) d hd a ha
  cases a with
  | text word => cases har
  | computed index temp =>
    cases har
    exact hcomputed

section Spelled

variable {ι : Type} [Shape ι] [Spelling ι] [Fields ι] [LawfulFields ι]

theorem isBinary_op_spell (d : Sketch) : (Fields.op (d.spell ι)).isBinary = d.isCompute := by
  rw [LawfulFields.op_spell]
  cases d <;> rfl

theorem mem_args_spell {d : Sketch} {v : Operand} (hv : v.isValue) :
    v ∈ Fields.args (d.spell ι) ↔ ∃ r ∈ d.reads, Spelling.value ι r.1 r.2 = v := by
  have hmem : v ∈ (Fields.args (d.spell ι)).filter Operand.isValue ↔ v ∈ Fields.args (d.spell ι) := by
    simp [hv]
  rw [← hmem, filter_args_spell, List.mem_map]

/-- Two values of a program are spelled alike only if their temporaries are the same. -/
private theorem value_eq_iff (h : WithinCounters program) {index temp index' temp' : Nat}
    (hc : (Argument.computed index temp).ComputedIn (sketchAll program 0))
    (hc' : (Argument.computed index' temp').ComputedIn (sketchAll program 0)) :
    Spelling.value ι index temp = Spelling.value ι index' temp' ↔ temp = temp' := by
  obtain ⟨op, lhs, rhs, hindex⟩ := hc
  obtain ⟨op', lhs', rhs', hindex'⟩ := hc'
  constructor
  · intro heq
    rcases LawfulFields.value_inj (temp_lt h hindex rfl) (temp_lt h hindex' rfl) heq with rfl | heq
    · rw [hindex, Option.some.injEq, Sketch.compute.injEq] at hindex'
      exact hindex'.2.2.2
    · exact heq
  · rintro rfl
    rw [temp_unique h hindex rfl hindex' rfl rfl]

private theorem count_value (h : WithinCounters program) {i temp : Nat}
    (hc : (Argument.computed i temp).ComputedIn (sketchAll program 0)) :
    (((sketchAll program 0).map (Sketch.spell ι)).flatMap Fields.args).count (Spelling.value ι i temp) = 1 := by
  have hreads : ((sketchAll program 0).map (Sketch.spell ι)).flatMap
        (fun c => (Fields.args c).filter Operand.isValue) =
      (reads (sketchAll program 0)).map fun r => Spelling.value ι r.1 r.2 := by
    simp only [List.flatMap_map, filter_args_spell, reads, List.map_flatMap]
  have hsame : ∀ r ∈ reads (sketchAll program 0),
      (Spelling.value ι r.1 r.2 == Spelling.value ι i temp) = true ↔ (r.2 == temp) = true := by
    intro r hr
    obtain ⟨d, hd, hrd⟩ := List.mem_flatMap.1 hr
    rw [beq_iff_eq, beq_iff_eq, value_eq_iff h (computedIn_of_mem_reads hd hrd) hc]
  have hmem : temp ∈ (reads (sketchAll program 0)).map Prod.snd := by
    rw [(evaluatesAll program 0).reads_perm_temps.mem_iff]
    obtain ⟨op, lhs, rhs, hi⟩ := hc
    exact List.mem_filterMap.2 ⟨_, List.mem_of_getElem? hi, rfl⟩
  calc _ = (((sketchAll program 0).map (Sketch.spell ι)).flatMap
          (fun c => (Fields.args c).filter Operand.isValue)).count (Spelling.value ι i temp) := by
        rw [← List.filter_flatMap, List.count_filter (LawfulFields.isValue_value i temp)]
    _ = (reads (sketchAll program 0)).countP (·.2 == temp) := by
        rw [hreads, List.count, List.countP_map]
        exact List.countP_congr hsame
    _ = ((reads (sketchAll program 0)).map Prod.snd).count temp := by
        rw [List.count, List.countP_map]
        rfl
    _ = 1 := List.count_eq_one_of_mem (reads_nodup program) hmem

private theorem linearValues_spell (h : WithinCounters program) (ι : Type) [Shape ι] [Spelling ι] [Fields ι]
    [LawfulFields ι] : LinearValues ((sketchAll program 0).map (Sketch.spell ι)) := by
  constructor
  case read_once =>
    intro i c hi hop
    rw [List.getElem?_map, Option.map_eq_some_iff] at hi
    obtain ⟨d, hd, rfl⟩ := hi
    rw [isBinary_op_spell] at hop
    obtain ⟨temp, htemp⟩ := Option.isSome_iff_exists.1 hop
    have hc : (Argument.computed i temp).ComputedIn (sketchAll program 0) := by
      cases d <;> cases htemp
      exact ⟨_, _, _, hd⟩
    rw [LawfulFields.value_spell htemp]
    refine ⟨count_value h hc, ?_⟩
    obtain ⟨j, c, hij, hj, hread, hbetween⟩ := exists_read_behind hd htemp
    obtain ⟨r, hr, rfl⟩ := List.mem_map.1 hread
    have hsame := (value_eq_iff (ι := ι) h (computedIn_of_mem_reads (List.mem_of_getElem? hj) hr) hc).2 rfl
    refine ⟨j, c.spell ι, hij, by simp [hj], ?_, ?_⟩
    · exact (mem_args_spell (LawfulFields.isValue_value ..)).2 ⟨r, hr, hsame⟩
    · intro k b hik hkj hk
      rw [List.getElem?_map, Option.map_eq_some_iff] at hk
      obtain ⟨b, hb, rfl⟩ := hk
      rw [isBinary_op_spell]
      exact hbetween k b hik hkj hb
  case computed =>
    intro j c v hj hv hvalue
    rw [List.getElem?_map, Option.map_eq_some_iff] at hj
    obtain ⟨d, hd, rfl⟩ := hj
    obtain ⟨r, hr, rfl⟩ := (mem_args_spell hvalue).1 hv
    obtain ⟨op, lhs, rhs, hindex⟩ := computedIn_of_mem_reads (List.mem_of_getElem? hd) hr
    -- the one place where the value is read is behind its computation
    obtain ⟨k, b, hk, hb, hread, -⟩ := exists_read_behind hindex rfl
    obtain rfl := read_unique hd (List.mem_map.2 ⟨r, hr, rfl⟩) hb hread
    exact ⟨r.1, hk, _, by rw [List.getElem?_map, hindex]; rfl, by rw [isBinary_op_spell]; rfl,
      LawfulFields.value_spell rfl _⟩

end Spelled

private theorem numberedResults (h : WithinCounters program) :
    NumberedResults ((sketchAll program 0).map (Sketch.spell Quadruple)) := by
  intro i q hi hop
  rw [List.getElem?_map, Option.map_eq_some_iff] at hi
  obtain ⟨d, hd, rfl⟩ := hi
  have hcompute : d.isCompute := (isBinary_op_spell (ι := Quadruple) d).symm.trans hop
  obtain ⟨temp, htemp⟩ := Option.isSome_iff_exists.1 hcompute
  refine ⟨⟨.ofNat temp⟩, Sketch.spell_result_eq_temp.2 ⟨temp, htemp, rfl⟩, ?_, ?_⟩
  · rw [UInt32.toNat_ofNat_of_lt' (temp_lt h hd htemp), temp_eq_countP hd htemp, ← List.map_take, List.countP_map]
    refine List.countP_congr ?_
    intro c _
    rw [Function.comp_apply, ← isBinary_op_spell (ι := Quadruple) c]
    rfl
  · intro j q' hj hresult
    rw [List.getElem?_map, Option.map_eq_some_iff] at hj
    obtain ⟨d', hd', rfl⟩ := hj
    obtain ⟨n, hn, hnumber⟩ := Sketch.spell_result_eq_temp.1 hresult
    exact temp_unique h hd' hn hd htemp (congrArg Temp.number hnumber).symm

end Program

/-- In both shapes each computed value is read once, in straight-line code behind its computation, and in quadruples
the temporaries are numbered in the order of the computations. -/
theorem linearValues {program : Program} (h : WithinCounters program) :
    LinearValues (quadruples program) ∧ NumberedResults (quadruples program) ∧ LinearValues (triples program) := by
  rw [triples_eq, quadruples_eq]
  exact ⟨linearValues_spell h Quadruple, numberedResults h, linearValues_spell h Triple⟩

/-- The loop `while ((a * b) < (b * a)) { a = (a + b) - b; }`, in whose test a value waits for another one. -/
theorem linearValues_loop :
    let a := Expr.leaf (.ident "a")
    let b := Expr.leaf (.ident "b")
    let program : Program := [.while (.binary "<" (.binary "*" a b) (.binary "*" b a))
      [.assign ⟨"a", .binary "-" (.binary "+" a b) b, 1⟩] 1]
    WithinCounters program ∧
      LinearValues (quadruples program) ∧ NumberedResults (quadruples program) ∧ LinearValues (triples program) :=
  ⟨⟨by decide, by decide⟩, linearValues ⟨by decide, by decide⟩⟩

end ThreeAddress
