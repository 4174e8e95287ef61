import Mathlib.Data.List.Basic
import ThreeAddress.Pipeline
import ThreeAddress.Proofs.Json.Text

/-!
# JSON output loses nothing

Two results of one stage that are written as the same JSON text are the same (`render_json_injective`), whatever
strings and numbers they hold.  The text determines the JSON value, so it is left to show that each part of a result is
determined by its value.
-/

namespace ThreeAddress

/-! ### Tokens -/

private theorem Span.toJson_injective : Function.Injective Span.toJson := by
  rintro ⟨start, stop⟩ ⟨start', stop'⟩ h
  simpa [toJson] using h

private theorem LexError.toJson_injective : Function.Injective LexError.toJson := by
  intro a b h
  cases a <;> cases b <;> simp_all [toJson, Json.variant]

private theorem Kind.toJson_injective : Function.Injective Kind.toJson := by
  intro a b h
  cases a <;> cases b <;> simp_all [toJson, Json.variant, LexError.toJson_injective.eq_iff]

private theorem Token.toJson_injective : Function.Injective Token.toJson := by
  rintro ⟨kind, lexeme, line, span⟩ ⟨kind', lexeme', line', span'⟩ h
  have hfields : kind.toJson = kind'.toJson ∧ lexeme = lexeme' ∧ line = line' ∧ span.toJson = span'.toJson := by
    simpa [toJson] using h
  obtain ⟨hkind, rfl, rfl, hspan⟩ := hfields
  rw [Kind.toJson_injective hkind, Span.toJson_injective hspan]

/-! ### Programs -/

private theorem Leaf.toJson_injective : Function.Injective Leaf.toJson := by
  intro a b h
  cases a <;> cases b <;> simp_all [toJson, Json.variant]

/-- A leaf is not taken for a binary operation. -/
private theorem Leaf.toJson_ne_binary (l : Leaf) (content : Json) : l.toJson ≠ .variant "Binary" content := by
  cases l <;> simp [toJson, Json.variant]

private theorem Expr.toJson_injective : Function.Injective Expr.toJson := by
  intro a b h
  induction a generalizing b with
  | leaf l =>
    cases b with
    | leaf l' => rw [Leaf.toJson_injective h]
    | binary op' lhs' rhs' => exact absurd h (l.toJson_ne_binary _)
  | binary op lhs rhs ihl ihr =>
    cases b with
    | leaf l' => exact absurd h.symm (l'.toJson_ne_binary _)
    | binary op' lhs' rhs' =>
      have hfields : op = op' ∧ lhs.toJson = lhs'.toJson ∧ rhs.toJson = rhs'.toJson := by
        simpa [toJson, Json.variant] using h
      obtain ⟨rfl, hl, hr⟩ := hfields
      rw [ihl hl, ihr hr]

private theorem Expr.toJson_ne_null (e : Expr) : e.toJson ≠ .null := by
  cases e with
  | leaf l => cases l <;> simp [toJson, Leaf.toJson, Json.variant]
  | binary op lhs rhs => simp [toJson, Json.variant]

/-- No value is told apart from any value. -/
private theorem Expr.option_toJson_inj {a b : Option Expr}
    (h : (a.map toJson).getD .null = (b.map toJson).getD .null) : a = b := by
  cases a with
  | none =>
    cases b with
    | none => rfl
    | some e' => exact absurd h.symm e'.toJson_ne_null
  | some e =>
    cases b with
    | none => exact absurd h e.toJson_ne_null
    | some e' => rw [toJson_injective h]

private theorem Assign.toJson_injective : Function.Injective Assign.toJson := by
  rintro ⟨target, value, line⟩ ⟨target', value', line'⟩ h
  have hfields : target = target' ∧ value.toJson = value'.toJson ∧ line = line' := by simpa [toJson] using h
  obtain ⟨rfl, hvalue, rfl⟩ := hfields
  rw [Expr.toJson_injective hvalue]

mutual

private theorem Stmt.toJson_inj (s : Stmt) {s' : Stmt} (h : s.toJson = s'.toJson) : s = s' := by
  match s with
  | .assign a =>
    cases s' with
    | assign a' =>
      have hfields : a.toJson = a'.toJson := by simpa [Stmt.toJson, Json.variant] using h
      rw [Assign.toJson_injective hfields]
    | _ => simp [Stmt.toJson, Json.variant] at h
  | .ifThen cond body line =>
    cases s' with
    | ifThen cond' body' line' =>
      have hfields : cond.toJson = cond'.toJson ∧ stmtsToJson body = stmtsToJson body' ∧ line = line' := by
        simpa [Stmt.toJson, Json.variant] using h
      obtain ⟨hcond, hbody, rfl⟩ := hfields
      rw [Expr.toJson_injective hcond, stmtsToJson_inj body hbody]
    | _ => simp [Stmt.toJson, Json.variant] at h
  | .ifElse cond body other line =>
    cases s' with
    | ifElse cond' body' other' line' =>
      have hfields : cond.toJson = cond'.toJson ∧ stmtsToJson body = stmtsToJson body' ∧
          stmtsToJson other = stmtsToJson other' ∧ line = line' := by
        simpa [Stmt.toJson, Json.variant] using h
      obtain ⟨hcond, hbody, hother, rfl⟩ := hfields
      rw [Expr.toJson_injective hcond, stmtsToJson_inj body hbody, stmtsToJson_inj other hother]
    | _ => simp [Stmt.toJson, Json.variant] at h
  | .while cond body line =>
    cases s' with
    | «while» cond' body' line' =>
      have hfields : cond.toJson = cond'.toJson ∧ stmtsToJson body = stmtsToJson body' ∧ line = line' := by
        simpa [Stmt.toJson, Json.variant] using h
      obtain ⟨hcond, hbody, rfl⟩ := hfields
      rw [Expr.toJson_injective hcond, stmtsToJson_inj body hbody]
    | _ => simp [Stmt.toJson, Json.variant] at h
  | .for init cond step body line =>
    cases s' with
    | «for» init' cond' step' body' line' =>
      have hfields : init.toJson = init'.toJson ∧ cond.toJson = cond'.toJson ∧ step.toJson = step'.toJson ∧
          stmtsToJson body = stmtsToJson body' ∧ line = line' := by
        simpa [Stmt.toJson, Json.variant] using h
      obtain ⟨hinit, hcond, hstep, hbody, rfl⟩ := hfields
      rw [Assign.toJson_injective hinit, Expr.toJson_injective hcond, Assign.toJson_injective hstep,
        stmtsToJson_inj body hbody]
    | _ => simp [Stmt.toJson, Json.variant] at h
  | .ret value line =>
    cases s' with
    | ret value' line' =>
      have hfields : (value.map Expr.toJson).getD .null = (value'.map Expr.toJson).getD .null ∧ line = line' := by
        simpa only [Stmt.toJson, Json.variant, Json.obj.injEq, List.cons.injEq, Prod.mk.injEq, true_and, and_true,
          Json.num.injEq] using h
      obtain ⟨hvalue, rfl⟩ := hfields
      rw [Expr.option_toJson_inj hvalue]
    | _ => simp [Stmt.toJson, Json.variant] at h

private theorem stmtsToJson_inj (program : List Stmt) {program' : List Stmt}
    (h : stmtsToJson program = stmtsToJson program') : program = program' := by
  match program with
  | [] =>
    cases program' with
    | nil => rfl
    | cons s' rest' => simp [stmtsToJson] at h
  | s :: rest =>
    cases program' with
    | nil => simp [stmtsToJson] at h
    | cons s' rest' =>
      rw [stmtsToJson, stmtsToJson] at h
      obtain ⟨hs, hrest⟩ := List.cons.inj h
      rw [s.toJson_inj hs, stmtsToJson_inj rest hrest]

end

private theorem programToJson_injective : Function.Injective programToJson := by
  intro p q h
  have hstmts : stmtsToJson p = stmtsToJson q := by simpa [programToJson] using h
  exact stmtsToJson_inj p hstmts

/-! ### Code -/

private theorem Opcode.toJson_injective : Function.Injective Opcode.toJson := by
  intro a b h
  cases a <;> cases b <;> simp_all [toJson, Json.variant]

private theorem Temp.number_injective : Function.Injective Temp.number := by
  rintro ⟨n⟩ ⟨n'⟩ rfl
  rfl

private theorem Label.number_injective : Function.Injective Label.number := by
  rintro ⟨n⟩ ⟨n'⟩ rfl
  rfl

private theorem Operand.toJson_injective : Function.Injective Operand.toJson := by
  intro a b h
  cases a <;> cases b <;>
    simp_all [toJson, Json.variant, UInt32.toNat_inj, Temp.number_injective.eq_iff, Label.number_injective.eq_iff]

private theorem Triple.toJson_injective : Function.Injective Triple.toJson := by
  rintro ⟨op, arg1, arg2⟩ ⟨op', arg1', arg2'⟩ h
  have hfields : op.toJson = op'.toJson ∧ arg1.toJson = arg1'.toJson ∧ arg2.toJson = arg2'.toJson := by
    simpa [toJson] using h
  obtain ⟨hop, harg1, harg2⟩ := hfields
  rw [Opcode.toJson_injective hop, Operand.toJson_injective harg1, Operand.toJson_injective harg2]

private theorem Quadruple.toJson_injective : Function.Injective Quadruple.toJson := by
  rintro ⟨op, arg1, arg2, result⟩ ⟨op', arg1', arg2', result'⟩ h
  have hfields : op.toJson = op'.toJson ∧ arg1.toJson = arg1'.toJson ∧ arg2.toJson = arg2'.toJson ∧
      result.toJson = result'.toJson := by
    simpa [toJson] using h
  obtain ⟨hop, harg1, harg2, hresult⟩ := hfields
  rw [Opcode.toJson_injective hop, Operand.toJson_injective harg1, Operand.toJson_injective harg2,
    Operand.toJson_injective hresult]

/-! ### Results -/

private theorem arr_map_injective {α : Type} {f : α → Json} (hf : Function.Injective f) :
    Function.Injective fun list : List α => Json.arr (list.map f) := by
  intro a b h
  exact List.map_injective_iff.2 hf (Json.arr.inj h)

/-- Results of one stage with the same JSON text are the same. -/
theorem render_json_injective :
    (Function.Injective fun list => (Result.tokens list).render .json) ∧
      (Function.Injective fun program => (Result.tree program).render .json) ∧
      (Function.Injective fun code => (Result.triples code).render .json) ∧
      Function.Injective fun code => (Result.quadruples code).render .json :=
  ⟨Json.pretty_injective.comp (arr_map_injective Token.toJson_injective),
    Json.pretty_injective.comp programToJson_injective,
    Json.pretty_injective.comp (arr_map_injective Triple.toJson_injective),
    Json.pretty_injective.comp (arr_map_injective Quadruple.toJson_injective)⟩

end ThreeAddress
