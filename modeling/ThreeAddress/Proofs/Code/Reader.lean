import ThreeAddress.Code.Listing
import ThreeAddress.Proofs.Code.Safety
import ThreeAddress.Proofs.Text

/-!
# Reading a table of quadruples

A table of quadruples holds texts only.  Who reads it by names has one store for variables and temporaries, while the
machine keeps them apart.  The reader follows the machine step by step through the code of a program, if no temporary
has the text of a name (`follows_after`).

* `Reader.step`: what the rows of a table tell to do;
* `Agrees`: the temporaries of the machine are in the store of the reader, each under its own text;
* `Agrees.step`: one step of both, for any code.
-/

namespace ThreeAddress

universe u

variable {V : Type u}

/-! ### Operands -/

/-- The operands of an instruction, its result included. -/
def Quadruple.operands (q : Quadruple) : List Operand := [q.arg1, q.arg2, q.result]

/-- The operands of code. -/
def operands (code : List Quadruple) : List Operand := code.flatMap Quadruple.operands

/-- No temporary of the code has the text of one of its names. -/
def CaptureFree (code : List Quadruple) : Prop :=
  ∀ t text, .temp t ∈ operands code → .name text ∈ operands code → t.display ≠ text

private theorem mem_operands {code : List Quadruple} {q : Quadruple} (hq : q ∈ code) :
    q.arg1 ∈ operands code ∧ q.arg2 ∈ operands code ∧ q.result ∈ operands code := by
  have hmem : ∀ a ∈ q.operands, a ∈ operands code := fun a ha => List.mem_flatMap.2 ⟨q, hq, ha⟩
  simpa [Quadruple.operands] using hmem

private theorem numbered_inj {word : String} {m n : UInt32} (h : word ++ m.toNat.repr = word ++ n.toNat.repr) :
    m = n := by
  have hchars := congrArg String.toList h
  rw [String.toList_append, String.toList_append, List.append_cancel_left_eq] at hchars
  exact UInt32.toNat_inj.1 (repr_append_inj noDigit_nil noDigit_nil (congrArg (· ++ []) hchars)).1

private theorem Temp.display_injective : Function.Injective Temp.display :=
  fun _ _ h => congrArg Temp.mk (numbered_inj h)

private theorem Label.display_injective : Function.Injective Label.display :=
  fun _ _ h => congrArg Label.mk (numbered_inj h)

/-! ### The reader of a table -/

/-- A row of a table of quadruples, without its number. -/
structure Row where
  op : String
  arg1 : String
  arg2 : String
  result : String
deriving DecidableEq, Repr

/-- The row of an instruction. -/
def Quadruple.row (q : Quadruple) : Row := ⟨q.op.display, q.arg1.display, q.arg2.display, q.result.display⟩

/-- The row that the cells of a table hold behind its number. -/
def Row.ofCells : List String → Option Row
  | [_, op, arg1, arg2, result] => some ⟨op, arg1, arg2, result⟩
  | _ => none

theorem rows_quadrupleTable (code : List Quadruple) :
    (quadrupleTable code).rows.filterMap Row.ofCells = code.map Quadruple.row := by
  have hcells : Row.ofCells ∘ (fun p : Quadruple × Nat =>
      [p.2.repr, p.1.op.display, p.1.arg1.display, p.1.arg2.display, p.1.result.display]) =
        fun p => some p.1.row := rfl
  have hrow : (fun p : Quadruple × Nat => p.1.row) = Quadruple.row ∘ Prod.fst := rfl
  rw [quadrupleTable, List.filterMap_map, hcells, List.filterMap_eq_map', hrow, ← List.map_map, List.zipIdx_map_fst]

/-- What a row tells to do.  An assignment has no second operand; an operation with the operator `=` has one. -/
def Row.opcode (r : Row) : Opcode :=
  if r.op = "IF_FALSE" then .ifFalse
  else if r.op = "GOTO" then .goto
  else if r.op = "LABEL" then .label
  else if r.op = "RETURN" then .ret
  else if r.op = "=" ∧ r.arg2 = "_" then .assign
  else .binary r.op

namespace Reader

/-- A state: the index of the next row, and one store for variables and temporaries. -/
structure State (V : Type u) where
  pc : Nat
  store : Store V

/-- What the reader does at a row. -/
inductive Move (V : Type u) where
  | go (next : State V)
  | halt (h : Machine.Halt V)

/-- The state behind the current row. -/
def State.next (s : State V) : State V := { s with pc := s.pc + 1 }

/-- The state behind a row that gives a name its value. -/
def State.set (s : State V) (name : String) (value : V) : State V := ⟨s.pc + 1, s.store.set name value⟩

/-- The index of the row that places a label. -/
def target? (rows : List Row) (label : String) : Option Nat :=
  rows.findIdx? fun r => r.opcode = .label && r.result = label

/-- Goes to the row that places a label. -/
def State.jump (rows : List Row) (s : State V) (label : String) : Move V :=
  match target? rows label with
  | some pc => .go { s with pc := pc }
  | none => .halt .stuck

/-- Carries out a row. -/
def State.perform (I : Interpretation V) (rows : List Row) (s : State V) (r : Row) : Move V :=
  match r.opcode with
  | .binary op => .go (s.set r.result (I.apply op (I.leaf r.arg1 s.store) (I.leaf r.arg2 s.store)))
  | .assign => .go (s.set r.result (I.leaf r.arg1 s.store))
  | .ifFalse => if I.isTrue (I.leaf r.arg1 s.store) then .go s.next else s.jump rows r.result
  | .goto => s.jump rows r.result
  | .label => .go s.next
  | .ret =>
    if r.arg1 = "_" then .halt (.normal (.returned none) s.store)
    else .halt (.normal (.returned (some (I.leaf r.arg1 s.store))) s.store)

/-- Carries out the current row; behind the last one the reader stops. -/
def step (I : Interpretation V) (rows : List Row) (s : State V) : Move V :=
  match rows[s.pc]? with
  | some r => s.perform I rows r
  | none => .halt (.normal .finished s.store)

/-- Carries out up to `n` rows. -/
def after (I : Interpretation V) (rows : List Row) : Nat → State V → Move V
  | 0, s => .go s
  | n + 1, s =>
    match step I rows s with
    | .go next => after I rows n next
    | .halt h => .halt h

end Reader

/-- Carries out up to `n` instructions. -/
def Machine.after (I : Interpretation V) (code : List Quadruple) : Nat → State V → Move V
  | 0, s => .go s
  | n + 1, s =>
    match step I code s with
    | .go next => after I code n next
    | .halt h => .halt h

/-! ### The machine and the reader -/

/-- A word stands for the variable with its name, or for itself if there is none. -/
def Interpretation.ByName (I : Interpretation V) : Prop :=
  ∀ text store, I.leaf text store = (store text).getD (I.leaf text fun _ => none)

/-- Two stores in which all names but those of temporaries have the same values. -/
def SameNames (code : List Quadruple) (store store' : Store V) : Prop :=
  ∀ x, (∀ t, .temp t ∈ operands code → t.display ≠ x) → store x = store' x

/-- The reader is at the same instruction as the machine; the temporaries of the machine have the same values in its
store, and so have all other names. -/
structure Agrees (code : List Quadruple) (s : Machine.State V) (u : Reader.State V) : Prop where
  pc : s.pc = u.pc
  names : SameNames code s.store u.store
  temps : ∀ {t v}, s.temps t = some v → .temp t ∈ operands code ∧ u.store t.display = some v

/-- The reader goes on as the machine does, or both stop in the same way. -/
inductive Follows (code : List Quadruple) : Machine.Move V → Reader.Move V → Prop
  | go {s : Machine.State V} {u : Reader.State V} (h : Agrees code s u) : Follows code (.go s) (.go u)
  | halt {ending : Ending V} {store store' : Store V} (h : SameNames code store store') :
    Follows code (.halt (.normal ending store)) (.halt (.normal ending store'))

/-- A quadruple that is told by its row. -/
structure Quadruple.Legible (q : Quadruple) : Prop where
  opcode : q.row.opcode = q.op
  empty : q.arg1.display = "_" → q.arg1 = .empty
  label : q.op = .label → ∃ l, q.result = .label l

section Lockstep

variable {I : Interpretation V} {code : List Quadruple} {s : Machine.State V} {u : Reader.State V}

theorem Agrees.leaf (hI : I.ByName) (hfree : CaptureFree code) (h : Agrees code s u) {a : Operand}
    (ha : a ∈ operands code) {v : V} (hv : s.value? I a = some v) : I.leaf a.display u.store = v := by
  cases a with
  | name text =>
    have hsame : s.store text = u.store text := h.names text fun t ht => hfree t text ht ha
    rw [Operand.display, hI, ← hsame, ← hI]
    exact Option.some.inj hv
  | temp t => rw [Operand.display, hI, (h.temps hv).2, Option.getD_some]
  | label l => cases hv
  | ref index => cases hv
  | empty => cases hv

theorem Agrees.next (h : Agrees code s u) : Agrees code s.next u.next :=
  ⟨congrArg (· + 1) h.pc, h.names, h.temps⟩

/-- The value of a temporary changes no other name. -/
theorem Agrees.setTemp (h : Agrees code s u) {t : Temp} (ht : .temp t ∈ operands code) (v : V) :
    Agrees code (s.setTemp t v) (u.set t.display v) := by
  refine ⟨congrArg (· + 1) h.pc, ?_, ?_⟩
  · intro x hx
    have hne : x ≠ t.display := fun heq => hx t ht heq.symm
    simp only [Machine.State.setTemp, Machine.State.next, Reader.State.set, Store.set, hne, if_false]
    exact h.names x hx
  · intro t' v' hv'
    simp only [Machine.State.setTemp] at hv'
    simp only [Reader.State.set, Store.set, Temp.display_injective.eq_iff]
    split at hv'
    · rename_i heq
      subst heq
      exact ⟨ht, by rw [if_pos rfl, hv']⟩
    · rename_i hne
      obtain ⟨hmem, hstore⟩ := h.temps hv'
      exact ⟨hmem, by rw [if_neg hne, hstore]⟩

/-- The value of a variable changes no temporary. -/
theorem Agrees.setName (hfree : CaptureFree code) (h : Agrees code s u) {name : String}
    (hname : .name name ∈ operands code) (v : V) : Agrees code (s.setName name v) (u.set name v) := by
  refine ⟨congrArg (· + 1) h.pc, ?_, ?_⟩
  · intro x hx
    simp only [Machine.State.setName, Reader.State.set, Store.set]
    split
    · rfl
    · exact h.names x hx
  · intro t v' hv'
    obtain ⟨hmem, hstore⟩ := h.temps hv'
    refine ⟨hmem, ?_⟩
    simp only [Reader.State.set, Store.set, hfree t name hmem hname, if_false]
    exact hstore

private theorem Reader.target?_eq (hlegible : ∀ q ∈ code, q.Legible) (l : Label) :
    Reader.target? (code.map Quadruple.row) l.display = Machine.target? code l := by
  have hplace : ∀ q ∈ code, (q.row.opcode = .label && q.row.result = l.display) =
      (q.op = .label && q.result = .label l) := by
    intro q hq
    rw [(hlegible q hq).opcode]
    by_cases hop : q.op = .label
    · obtain ⟨l', hl'⟩ := (hlegible q hq).label hop
      simp [hop, hl', Quadruple.row, Operand.display, Label.display_injective.eq_iff]
    · simp [hop]
  rw [Reader.target?, Machine.target?, List.findIdx?_map]
  clear hlegible
  induction code with
  | nil => rfl
  | cons q code ih =>
    rw [List.forall_mem_cons] at hplace
    rw [List.findIdx?_cons, List.findIdx?_cons, ih hplace.2, Function.comp_apply, hplace.1]

theorem Agrees.jump (hlegible : ∀ q ∈ code, q.Legible) (h : Agrees code s u) {l : Label}
    (hgo : s.jump code l ≠ .halt .stuck) :
    Follows code (s.jump code l) (u.jump (code.map Quadruple.row) l.display) := by
  rw [Machine.State.jump] at hgo ⊢
  rw [Reader.State.jump, Reader.target?_eq hlegible]
  cases htarget : Machine.target? code l with
  | none =>
    rw [htarget] at hgo
    exact absurd rfl hgo
  | some pc => exact .go ⟨rfl, h.names, h.temps⟩

/-- One instruction.  The machine gets stuck where it cannot read an operand or find a label. -/
theorem Agrees.perform (hI : I.ByName) (hfree : CaptureFree code) (hlegible : ∀ q ∈ code, q.Legible)
    (h : Agrees code s u) {q : Quadruple} (hq : q ∈ code) (hgo : s.perform I code q ≠ .halt .stuck) :
    Follows code (s.perform I code q) (u.perform I (code.map Quadruple.row) q.row) := by
  obtain ⟨harg1, harg2, hresult⟩ := mem_operands hq
  rw [Reader.State.perform, (hlegible q hq).opcode]
  revert hgo
  unfold Machine.State.perform
  split
  -- an operation
  · rename_i op t hop hres
    intro hgo
    cases hv : s.value? I q.arg1 with
    | none => simp [hv] at hgo
    | some v =>
      cases hw : s.value? I q.arg2 with
      | none => simp [hv, hw] at hgo
      | some w =>
        rw [hres] at hresult
        simp only [hop, Quadruple.row, hres, h.leaf hI hfree harg1 hv, h.leaf hI hfree harg2 hw]
        exact .go (h.setTemp hresult _)
  -- an assignment
  · rename_i target hop hres
    intro hgo
    cases hv : s.value? I q.arg1 with
    | none => simp [hv] at hgo
    | some v =>
      rw [hres] at hresult
      simp only [hop, Quadruple.row, hres, h.leaf hI hfree harg1 hv]
      exact .go (h.setName hfree hresult v)
  -- a jump if a value is false
  · rename_i l hop hres
    intro hgo
    cases hv : s.value? I q.arg1 with
    | none => simp [hv] at hgo
    | some v =>
      simp only [hop, Quadruple.row, hres, h.leaf hI hfree harg1 hv, hv] at hgo ⊢
      cases htrue : I.isTrue v with
      | true => exact .go h.next
      | false =>
        rw [htrue] at hgo
        exact h.jump hlegible hgo
  -- a jump
  · rename_i l hop hres
    intro hgo
    simp only [hop, Quadruple.row, hres]
    exact h.jump hlegible hgo
  -- a label
  · rename_i hop
    intro hgo
    simp only [hop]
    exact .go h.next
  -- a return
  · rename_i hop
    intro hgo
    simp only [hop, Quadruple.row]
    by_cases hempty : q.arg1 = .empty
    · simp only [hempty, Operand.display, if_true]
      exact .halt h.names
    · have hdisplay : q.arg1.display ≠ "_" := fun heq => hempty ((hlegible q hq).empty heq)
      cases hv : s.value? I q.arg1 with
      | none => simp [hv, hempty] at hgo
      | some v =>
        simp only [hempty, hdisplay, if_false, h.leaf hI hfree harg1 hv]
        exact .halt h.names
  · intro hgo
    exact absurd rfl hgo

theorem Agrees.step (hI : I.ByName) (hfree : CaptureFree code) (hlegible : ∀ q ∈ code, q.Legible)
    (h : Agrees code s u) (hgo : Machine.step I code s ≠ .halt .stuck) :
    Follows code (Machine.step I code s) (Reader.step I (code.map Quadruple.row) u) := by
  rw [Machine.step] at hgo ⊢
  rw [Reader.step, ← h.pc, List.getElem?_map]
  cases hq : code[s.pc]? with
  | none => exact .halt h.names
  | some q =>
    rw [hq] at hgo
    exact h.perform hI hfree hlegible (List.mem_of_getElem? hq) hgo

/-- The machine is never stuck at the code of a program, so the reader follows it however far it goes. -/
theorem follows_after {program : Program} (hI : I.ByName) (hfree : CaptureFree (quadruples program))
    (hlegible : ∀ q ∈ quadruples program, q.Legible) (hready : Machine.Ready program s)
    (h : Agrees (quadruples program) s u) (n : Nat) :
    Follows (quadruples program) (Machine.after I (quadruples program) n s)
      (Reader.after I ((quadruples program).map Quadruple.row) n u) := by
  induction n generalizing s u with
  | zero => exact .go h
  | succ n ih =>
    have hreader := h.step hI hfree hlegible (hready.not_stuck I)
    rw [Machine.after, Reader.after]
    generalize Reader.step I _ u = move at hreader ⊢
    rcases hready.step I with ⟨ending, store, hstep⟩ | ⟨t, hstep, ht⟩
    · rw [hstep] at hreader ⊢
      cases hreader with
      | halt hsame => exact .halt hsame
    · rw [hstep] at hreader ⊢
      cases hreader with
      | go hagrees => exact ih ht hagrees

end Lockstep

end ThreeAddress
