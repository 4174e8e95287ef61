import ThreeAddress.Code.Instruction
import ThreeAddress.Program

/-!
# Execution of programs and of quadruples

An interpretation says what leaves, operators and conditions mean.  It gives a meaning to both ends of lowering.

* `RunsAll`: the structured execution of a program, as a relation between the store before it, its ending and the
  store after it; a program that does not stop has no ending.
* `Machine.run`: the execution of a list of quadruples, instruction by instruction, by a machine that keeps its
  temporaries apart from the store.

Both stop in the same way (`ThreeAddress.Proofs.Code.Simulation`).
-/

namespace ThreeAddress

universe u

variable {V : Type u}

/-- The values of the named variables; a variable may have none. -/
abbrev Store (V : Type u) := String → Option V

/-- The store in which a variable has a new value. -/
def Store.set (store : Store V) (name : String) (value : V) : Store V :=
  fun x => if x = name then some value else store x

/-- The meaning of the words of a program. -/
structure Interpretation (V : Type u) where
  /-- The value of a leaf by its text. -/
  leaf : String → Store V → V
  apply : String → V → V → V
  isTrue : V → Bool

/-- How a program stops. -/
inductive Ending (V : Type u) where
  /-- At its end. -/
  | finished
  /-- At a return, with or without a value. -/
  | returned (value : Option V)

/-! ### Structured execution -/

/-- A relation between a store, an ending and the store at that ending. -/
abbrev Behaviour (V : Type u) := Store V → Ending V → Store V → Prop

/-- Changes the store and finishes. -/
def Behaviour.change (f : Store V → Store V) : Behaviour V := fun store ending after =>
  ending = .finished ∧ after = f store

/-- One behaviour after another; a return ends both. -/
inductive Behaviour.Then (first second : Behaviour V) : Behaviour V
  | next {store between after : Store V} {ending : Ending V} (hfirst : first store .finished between)
    (hsecond : second between ending after) : Then first second store ending after
  | ret {store after : Store V} {value : Option V} (hfirst : first store (.returned value) after) :
    Then first second store (.returned value) after

theorem Behaviour.then_change_id (b : Behaviour V) : b.Then (.change id) = b := by
  funext store ending after
  apply propext
  constructor
  · intro hb
    cases hb with
    | next h₁ h₂ =>
      obtain ⟨rfl, rfl⟩ := h₂
      exact h₁
    | ret h₁ => exact h₁
  · intro hb
    cases ending with
    | finished => exact .next hb ⟨rfl, rfl⟩
    | returned value => exact .ret hb

theorem Behaviour.change_id_then (b : Behaviour V) : (Behaviour.change id).Then b = b := by
  funext store ending after
  apply propext
  constructor
  · intro hb
    cases hb with
    | next h₁ h₂ =>
      obtain ⟨-, rfl⟩ := h₁
      exact h₂
    | ret h₁ => cases h₁.1
  · intro hb
    exact .next ⟨rfl, rfl⟩ hb

/-- One of two behaviours. -/
def Behaviour.choose (test : Store V → Bool) (yes no : Behaviour V) : Behaviour V := fun store =>
  if test store then yes store else no store

/-- A behaviour repeated as long as a test holds; a return ends the loop. -/
inductive Behaviour.Loop (test : Store V → Bool) (body : Behaviour V) : Behaviour V
  | leave {store : Store V} (htest : test store = false) : Loop test body store .finished store
  | again {store between after : Store V} {ending : Ending V} (htest : test store = true)
    (hbody : body store .finished between) (hloop : Loop test body between ending after) :
    Loop test body store ending after
  | ret {store after : Store V} {value : Option V} (htest : test store = true)
    (hbody : body store (.returned value) after) : Loop test body store (.returned value) after

/-- The value of an expression. -/
def Expr.eval (I : Interpretation V) (store : Store V) : Expr → V
  | leaf l => I.leaf l.text store
  | binary op lhs rhs => I.apply op (lhs.eval I store) (rhs.eval I store)

/-- Whether a condition holds. -/
def Expr.holds (I : Interpretation V) (cond : Expr) (store : Store V) : Bool := I.isTrue (cond.eval I store)

/-- The execution of an assignment. -/
def Assign.Runs (I : Interpretation V) (a : Assign) : Behaviour V :=
  .change fun store => store.set a.target (a.value.eval I store)

mutual

/-- The execution of a statement. -/
def Stmt.Runs (I : Interpretation V) : Stmt → Behaviour V
  | .assign a => a.Runs I
  | .ifThen cond body _ => .choose (cond.holds I) (RunsAll I body) (.change id)
  | .ifElse cond body other _ => .choose (cond.holds I) (RunsAll I body) (RunsAll I other)
  | .while cond body _ => .Loop (cond.holds I) (RunsAll I body)
  | .for init cond step body _ =>
    .Then (init.Runs I) (.Loop (cond.holds I) (.Then (RunsAll I body) (step.Runs I)))
  | .ret value _ => fun store ending after =>
    ending = .returned (value.map (Expr.eval I store)) ∧ after = store

/-- The execution of consecutive statements. -/
def RunsAll (I : Interpretation V) : List Stmt → Behaviour V
  | [] => .change id
  | s :: rest => .Then (s.Runs I) (RunsAll I rest)

end

/-! ### The machine -/

namespace Machine

/-- A state: the index of the next instruction, the store, and the values of the temporaries. -/
structure State (V : Type u) where
  pc : Nat
  store : Store V
  temps : Temp → Option V

/-- The state in which a program is started. -/
def State.start (store : Store V) : State V := ⟨0, store, fun _ => none⟩

/-- How the machine stops. -/
inductive Halt (V : Type u) where
  | normal (ending : Ending V) (store : Store V)
  /-- At an instruction that it cannot carry out. -/
  | stuck

/-- What the machine does at an instruction. -/
inductive Move (V : Type u) where
  | go (next : State V)
  | halt (h : Halt V)

/-- The value of an operand. -/
def State.value? (I : Interpretation V) (s : State V) : Operand → Option V
  | .name text => some (I.leaf text s.store)
  | .temp t => s.temps t
  | _ => none

/-- The state behind the current instruction. -/
def State.next (s : State V) : State V := { s with pc := s.pc + 1 }

/-- The state behind an instruction that gives a temporary its value. -/
def State.setTemp (s : State V) (t : Temp) (value : V) : State V :=
  { s.next with temps := fun x => if x = t then some value else s.temps x }

/-- The state behind an instruction that gives a variable its value. -/
def State.setName (s : State V) (name : String) (value : V) : State V :=
  { s.next with store := s.store.set name value }

/-- The index of the instruction that places a label. -/
def target? (code : List Quadruple) (l : Label) : Option Nat :=
  code.findIdx? fun q => q.op = .label && q.result = .label l

/-- Goes to the instruction that places a label. -/
def State.jump (code : List Quadruple) (s : State V) (l : Label) : Move V :=
  match target? code l with
  | some pc => .go { s with pc := pc }
  | none => .halt .stuck

/-- Carries out an instruction. -/
def State.perform (I : Interpretation V) (code : List Quadruple) (s : State V) (q : Quadruple) : Move V :=
  match q.op, q.result with
  | .binary op, .temp t =>
    match s.value? I q.arg1, s.value? I q.arg2 with
    | some lhs, some rhs => .go (s.setTemp t (I.apply op lhs rhs))
    | _, _ => .halt .stuck
  | .assign, .name target =>
    match s.value? I q.arg1 with
    | some value => .go (s.setName target value)
    | none => .halt .stuck
  | .ifFalse, .label l =>
    match s.value? I q.arg1 with
    | some value => if I.isTrue value then .go s.next else s.jump code l
    | none => .halt .stuck
  | .goto, .label l => s.jump code l
  | .label, _ => .go s.next
  | .ret, _ =>
    if q.arg1 = .empty then .halt (.normal (.returned none) s.store)
    else
      match s.value? I q.arg1 with
      | some value => .halt (.normal (.returned (some value)) s.store)
      | none => .halt .stuck
  | _, _ => .halt .stuck

/-- Carries out the current instruction; behind the last one the machine stops. -/
def step (I : Interpretation V) (code : List Quadruple) (s : State V) : Move V :=
  match code[s.pc]? with
  | some q => s.perform I code q
  | none => .halt (.normal .finished s.store)

/-- Carries out up to `n` instructions; gives how the machine stops, if it does so by then. -/
def run (I : Interpretation V) (code : List Quadruple) : Nat → State V → Option (Halt V)
  | 0, _ => none
  | n + 1, s =>
    match step I code s with
    | .go next => run I code n next
    | .halt h => some h

/-- The machine, started at the first instruction, stops in the given way. -/
def Stops (I : Interpretation V) (code : List Quadruple) (store : Store V) (h : Halt V) : Prop :=
  ∃ n, run I code n (.start store) = some h

end Machine

end ThreeAddress
