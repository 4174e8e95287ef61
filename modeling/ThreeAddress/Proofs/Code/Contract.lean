import ThreeAddress.Proofs.Code.Execution

/-!
# Contracts of stretches of code

A stretch of code from one index to another implements a behaviour if the machine, started at the first index, does
what the behaviour says: it either arrives at the second index or stops at a return (`Machine.Implements`).  The
contract goes both ways, so it also says that the machine does nothing else.  Contracts are put together in the way
in which programs are.

* `Implements.seq`: one stretch after another;
* `Implements.branch`: a test before two stretches with the same end;
* `Implements.loop`: a test before a stretch that leads back to it.
-/

namespace ThreeAddress.Machine

universe u

variable {V : Type u} {I : Interpretation V} {code : List Quadruple}

/-! ### Runs of the machine -/

variable (I code) in
/-- Exactly `k` instructions lead from one state to another. -/
def Reaches : Nat → State V → State V → Prop
  | 0, s, t => s = t
  | k + 1, s, t => ∃ next, step I code s = .go next ∧ Reaches k next t

theorem Reaches.one {s t : State V} (h : step I code s = .go t) : Reaches I code 1 s t := ⟨t, h, rfl⟩

theorem Reaches.trans {k l : Nat} {s t u : State V} (hst : Reaches I code k s t) (htu : Reaches I code l t u) :
    Reaches I code (k + l) s u := by
  induction k generalizing s with
  | zero =>
    obtain rfl : s = t := hst
    rwa [Nat.zero_add]
  | succ k ih =>
    obtain ⟨next, hstep, hrest⟩ := hst
    rw [Nat.add_right_comm]
    exact ⟨next, hstep, ih hrest⟩

/-- The machine stops as it does from a state that it reaches, only later. -/
theorem Reaches.run_eq_some_iff {k : Nat} {s t : State V} (hst : Reaches I code k s t) {n : Nat} {h : Halt V} :
    run I code n s = some h ↔ ∃ m, n = m + k ∧ run I code m t = some h := by
  induction k generalizing s n with
  | zero =>
    obtain rfl : s = t := hst
    simp
  | succ k ih =>
    obtain ⟨next, hstep, hrest⟩ := hst
    cases n with
    | zero => simp [run]
    | succ n =>
      simp only [run, hstep, ih hrest]
      constructor
      · rintro ⟨m, rfl, hm⟩
        exact ⟨m, rfl, hm⟩
      · rintro ⟨m, hm, hrun⟩
        exact ⟨m, by omega, hrun⟩

/-! ### Contracts -/

variable (I code) in
/-- The machine gets to the given ending from a state; a stretch that finishes does so at index `stop`. -/
def Leads (stop : Nat) (s : State V) (ending : Ending V) (after : Store V) : Prop :=
  match ending with
  | .finished => ∃ k temps, Reaches I code k s ⟨stop, after, temps⟩
  | .returned value => ∃ n, run I code n s = some (.normal (.returned value) after)

private theorem Leads.of_reaches {k stop : Nat} {s t : State V} {ending : Ending V} {after : Store V}
    (hst : Reaches I code k s t) (ht : Leads I code stop t ending after) : Leads I code stop s ending after := by
  cases ending with
  | finished =>
    obtain ⟨l, temps, hreach⟩ := ht
    exact ⟨k + l, temps, hst.trans hreach⟩
  | returned value =>
    obtain ⟨n, hrun⟩ := ht
    exact ⟨n + k, hst.run_eq_some_iff.2 ⟨n, rfl, hrun⟩⟩

variable (I code) in
/-- The code from `start` to `stop` implements a behaviour. -/
structure Implements (start stop : Nat) (b : Behaviour V) : Prop where
  /-- What the behaviour says is done. -/
  leads {store after : Store V} {ending : Ending V} (temps : Temp → Option V) :
    b store ending after → Leads I code stop ⟨start, store, temps⟩ ending after
  /-- If the machine stops at all, then at a return of the behaviour or, no later than now, from where the behaviour
  finishes. -/
  stops {n : Nat} {store : Store V} {temps : Temp → Option V} {h : Halt V} :
    run I code n ⟨start, store, temps⟩ = some h →
      (∃ value after, b store (.returned value) after ∧ h = .normal (.returned value) after) ∨
      ∃ m after temps', m ≤ n ∧ b store .finished after ∧ run I code m ⟨stop, after, temps'⟩ = some h

variable (I code) in
/-- The code at `start` goes on at `yes` or at `no`, as the test says, and leaves the store as it is. -/
def Tests (start : Nat) (test : Store V → Bool) (yes no : Nat) : Prop :=
  ∀ store temps, ∃ k temps', 0 < k ∧
    Reaches I code k ⟨start, store, temps⟩ ⟨if test store then yes else no, store, temps'⟩

theorem Tests.of_step {start next yes no : Nat} {test : Store V → Bool}
    (hstep : ∀ store temps, step I code ⟨start, store, temps⟩ = .go ⟨next, store, temps⟩)
    (htest : Tests I code next test yes no) : Tests I code start test yes no := by
  intro store temps
  obtain ⟨k, temps', hpos, hk⟩ := htest store temps
  exact ⟨1 + k, temps', by omega, (Reaches.one (hstep store temps)).trans hk⟩

/-- Code that always gets to its end. -/
theorem Implements.change {start stop : Nat} {f : Store V → Store V}
    (h : ∀ store temps, ∃ k temps', Reaches I code k ⟨start, store, temps⟩ ⟨stop, f store, temps'⟩) :
    Implements I code start stop (.change f) where
  leads := by
    rintro store after ending temps ⟨rfl, rfl⟩
    obtain ⟨k, temps', hk⟩ := h store temps
    exact ⟨k, temps', hk⟩
  stops := by
    intro n store temps halt hrun
    obtain ⟨k, temps', hk⟩ := h store temps
    obtain ⟨m, hm, hrest⟩ := hk.run_eq_some_iff.1 hrun
    exact Or.inr ⟨m, f store, temps', by omega, ⟨rfl, rfl⟩, hrest⟩

/-- Code that always gets to a return. -/
theorem Implements.ret {start : Nat} (stop : Nat) {value : Store V → Option V}
    (h : ∀ store temps, ∃ k t, Reaches I code k ⟨start, store, temps⟩ t ∧
      step I code t = .halt (.normal (.returned (value store)) store)) :
    Implements I code start stop (fun store ending after => ending = .returned (value store) ∧ after = store) where
  leads := by
    rintro store after ending temps ⟨rfl, rfl⟩
    obtain ⟨k, t, hk, hstep⟩ := h after temps
    exact ⟨1 + k, hk.run_eq_some_iff.2 ⟨1, rfl, by simp [run, hstep]⟩⟩
  stops := by
    intro n store temps halt hrun
    obtain ⟨k, t, hk, hstep⟩ := h store temps
    obtain ⟨m, -, hrest⟩ := hk.run_eq_some_iff.1 hrun
    cases m with
    | zero => cases hrest
    | succ m =>
      simp only [run, hstep, Option.some.injEq] at hrest
      exact Or.inl ⟨value store, store, ⟨rfl, rfl⟩, hrest.symm⟩

theorem Implements.seq {start between stop : Nat} {first second : Behaviour V}
    (hfirst : Implements I code start between first) (hsecond : Implements I code between stop second) :
    Implements I code start stop (first.Then second) where
  leads := by
    intro store after ending temps hb
    cases hb with
    | next h₁ h₂ =>
      obtain ⟨k, temps', hk⟩ := hfirst.leads temps h₁
      exact (hsecond.leads temps' h₂).of_reaches hk
    | ret h₁ => exact hfirst.leads temps h₁
  stops := by
    intro n store temps halt hrun
    rcases hfirst.stops hrun with ⟨value, after, h₁, rfl⟩ | ⟨m, middle, temps', hmn, h₁, hm⟩
    · exact Or.inl ⟨value, after, .ret h₁, rfl⟩
    · rcases hsecond.stops hm with ⟨value, after, h₂, rfl⟩ | ⟨l, after, temps'', hlm, h₂, hl⟩
      · exact Or.inl ⟨value, after, .next h₁ h₂, rfl⟩
      · exact Or.inr ⟨l, after, temps'', by omega, .next h₁ h₂, hl⟩

/-- Code that goes on elsewhere leaves the contract as it is. -/
theorem Implements.seq_skip {start between stop : Nat} {b : Behaviour V} (h : Implements I code start between b)
    (hskip : Implements I code between stop (.change id)) : Implements I code start stop b := by
  have hboth := h.seq hskip
  rwa [Behaviour.then_change_id] at hboth

/-- Code that comes from elsewhere leaves the contract as it is. -/
theorem Implements.skip_seq {start between stop : Nat} {b : Behaviour V}
    (hskip : Implements I code start between (.change id)) (h : Implements I code between stop b) :
    Implements I code start stop b := by
  have hboth := hskip.seq h
  rwa [Behaviour.change_id_then] at hboth

theorem Implements.branch {start yes no stop : Nat} {test : Store V → Bool} {b c : Behaviour V}
    (htest : Tests I code start test yes no) (hyes : Implements I code yes stop b)
    (hno : Implements I code no stop c) : Implements I code start stop (.choose test b c) where
  leads := by
    intro store after ending temps hb
    obtain ⟨k, temps', -, hk⟩ := htest store temps
    cases ht : test store with
    | true =>
      simp only [Behaviour.choose, ht, if_true] at hb hk
      exact (hyes.leads temps' hb).of_reaches hk
    | false =>
      simp only [Behaviour.choose, ht, Bool.false_eq_true, if_false] at hb hk
      exact (hno.leads temps' hb).of_reaches hk
  stops := by
    intro n store temps halt hrun
    obtain ⟨k, temps', -, hk⟩ := htest store temps
    obtain ⟨m, hm, hrest⟩ := hk.run_eq_some_iff.1 hrun
    cases ht : test store with
    | true =>
      simp only [Behaviour.choose, ht, if_true] at hrest ⊢
      rcases hyes.stops hrest with h | ⟨l, after, temps'', hlm, h, hl⟩
      · exact Or.inl h
      · exact Or.inr ⟨l, after, temps'', by omega, h, hl⟩
    | false =>
      simp only [Behaviour.choose, ht, Bool.false_eq_true, if_false] at hrest ⊢
      rcases hno.stops hrest with h | ⟨l, after, temps'', hlm, h, hl⟩
      · exact Or.inl h
      · exact Or.inr ⟨l, after, temps'', by omega, h, hl⟩

theorem Implements.loop {start body stop : Nat} {test : Store V → Bool} {b : Behaviour V}
    (htest : Tests I code start test body stop) (hbody : Implements I code body start b) :
    Implements I code start stop (.Loop test b) where
  leads := by
    intro store after ending temps hb
    induction hb generalizing temps with
    | @leave store ht =>
      obtain ⟨k, temps', -, hk⟩ := htest store temps
      rw [ht] at hk
      exact ⟨k, temps', hk⟩
    | @again store _ _ _ ht hround _ ih =>
      obtain ⟨k, temps', -, hk⟩ := htest store temps
      rw [ht] at hk
      obtain ⟨l, temps'', hl⟩ := hbody.leads temps' hround
      exact ((ih temps'').of_reaches hl).of_reaches hk
    | @ret store _ _ ht hround =>
      obtain ⟨k, temps', -, hk⟩ := htest store temps
      rw [ht] at hk
      exact (hbody.leads temps' hround).of_reaches hk
  stops := by
    -- every round takes at least the test, so the number of steps left bounds the number of rounds
    intro n
    induction n using Nat.strongRecOn with
    | ind n ih =>
      intro store temps halt hrun
      obtain ⟨k, temps', hpos, hk⟩ := htest store temps
      obtain ⟨m, rfl, hrest⟩ := hk.run_eq_some_iff.1 hrun
      cases ht : test store with
      | false =>
        rw [ht] at hrest
        exact Or.inr ⟨m, store, temps', by omega, .leave ht, hrest⟩
      | true =>
        rw [ht] at hrest
        rcases hbody.stops hrest with ⟨value, after, hround, rfl⟩ | ⟨l, middle, temps'', hlm, hround, hl⟩
        · exact Or.inl ⟨value, after, .ret ht hround, rfl⟩
        · rcases ih l (by omega) hl with ⟨value, after, hloop, rfl⟩ | ⟨j, after, temps''', hjl, hloop, hj⟩
          · exact Or.inl ⟨value, after, .again ht hround hloop, rfl⟩
          · exact Or.inr ⟨j, after, temps''', by omega, .again ht hround hloop, hj⟩

end ThreeAddress.Machine
