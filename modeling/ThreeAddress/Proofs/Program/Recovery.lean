import ThreeAddress.Proofs.Program.Reading
import ThreeAddress.Proofs.Token.Partition

/-!
# Recovery from errors

Reading goes through its input without leaving out or repeating a token: every token belongs to one declaration, which
is read as a statement or given up at its last token (`parse_accounts`).

* `Attempt`: what one declaration does to the index of the next token;
* `Trail`: declarations one after the other;
* `Input.exists_attempt`: one step of reading, `Input.exists_trail` and `Trail.parse_eq`: the whole run;
* `Trail.pairwise_failures`: an error is met behind all errors before it.
-/

namespace ThreeAddress

/-! ### One declaration -/

/-- The declaration behind tokens that all belong to it, if they do. -/
def Pending.take? (d : Pending) : List Token → Option Pending
  | [] => some d
  | t :: rest =>
    match d.step t with
    | .more d => d.take? rest
    | _ => none

/-- The input with only the tokens from an index on. -/
def Input.from (input : Input) (i : Nat) : Input := { input with tokens := input.tokens.drop i }

/-- The token at an index, and the end mark behind all of them. -/
def Input.tokenAt (input : Input) (i : Nat) : Token := input.tokens[i]?.getD input.stop

/-- A declaration that begins at index `i` takes the tokens before index `p` and cannot go on at the one there. -/
def Input.FailsAt (input : Input) (i p : Nat) (cause : SyntaxCause) : Prop :=
  ∃ d, Pending.start.take? ((input.from i).tokens.take (p - i)) = some d ∧ d.step (input.tokenAt p) = .fail cause

/-- What becomes of a declaration. -/
inductive Fate where
  | read (s : Stmt)
  /-- It fails at the token at an index. -/
  | failed (position : Nat) (cause : SyntaxCause)

/-- A declaration that begins at index `i`, up to the index of the token behind it. -/
inductive Attempt (input : Input) (i : Nat) : Nat → Fate → Prop
  /-- It is read and takes exactly the tokens before index `j`. -/
  | read {j : Nat} {s : Stmt} (hij : i < j) (hj : j ≤ input.tokens.length)
    (hread : Pending.start.read input.stop (input.from i).tokens = ⟨.ok s, (input.from j).tokens⟩) :
    Attempt input i j (.read s)
  /-- It fails at a token, which is the last one that it takes, or at the end mark. -/
  | failed {p : Nat} {cause : SyntaxCause} (hi : i < input.tokens.length) (hip : i ≤ p)
    (hp : p ≤ input.tokens.length) (hfails : input.FailsAt i p cause)
    (hread : Pending.start.read input.stop (input.from i).tokens =
      ⟨.error (.at cause (input.tokenAt p)), (input.from (p + 1)).tokens⟩) :
    Attempt input i (min (p + 1) input.tokens.length) (.failed p cause)

private theorem Attempt.lt {input : Input} {i j : Nat} {fate : Fate} (h : Attempt input i j fate) :
    i < j ∧ j ≤ input.tokens.length := by
  cases h with
  | read hij hj => exact ⟨hij, hj⟩
  | failed hi hip => omega

/-- How the reading of a declaration ends: it is read, or it fails at a token or at the end mark. -/
private theorem Pending.read_cases {stop : Token} (hstop : stop.kind = .endOfInput) (d : Pending) (ts : List Token) :
    (∃ s, ∃ k ≤ ts.length, d.read stop ts = ⟨.ok s, ts.drop k⟩) ∨
    ∃ d' cause, ∃ k ≤ ts.length, d.take? (ts.take k) = some d' ∧ d'.step (ts[k]?.getD stop) = .fail cause ∧
      d.read stop ts = ⟨.error (.at cause (ts[k]?.getD stop)), ts.drop (k + 1)⟩ := by
  induction ts generalizing d with
  | nil =>
    rcases d.step_end hstop with ⟨cause, hstep⟩ | ⟨s, hstep⟩
    · exact Or.inr ⟨d, cause, 0, Nat.le_refl 0, rfl, hstep, by rw [Pending.read, hstep]; rfl⟩
    · exact Or.inl ⟨s, 0, Nat.le_refl 0, by rw [Pending.read, hstep]; rfl⟩
  | cons t ts ih =>
    rw [Pending.read_cons]
    cases hstep : d.step t with
    | done s => exact Or.inl ⟨s, 1, by simp, rfl⟩
    | doneBefore s => exact Or.inl ⟨s, 0, by simp, rfl⟩
    | fail cause => exact Or.inr ⟨d, cause, 0, by simp, rfl, hstep, rfl⟩
    | more next =>
      -- the token belongs to the declaration, so the index moves on by one
      rw [Step.resume_more]
      rcases ih next with ⟨s, k, hk, hread⟩ | ⟨d', cause, k, hk, htake, hfail, hread⟩
      · exact Or.inl ⟨s, k + 1, by simpa using hk, hread⟩
      · refine Or.inr ⟨d', cause, k + 1, by simpa using hk, ?_, ?_, ?_⟩
        · rw [List.take_succ_cons, Pending.take?, hstep]
          exact htake
        · simpa using hfail
        · simpa using hread

theorem Input.exists_attempt {input : Input} (hstop : input.stop.kind = .endOfInput) {i : Nat}
    (hi : i < input.tokens.length) : ∃ j fate, Attempt input i j fate := by
  have hlength : (input.from i).tokens.length = input.tokens.length - i := List.length_drop
  have hfrom : ∀ k, (input.from i).tokens.drop k = (input.from (i + k)).tokens := by
    intro k
    exact List.drop_drop
  have htoken : ∀ k, (input.from i).tokens[k]?.getD input.stop = input.tokenAt (i + k) := by
    intro k
    rw [Input.tokenAt, Input.from, List.getElem?_drop]
  rcases Pending.read_cases hstop .start (input.from i).tokens with
    ⟨s, k, hk, hread⟩ | ⟨d, cause, k, hk, htake, hfail, hread⟩
  · -- a declaration that is read has taken a token
    have hpos : 0 < k := by
      obtain ⟨t, rest, hcons⟩ := List.exists_cons_of_length_pos (l := (input.from i).tokens) (by omega)
      have hrest := Pending.length_rest_start input.stop t rest
      rw [← hcons, hread, List.length_drop, hcons, List.length_cons] at hrest
      omega
    rw [hfrom] at hread
    exact ⟨i + k, _, .read (by omega) (by omega) hread⟩
  · rw [htoken] at hfail hread
    rw [hfrom, ← Nat.add_assoc] at hread
    have hk' : i + k - i = k := Nat.add_sub_cancel_left i k
    exact ⟨_, _, .failed hi (Nat.le_add_right i k) (by omega) ⟨d, by rwa [hk'], hfail⟩ hread⟩

/-! ### All declarations -/

/-- Declarations one after the other, from one index to another. -/
inductive Trail (input : Input) : Nat → List Fate → Nat → Prop
  | refl (i : Nat) : Trail input i [] i
  | cons {i j k : Nat} {fate : Fate} {fates : List Fate} (hfirst : Attempt input i j fate)
    (hrest : Trail input j fates k) : Trail input i (fate :: fates) k

def Fate.stmt? : Fate → Option Stmt
  | read s => some s
  | failed _ _ => none

/-- A place at which a declaration fails, and the cause. -/
structure FailurePoint where
  position : Nat
  cause : SyntaxCause

def Fate.failure? : Fate → Option FailurePoint
  | read _ => none
  | failed position cause => some ⟨position, cause⟩

/-- The error of a declaration that fails at a point of a list of tokens.  It is on the line and at the span of the
token there.  Behind all tokens it is on the line of the last one and at the empty span at its end, or at the beginning
if there is none. -/
def FailurePoint.errorIn (tokens : List Token) (f : FailurePoint) : SyntaxError :=
  match tokens[f.position]?, tokens.getLast? with
  | some t, _ => ⟨f.cause, t.line, t.span⟩
  | none, some last => ⟨f.cause, last.line, ⟨last.span.stop, last.span.stop⟩⟩
  | none, none => ⟨f.cause, 1, ⟨0, 0⟩⟩

/-- Where declarations fail, in their order. -/
def failures (fates : List Fate) : List FailurePoint := fates.filterMap Fate.failure?

/-- The program that declarations make up, with its errors. -/
def Input.parsed (input : Input) (fates : List Fate) : Parsed where
  program := fates.filterMap Fate.stmt?
  errors := (failures fates).map fun f => .at f.cause (input.tokenAt f.position)

/-- Reading goes on behind each declaration, with what is left of the input. -/
private theorem Input.parse_from {input : Input} {i j : Nat} {result : Except SyntaxError Stmt}
    (hi : i < input.tokens.length)
    (hread : Pending.start.read input.stop (input.from i).tokens = ⟨result, (input.from j).tokens⟩) :
    (input.from i).parse = ((input.from j).parse.1.cons result, (input.from j).parse.2) := by
  have hlength : 0 < (input.from i).tokens.length := by
    rw [Input.from, List.length_drop]
    omega
  obtain ⟨t, rest, hcons⟩ := List.exists_cons_of_length_pos hlength
  have hbehind : readProgram input.stop (input.from i).tokens =
      ((readProgram input.stop (input.from j).tokens).1.cons result,
        (readProgram input.stop (input.from j).tokens).2) := by
    rw [hcons] at hread ⊢
    exact readProgram_of_read hread
  have hstop : ∀ k, (input.from k).stop = input.stop := fun _ => rfl
  rw [Input.parse, hstop, hbehind]
  rfl

theorem Attempt.parse_eq {input : Input} {i j : Nat} {fate : Fate} (h : Attempt input i j fate)
    {fates : List Fate} {left : Input} (hrest : (input.from j).parse = (input.parsed fates, left)) :
    (input.from i).parse = (input.parsed (fate :: fates), left) := by
  cases h with
  | read hij hj hread =>
    rw [Input.parse_from (by omega) hread, hrest]
    rfl
  | @failed p cause hi hip hp hfails hread =>
    have hnext : (input.from (p + 1)).tokens = (input.from (min (p + 1) input.tokens.length)).tokens := by
      simp only [Input.from, List.drop_eq_drop_iff]
      omega
    rw [hnext] at hread
    rw [Input.parse_from hi hread, hrest]
    rfl

/-- From any token on, declarations are read or fail up to the end mark. -/
theorem Input.exists_trail {input : Input} (hstop : input.stop.kind = .endOfInput) {i : Nat}
    (hi : i ≤ input.tokens.length) : ∃ fates, Trail input i fates input.tokens.length := by
  -- on the number of tokens left: a declaration takes one or more
  induction hn : input.tokens.length - i using Nat.strongRecOn generalizing i with
  | ind n ih =>
    by_cases hend : i = input.tokens.length
    · subst hend
      exact ⟨[], .refl _⟩
    · obtain ⟨j, fate, hfirst⟩ := exists_attempt hstop (show i < input.tokens.length by omega)
      have hlt := hfirst.lt
      obtain ⟨fates, hrest⟩ := ih (input.tokens.length - j) (by omega) hlt.2 rfl
      exact ⟨fate :: fates, .cons hfirst hrest⟩

/-- Declarations that follow one another up to the end mark are what is read. -/
theorem Trail.parse_eq {input : Input} {i k : Nat} {fates : List Fate} (h : Trail input i fates k)
    (hk : k = input.tokens.length) :
    (input.from i).parse = (input.parsed fates, input.from input.tokens.length) := by
  induction h with
  | refl i =>
    subst hk
    simp [Input.parse, Input.from, readProgram, Input.parsed, failures]
  | cons hfirst hrest ih => exact hfirst.parse_eq (ih hk)

/-! ### Where declarations fail -/

/-- A declaration fails before the next one begins, or at the end mark. -/
theorem Attempt.failure_bounds {input : Input} {i j : Nat} {fate : Fate} (h : Attempt input i j fate)
    {f : FailurePoint} (hf : fate.failure? = some f) :
    i ≤ f.position ∧ f.position ≤ input.tokens.length ∧ (f.position < j ∨ j = input.tokens.length) := by
  cases h with
  | read hij hj hread => cases hf
  | failed hi hip hp hfails hread =>
    cases hf
    refine ⟨hip, hp, ?_⟩
    dsimp only
    omega

@[simp] theorem failures_cons (fate : Fate) (fates : List Fate) :
    failures (fate :: fates) = fate.failure?.toList ++ failures fates := by
  cases fate <;> rfl

namespace Trail

variable {input : Input} {i k : Nat} {fates : List Fate}

theorem failure_bounds (h : Trail input i fates k) :
    ∀ f ∈ failures fates, i ≤ f.position ∧ f.position ≤ input.tokens.length := by
  induction h with
  | refl i =>
    intro f hf
    cases hf
  | cons hfirst hrest ih =>
    intro f hf
    rw [failures_cons, List.mem_append, Option.mem_toList] at hf
    have hlt := hfirst.lt
    rcases hf with hf | hf
    · have hbounds := hfirst.failure_bounds hf
      omega
    · have hbounds := ih f hf
      omega

theorem eq_nil_of_end (h : Trail input input.tokens.length fates k) : fates = [] := by
  cases h with
  | refl => rfl
  | cons hfirst hrest =>
    have hlt := hfirst.lt
    omega

/-- Each declaration that fails does so behind those before it. -/
theorem pairwise_failures (h : Trail input i fates k) :
    ((failures fates).map FailurePoint.position).Pairwise (· < ·) := by
  induction h with
  | refl i => exact List.Pairwise.nil
  | @cons i j k fate fates hfirst hrest ih =>
    rw [failures_cons, List.map_append, List.pairwise_append]
    refine ⟨?_, ih, ?_⟩
    · cases fate.failure? <;> simp
    · intro p hp q hq
      obtain ⟨f, hf, rfl⟩ := List.mem_map.1 hp
      obtain ⟨g, hg, rfl⟩ := List.mem_map.1 hq
      obtain ⟨-, -, hbefore | rfl⟩ := hfirst.failure_bounds (Option.mem_toList.1 hf)
      · have hbounds := hrest.failure_bounds g hg
        omega
      · rw [hrest.eq_nil_of_end] at hg
        cases hg

private theorem position_lt_of_mem_dropLast (h : Trail input i fates k) :
    ∀ f ∈ (failures fates).dropLast, f.position < input.tokens.length := by
  intro f hf
  have hne : failures fates ≠ [] := by
    intro hnil
    rw [hnil] at hf
    cases hf
  have hpairwise := List.pairwise_map.1 h.pairwise_failures
  rw [← List.dropLast_concat_getLast hne, List.pairwise_append] at hpairwise
  have hlast := hpairwise.2.2 f hf _ (List.mem_singleton_self _)
  have hbound := h.failure_bounds _ (List.getLast_mem hne)
  omega

end Trail

/-! ### Lists of tokens -/

section Tokens

variable (tokens : List Token)

theorem Input.ofTokens_tokens : (Input.ofTokens tokens).tokens = tokens.take (tokens.findIdx Token.isEnd) := by
  rw [Input.ofTokens, List.takeWhile_eq_take_findIdx_not]
  simp only [Bool.not_not]

theorem Input.ofTokens_length : (Input.ofTokens tokens).tokens.length = tokens.findIdx Token.isEnd := by
  rw [ofTokens_tokens, List.length_take, Nat.min_eq_left List.findIdx_le_length]

theorem Input.ofTokens_stop : (Input.ofTokens tokens).stop.kind = .endOfInput := by
  rw [Input.ofTokens]
  cases hfind : tokens.find? Token.isEnd with
  | some t => simpa [Token.isEnd] using List.find?_some hfind
  | none =>
    rw [Option.getD_none, Token.endAfter]
    split <;> rfl

private theorem FailurePoint.errorIn_eq (f : FailurePoint) :
    f.errorIn tokens = .at f.cause (tokens[f.position]?.getD (.endAfter tokens)) := by
  rw [errorIn, Token.endAfter]
  cases tokens[f.position]? with
  | some t => rfl
  | none => cases tokens.getLast? <;> rfl

@[simp] theorem FailurePoint.cause_errorIn (f : FailurePoint) : (f.errorIn tokens).cause = f.cause := by
  rw [errorIn_eq]
  rfl

theorem Input.tokenAt_ofTokens {i : Nat} (hi : i ≤ tokens.findIdx Token.isEnd) :
    (Input.ofTokens tokens).tokenAt i = tokens[i]?.getD (.endAfter tokens) := by
  rw [tokenAt, ofTokens_tokens, List.getElem?_take]
  split
  · rename_i hlt
    have hlength : i < tokens.length := Nat.lt_of_lt_of_le hlt List.findIdx_le_length
    rw [List.getElem?_eq_getElem hlength, Option.getD_some, Option.getD_some]
  · obtain rfl : i = tokens.findIdx Token.isEnd := by omega
    rw [Option.getD_none, Input.ofTokens, List.find?_eq_getElem?_findIdx]

/-- Declarations that take each token of a list up to its first end mark exactly once. -/
structure Accounts (fates : List Fate) : Prop where
  /-- The declarations follow one another from the first token to the end mark. -/
  trail : Trail (Input.ofTokens tokens) 0 fates (tokens.findIdx Token.isEnd)
  /-- The program is made of those that are read. -/
  program : (parse tokens).program = fates.filterMap Fate.stmt?
  /-- The errors are those of the others, each on the line and at the span of the token at which it is met. -/
  errors : (parse tokens).errors = (failures fates).map (·.errorIn tokens)
  /-- Only the end mark is left of the input. -/
  left : (Input.ofTokens tokens).parse.2 = (Input.ofTokens tokens).from (tokens.findIdx Token.isEnd)
  /-- What is left gives neither a statement nor an error. -/
  left_parse : (Input.ofTokens tokens).parse.2.parse = ({}, (Input.ofTokens tokens).parse.2)
  /-- Errors are met one behind the other. -/
  increasing : ((failures fates).map FailurePoint.position).Pairwise (· < ·)
  /-- Only the last error may be met at the end mark. -/
  before_end : ∀ f ∈ (failures fates).dropLast, f.position < tokens.findIdx Token.isEnd

theorem accounts_of_trail {fates : List Fate}
    (htrail : Trail (Input.ofTokens tokens) 0 fates (tokens.findIdx Token.isEnd)) : Accounts tokens fates := by
  have hlength := Input.ofTokens_length tokens
  have hparse := htrail.parse_eq hlength.symm
  have hparsed : parse tokens = (Input.ofTokens tokens).parsed fates := congrArg Prod.fst hparse
  have hleft : (Input.ofTokens tokens).parse.2 = (Input.ofTokens tokens).from (tokens.findIdx Token.isEnd) := by
    rw [← hlength]
    exact congrArg Prod.snd hparse
  refine ⟨htrail, ?_, ?_, ?_, ?_, htrail.pairwise_failures, ?_⟩
  · rw [hparsed]
    rfl
  · rw [hparsed]
    refine List.map_congr_left ?_
    intro f hf
    have hbounds := htrail.failure_bounds f hf
    rw [Input.tokenAt_ofTokens tokens (by omega), FailurePoint.errorIn_eq]
  · exact hleft
  · -- no token is left behind the last one
    rw [hleft]
    simp [Input.parse, Input.from, ← hlength, readProgram]
  · rw [← hlength]
    exact htrail.position_lt_of_mem_dropLast

theorem exists_accounts : ∃ fates, Accounts tokens fates := by
  obtain ⟨fates, htrail⟩ := Input.exists_trail (Input.ofTokens_stop tokens) (Nat.zero_le _)
  rw [Input.ofTokens_length] at htrail
  exact ⟨fates, accounts_of_trail tokens htrail⟩

end Tokens

/-! ### Sources -/

/-- A source has an end mark, so an error is met at one of its tokens. -/
private theorem Accounts.position_lt {source : String} {fates : List Fate} (h : Accounts (tokenize source) fates)
    {f : FailurePoint} (hf : f ∈ failures fates) : f.position < (tokenize source).length := by
  have hend : (tokenize source).findIdx Token.isEnd < (tokenize source).length := by
    obtain ⟨front, line, htokens, -⟩ := (laid_tokenize source).ends (List.nil_append _)
    rw [List.findIdx_lt_length, htokens]
    exact ⟨_, List.mem_append_right _ (List.mem_singleton_self _), rfl⟩
  have hbounds := h.trail.failure_bounds f hf
  rw [Input.ofTokens_length] at hbounds
  omega

theorem errorIn_of_lt {tokens : List Token} {f : FailurePoint} (hf : f.position < tokens.length) :
    f.errorIn tokens = ⟨f.cause, tokens[f.position].line, tokens[f.position].span⟩ := by
  rw [FailurePoint.errorIn, List.getElem?_eq_getElem hf]

private theorem pairwise_errors_start (source : String) :
    ((parse (tokenize source)).errors.map (·.span.start)).Pairwise (· < ·) := by
  obtain ⟨fates, h⟩ := exists_accounts (tokenize source)
  have hstarts := List.pairwise_iff_getElem.1 (laid_tokenize source).pairwise_start.2
  rw [h.errors, List.map_map, List.pairwise_map]
  refine (List.pairwise_map.1 h.increasing).imp_of_mem ?_
  intro f g hf hg hfg
  have hf' := h.position_lt hf
  have hg' := h.position_lt hg
  have hlt := hstarts f.position g.position hf' hg' hfg
  simpa [errorIn_of_lt hf', errorIn_of_lt hg'] using hlt

theorem exists_token_of_mem_errors {source : String} {e : SyntaxError} (he : e ∈ (parse (tokenize source)).errors) :
    ∃ cause, ∃ t ∈ tokenize source, e = .at cause t := by
  obtain ⟨fates, h⟩ := exists_accounts (tokenize source)
  rw [h.errors] at he
  obtain ⟨f, hf, rfl⟩ := List.mem_map.1 he
  have hlt := h.position_lt hf
  exact ⟨f.cause, _, List.getElem_mem hlt, errorIn_of_lt hlt⟩

/-- Reading takes each token up to the end mark once, in declarations that are read or fail at their last token, and
the errors of a source begin one behind the other. -/
theorem parse_accounts :
    (∀ tokens : List Token, ∃ fates, Accounts tokens fates) ∧
      ∀ source : String, ((parse (tokenize source)).errors.map (·.span.start)).Pairwise (· < ·) :=
  ⟨exists_accounts, pairwise_errors_start⟩

end ThreeAddress
