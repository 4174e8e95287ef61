import ThreeAddress.Proofs.Program.Acceptance
import ThreeAddress.Proofs.Program.Recovery

/-!
# Errors are met as early as possible

A declaration that fails at a token does so neither too late nor too early (`failed_earliest`).  The tokens before it
can still become a declaration, and with the token nothing behind it can help.

* `exists_readBehind_closings`: closing braces end a statement in any open blocks;
* `Pending.completable`: whatever has been read of a declaration, some tokens complete it;
* `Pending.read_of_take?`: the tokens that belong to a declaration are read whatever comes behind them.
-/

namespace ThreeAddress

/-! ### Tokens that complete a declaration -/

/-- A token that stands in no source. -/
def Token.unplaced (kind : Kind) (text : String) : Token := ⟨kind, text, 1, ⟨0, 0⟩⟩

/-- Tokens can come next that end the declaration, whatever end mark is behind them. -/
def Pending.Completable (d : Pending) : Prop :=
  ∃ more s, NoEnd more ∧ ∀ stop : Token, stop.reads "else" = false → d.read stop more = ⟨.ok s, []⟩

/-- As many closing braces as blocks are open. -/
def closings (blocks : List OpenBlock) : List Token := blocks.map fun _ => .unplaced .delimiter "\x7d"

private theorem noEnd_closings (blocks : List OpenBlock) : NoEnd (closings blocks) := by
  intro t ht
  obtain ⟨block, -, rfl⟩ := List.mem_map.1 ht
  rfl

private theorem noElse_closings (blocks : List OpenBlock) : NoElse (closings blocks) := by
  intro t ht
  obtain ⟨block, -, rfl⟩ := List.mem_map.1 (List.mem_of_mem_head? ht)
  rfl

/-- A block that is closed ends a statement, so that only the blocks around it are left to be closed. -/
private theorem Step.resume_closeBlock {outer : List OpenBlock}
    (houter : ∀ s, ∃ s', ∀ stop : Token, stop.reads "else" = false →
      readBehind stop outer s (closings outer) = ⟨.ok s', []⟩) (block : OpenBlock) (t : Token) :
    ∃ s', ∀ stop : Token, stop.reads "else" = false →
      (Step.closeBlock block outer).resume stop t (closings outer) = ⟨.ok s', []⟩ := by
  obtain ⟨head, read⟩ := block
  cases head with
  | thenOf cond line =>
    obtain ⟨s', hs'⟩ := houter (.ifThen cond read.reverse line)
    refine ⟨s', fun stop hstop => ?_⟩
    rw [← hs' stop hstop]
    exact Pending.read_afterThen (noElse_closings outer) hstop
  | elseOf cond body line => simpa [Step.closeBlock] using houter _
  | whileOf cond line => simpa [Step.closeBlock] using houter _
  | forOf init cond step line => simpa [Step.closeBlock] using houter _

theorem exists_readBehind_closings (blocks : List OpenBlock) (s : Stmt) :
    ∃ s', ∀ stop : Token, stop.reads "else" = false → readBehind stop blocks s (closings blocks) = ⟨.ok s', []⟩ := by
  induction blocks generalizing s with
  | nil => exact ⟨s, fun _ _ => rfl⟩
  | cons block outer ih =>
    obtain ⟨s', hs'⟩ := Step.resume_closeBlock ih ⟨block.head, s :: block.read⟩ (.unplaced .delimiter "\x7d")
    refine ⟨s', fun stop hstop => ?_⟩
    rw [← hs' stop hstop, readBehind, closings, List.map_cons, Pending.read_cons]
    rfl

namespace Pending

section Completable

variable {d next : Pending} {blocks : List OpenBlock}

theorem Completable.of_step (t : Token) (ht : t.isEnd = false) (hstep : d.step t = .more next)
    (h : next.Completable) : d.Completable := by
  obtain ⟨more, s, hend, hread⟩ := h
  refine ⟨t :: more, s, noEnd_cons.2 ⟨ht, hend⟩, fun stop hstop => ?_⟩
  rw [Pending.read_cons, hstep, Step.resume_more, hread stop hstop]

private theorem Completable.of_finish (t : Token) {s : Stmt} (ht : t.isEnd = false)
    (hstep : d.step t = .finish blocks s) : d.Completable := by
  obtain ⟨s', hs'⟩ := exists_readBehind_closings blocks s
  refine ⟨t :: closings blocks, s', noEnd_cons.2 ⟨ht, noEnd_closings blocks⟩, fun stop hstop => ?_⟩
  rw [Pending.read_cons, hstep, Step.resume_finish, hs' stop hstop]

/-! ### One phase after the other, from the end of a declaration to its beginning -/

private theorem completable_afterThen (cond : Expr) (body : List Stmt) (line : Nat) :
    Completable ⟨.afterThen cond body line, blocks⟩ := by
  obtain ⟨s', hs'⟩ := exists_readBehind_closings blocks (.ifThen cond body line)
  refine ⟨closings blocks, s', noEnd_closings blocks, fun stop hstop => ?_⟩
  rw [Pending.read_afterThen (noElse_closings blocks) hstop, hs' stop hstop]

private theorem completable_blockStart (head : BlockHead) : Completable ⟨.blockStart head, blocks⟩ := by
  refine .of_step (.unplaced .delimiter "\x7b") rfl rfl ?_
  obtain ⟨s', hs'⟩ := Step.resume_closeBlock (exists_readBehind_closings blocks) ⟨head, []⟩
    (.unplaced .delimiter "\x7d")
  refine ⟨closings (⟨head, []⟩ :: blocks), s', noEnd_closings _, fun stop hstop => ?_⟩
  rw [← hs' stop hstop, closings, List.map_cons, Pending.read_cons]
  rfl

private theorem completable_headerEnd (init : Assign) (cond : Expr) (step : Assign) (line : Nat) :
    Completable ⟨.headerEnd init cond step line, blocks⟩ :=
  .of_step (.unplaced .delimiter ")") rfl rfl (completable_blockStart _)

/-- An expression can be ended behind any of its terms. -/
def CompletableBehind (blocks : List OpenBlock) (role : ExprRole) : Prop :=
  ∀ before last, Completable ⟨.afterTerm role before last, blocks⟩

theorem CompletableBehind.term {role : ExprRole} (h : CompletableBehind blocks role) (before : Terms) :
    Completable ⟨.term role before, blocks⟩ :=
  .of_step (.unplaced .identifier "x") rfl rfl (h before _)

theorem CompletableBehind.equals {role : AssignRole} {target : String} {line : Nat}
    (h : CompletableBehind blocks (.assigned role target line)) : Completable ⟨.equals role target line, blocks⟩ :=
  .of_step (.unplaced .operator "=") rfl rfl (h.term [])

private theorem completable_target {role : AssignRole}
    (h : ∀ target line, CompletableBehind blocks (.assigned role target line)) :
    Completable ⟨.target role, blocks⟩ :=
  .of_step (.unplaced .identifier "x") rfl rfl (h _ _).equals

private theorem completableBehind_forStep (init : Assign) (cond : Expr) (line : Nat) (target : String) (line' : Nat) :
    CompletableBehind blocks (.assigned (.forStep init cond line) target line') := by
  intro before last
  exact .of_step (.unplaced .delimiter ";") rfl rfl (completable_headerEnd ..)

private theorem completableBehind_forCond (init : Assign) (line : Nat) :
    CompletableBehind blocks (.forCond init line) := by
  intro before last
  exact .of_step (.unplaced .delimiter ";") rfl rfl (completable_target (completableBehind_forStep init _ line))

private theorem completableBehind (role : ExprRole) : CompletableBehind blocks role := by
  intro before last
  cases role with
  | ifCond line => exact .of_step (.unplaced .delimiter ")") rfl rfl (completable_blockStart _)
  | whileCond line => exact .of_step (.unplaced .delimiter ")") rfl rfl (completable_blockStart _)
  | forCond init line => exact completableBehind_forCond init line before last
  | returned line => exact .of_finish (.unplaced .delimiter ";") rfl rfl
  | assigned role target line =>
    cases role with
    | statement => exact .of_finish (.unplaced .delimiter ";") rfl rfl
    | forInit line' =>
      exact .of_step (.unplaced .delimiter ";") rfl rfl ((completableBehind_forCond _ line').term [])
    | forStep init cond line' => exact completableBehind_forStep init cond line' target line before last

end Completable

/-- Whatever has been read of a declaration, some tokens complete it. -/
theorem completable (d : Pending) : d.Completable := by
  obtain ⟨phase, blocks⟩ := d
  cases phase with
  | declaration =>
    -- an assignment can come next in any block and outside of all blocks
    have hvalue : CompletableBehind blocks (.assigned .statement "x" 1) := completableBehind _
    refine .of_step (.unplaced .identifier "x") rfl ?_ hvalue.equals
    cases blocks <;> rfl
  | header keyword line =>
    cases keyword with
    | «if» => exact .of_step (.unplaced .delimiter "(") rfl rfl ((completableBehind _).term [])
    | «while» => exact .of_step (.unplaced .delimiter "(") rfl rfl ((completableBehind _).term [])
    | «for» => exact .of_step (.unplaced .delimiter "(") rfl rfl (completable_target fun _ _ => completableBehind _)
  | target role => exact completable_target fun _ _ => completableBehind _
  | equals role target line => exact (completableBehind _).equals
  | term role before => exact (completableBehind role).term before
  | afterTerm role before last => exact completableBehind role before last
  | returnValue line => exact .of_finish (.unplaced .delimiter ";") rfl rfl
  | headerEnd init cond step line => exact completable_headerEnd init cond step line
  | blockStart head => exact completable_blockStart head
  | afterThen cond body line => exact completable_afterThen cond body line

/-- The tokens that belong to a declaration are read, whatever is behind them. -/
theorem read_of_take? {d d' : Pending} {tokens : List Token} (h : d.take? tokens = some d') (stop : Token)
    (rest : List Token) : d.read stop (tokens ++ rest) = d'.read stop rest := by
  induction tokens generalizing d with
  | nil =>
    cases h
    rfl
  | cons t tokens ih =>
    rw [List.cons_append, Pending.read_cons]
    cases hstep : d.step t with
    | more next =>
      rw [take?, hstep] at h
      rw [Step.resume_more, ih h]
    | _ =>
      rw [take?, hstep] at h
      cases h

end Pending

/-! ### Declarations that fail -/

/-- Tokens that are read as a declaration, with none left, are a program of one statement. -/
private theorem parse_of_read {tokens : List Token} {s : Stmt} (hend : NoEnd tokens)
    (hread : Pending.start.read (.endAfter tokens) tokens = ⟨.ok s, []⟩) : parse tokens = ⟨[s], []⟩ := by
  rw [parse_eq hend]
  cases tokens with
  | nil => cases hread
  | cons t rest =>
    rw [readProgram_of_read hread, readProgram]
    rfl

/-- A declaration with the given tokens in front and the token `t` behind them fails at `t`, for the given cause, and
could not fail before it. -/
structure FailsEarliest (before : List Token) (t : Token) (cause : SyntaxCause) : Prop where
  /-- With some other tokens behind them, the tokens in front are one statement. -/
  completes : ∃ more s, parse (before ++ more) = ⟨[s], []⟩
  /-- Whatever comes behind the token, the declaration fails at it: all that is left is behind the token. -/
  fails : ∀ more : List Token, Pending.start.read (Input.ofTokens (before ++ t :: more)).stop
    (Input.ofTokens (before ++ t :: more)).tokens = ⟨.error (.at cause t), (Input.ofTokens more).tokens⟩

private theorem failsEarliest_of_step {before : List Token} {d : Pending} {t : Token} {cause : SyntaxCause}
    (hbefore : NoEnd before) (htake : Pending.start.take? before = some d) (ht : t.isEnd = false)
    (hstep : d.step t = .fail cause) : FailsEarliest before t cause := by
  constructor
  · obtain ⟨more, s, hmore, hread⟩ := d.completable
    refine ⟨more, s, parse_of_read (noEnd_append.2 ⟨hbefore, hmore⟩) ?_⟩
    rw [Pending.read_of_take? htake, hread _ (Token.endAfter_reads_else _)]
  · intro more
    have htokens : (Input.ofTokens (before ++ t :: more)).tokens = before ++ t :: (Input.ofTokens more).tokens := by
      have hpos : ∀ t ∈ before, (!t.isEnd) = true := by
        intro t ht
        simp [hbefore t ht]
      simp only [Input.ofTokens]
      rw [List.takeWhile_append_of_pos hpos, List.takeWhile_cons_of_pos (by simp [ht])]
    rw [htokens, Pending.read_of_take? htake, Pending.read_cons, hstep]
    rfl

/-- A declaration that begins at index `c` and fails at a token of the source, with index `p`, could not have failed
elsewhere: the tokens before can be completed, and no tokens behind it keep the declaration from failing there. -/
theorem failed_earliest {tokens : List Token} {c j p : Nat} {cause : SyntaxCause} {t : Token}
    (h : Attempt (Input.ofTokens tokens) c j (.failed p cause)) (hp : tokens[p]? = some t) (ht : t.isEnd = false) :
    Pending.start.read (Input.ofTokens tokens).stop ((Input.ofTokens tokens).from c).tokens =
        ⟨.error (.at cause t), ((Input.ofTokens tokens).from (p + 1)).tokens⟩ ∧
      FailsEarliest ((tokens.take p).drop c) t cause := by
  cases h with
  | failed hc hcp hpEnd hfails hread =>
    have hpEnd' : p ≤ tokens.findIdx Token.isEnd := by rwa [Input.ofTokens_length] at hpEnd
    have htoken : (Input.ofTokens tokens).tokenAt p = t := by
      rw [Input.tokenAt_ofTokens tokens hpEnd', hp, Option.getD_some]
    rw [htoken] at hread
    obtain ⟨d, htake, hstep⟩ := hfails
    rw [htoken] at hstep
    have hbefore : ((Input.ofTokens tokens).from c).tokens.take (p - c) = (tokens.take p).drop c := by
      rw [Input.from, Input.ofTokens_tokens, List.drop_take, List.take_take, List.drop_take,
        Nat.min_eq_left (by omega)]
    have hnoEnd : NoEnd ((tokens.take p).drop c) := by
      intro t ht
      rw [← hbefore] at ht
      have hmem : t ∈ tokens.takeWhile (!·.isEnd) := List.mem_of_mem_drop (List.mem_of_mem_take ht)
      simpa using List.mem_takeWhile_imp hmem
    rw [hbefore] at htake
    exact ⟨hread, failsEarliest_of_step hnoEnd htake ht hstep⟩

/-- The tokens of `) while (x) { y + 1; }`, of which the first is given up, and the loop at `+`. -/
theorem failed_earliest_loop :
    let token (kind : Kind) (lexeme : String) : Token := ⟨kind, lexeme, 1, ⟨0, 0⟩⟩
    let before := [token .keyword "while", token .delimiter "(", token .identifier "x", token .delimiter ")",
      token .delimiter "\x7b", token .identifier "y"]
    let tokens := token .delimiter ")" :: (before ++
      [token .operator "+", token .number "1", token .delimiter ";", token .delimiter "\x7d"])
    let cause := SyntaxCause.expected .operator "=" .operator "+"
    Attempt (Input.ofTokens tokens) 1 8 (.failed 7 cause) ∧ FailsEarliest before (token .operator "+") cause := by
  intro token before tokens cause
  have hfails : (Input.ofTokens tokens).FailsAt 1 7 cause := by
    refine ⟨⟨.equals .statement "y" 1, [⟨.whileOf (.leaf (.ident "x")) 1, []⟩]⟩, ?_, rfl⟩
    dsimp only [tokens, before, token]
    rfl
  have hattempt : Attempt (Input.ofTokens tokens) 1 8 (.failed 7 cause) := by
    refine .failed (by decide) (by decide) (by decide) hfails ?_
    dsimp only [tokens, before, token, cause]
    rfl
  exact ⟨hattempt, (failed_earliest hattempt rfl rfl).2⟩

end ThreeAddress
