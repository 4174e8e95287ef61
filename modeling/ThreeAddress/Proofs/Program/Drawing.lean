import ThreeAddress.Program.Tree
import ThreeAddress.Proofs.Code.Bare
import ThreeAddress.Proofs.Text

/-!
# What a drawing tells about its program

The drawing of a program determines it but for the lines and the kinds of its leaves, whatever its names, operators
and literals look like, if none of them holds the end of a line (`drawProgram_eq_iff`).

* `Stmt.plain`: what is left of a statement;
* `lines_inj`: a drawing determines its lines;
* `drawnAll_eq_of_branchLines`: the lines determine the tree, since the branches before a text tell it apart from the
  texts of the nodes above, beside and below it;
* `Stmt.plain_eq_of_tree`: the tree determines the statement.
-/

namespace ThreeAddress

/-! ### Plain programs -/

/-- The assignment without its line, and with every leaf replaced by its text. -/
def Assign.plain (a : Assign) : Assign := ⟨a.target, a.value.bare.toExpr, 0⟩

mutual

/-- The statement without lines, and with every leaf replaced by its text. -/
def Stmt.plain : Stmt → Stmt
  | .assign a => .assign a.plain
  | .ifThen cond body _ => .ifThen cond.bare.toExpr (plainAll body) 0
  | .ifElse cond body other _ => .ifElse cond.bare.toExpr (plainAll body) (plainAll other) 0
  | .while cond body _ => .while cond.bare.toExpr (plainAll body) 0
  | .for init cond step body _ => .for init.plain cond.bare.toExpr step.plain (plainAll body) 0
  | .ret value _ => .ret (value.map fun e => e.bare.toExpr) 0

/-- Consecutive statements without lines, and with every leaf replaced by its text. -/
def plainAll : List Stmt → List Stmt
  | [] => []
  | s :: rest => s.plain :: plainAll rest

end

@[simp] theorem Expr.tree_plain (e : Expr) : e.bare.toExpr.tree = e.tree := by
  induction e with
  | leaf l => rfl
  | binary op lhs rhs ihl ihr => simp [Expr.bare, BareExpr.toExpr, Expr.tree, ihl, ihr]

@[simp] theorem Assign.tree_plain (a : Assign) : a.plain.tree = a.tree := by
  simp [Assign.plain, Assign.tree]

mutual

private theorem Stmt.tree_plain (s : Stmt) : s.plain.tree = s.tree := by
  match s with
  | .assign a => simp [Stmt.plain, Stmt.tree]
  | .ifThen cond body _ => simp [Stmt.plain, Stmt.tree, stmtTrees_plainAll body]
  | .ifElse cond body other _ =>
    simp [Stmt.plain, Stmt.tree, stmtTrees_plainAll body, stmtTrees_plainAll other]
  | .while cond body _ => simp [Stmt.plain, Stmt.tree, stmtTrees_plainAll body]
  | .for init cond step body _ => simp [Stmt.plain, Stmt.tree, stmtTrees_plainAll body]
  | .ret none _ => rfl
  | .ret (some value) _ => simp [Stmt.plain, Stmt.tree]

/-- A program has the tree of its plain form. -/
private theorem stmtTrees_plainAll (program : List Stmt) : stmtTrees (plainAll program) = stmtTrees program := by
  match program with
  | [] => rfl
  | s :: rest => rw [plainAll, stmtTrees, stmtTrees, s.tree_plain, stmtTrees_plainAll rest]

end

/-! ### Lines -/

theorem lines_inj {lines lines' : List String} (h : ∀ line ∈ lines, '\n' ∉ line.toList)
    (h' : ∀ line ∈ lines', '\n' ∉ line.toList) (htext : linesText lines = linesText lines') : lines = lines' := by
  have hsplit := splitOn_linesText h
  rw [htext, splitOn_linesText h'] at hsplit
  have hchars : lines'.map String.toList = lines.map String.toList := List.append_cancel_right hsplit
  exact (List.map_injective_iff.2 (fun _ _ => String.toList_inj.1) hchars).symm

mutual

/-- The labels of all nodes of a tree. -/
def Tree.labels : Tree → List String
  | .node caption children => caption.label :: labelsAll children

def labelsAll : List Tree → List String
  | [] => []
  | tree :: rest => tree.labels ++ labelsAll rest

end

private theorem mem_hang {first others line : String} {lines : List String} (h : line ∈ hang first others lines) :
    ∃ l ∈ lines, line = first ++ l ∨ line = others ++ l := by
  cases lines with
  | nil => cases h
  | cons l lines =>
    rcases List.mem_cons.1 h with rfl | h
    · exact ⟨l, List.mem_cons_self, Or.inl rfl⟩
    · obtain ⟨m, hm, rfl⟩ := List.mem_map.1 h
      exact ⟨m, List.mem_cons_of_mem l hm, Or.inr rfl⟩

private theorem newline_notMem_drawn {caption : Caption} (h : '\n' ∉ caption.label.toList) :
    '\n' ∉ caption.drawn.toList := by
  cases caption with
  | root => decide
  | block => decide
  | word text => exact h

private theorem newline_notMem_hang {first others : String} {lines : List String} (hfirst : '\n' ∉ first.toList)
    (hothers : '\n' ∉ others.toList) (h : ∀ line ∈ lines, '\n' ∉ line.toList) :
    ∀ line ∈ hang first others lines, '\n' ∉ line.toList := by
  intro line hline
  obtain ⟨l, hl, rfl | rfl⟩ := mem_hang hline
  · simp [hfirst, h l hl]
  · simp [hothers, h l hl]

mutual

private theorem Tree.newline_notMem_lines (tree : Tree) (h : ∀ label ∈ tree.labels, '\n' ∉ label.toList) :
    ∀ line ∈ tree.lines, '\n' ∉ line.toList := by
  match tree with
  | .node caption children =>
    rw [Tree.labels, List.forall_mem_cons] at h
    rw [Tree.lines, List.forall_mem_cons]
    exact ⟨newline_notMem_drawn h.1, newline_notMem_branchLines children h.2⟩

private theorem newline_notMem_branchLines (trees : List Tree) (h : ∀ label ∈ labelsAll trees, '\n' ∉ label.toList) :
    ∀ line ∈ branchLines trees, '\n' ∉ line.toList := by
  match trees with
  | [] => simp [branchLines]
  | [tree] =>
    rw [labelsAll, List.forall_mem_append] at h
    rw [branchLines]
    exact newline_notMem_hang (by decide) (by decide) (tree.newline_notMem_lines h.1)
  | tree :: next :: rest =>
    rw [labelsAll, List.forall_mem_append] at h
    rw [branchLines, List.forall_mem_append]
    exact ⟨newline_notMem_hang (by decide) (by decide) (tree.newline_notMem_lines h.1),
      newline_notMem_branchLines (next :: rest) h.2⟩

end

/-! ### Branches -/

mutual

/-- The tree of what is drawn at each node. -/
def Tree.drawn : Tree → Tree
  | .node caption children => .node (.word caption.drawn) (drawnAll children)

def drawnAll : List Tree → List Tree
  | [] => []
  | tree :: rest => tree.drawn :: drawnAll rest

end

/-- What stands before the text of a node, be it the last below its parent or not. -/
def fork (last : Bool) : String := if last then "└── " else "├── "

/-- What stands before the lines below a node, be it the last below its parent or not. -/
def rail (last : Bool) : String := if last then "    " else "│   "

private theorem branchLines_cons (caption : Caption) (children rest : List Tree) :
    branchLines (.node caption children :: rest) = (fork rest.isEmpty ++ caption.drawn) ::
      ((branchLines children).map (rail rest.isEmpty ++ ·) ++ branchLines rest) := by
  cases rest with
  | nil => simp [branchLines, Tree.lines, hang, fork, rail]
  | cons next rest => simp [branchLines, Tree.lines, hang, fork, rail]

/-- The line of a node tells whether it is the last one. -/
private theorem fork_append_inj {last last' : Bool} {text text' : String}
    (h : fork last ++ text = fork last' ++ text') : last = last' ∧ text = text' := by
  have hchars := congrArg String.toList h
  cases last <;> cases last' <;> simp [fork, String.toList_inj] at hchars ⊢
  · exact hchars
  · exact hchars

private theorem map_rail_injective (last : Bool) : Function.Injective (List.map (rail last ++ ·)) := by
  rw [List.map_injective_iff]
  intro text text' h
  have hchars := congrArg String.toList h
  simp only [String.toList_append, List.append_cancel_left_eq, String.toList_inj] at hchars
  exact hchars

/-- The lines below a node that is not the last one end where the line of the next node comes. -/
private theorem railed_append_inj {lines lines' rest rest' : List String} {last last' : Bool} {text text' : String}
    (h : lines.map (rail false ++ ·) ++ (fork last ++ text) :: rest =
      lines'.map (rail false ++ ·) ++ (fork last' ++ text') :: rest') :
    lines = lines' ∧ (fork last ++ text) :: rest = (fork last' ++ text') :: rest' := by
  have hrail : ∀ lines : List String, ∀ line ∈ lines.map (rail false ++ ·), line.toList.head? = some '│' := by
    simp [rail]
  have hfork : ∀ last text, (fork last ++ text).toList.head? ≠ some '│' := by
    intro last text
    cases last <;> simp [fork]
  obtain ⟨hlines, hnode, hrest⟩ :=
    append_cons_inj (hrail lines) (hfork last text) (hrail lines') (hfork last' text') h
  exact ⟨map_rail_injective false hlines, by rw [hnode, hrest]⟩

theorem drawnAll_eq_of_branchLines (trees : List Tree) {trees' : List Tree}
    (h : branchLines trees = branchLines trees') : drawnAll trees = drawnAll trees' := by
  match trees, trees' with
  | [], [] => rfl
  | [], .node caption' children' :: rest' => simp [branchLines_cons, branchLines] at h
  | .node caption children :: rest, [] => simp [branchLines_cons, branchLines] at h
  | .node caption children :: rest, .node caption' children' :: rest' =>
    rw [branchLines_cons, branchLines_cons] at h
    obtain ⟨hnode, hbelow⟩ := List.cons.inj h
    obtain ⟨hlast, hcaption⟩ := fork_append_inj hnode
    have hparts : branchLines children = branchLines children' ∧ branchLines rest = branchLines rest' := by
      match rest, rest' with
      | [], [] =>
        rw [branchLines, List.append_nil, List.append_nil] at hbelow
        exact ⟨map_rail_injective true hbelow, rfl⟩
      | .node _ _ :: _, .node _ _ :: _ =>
        rw [branchLines_cons, branchLines_cons] at hbelow ⊢
        exact railed_append_inj hbelow
      | [], _ :: _ => simp at hlast
      | _ :: _, [] => simp at hlast
    rw [drawnAll, drawnAll, Tree.drawn, Tree.drawn, hcaption, drawnAll_eq_of_branchLines children hparts.1,
      drawnAll_eq_of_branchLines rest hparts.2]

/-! ### Trees of programs -/

private theorem Expr.bare_eq_of_tree {e e' : Expr} (h : e.tree.drawn = e'.tree.drawn) : e.bare = e'.bare := by
  induction e generalizing e' with
  | leaf l =>
    cases e' with
    | leaf l' => simpa [Expr.tree, Tree.tip, Tree.drawn, drawnAll, Caption.drawn, Expr.bare] using h
    | binary op' lhs' rhs' => simp [Expr.tree, Tree.tip, Tree.drawn, drawnAll] at h
  | binary op lhs rhs ihl ihr =>
    cases e' with
    | leaf l' => simp [Expr.tree, Tree.tip, Tree.drawn, drawnAll] at h
    | binary op' lhs' rhs' =>
      have hparts : op = op' ∧ lhs.tree.drawn = lhs'.tree.drawn ∧ rhs.tree.drawn = rhs'.tree.drawn := by
        simpa [Expr.tree, Tree.drawn, drawnAll, Caption.drawn] using h
      obtain ⟨rfl, hlhs, hrhs⟩ := hparts
      rw [Expr.bare, Expr.bare, ihl hlhs, ihr hrhs]

theorem Assign.plain_eq_of_tree {a a' : Assign} (h : a.tree.drawn = a'.tree.drawn) : a.plain = a'.plain := by
  have hparts : a.target = a'.target ∧ a.value.tree.drawn = a'.value.tree.drawn := by
    simpa [Assign.tree, Tree.tip, Tree.drawn, drawnAll, Caption.drawn] using h
  rw [Assign.plain, Assign.plain, hparts.1, Expr.bare_eq_of_tree hparts.2]

private theorem Stmt.tree_ret (value : Option Expr) (line : Nat) :
    (Stmt.ret value line).tree = .node (.word "return") (value.toList.map Expr.tree) := by
  cases value <;> rfl

mutual

theorem Stmt.plain_eq_of_tree (s : Stmt) {s' : Stmt} (h : s.tree.drawn = s'.tree.drawn) : s.plain = s'.plain := by
  match s with
  | .assign a =>
    cases s' with
    | assign a' => rw [Stmt.plain, Stmt.plain, Assign.plain_eq_of_tree h]
    | _ => simp [↓Stmt.tree_ret, Stmt.tree, Assign.tree, Tree.drawn, Caption.drawn] at h
  | .ifThen cond body _ =>
    cases s' with
    | ifThen cond' body' _ =>
      have hparts : cond.tree.drawn = cond'.tree.drawn ∧ drawnAll (stmtTrees body) = drawnAll (stmtTrees body') := by
        simpa [Stmt.tree, Tree.drawn, drawnAll] using h
      rw [Stmt.plain, Stmt.plain, Expr.bare_eq_of_tree hparts.1, plainAll_eq_of_trees body hparts.2]
    | _ => simp [↓Stmt.tree_ret, Stmt.tree, Assign.tree, Tree.drawn, drawnAll, Caption.drawn] at h
  | .ifElse cond body other _ =>
    cases s' with
    | ifElse cond' body' other' _ =>
      have hparts : cond.tree.drawn = cond'.tree.drawn ∧ drawnAll (stmtTrees body) = drawnAll (stmtTrees body') ∧
          drawnAll (stmtTrees other) = drawnAll (stmtTrees other') := by
        simpa [Stmt.tree, Tree.drawn, drawnAll] using h
      obtain ⟨hcond, hbody, hother⟩ := hparts
      rw [Stmt.plain, Stmt.plain, Expr.bare_eq_of_tree hcond, plainAll_eq_of_trees body hbody,
        plainAll_eq_of_trees other hother]
    | _ => simp [↓Stmt.tree_ret, Stmt.tree, Assign.tree, Tree.drawn, drawnAll, Caption.drawn] at h
  | .while cond body _ =>
    cases s' with
    | «while» cond' body' _ =>
      have hparts : cond.tree.drawn = cond'.tree.drawn ∧ drawnAll (stmtTrees body) = drawnAll (stmtTrees body') := by
        simpa [Stmt.tree, Tree.drawn, drawnAll] using h
      rw [Stmt.plain, Stmt.plain, Expr.bare_eq_of_tree hparts.1, plainAll_eq_of_trees body hparts.2]
    | _ => simp [↓Stmt.tree_ret, Stmt.tree, Assign.tree, Tree.drawn, drawnAll, Caption.drawn] at h
  | .for init cond step body _ =>
    cases s' with
    | «for» init' cond' step' body' _ =>
      have hparts : init.tree.drawn = init'.tree.drawn ∧ cond.tree.drawn = cond'.tree.drawn ∧
          step.tree.drawn = step'.tree.drawn ∧ drawnAll (stmtTrees body) = drawnAll (stmtTrees body') := by
        simpa [Stmt.tree, Tree.drawn, drawnAll] using h
      obtain ⟨hinit, hcond, hstep, hbody⟩ := hparts
      rw [Stmt.plain, Stmt.plain, Assign.plain_eq_of_tree hinit, Expr.bare_eq_of_tree hcond,
        Assign.plain_eq_of_tree hstep, plainAll_eq_of_trees body hbody]
    | _ => simp [↓Stmt.tree_ret, Stmt.tree, Assign.tree, Tree.drawn, drawnAll, Caption.drawn] at h
  | .ret value _ =>
    cases s' with
    | ret value' _ =>
      cases value with
      | none =>
        cases value' with
        | none => rfl
        | some e' => simp [Stmt.tree, Tree.drawn, drawnAll] at h
      | some e =>
        cases value' with
        | none => simp [Stmt.tree, Tree.drawn, drawnAll] at h
        | some e' =>
          have hvalue : e.tree.drawn = e'.tree.drawn := by simpa [Stmt.tree, Tree.drawn, drawnAll] using h
          simp only [Stmt.plain, Option.map_some, Expr.bare_eq_of_tree hvalue]
    | _ => simp [↓Stmt.tree_ret, Stmt.tree, Assign.tree, Tree.drawn, Caption.drawn] at h

private theorem plainAll_eq_of_trees (program : List Stmt) {program' : List Stmt}
    (h : drawnAll (stmtTrees program) = drawnAll (stmtTrees program')) : plainAll program = plainAll program' := by
  match program with
  | [] =>
    cases program' with
    | nil => rfl
    | cons s' rest' => simp [stmtTrees, drawnAll] at h
  | s :: rest =>
    cases program' with
    | nil => simp [stmtTrees, drawnAll] at h
    | cons s' rest' =>
      rw [stmtTrees, stmtTrees, drawnAll, drawnAll] at h
      obtain ⟨hs, hrest⟩ := List.cons.inj h
      rw [plainAll, plainAll, s.plain_eq_of_tree hs, plainAll_eq_of_trees rest hrest]

end

/-! ### Programs -/

/-- Two programs without the end of a line in a label have the same drawing exactly if they are the same but for their
lines and the kinds of their leaves. -/
theorem drawProgram_eq_iff {p q : Program} (hp : ∀ label ∈ (programTree p).labels, '\n' ∉ label.toList)
    (hq : ∀ label ∈ (programTree q).labels, '\n' ∉ label.toList) :
    drawProgram p = drawProgram q ↔ plainAll p = plainAll q := by
  constructor
  · intro hdrawing
    have hlines := lines_inj ((programTree p).newline_notMem_lines hp) ((programTree q).newline_notMem_lines hq)
      hdrawing
    have hbranches : branchLines (stmtTrees p) = branchLines (stmtTrees q) := (List.cons.inj hlines).2
    exact plainAll_eq_of_trees p (drawnAll_eq_of_branchLines _ hbranches)
  · intro hplain
    have htrees : stmtTrees p = stmtTrees q := by
      rw [← stmtTrees_plainAll p, hplain, stmtTrees_plainAll q]
    rw [drawProgram, drawProgram, programTree, htrees]
    rfl

/-- Names that look like branches and blocks, a string and a text with quotes. -/
theorem drawProgram_eq_iff_lookalikes :
    let p : Program := [.ifThen (.leaf (.ident "├── block")) [.assign ⟨"else", .leaf (.str "    │   ="), 2⟩] 1]
    let q : Program := [.ifThen (.leaf (.raw "├── block")) [.assign ⟨"else", .leaf (.raw "\"    │   =\""), 5⟩] 3]
    let r : Program := [.ifElse (.leaf (.ident "├── block")) [] [.assign ⟨"", .leaf (.str "    │   ="), 2⟩] 1]
    drawProgram p = drawProgram q ∧ drawProgram p ≠ drawProgram r := by
  intro p q r
  have hp : ∀ label ∈ (programTree p).labels, '\n' ∉ label.toList := by decide
  have hq : ∀ label ∈ (programTree q).labels, '\n' ∉ label.toList := by decide
  have hr : ∀ label ∈ (programTree r).labels, '\n' ∉ label.toList := by decide
  refine ⟨(drawProgram_eq_iff hp hq).2 rfl, fun h => ?_⟩
  have hplain := (drawProgram_eq_iff hp hr).1 h
  simp [p, r, plainAll, Stmt.plain] at hplain

end ThreeAddress
