import ThreeAddress.Program

/-!
# Programs as labelled trees

Every part of a program can be seen as a node with a label and children.  The tree is drawn with one line for each
node, children below their parent and indented by branches.
-/

namespace ThreeAddress

/-- What a node of the tree stands for. -/
inductive Caption where
  /-- The whole program. -/
  | root
  /-- A list of statements between braces. -/
  | block
  /-- A keyword, an operator, a name or a literal. -/
  | word (text : String)
deriving DecidableEq, Repr

/-- The label of a node: blocks and the root have none. -/
def Caption.label : Caption → String
  | root => ""
  | block => ""
  | word text => text

/-- The text of a node in a drawing. -/
def Caption.drawn : Caption → String
  | root => "program"
  | block => "block"
  | word text => text

/-- A tree of captions. -/
inductive Tree where
  | node (caption : Caption) (children : List Tree)
deriving Repr

/-- The caption at the root of a tree. -/
def Tree.caption : Tree → Caption
  | node caption _ => caption

/-- The subtrees below the root. -/
def Tree.children : Tree → List Tree
  | node _ children => children

/-- A tree without children. -/
def Tree.tip (text : String) : Tree := node (.word text) []

/-! ### The tree of a program -/

/-- The tree of an expression: operators above their two sides. -/
def Expr.tree : Expr → Tree
  | leaf l => .tip l.text
  | binary op lhs rhs => .node (.word op) [lhs.tree, rhs.tree]

/-- The tree of an assignment: the target beside the value. -/
def Assign.tree (a : Assign) : Tree := .node (.word "=") [.tip a.target, a.value.tree]

mutual

/-- The tree of a statement. -/
def Stmt.tree : Stmt → Tree
  | .assign a => a.tree
  | .ifThen cond body _ => .node (.word "if") [cond.tree, .node .block (stmtTrees body)]
  | .ifElse cond body other _ =>
    .node (.word "if")
      [cond.tree, .node .block (stmtTrees body), .node (.word "else") [.node .block (stmtTrees other)]]
  | .while cond body _ => .node (.word "while") [cond.tree, .node .block (stmtTrees body)]
  | .for init cond step body _ =>
    .node (.word "for") [init.tree, cond.tree, step.tree, .node .block (stmtTrees body)]
  | .ret none _ => .node (.word "return") []
  | .ret (some value) _ => .node (.word "return") [value.tree]

/-- The trees of consecutive statements. -/
def stmtTrees : List Stmt → List Tree
  | [] => []
  | s :: rest => s.tree :: stmtTrees rest

end

/-- The tree of a program. -/
def programTree (program : Program) : Tree := .node .root (stmtTrees program)

/-! ### Drawing -/

/-- Puts one text before the first line and another before all others. -/
def hang (first others : String) : List String → List String
  | [] => []
  | line :: rest => (first ++ line) :: rest.map (others ++ ·)

mutual

/-- The drawing of a tree: one text for each node, parents before children. -/
def Tree.lines : Tree → List String
  | .node caption children => caption.drawn :: branchLines children

/-- The drawing of the trees below a node.  The last one ends the branch line of its parent. -/
def branchLines : List Tree → List String
  | [] => []
  | [tree] => hang "└── " "    " tree.lines
  | tree :: next :: rest => hang "├── " "│   " tree.lines ++ branchLines (next :: rest)

end

/-- The drawing of a program. -/
def drawProgram (program : Program) : String :=
  String.join ((programTree program).lines.map (· ++ "\n"))

end ThreeAddress
