import ThreeAddress.Table
import ThreeAddress.Token

/-!
# The table of tokens

One row for each token: its class, its text, whether it is a reserved word, and its line.
-/

namespace ThreeAddress

/-- The row of a token. -/
def Token.row (t : Token) : List String :=
  [t.kind.category.name, t.text, if t.kind = .keyword then "yes" else "no", t.line.repr]

/-- The table of a list of tokens. -/
def tokenTable (tokens : List Token) : Table where
  columns := [⟨"Kind", 15⟩, ⟨"Token", 40⟩, ⟨"Reserved", 10⟩, ⟨"Line", 8⟩]
  rows := tokens.map Token.row

end ThreeAddress
