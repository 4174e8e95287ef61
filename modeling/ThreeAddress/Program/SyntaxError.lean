import ThreeAddress.Token

/-!
# Errors of the grammar

A declaration that cannot go on at a token is given up there.  The error holds the cause and the line and span of
that token.
-/

namespace ThreeAddress

/-- Why a declaration cannot go on at a token. -/
inductive SyntaxCause where
  /-- A token of one class and text is due, and one of another is found. -/
  | expected (category : Category) (text : String) (foundCategory : Category) (found : String)
  /-- A declaration is due, and the token begins none. -/
  | unexpectedToken (category : Category) (text : String)
  /-- A declaration is due, and the keyword begins none. -/
  | unrecognizedKeyword (text : String)
  /-- A term is due at the end of the input. -/
  | unexpectedEnd
deriving DecidableEq, Repr

/-- The text of a cause. -/
def SyntaxCause.message : SyntaxCause → String
  | expected category text foundCategory found =>
    "expected " ++ category.name ++ " '" ++ text ++ "', found " ++ foundCategory.name ++ " '" ++ found ++ "'"
  | unexpectedToken category text => "unexpected token " ++ category.name ++ " '" ++ text ++ "'"
  | unrecognizedKeyword text => "unrecognized keyword '" ++ text ++ "'"
  | unexpectedEnd => "unexpected end of input"

/-- An error of the grammar at a place of the source. -/
structure SyntaxError where
  cause : SyntaxCause
  line : Nat
  span : Span
deriving DecidableEq, Repr

/-- The error with this cause at a token. -/
def SyntaxError.at (cause : SyntaxCause) (t : Token) : SyntaxError := ⟨cause, t.line, t.span⟩

/-- The text of an error without its place. -/
def SyntaxError.message (e : SyntaxError) : String := e.cause.message

/-- The text of an error with its line. -/
def SyntaxError.display (e : SyntaxError) : String := "line " ++ e.line.repr ++ ": " ++ e.message

end ThreeAddress
