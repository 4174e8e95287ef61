/-!
# Tokens

A token is a classified stretch of source text with the line it begins on and its byte span.  A stretch that is
not well formed is a token too: its kind carries the lexical error.  Every token list that comes from a source
ends with one token of kind `endOfInput`.
-/

namespace ThreeAddress

/-- A half-open range of byte positions. -/
structure Span where
  start : Nat
  stop : Nat
deriving DecidableEq, Repr, Inhabited

/-- Why a stretch of text is not a well-formed token. -/
inductive LexError where
  /-- A quote with no closing quote; holds the text after the quote. -/
  | unterminatedString (body : String)
  /-- A number with a point that has no decimal value. -/
  | invalidFloat (text : String)
  /-- A number with a point that is beyond the largest finite double-precision value. -/
  | floatOverflow (text : String)
  /-- A whole number outside the 64-bit range. -/
  | invalidInteger (text : String)
  /-- A whole number inside the 64-bit range but outside the 32-bit range. -/
  | integerOverflow (text : String)
  /-- A character that begins no token. -/
  | unrecognizedCharacter (c : Char)
deriving DecidableEq, Repr

/-- The text of a lexical error. -/
def LexError.message : LexError → String
  | unterminatedString body => "unterminated string: \"" ++ body
  | invalidFloat text => "invalid floating-point number: " ++ text
  | floatOverflow text => "floating-point overflow: " ++ text
  | invalidInteger text => "invalid integer: " ++ text
  | integerOverflow text => "integer overflow: " ++ text
  | unrecognizedCharacter c => "unrecognized character: " ++ c.toString

/-- The classes of tokens, as error messages name them. -/
inductive Category where
  | keyword | identifier | operator | number | string | delimiter | error | endOfInput
deriving DecidableEq, Repr

/-- The name of a class in messages and tables. -/
def Category.name : Category → String
  | keyword => "keyword"
  | identifier => "identifier"
  | operator => "operator"
  | number => "number"
  | string => "string"
  | delimiter => "delimiter"
  | error => "error"
  | endOfInput => "end"

/-- What a token is: its class and, for an error, the cause. -/
inductive Kind where
  | keyword | identifier | operator | number | string | delimiter
  | error (cause : LexError)
  | endOfInput
deriving DecidableEq, Repr

/-- The class of a kind: the cause of an error is forgotten. -/
def Kind.category : Kind → Category
  | keyword => .keyword
  | identifier => .identifier
  | operator => .operator
  | number => .number
  | string => .string
  | delimiter => .delimiter
  | error _ => .error
  | endOfInput => .endOfInput

/-- A token.  The lexeme of a string is its body without the quotes; any other lexeme is the source text. -/
structure Token where
  kind : Kind
  lexeme : String
  line : Nat
  span : Span
deriving DecidableEq, Repr

/-- Whether the token is a lexical error. -/
def Token.isError (t : Token) : Bool := t.kind.category = .error

/-- Whether the token marks the end of the input. -/
def Token.isEnd (t : Token) : Bool := t.kind = .endOfInput

/-- Whether the token has exactly this kind and this lexeme. -/
def Token.is (t : Token) (kind : Kind) (lexeme : String) : Bool := t.kind = kind && t.lexeme = lexeme

/-- Whether the lexeme is this word in any case.  The word is in lower-case ASCII letters without `k`, so the case
map of ASCII decides: the Kelvin sign is the one other character whose lower-case form is a single ASCII letter. -/
def Token.reads (t : Token) (word : String) : Bool := t.lexeme.toList.map Char.toLower = word.toList

/-- The text shown for the token: the message of an error, the lexeme of any other. -/
def Token.text (t : Token) : String :=
  match t.kind with
  | .error cause => cause.message
  | _ => t.lexeme

/-- The token on one line of text. -/
def Token.display (t : Token) : String :=
  "[" ++ t.kind.category.name ++ "] " ++ t.text ++ " (line " ++ t.line.repr ++ ")"

end ThreeAddress
