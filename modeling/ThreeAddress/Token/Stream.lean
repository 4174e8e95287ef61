import ThreeAddress.Token.Piece

/-!
# The tokens of a source

The pieces of a source are placed one after the other: each token gets the byte span of its piece and the line on
which it begins, gaps only move the place on, and a token of kind `endOfInput` closes the list.
-/

namespace ThreeAddress

/-- A place in a source: a byte position and a line, counted from 1. -/
structure Place where
  offset : Nat := 0
  line : Nat := 1
deriving DecidableEq, Repr

/-- The place behind a text. -/
def Place.past (place : Place) (text : List Char) : Place :=
  ⟨place.offset + byteLength text, place.line + newlines text⟩

@[simp] theorem Place.past_nil (place : Place) : place.past [] = place := by
  simp [Place.past, newlines]

@[simp] theorem Place.past_append (place : Place) (a b : List Char) :
    place.past (a ++ b) = (place.past a).past b := by
  simp [Place.past, Nat.add_assoc]

/-- The token that closes a list of tokens at a place. -/
def Token.endAt (place : Place) : Token := ⟨.endOfInput, "", place.line, ⟨place.offset, place.offset⟩⟩

/-- The token of a piece of the given kind at a place. -/
def Piece.tokenAt (p : Piece) (kind : Kind) (place : Place) : Token :=
  ⟨kind, .ofList p.lexeme, place.line, ⟨place.offset, (place.past p.text).offset⟩⟩

/-- The tokens of consecutive pieces, the first of which begins at the given place. -/
def locate (place : Place) : List Piece → List Token
  | [] => [.endAt place]
  | p :: rest =>
    match p.kind? with
    | none => locate (place.past p.text) rest
    | some kind => p.tokenAt kind place :: locate (place.past p.text) rest

/-- The tokens of a source text. -/
def tokenize (source : String) : List Token := locate {} (pieces source.toList)

end ThreeAddress
