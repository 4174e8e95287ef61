/-!
# JSON text

A JSON value without booleans, and with natural numbers only, is written over several lines: every item of a list
and every field of an object has a line of its own, indented by two blanks more than its parent.
-/

namespace ThreeAddress

/-- A JSON value.  The fields of an object keep their order. -/
inductive Json where
  | null
  | num (n : Nat)
  | str (s : String)
  | arr (items : List Json)
  | obj (fields : List (String × Json))
deriving Repr

/-- A character inside a JSON string: quotes, backslashes and control characters are escaped. -/
def escapeChar (c : Char) : List Char :=
  if c = '"' then ['\\', '"']
  else if c = '\\' then ['\\', '\\']
  else if c = '\x08' then ['\\', 'b']
  else if c = '\t' then ['\\', 't']
  else if c = '\n' then ['\\', 'n']
  else if c = '\x0c' then ['\\', 'f']
  else if c = '\r' then ['\\', 'r']
  else if c.toNat < 0x20 then
    ['\\', 'u', '0', '0', Nat.digitChar (c.toNat / 16), Nat.digitChar (c.toNat % 16)]
  else [c]

/-- A JSON string. -/
def quoted (s : String) : String := "\"" ++ String.ofList (s.toList.flatMap escapeChar) ++ "\""

/-- The end of a line and the indentation of the next one. -/
def lineBreak (depth : Nat) : String := "\n" ++ String.ofList (List.replicate (2 * depth) ' ')

mutual

/-- The text of a value that stands at a depth of nesting. -/
def Json.render (depth : Nat) : Json → String
  | .null => "null"
  | .num n => n.repr
  | .str s => quoted s
  | .arr [] => "[]"
  | .arr (item :: rest) =>
    "[" ++ lineBreak (depth + 1) ++ Json.render (depth + 1) item ++ renderItems (depth + 1) rest ++
      lineBreak depth ++ "]"
  | .obj [] => "\x7b\x7d"
  | .obj ((key, value) :: rest) =>
    "\x7b" ++ lineBreak (depth + 1) ++ quoted key ++ ": " ++ Json.render (depth + 1) value ++
      renderFields (depth + 1) rest ++ lineBreak depth ++ "\x7d"

/-- The items of a list after its first. -/
def renderItems (depth : Nat) : List Json → String
  | [] => ""
  | item :: rest => "," ++ lineBreak depth ++ Json.render depth item ++ renderItems depth rest

/-- The fields of an object after its first. -/
def renderFields (depth : Nat) : List (String × Json) → String
  | [] => ""
  | (key, value) :: rest =>
    "," ++ lineBreak depth ++ quoted key ++ ": " ++ Json.render depth value ++ renderFields depth rest

end

/-- The text of a whole value. -/
def Json.pretty (value : Json) : String := value.render 0

end ThreeAddress
