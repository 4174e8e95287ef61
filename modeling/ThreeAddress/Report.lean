import ThreeAddress.Program.SyntaxError
import ThreeAddress.Text

/-!
# Reports

A report shows an error with the line of the source on which its span begins, and carets below the part of the
span that lies on that line.  Spans need not fit the source: a position behind its end counts as its end, a
position inside a character gives column 1, and a span that is no stretch of the source gets a single caret.
-/

namespace ThreeAddress

/-- The characters that begin before byte position `n`, and the others. -/
def splitBefore : Nat → List Char → List Char × List Char
  | 0, text => ([], text)
  | _ + 1, [] => ([], [])
  | n + 1, c :: text =>
    let (before, after) := splitBefore (n + 1 - c.utf8Size) text
    (c :: before, after)
termination_by structural _ text => text

/-- What stands behind the last line end of a text. -/
def lastLine (text : List Char) : List Char := (text.reverse.takeWhile (· ≠ '\n')).reverse

/-- A text without the carriage returns at its end. -/
def trimReturns (text : List Char) : List Char := (text.reverse.dropWhile (· = '\r')).reverse

/-- A place of a source as a report shows it: line and column, counted from 1, and the text of the line. -/
structure Spot where
  line : Nat
  column : Nat
  content : List Char
deriving DecidableEq, Repr

/-- The spot of a byte position. -/
def Spot.find (source : List Char) (position : Nat) : Spot :=
  let (before, after) := splitBefore position source
  let start := lastLine before
  { line := newlines before + 1
    column := if byteLength before = min position (byteLength source) then start.length + 1 else 1
    content := trimReturns (start ++ after.takeWhile (· ≠ '\n')) }

/-- The number of carets for a span that begins at the spot: the characters of the span up to the end of the
line, and at least one. -/
def Spot.carets (spot : Spot) (source : List Char) (span : Span) : Nat :=
  let length := ((slice? source span.start span.stop).map List.length).getD 0
  max 1 (min length (spot.content.length - (spot.column - 1)))

/-- The colours of a report. -/
inductive Ink where
  | red | blue
deriving DecidableEq, Repr

/-- The control code of a bold colour. -/
def Ink.code : Ink → String
  | red => "1;31"
  | blue => "1;34"

/-- Text in a colour, or as it is. -/
def paint (color : Bool) (ink : Ink) (text : String) : String :=
  if color then "\x1b[" ++ ink.code ++ "m" ++ text ++ "\x1b[0m" else text

/-- What the reports on one source have in common. -/
structure Reporter where
  source : String
  filename : String
  color : Bool := true

/-- The report on an error of the given type at a span. -/
def Reporter.show (r : Reporter) (type message : String) (span : Span) : String :=
  let source := r.source.toList
  let spot := Spot.find source span.start
  let bar := paint r.color .blue "|"
  "\n" ++ paint r.color .red ("error[" ++ type ++ "]") ++ ": " ++ message ++ "\n" ++
  "  " ++ paint r.color .blue "-->" ++ " " ++ r.filename ++ ":" ++ spot.line.repr ++ ":" ++ spot.column.repr ++
  "\n" ++
  "   " ++ bar ++ "\n" ++
  paint r.color .blue (padLeft 3 spot.line.repr ++ " |") ++ " " ++ String.ofList spot.content ++ "\n" ++
  "   " ++ bar ++ " " ++ String.ofList (List.replicate (spot.column - 1) ' ') ++
  paint r.color .red (String.ofList (List.replicate (spot.carets source span) '^')) ++ "\n"

/-- The report on a token, if it is a lexical error. -/
def Reporter.onToken? (r : Reporter) (t : Token) : Option String :=
  match t.kind with
  | .error cause => some (r.show "lexical" cause.message t.span)
  | _ => none

/-- The report on an error of the grammar. -/
def Reporter.onSyntaxError (r : Reporter) (e : SyntaxError) : String := r.show "syntax" e.message e.span

/-- Why a run ends without success. -/
inductive Failure where
  /-- The source has errors of the two types. -/
  | errorsFound (lexical grammatical : Nat)
  /-- A file cannot be read or written. -/
  | io (reason : String)
deriving DecidableEq, Repr

/-- The text of a failure. -/
def Failure.message : Failure → String
  | errorsFound lexical grammatical =>
    lexical.repr ++ " lexical error(s), " ++ grammatical.repr ++ " syntax error(s)"
  | io reason => "IO error: " ++ reason

/-- The report on a failure, without any source. -/
def Failure.report (color : Bool) (f : Failure) : String :=
  "\n" ++ paint color .red "error" ++ ": " ++ f.message ++ "\n"

end ThreeAddress
