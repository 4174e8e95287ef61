import ThreeAddress.Code.Listing
import ThreeAddress.Code.Lower
import ThreeAddress.Json.Encode
import ThreeAddress.Program.Parse
import ThreeAddress.Program.Tree
import ThreeAddress.Token.Stream
import ThreeAddress.Token.Table

/-!
# From source to output

A source goes through three stages: tokens, the program, and its code in one of two shapes.  A run stops at the
stage that is asked for and writes it as text or as JSON.  Errors never stop a run.
-/

namespace ThreeAddress

/-- The result that is asked for. -/
inductive Stage where
  | tokens | tree | triples | quadruples
deriving DecidableEq, Repr

/-- How a result is written. -/
inductive Format where
  | text | json
deriving DecidableEq, Repr

/-- A name that stands for no setting. -/
inductive SettingError where
  | unknownStage (name : String)
  | unknownFormat (name : String)
deriving DecidableEq, Repr

/-- The text of a setting error. -/
def SettingError.message : SettingError → String
  | unknownStage name => "unknown stage: " ++ name ++ ". Use: tokens, ast, triples, quadruples"
  | unknownFormat name => "unknown format: " ++ name ++ ". Use: text, json"

/-- The full name of a stage. -/
def Stage.name : Stage → String
  | tokens => "tokens"
  | tree => "ast"
  | triples => "triples"
  | quadruples => "quadruples"

/-- The stage with the given full or short name. -/
def Stage.ofName (name : String) : Except SettingError Stage :=
  if ["tokens", "lex", "t"].contains name then .ok .tokens
  else if ["ast", "tree", "a"].contains name then .ok .tree
  else if ["triples", "triple", "tri"].contains name then .ok .triples
  else if ["quadruples", "quads", "quad", "q"].contains name then .ok .quadruples
  else .error (.unknownStage name)

/-- The format with the given full or short name. -/
def Format.ofName (name : String) : Except SettingError Format :=
  if ["text", "txt"].contains name then .ok .text
  else if name = "json" then .ok .json
  else .error (.unknownFormat name)

/-- The sizes of the results of the stages; a stage that was not reached has size 0. -/
structure Counts where
  tokens : Nat
  statements : Nat
  instructions : Nat
deriving DecidableEq, Repr

/-- All that a run gives. -/
structure Output where
  /-- The result that was asked for, as it is written. -/
  text : String
  /-- The error tokens in source order. -/
  lexErrors : List Token
  /-- The errors of the grammar in source order. -/
  syntaxErrors : List SyntaxError
  counts : Counts
  /-- The code, if the text is the table of quadruples. -/
  tabulated : Option (List Quadruple)

/-- Whether the source has an error. -/
def Output.hasErrors (output : Output) : Bool := !output.lexErrors.isEmpty || !output.syntaxErrors.isEmpty

/-- The content of the file to which the output is saved. -/
def Output.saved (output : Output) : String :=
  match output.tabulated with
  | some code => (quadrupleTable code).render
  | none => output.text

/-- The result of a stage. -/
inductive Result where
  | tokens (list : List Token)
  | tree (program : Program)
  | triples (code : List Triple)
  | quadruples (code : List Quadruple)

/-- A result as text. -/
def Result.text : Result → String
  | tokens list => (tokenTable list).render
  | tree program => drawProgram program
  | triples code => listTriples code
  | quadruples code => (quadrupleTable code).render

/-- A result as a JSON value. -/
def Result.toJson : Result → Json
  | tokens list => .arr (list.map Token.toJson)
  | tree program => programToJson program
  | triples code => .arr (code.map Triple.toJson)
  | quadruples code => .arr (code.map Quadruple.toJson)

/-- A result in a format. -/
def Result.render (result : Result) : Format → String
  | .text => result.text
  | .json => result.toJson.pretty

/-- The number of instructions of a result. -/
def Result.instructions : Result → Nat
  | tokens _ => 0
  | tree _ => 0
  | triples code => code.length
  | quadruples code => code.length

/-- The code that is written as a table. -/
def Result.tabulated (result : Result) (format : Format) : Option (List Quadruple) :=
  match result, format with
  | quadruples code, .text => some code
  | _, _ => none

/-- Runs a source up to a stage.  The program is not looked for when only the tokens are asked for. -/
def run (source : String) (stage : Stage) (format : Format) : Output :=
  let tokens := tokenize source
  let parsed : Parsed := if stage = .tokens then {} else parse tokens
  let result : Result :=
    match stage with
    | .tokens => .tokens tokens
    | .tree => .tree parsed.program
    | .triples => .triples (triples parsed.program)
    | .quadruples => .quadruples (quadruples parsed.program)
  { text := result.render format
    lexErrors := tokens.filter Token.isError
    syntaxErrors := parsed.errors
    counts := ⟨tokens.length, parsed.program.length, result.instructions⟩
    tabulated := result.tabulated format }

/-- The file to which an output is saved holds the text of the output. -/
theorem saved_run (source : String) (stage : Stage) (format : Format) :
    (run source stage format).saved = (run source stage format).text := by
  cases stage <;> cases format <;> rfl

end ThreeAddress
