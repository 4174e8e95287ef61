import ThreeAddress.Pipeline

/-!
# The command line

Arguments are taken from left to right.  An option with a value takes it from the same argument (`-ev`, `-e=v`,
`--emit=v`) or from the next one, which then must not look like an option.  Flags of one letter may be joined.
Every option is given at most once, `--` ends the options, and the first fault ends the reading.
-/

namespace ThreeAddress

/-- Why a list of arguments is refused. -/
inductive UsageError where
  | unknownOption (option : String)
  | missingValue (option : String)
  | unneededValue (option : String)
  | emptyValue (option : String)
  | badValue (reason : SettingError)
  | repeated (option : String)
  | extraArgument (text : String)
  | missingInput
deriving DecidableEq, Repr

/-- The text of a usage error. -/
def UsageError.message : UsageError → String
  | unknownOption option => "unknown option '" ++ option ++ "'"
  | missingValue option => "a value is required for '" ++ option ++ "'"
  | unneededValue option => "no value is allowed for '" ++ option ++ "'"
  | emptyValue option => "the value of '" ++ option ++ "' is empty"
  | badValue reason => reason.message
  | repeated option => "'" ++ option ++ "' is given more than once"
  | extraArgument text => "unexpected argument '" ++ text ++ "'"
  | missingInput => "the input file is missing"

/-- The options that take a value. -/
inductive ValueOption where
  | emit | format | output
deriving DecidableEq, Repr

/-- The options that take no value. -/
inductive Flag where
  | watch | verbose | noColor
deriving DecidableEq, Repr

/-- What an option letter or word stands for. -/
inductive OptionName where
  | value (option : ValueOption)
  | flag (flag : Flag)
  | version
  | help
deriving DecidableEq, Repr

/-- The full name of an option. -/
def ValueOption.name : ValueOption → String
  | emit => "--emit"
  | format => "--format"
  | output => "--output"

/-- The full name of a flag. -/
def Flag.name : Flag → String
  | watch => "--watch"
  | verbose => "--verbose"
  | noColor => "--no-color"

/-- The option with the given letter. -/
def OptionName.ofLetter? : Char → Option OptionName
  | 'e' => some (.value .emit)
  | 'f' => some (.value .format)
  | 'o' => some (.value .output)
  | 'w' => some (.flag .watch)
  | 'v' => some (.flag .verbose)
  | 'V' => some .version
  | 'h' => some .help
  | _ => none

/-- The option with the given word. -/
def OptionName.ofWord? : String → Option OptionName
  | "emit" => some (.value .emit)
  | "format" => some (.value .format)
  | "output" => some (.value .output)
  | "watch" => some (.flag .watch)
  | "verbose" => some (.flag .verbose)
  | "no-color" => some (.flag .noColor)
  | "version" => some .version
  | "help" => some .help
  | _ => none

/-- The settings of a run. -/
structure Options where
  input : String
  stage : Stage := .quadruples
  format : Format := .text
  output : Option String := none
  flags : List Flag := []
deriving DecidableEq, Repr

/-- Whether a flag is set. -/
def Options.has (options : Options) (flag : Flag) : Bool := options.flags.contains flag

/-- What the arguments ask for. -/
inductive Request where
  | run (options : Options)
  | version
  | help
deriving DecidableEq, Repr

/-- The settings met so far. -/
structure Draft where
  input : Option String := none
  stage : Option Stage := none
  format : Option Format := none
  output : Option String := none
  flags : List Flag := []
  /-- An option whose value is the next argument. -/
  pending : Option ValueOption := none
  /-- Whether the options have been ended. -/
  literal : Bool := false
deriving DecidableEq, Repr

/-- What has been made of an argument: settings, or a request that ends the reading. -/
abbrev Progress := Except UsageError (Draft ⊕ Request)

/-- Sets the value of an option, which is then no longer pending. -/
def Draft.setValue (d : Draft) (option : ValueOption) (text : String) : Except UsageError Draft :=
  match option with
  | .emit =>
    if d.stage.isSome then .error (.repeated option.name)
    else
      match Stage.ofName text with
      | .ok stage => .ok { d with stage := some stage, pending := none }
      | .error reason => .error (.badValue reason)
  | .format =>
    if d.format.isSome then .error (.repeated option.name)
    else
      match Format.ofName text with
      | .ok format => .ok { d with format := some format, pending := none }
      | .error reason => .error (.badValue reason)
  | .output =>
    if d.output.isSome then .error (.repeated option.name)
    else if text.isEmpty then .error (.emptyValue option.name)
    else .ok { d with output := some text, pending := none }

/-- Sets a flag. -/
def Draft.setFlag (d : Draft) (flag : Flag) : Except UsageError Draft :=
  if d.flags.contains flag then .error (.repeated flag.name) else .ok { d with flags := d.flags ++ [flag] }

/-- Takes an argument that is no option: the input file. -/
def Draft.setInput (d : Draft) (text : String) : Except UsageError Draft :=
  if d.input.isSome then .error (.extraArgument text)
  else if text.isEmpty then .error (.emptyValue "INPUT")
  else .ok { d with input := some text }

/-- Takes an option in words, with the value after its equals sign if it has one. -/
def Draft.takeWord (d : Draft) (word : String) (value : Option String) : Progress :=
  match OptionName.ofWord? word, value with
  | none, _ => .error (.unknownOption ("--" ++ word))
  | some (.value option), some text => return .inl (← d.setValue option text)
  | some (.value option), none => return .inl { d with pending := some option }
  | some (.flag flag), none => return .inl (← d.setFlag flag)
  | some .version, none => return .inr .version
  | some .help, none => return .inr .help
  | some _, some _ => .error (.unneededValue ("--" ++ word))

/-- Takes joined option letters.  What follows the letter of an option with a value is the value. -/
def Draft.takeLetters (d : Draft) : List Char → Progress
  | [] => .ok (.inl d)
  | letter :: rest =>
    match OptionName.ofLetter? letter with
    | none => .error (.unknownOption ("-" ++ letter.toString))
    | some (.value option) =>
      match rest with
      | [] => .ok (.inl { d with pending := some option })
      | '=' :: text => return .inl (← d.setValue option (.ofList text))
      | text => return .inl (← d.setValue option (.ofList text))
    | some (.flag flag) =>
      match d.setFlag flag with
      | .ok d => d.takeLetters rest
      | .error e => .error e
    | some .version => .ok (.inr .version)
    | some .help => .ok (.inr .help)

/-- Takes one argument. -/
def Draft.take (d : Draft) (arg : String) : Progress :=
  if d.literal then return .inl (← d.setInput arg)
  else
    match d.pending, arg.toList with
    | some option, '-' :: _ :: _ => .error (.missingValue option.name)
    | some option, _ => return .inl (← d.setValue option arg)
    | none, ['-', '-'] => .ok (.inl { d with literal := true })
    | none, '-' :: '-' :: text =>
      let word := String.ofList (text.takeWhile (· ≠ '='))
      match text.dropWhile (· ≠ '=') with
      | [] => d.takeWord word none
      | _ :: value => d.takeWord word (some (.ofList value))
    | none, '-' :: letter :: rest => d.takeLetters (letter :: rest)
    | none, _ => return .inl (← d.setInput arg)

/-- The settings when all arguments have been taken. -/
def Draft.finish (d : Draft) : Except UsageError Request :=
  match d.pending, d.input with
  | some option, _ => .error (.missingValue option.name)
  | none, none => .error .missingInput
  | none, some input =>
    .ok (.run
      { input, stage := d.stage.getD .quadruples, format := d.format.getD .text, output := d.output,
        flags := d.flags })

/-- Reads the remaining arguments. -/
def Draft.read (d : Draft) : List String → Except UsageError Request
  | [] => d.finish
  | arg :: rest =>
    match d.take arg with
    | .ok (.inl d) => d.read rest
    | .ok (.inr request) => .ok request
    | .error e => .error e

/-- Reads a list of arguments. -/
def Request.ofArgs (args : List String) : Except UsageError Request := Draft.read {} args

end ThreeAddress
