import ThreeAddress.Program.Declaration

/-!
# Reading a program from tokens

The input is cut at its first token of kind `endOfInput`; one is made up behind the last token if there is none.
Declarations are read one after the other.  An error gives up the declaration in which it is met, and reading goes
on behind the token at which it was met.

Main statement: reading a declaration from a non-empty input takes at least one token
(`Pending.length_rest_start`).
-/

namespace ThreeAddress

/-- What has been made of a declaration, and the tokens behind it. -/
structure Reading where
  result : Except SyntaxError Stmt
  rest : List Token

/-- Reads the rest of a declaration, up to the end mark `stop`.  On an error the failing token is taken too. -/
def Pending.read (stop : Token) (d : Pending) : List Token → Reading
  | [] =>
    match d.step stop with
    | .fail cause => ⟨.error (.at cause stop), []⟩
    | .done s => ⟨.ok s, []⟩
    | .doneBefore s => ⟨.ok s, []⟩
    | .more _ => ⟨.error (.at .unexpectedEnd stop), []⟩
  | t :: rest =>
    match d.step t with
    | .fail cause => ⟨.error (.at cause t), rest⟩
    | .done s => ⟨.ok s, rest⟩
    | .doneBefore s => ⟨.ok s, t :: rest⟩
    | .more d => d.read stop rest

theorem Pending.length_rest (stop : Token) (d : Pending) (tokens : List Token) :
    (d.read stop tokens).rest.length ≤ tokens.length := by
  induction tokens generalizing d with
  | nil => unfold Pending.read; split <;> simp
  | cons t rest ih =>
    unfold Pending.read
    split
    · simp
    · simp
    · simp
    · exact Nat.le_trans (ih _) (by simp)

/-- A new declaration takes at least one token. -/
theorem Pending.length_rest_start (stop t : Token) (rest : List Token) :
    (Pending.start.read stop (t :: rest)).rest.length ≤ rest.length := by
  unfold Pending.read
  split
  · exact Nat.le_refl _
  · exact Nat.le_refl _
  · rename_i s h
    simp only [Pending.start, Pending.step, Step.declaration, Step.begin] at h
    repeat' split at h
    all_goals cases h
  · exact Pending.length_rest ..

/-- A program with the errors met on the way. -/
structure Parsed where
  program : Program := []
  errors : List SyntaxError := []

/-- Puts the result of a declaration before those of the following ones. -/
def Parsed.cons (result : Except SyntaxError Stmt) (parsed : Parsed) : Parsed :=
  match result with
  | .ok s => { parsed with program := s :: parsed.program }
  | .error e => { parsed with errors := e :: parsed.errors }

/-- Whether no error was met. -/
def Parsed.isOk (parsed : Parsed) : Bool := parsed.errors.isEmpty

/-- Reads declarations up to the end mark `stop`, and gives the tokens at which it ends. -/
def readProgram (stop : Token) : List Token → Parsed × List Token
  | [] => ({}, [])
  | t :: rest =>
    let reading := Pending.start.read stop (t :: rest)
    let behind := readProgram stop reading.rest
    (behind.1.cons reading.result, behind.2)
termination_by tokens => tokens.length
decreasing_by
  have := Pending.length_rest_start stop t rest
  simp only [List.length_cons]
  omega

/-- Reading goes on behind a declaration. -/
theorem readProgram_of_read {stop t : Token} {tokens rest : List Token} {result : Except SyntaxError Stmt}
    (h : Pending.start.read stop (t :: tokens) = ⟨result, rest⟩) :
    readProgram stop (t :: tokens) = ((readProgram stop rest).1.cons result, (readProgram stop rest).2) := by
  rw [readProgram, h]

/-- The end mark of a list of tokens that has none: on the line and at the end of the last token. -/
def Token.endAfter (tokens : List Token) : Token :=
  match tokens.getLast? with
  | some t => ⟨.endOfInput, "", t.line, ⟨t.span.stop, t.span.stop⟩⟩
  | none => ⟨.endOfInput, "", 1, ⟨0, 0⟩⟩

/-- Tokens to be read, up to an end mark. -/
structure Input where
  tokens : List Token
  stop : Token

/-- The input of a list of tokens: what stands before the first end mark. -/
def Input.ofTokens (tokens : List Token) : Input where
  tokens := tokens.takeWhile (!·.isEnd)
  stop := (tokens.find? Token.isEnd).getD (.endAfter tokens)

/-- Reads all declarations, and gives what is left of the input. -/
def Input.parse (input : Input) : Parsed × Input :=
  let (parsed, left) := readProgram input.stop input.tokens
  (parsed, { input with tokens := left })

/-- The program of a list of tokens, with its errors. -/
def parse (tokens : List Token) : Parsed := (Input.ofTokens tokens).parse.1

end ThreeAddress
