import BatchScript.Json
import BatchScript.Outline
import BatchScript.Session

/-!
# The command line

`batch-parser` reads a script and prints its outline, or with `--json` its
tree. The script is the value of `-c`, else a file, else the standard input.
Arguments are read in order, and the first one that is at fault, or asks for
the version, decides.
-/

namespace BatchScript.CommandLine

/-! ## Arguments -/

/-- The options that have a value. -/
inductive Setting where
  | script
  | maxDepth
  | maxInputSize
deriving DecidableEq

/-- An option as it is written. -/
def Setting.text : Setting → String
  | .script => "-c"
  | .maxDepth => "--max-depth"
  | .maxInputSize => "--max-input-size"

/-- One argument, read for itself. -/
inductive Argument where
  | json
  | version
  /-- An option with a value, which may be attached to it. -/
  | setting (setting : Setting) (attached : Option String)
  /-- The argument `--`. -/
  | optionsEnd
  | plain (text : String)
  | unknown (text : String)
  /-- A value attached to an option that has none. -/
  | needlessValue (text : String)
deriving DecidableEq

/-- What is wrong with the arguments. -/
inductive UsageError where
  | unknownOption (text : String)
  | missingValue (setting : Setting)
  /-- A value that is no number, or one too large. -/
  | malformedValue (setting : Setting) (value : String)
  | needlessValue (text : String)
  | repeated (text : String)
  | secondFile (name : String)
deriving DecidableEq

/-- What is told about wrong arguments. -/
def UsageError.message : UsageError → String
  | .unknownOption text => "unknown option " ++ text
  | .missingValue setting => "no value for " ++ setting.text
  | .malformedValue setting value => "no valid value for " ++ setting.text ++ ": " ++ value
  | .needlessValue text => "no value allowed: " ++ text
  | .repeated text => text ++ " given twice"
  | .secondFile name => "more than one file: " ++ name

/-- Whether an argument begins like an option, so that it is no separate value. -/
def looksLikeOption (argument : String) : Bool :=
  match argument.toList with
  | '-' :: _ :: _ => true
  | _ => false

/-- An option with two hyphens: its name, and what an equals sign attaches to it. -/
def longArgument (text : List Char) : Argument :=
  let name := String.ofList (text.takeWhile (· != '='))
  let attached : Option String :=
    match text.dropWhile (· != '=') with
    | _ :: value => some (String.ofList value)
    | [] => none
  let written := "--" ++ String.ofList text
  let flag (argument : Argument) : Argument :=
    if attached.isNone then argument else .needlessValue written
  if name = "json" then flag .json
  else if name = "version" then flag .version
  else if name = "max-depth" then .setting .maxDepth attached
  else if name = "max-input-size" then .setting .maxInputSize attached
  else .unknown written

/-- Reads one argument for itself. -/
def Argument.ofText (text : String) : Argument :=
  match text.toList with
  | ['-', '-'] => .optionsEnd
  | '-' :: '-' :: long => longArgument long
  | ['-', 'c'] => .setting .script none
  | '-' :: 'c' :: '=' :: value => .setting .script (some (String.ofList value))
  | '-' :: 'c' :: value => .setting .script (some (String.ofList value))
  | '-' :: 'V' :: _ => .version
  | '-' :: _ :: _ => .unknown text
  | _ => .plain text

/-- A number below `2 ^ 64` in decimal digits, perhaps with a plus sign before them. -/
def number? (text : String) : Option Nat :=
  let digits := match text.toList with
    | '+' :: digits => digits
    | digits => digits
  if digits.isEmpty || !digits.all Char.isDigit then none
  else
    let n := digits.foldl (fun n d => 10 * n + (d.toNat - '0'.toNat)) 0
    if n < UInt64.size then some n else none

/-- The value of an option that is given for the first time. -/
def Setting.once {α : Type} (setting : Setting) (given : Option α) (value : Except UsageError α) :
    Except UsageError (Option α) :=
  if given.isSome then .error (.repeated setting.text) else some <$> value

/-- The value of an option as a number. -/
def Setting.number (setting : Setting) (value : String) : Except UsageError Nat :=
  match number? value with
  | some n => .ok n
  | none => .error (.malformedValue setting value)

/-! ## Requests -/

/-- What the arguments ask for, with `none` for what they do not give. -/
structure Request where
  script : Option String := none
  json : Bool := false
  maxDepth : Option Nat := none
  maxInputSize : Option Nat := none
  file : Option String := none
deriving DecidableEq

namespace Request

/-- The request with one option set. -/
def set (r : Request) (setting : Setting) (value : String) : Except UsageError Request :=
  match setting with
  | .script => return { r with script := ← setting.once r.script (.ok value) }
  | .maxDepth => return { r with maxDepth := ← setting.once r.maxDepth (setting.number value) }
  | .maxInputSize => return { r with maxInputSize := ← setting.once r.maxInputSize (setting.number value) }

def setJson (r : Request) : Except UsageError Request :=
  if r.json then .error (.repeated "--json") else .ok { r with json := true }

def setFile (r : Request) (name : String) : Except UsageError Request :=
  if r.file.isSome then .error (.secondFile name) else .ok { r with file := some name }

def limits (r : Request) : Limits :=
  let usual : Limits := {}
  ⟨r.maxInputSize.getD usual.inputSize, r.maxDepth.getD usual.depth⟩

end Request

/-- What the program has to do. -/
inductive Command where
  | version
  | read (request : Request)
deriving DecidableEq

namespace Command

/-- Reads arguments of which none is an option. -/
def ofFiles (r : Request) : List String → Except UsageError Command
  | [] => .ok (.read r)
  | name :: others => do ofFiles (← r.setFile name) others

/-- Reads the arguments behind those that made a request. -/
def ofArguments (r : Request) : List String → Except UsageError Command
  | [] => .ok (.read r)
  | text :: others =>
    match Argument.ofText text with
    | .json => do ofArguments (← r.setJson) others
    | .version => .ok .version
    | .setting setting (some value) => do ofArguments (← r.set setting value) others
    | .setting setting none =>
      match others with
      | [] => .error (.missingValue setting)
      | value :: others =>
        if looksLikeOption value then .error (.missingValue setting)
        else do ofArguments (← r.set setting value) others
    | .optionsEnd => ofFiles r others
    | .plain name => do ofArguments (← r.setFile name) others
    | .unknown text => .error (.unknownOption text)
    | .needlessValue text => .error (.needlessValue text)

end Command

/-! ## Answers -/

/-- Where a script comes from. -/
inductive Source where
  | argument (script : String)
  | file (name : String)
  | standardInput
deriving DecidableEq

/-- Where the script of a request comes from. -/
def Request.source (r : Request) : Source :=
  match r.script, r.file with
  | some script, _ => .argument script
  | none, some name => .file name
  | none, none => .standardInput

/-- What the program prints, and how it ends. -/
structure Response where
  exitCode : Nat
  output : String := ""
  errors : String := ""
deriving DecidableEq

namespace Response

/-- The answer to a request for the version. -/
def version : Response :=
  { exitCode := 0, output := "batch-parser 0.1.0\n" }

/-- The answer where there is no script to read. -/
def noScript (reason : String) : Response :=
  { exitCode := 2, errors := "Error: " ++ reason ++ "\n" }

end Response

/-- The answer to wrong arguments. -/
def UsageError.response (e : UsageError) : Response :=
  { exitCode := 2, errors := "error: " ++ e.message ++ "\n" }

/-- The answer to a request whose script is known. -/
def Request.answer (r : Request) (script : String) : Response :=
  match Document.read r.limits script with
  | .ok document =>
    { exitCode := 0
      output := if r.json then document.toJson.pretty ++ "\n" else document.outline 0 }
  | .error failure =>
    { exitCode := 1
      errors :=
        if r.json then (Json.object [("error", failure.report.toJson)]).compact ++ "\n"
        else failure.report.message ++ "\n" }

/-- What a script is read from: each gives the script, or says why there is none. -/
structure Inputs (m : Type → Type) where
  standardInput : m (Except String String)
  file (name : String) : m (Except String String)

/-- Why a file that does not exist cannot be read. -/
def noSuchFile : String :=
  "No such file or directory (os error 2)"

/-- A standard input and a table of files that are known beforehand. -/
def Inputs.known (standardInput : String) (file : String → Option String) : Inputs Id where
  standardInput := pure (.ok standardInput)
  file name := pure ((file name).elim (.error noSuchFile) .ok)

section Answers

variable {m : Type → Type} [Monad m]

/-- The script of a request, read from where the request says. -/
def Request.readScript (inputs : Inputs m) (r : Request) : m (Except String String) :=
  match r.source with
  | .argument script => pure (.ok script)
  | .standardInput => inputs.standardInput
  | .file name =>
    return (← inputs.file name).mapError (("Cannot read script file: " ++ name ++ ": ") ++ ·)

/-- The answer to a request. -/
def Request.serve (inputs : Inputs m) (r : Request) : m Response := do
  match ← r.readScript inputs with
  | .ok script => return r.answer script
  | .error reason => return .noScript reason

/-- The answer to some arguments. -/
def serve (inputs : Inputs m) (arguments : List String) : m (Except UsageError Response) :=
  match Command.ofArguments {} arguments with
  | .error e => pure (.error e)
  | .ok .version => pure (.ok .version)
  | .ok (.read request) => .ok <$> request.serve inputs

end Answers

/-- The answer to some arguments where everything to read is known. -/
def respond (arguments : List String) (standardInput : String) (file : String → Option String) :
    Except UsageError Response :=
  Id.run (serve (.known standardInput file) arguments)

end BatchScript.CommandLine
