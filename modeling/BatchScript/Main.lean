import BatchScript.CommandLine

/-!
# The program

Reads the script that the arguments ask for, and prints the answer.
-/

namespace BatchScript.CommandLine

/-- Prints an answer and gives its exit code. -/
def Response.print (r : Response) : IO UInt32 := do
  IO.print r.output
  IO.eprint r.errors
  return UInt32.ofNat r.exitCode

/-- Everything on the standard input, unless a person would have to type it. -/
def readStandardInput : IO (Except String String) := do
  let stdin ← IO.getStdin
  if ← stdin.isTty then
    return .error ("No script provided. " ++
      "Use -c 'script', provide a script file, or pipe via stdin.")
  let mut bytes := ByteArray.empty
  repeat
    let more ← stdin.read 65536
    if more.isEmpty then break
    bytes := bytes ++ more
  match String.fromUTF8? bytes with
  | some script => return .ok script
  | none => return .error "Cannot read stdin: stream did not contain valid UTF-8"

/-- The text of a file. -/
def readFile (name : String) : IO (Except String String) := do
  match ← (IO.FS.readFile name).toBaseIO with
  | .ok script => return .ok script
  | .error (.noFileOrDirectory ..) => return .error noSuchFile
  | .error e => return .error (toString e)

/-- The standard input and the files of the system. -/
def Inputs.system : Inputs IO where
  standardInput := readStandardInput
  file := readFile

end BatchScript.CommandLine

/-- Runs the program. -/
def main (arguments : List String) : IO UInt32 := do
  match ← BatchScript.CommandLine.serve .system arguments with
  | .ok response => response.print
  | .error e => e.response.print
