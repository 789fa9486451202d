import BatchScript.Cursor

/-!
# Failures

What a rule wanted to find where it failed (`Expectation`), each with a text of
its own; why a script was not read, as a cause (`Failure`) and as what is told
about it (`Report`); and the record of attempts from which the cause of an
ordinary failure is taken: the furthest place where a rule failed, and what was
wanted there, each thing once.
-/

namespace BatchScript

/-! ## Expectations -/

/-- The words with a fixed meaning. -/
inductive Keyword where
  | rem | set | echo | goto | call
  | ifWord | elseWord | notWord | exist
  | forWord | fileSwitch | inWord | doWord
  | equ | neq | gtr | lss | leq | geq
deriving DecidableEq

namespace Keyword

/-- A keyword in capitals; a script may write it in any ASCII case. -/
def text : Keyword → String
  | .rem => "REM"
  | .set => "SET"
  | .echo => "ECHO"
  | .goto => "GOTO"
  | .call => "CALL"
  | .ifWord => "IF"
  | .elseWord => "ELSE"
  | .notWord => "NOT"
  | .exist => "EXIST"
  | .forWord => "FOR"
  | .fileSwitch => "/F"
  | .inWord => "IN"
  | .doWord => "DO"
  | .equ => "EQU"
  | .neq => "NEQ"
  | .gtr => "GTR"
  | .lss => "LSS"
  | .leq => "LEQ"
  | .geq => "GEQ"

/-- The keywords that compare two operands. -/
def relations : List Keyword :=
  [.equ, .neq, .gtr, .lss, .leq, .geq]

end Keyword

/-- Something a rule wanted to find. -/
inductive Expectation where
  | keyword (keyword : Keyword)
  | symbol (text : String)
  | whitespace
  | identifier
  /-- The script or label that is called. -/
  | callTarget
  /-- The mode of a redirection. -/
  | redirection
  | redirectionTarget
  /-- One side of a comparison. -/
  | operand
  | path
  | loopVariable
  | statement
deriving DecidableEq

/-- The text of an expectation in a report. -/
def Expectation.text : Expectation → String
  | .keyword k => k.text
  | .symbol t => "'" ++ t ++ "'"
  | .whitespace => "whitespace"
  | .identifier => "identifier"
  | .callTarget => "call target"
  | .redirection => "redirection"
  | .redirectionTarget => "redirection target"
  | .operand => "operand"
  | .path => "path"
  | .loopVariable => "loop variable"
  | .statement => "statement"

/-! ## Failures and the record of attempts -/

/-- A failure as it is told: a place, and what was expected there. -/
structure Report where
  position : Position
  expected : List String
deriving DecidableEq

namespace Report

/-- Alternatives as a phrase: commas between them, and `or` before the last. -/
def alternatives : List String → String
  | [] => "nothing"
  | [only] => only
  | [first, last] => first ++ " or " ++ last
  | first :: others => first ++ ", " ++ alternatives others

/-- A report in one sentence. -/
def message (r : Report) : String :=
  "Parse error at " ++ r.position.text ++ ": expected " ++ alternatives r.expected

end Report

/-- Why a script was not read. -/
inductive Failure where
  /-- The script has more bytes than `limit`. -/
  | tooLarge (limit : Nat)
  /-- A body begins at `position` inside `limit` others. -/
  | tooDeep (position : Position) (limit : Nat)
  /-- No rule applies; `position` is the furthest place where one was tried. -/
  | unmatched (position : Position) (expected : List Expectation)
deriving DecidableEq

/-- What is told about a failure. -/
def Failure.report : Failure → Report
  | .tooLarge limit => ⟨.start, ["input of at most " ++ toString limit ++ " bytes"]⟩
  | .tooDeep position limit => ⟨position, ["at most " ++ toString limit ++ " nested bodies"]⟩
  | .unmatched position expected => ⟨position, expected.map Expectation.text⟩

/-- The furthest place where a rule failed, and what was wanted there, in the order of the first
attempts. -/
structure Attempts where
  furthest : Position := .start
  expected : List Expectation := []
deriving DecidableEq

namespace Attempts

/-- The record after `e` was wanted at `p`: a further place replaces the record, the
same place adds what is new, and an earlier place adds nothing. -/
def note (a : Attempts) (p : Position) (e : Expectation) : Attempts :=
  if a.furthest.offset < p.offset then ⟨p, [e]⟩
  else if p.offset = a.furthest.offset ∧ e ∉ a.expected then ⟨a.furthest, a.expected ++ [e]⟩
  else a

/-- The failure that a record tells; without any attempt a statement was wanted `here`. -/
def failure (a : Attempts) (here : Position) : Failure :=
  if a.expected.isEmpty then .unmatched here [.statement] else .unmatched a.furthest a.expected

end Attempts

end BatchScript
