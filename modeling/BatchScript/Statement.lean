/-!
# Statements

The tree of a batch script. Leaves are the statements that may stand in a
chain; labels, branches and loops may not. The types also hold trees that no
script has, such as a label inside a chain.
-/

namespace BatchScript

/-- A stream redirection such as `>> file` or `2>&1`. -/
structure Redirection where
  /-- One of `>>`, `>&`, `>`, `<&` and `<`, after at most one handle digit. -/
  mode : String
  /-- A file name, or the number of a stream. -/
  destination : String
deriving DecidableEq

/-- A statement without parts that are statements. -/
inductive Leaf where
  /-- Consecutive `REM` lines, joined by line feeds. -/
  | comment (text : String)
  /-- `SET name=value`. -/
  | assignment (name value : String)
  /-- `GOTO target`. -/
  | goto (target : String)
  /-- `CALL target arguments`. -/
  | invoke (target : String) (arguments : List String)
  /-- `ECHO message`, or `ECHO:message` in escape mode. -/
  | emit (message : String) (escapeMode : Bool) (redirections : List Redirection)
deriving DecidableEq

/-- How the statements of a chain follow each other. -/
inductive ChainOperator where
  /-- `&`: one after the other. -/
  | sequence
  /-- `&&`: the second if the first succeeds. -/
  | onSuccess
  /-- `||`: the second if the first fails. -/
  | onFailure
  /-- `|`: the output of the first is the input of the second. -/
  | pipe
deriving DecidableEq

namespace ChainOperator

/-- An operator as it is written. -/
def text : ChainOperator → String
  | .sequence => "&"
  | .onSuccess => "&&"
  | .onFailure => "||"
  | .pipe => "|"

/-- All operators; one that begins another comes after it. -/
def all : List ChainOperator :=
  [.onSuccess, .onFailure, .sequence, .pipe]

/-- The operator that is written so. -/
def ofText? (written : String) : Option ChainOperator :=
  all.find? fun op => op.text == written

@[simp] theorem ofText?_text (op : ChainOperator) : ofText? op.text = some op := by
  cases op <;> decide

theorem text_inj {op op' : ChainOperator} (h : op.text = op'.text) : op = op' := by
  have ho := congrArg ofText? h
  rwa [ofText?_text, ofText?_text, Option.some.injEq] at ho

end ChainOperator

/-- The condition of a branch. -/
inductive Condition where
  /-- `left == right`, or `left EQU right` and its kin, with the operator as it is spelled. -/
  | comparison (left operator right : String)
  /-- `EXIST path`. -/
  | pathExists (path : String)
  /-- `NOT inner`. -/
  | negated (inner : Condition)
deriving DecidableEq

/-- A statement of a script. -/
inductive Statement where
  /-- A statement that may stand in a chain. -/
  | leaf (leaf : Leaf)
  /-- `:name`. -/
  | label (name : String)
  /-- `IF condition thenBody ELSE elseBody`. -/
  | branch (condition : Condition) (thenBody : List Statement)
      (elseBody : Option (List Statement))
  /-- `FOR /F "option" %%loopVar IN (source) DO body`; the source is kept as it is written. -/
  | loop (option : Option String) (loopVar : Char) (source : String) (body : List Statement)
  /-- Two statements joined by an operator; a longer chain leans to the left. -/
  | chain (left : Statement) (operator : ChainOperator) (right : Statement)

/-- A whole script. -/
structure Document where
  statements : List Statement

instance : Inhabited Document := ⟨⟨[]⟩⟩

/-- The name of the kind of a leaf. -/
def Leaf.kindName : Leaf → String
  | .comment .. => "comment"
  | .assignment .. => "assignment"
  | .goto .. => "goto"
  | .invoke .. => "invoke"
  | .emit .. => "emit"

namespace Statement

/-- The name of the kind of a statement. -/
def kindName : Statement → String
  | .leaf l => l.kindName
  | .label .. => "label"
  | .branch .. => "branch"
  | .loop .. => "loop"
  | .chain .. => "chain"

/-- Whether a statement may stand in a chain. -/
def isLeaf : Statement → Bool
  | .leaf _ => true
  | _ => false

end Statement

end BatchScript
