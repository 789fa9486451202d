import BatchScript.Statement

/-!
# Outlines

A tree as text for people: each statement in angle brackets, its texts in
braces, and the statements inside it on lines of their own, indented by four
more spaces. Texts are shown as they are, line feeds included.
-/

namespace BatchScript

namespace Outline

/-- The indentation of one level. -/
def indentation : String :=
  "    "

/-- The indentation of `level` levels. -/
def margin (level : Nat) : String :=
  String.join (List.replicate level indentation)

/-- A text with a name. -/
def field (name text : String) : String :=
  " " ++ name ++ "=\x7b" ++ text ++ "\x7d"

end Outline

open Outline

def Redirection.outline (r : Redirection) : String :=
  "<redirection" ++ field "mode" r.mode ++ field "destination" r.destination ++ ">"

def Condition.outline : Condition → String
  | .comparison left operator right =>
    "<comparison" ++ field "left" left ++ field "ope" operator ++ field "right" right ++ ">"
  | .pathExists path => "<exists" ++ field "path" path ++ ">"
  | .negated inner => "<not \x7b" ++ inner.outline ++ "\x7d>"

def Leaf.outline : Leaf → String
  | .comment text => "<rem" ++ field "text" text ++ ">"
  | .assignment name value => "<setvariable" ++ field "name" name ++ field "value" value ++ ">"
  | .goto target => "<goto" ++ field "name" target ++ ">"
  | .invoke target arguments =>
    "<callfile" ++ field "name" target ++ field "parameters" (",".intercalate arguments) ++ ">"
  | .emit message escapeMode redirections =>
    "<echo" ++ field "message" message ++ (if escapeMode then field "escape" "true" else "") ++
      (if redirections.isEmpty then ""
        else field "redirect" (" ".intercalate (redirections.map Redirection.outline))) ++ ">"

mutual

/-- The outline of a statement that stands `level` levels deep. -/
def Statement.outline (level : Nat) : Statement → String
  | .leaf leaf => margin level ++ leaf.outline
  | .label name => margin level ++ "<label" ++ field "name" name ++ ">"
  | .branch condition thenBody elseBody =>
    margin level ++ "<if" ++ field "condition" condition.outline ++ " whenTrue=\x7b\n" ++
      outlineBody (level + 1) "" thenBody ++ margin level ++ "\x7d" ++
      outlineElse level elseBody ++ ">"
  | .loop option loopVar source body =>
    margin level ++ "<for" ++ field "option" (option.getD "") ++
      field "parameter" (.singleton loopVar) ++ field "set" source ++ " statements=\x7b\n" ++
      outlineBody (level + 1) "" body ++ margin level ++ "\x7d>"
  | .chain left operator right =>
    margin level ++ "<pipeline" ++ field "ope" operator.text ++ " left=\x7b\n" ++
      left.outline (level + 1) ++ "\n" ++ margin level ++ "\x7d right=\x7b\n" ++
      right.outline (level + 1) ++ "\n" ++ margin level ++ "\x7d>"

/-- The outlines of statements, each with a line feed behind it, after `done`. -/
def outlineBody (level : Nat) (done : String) : List Statement → String
  | [] => done
  | statement :: others =>
    outlineBody level (done ++ statement.outline level ++ "\n") others

/-- The part of a branch's outline for its alternative. -/
def outlineElse (level : Nat) : Option (List Statement) → String
  | none => ""
  | some body =>
    " whenFalse=\x7b\n" ++ outlineBody (level + 1) "" body ++ margin level ++ "\x7d"

end

theorem outlineBody_eq_append (level : Nat) (done : String) (statements : List Statement) :
    outlineBody level done statements = done ++ outlineBody level "" statements := by
  induction statements generalizing done with
  | nil => simp [outlineBody]
  | cons statement others ih =>
    rw [outlineBody, outlineBody, ih, ih ("" ++ _ ++ _)]
    simp [String.append_assoc]

def Document.outline (level : Nat) (d : Document) : String :=
  outlineBody level "" d.statements

end BatchScript
