import BatchScript.Failure
import BatchScript.Statement

/-!
# JSON

JSON values and their printed forms, and the tree of a script and a report of a
failure as JSON. There are two layouts: `compact`, without any blanks between the
tokens, and `pretty`, with one item or member on a line, indented by two spaces a
level, and a space behind a member's colon. Quotes, backslashes and the control
characters below U+0020 are escaped; every other character is printed as it is.
A node of a tree is an object whose first member is its kind; what is absent is
`null`.
-/

namespace BatchScript

/-- A JSON value without fractions. The members of an object keep their order. -/
inductive Json where
  | null
  | bool (value : Bool)
  | count (value : Nat)
  | text (value : String)
  | array (items : List Json)
  | object (members : List (String × Json))

namespace Json

/-- A text, or `null` for none. -/
def textOrNull : Option String → Json
  | none => .null
  | some t => .text t

/-- An array of texts. -/
def texts (ts : List String) : Json :=
  .array (ts.map .text)

/-- A node of a certain kind. -/
def node (kind : String) (members : List (String × Json)) : Json :=
  .object (("type", .text kind) :: members)

/-! ## Printed texts -/

/-- A character inside a printed text. -/
def escaped (c : Char) : String :=
  if c = '"' then "\\\""
  else if c = '\\' then "\\\\"
  else if c = '\x08' then "\\b"
  else if c = '\t' then "\\t"
  else if c = '\n' then "\\n"
  else if c = '\x0c' then "\\f"
  else if c = '\r' then "\\r"
  else if c.toNat < 0x20 then
    "\\u00" ++ String.ofList [Nat.digitChar (c.toNat / 16), Nat.digitChar (c.toNat % 16)]
  else .singleton c

def quoted (t : String) : String :=
  "\"" ++ String.join (t.toList.map escaped) ++ "\""

def truth (b : Bool) : String :=
  if b then "true" else "false"

/-! ## Without blanks -/

mutual

/-- A value without blanks between its tokens. -/
def compact : Json → String
  | .null => "null"
  | .bool b => truth b
  | .count n => toString n
  | .text t => quoted t
  | .array items => "[" ++ ",".intercalate (compactItems [] items) ++ "]"
  | .object members => "\x7b" ++ ",".intercalate (compactMembers [] members) ++ "\x7d"

/-- The items of an array, after those in `done`, which are in reverse order. -/
def compactItems (done : List String) : List Json → List String
  | [] => done.reverse
  | item :: others => compactItems (item.compact :: done) others

/-- The members of an object, after those in `done`, which are in reverse order. -/
def compactMembers (done : List String) : List (String × Json) → List String
  | [] => done.reverse
  | (name, value) :: others =>
    compactMembers ((quoted name ++ ":" ++ value.compact) :: done) others

end

/-! ## One item on a line -/

/-- The beginning of a line that is `level` levels deep. -/
def newLine (level : Nat) : String :=
  "\n" ++ String.join (List.replicate level "  ")

/-- Lines between two brackets, or nothing between them. -/
def enclosed (level : Nat) (opening closing : String) (lines : List String) : String :=
  if lines.isEmpty then opening ++ closing
  else opening ++ newLine (level + 1) ++ (("," ++ newLine (level + 1)).intercalate lines) ++
    newLine level ++ closing

mutual

/-- A value that stands `level` levels deep, with one item or member on a line. -/
def prettyAt (level : Nat) : Json → String
  | .null => "null"
  | .bool b => truth b
  | .count n => toString n
  | .text t => quoted t
  | .array items => enclosed level "[" "]" (prettyItems (level + 1) [] items)
  | .object members => enclosed level "\x7b" "\x7d" (prettyMembers (level + 1) [] members)

/-- The items of an array, after those in `done`, which are in reverse order. -/
def prettyItems (level : Nat) (done : List String) : List Json → List String
  | [] => done.reverse
  | item :: others => prettyItems level (item.prettyAt level :: done) others

/-- The members of an object, after those in `done`, which are in reverse order. -/
def prettyMembers (level : Nat) (done : List String) : List (String × Json) → List String
  | [] => done.reverse
  | (name, value) :: others =>
    prettyMembers level ((quoted name ++ ": " ++ value.prettyAt level) :: done) others

end

/-- A value with one item or member on a line. -/
def pretty (j : Json) : String :=
  j.prettyAt 0

end Json

/-! ## Trees and reports -/

def Redirection.toJson (r : Redirection) : Json :=
  .object [("mode", .text r.mode), ("destination", .text r.destination)]

def Condition.toJson : Condition → Json
  | .comparison left operator right =>
    .node "comparison" [("left", .text left), ("operator", .text operator), ("right", .text right)]
  | .pathExists path => .node "exists" [("path", .text path)]
  | .negated inner => .node "negated" [("inner", inner.toJson)]

/-- The members of a leaf behind its kind. -/
def Leaf.members : Leaf → List (String × Json)
  | .comment text => [("text", .text text)]
  | .assignment name value => [("name", .text name), ("value", .text value)]
  | .goto target => [("target", .text target)]
  | .invoke target arguments => [("target", .text target), ("arguments", .texts arguments)]
  | .emit message escapeMode redirections =>
    [("message", .text message), ("escape_mode", .bool escapeMode),
      ("redirections", .array (redirections.map Redirection.toJson))]

mutual

def Statement.toJson : Statement → Json
  | .leaf leaf => .node leaf.kindName leaf.members
  | .label name => .node "label" [("name", .text name)]
  | .branch condition thenBody elseBody =>
    .node "branch" [("condition", condition.toJson), ("then_body", .array (bodyToJson thenBody)),
      ("else_body", elseToJson elseBody)]
  | .loop option loopVar source body =>
    .node "loop" [("option", .textOrNull option), ("loop_var", .text (.singleton loopVar)),
      ("source_expr", .text source), ("body", .array (bodyToJson body))]
  | .chain left operator right =>
    .node "chain" [("left", left.toJson), ("operator", .text operator.text),
      ("right", right.toJson)]

def bodyToJson : List Statement → List Json
  | [] => []
  | statement :: others => statement.toJson :: bodyToJson others

/-- The alternative of a branch as JSON. -/
def elseToJson : Option (List Statement) → Json
  | none => .null
  | some body => .array (bodyToJson body)

end

def Document.toJson (d : Document) : Json :=
  .object [("statements", .array (d.statements.map Statement.toJson))]

def Position.toJson (p : Position) : Json :=
  .object [("column", .count p.column), ("line", .count p.line), ("offset", .count p.offset)]

def Report.toJson (r : Report) : Json :=
  .object [("expected", .texts r.expected), ("position", r.position.toJson)]

end BatchScript
