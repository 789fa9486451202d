import BatchScript.Grammar.Leaf

/-!
# Statements and documents

A statement is tried as a label, a branch, a loop and a chain, in this order;
an `@` before it is read and forgotten. Branches and loops hold statements, and
the rules for them take the rule for a statement as an argument. It refers to
itself: each nested statement begins with less to read (`statement_apply`).
-/

namespace BatchScript.Grammar

open Text

/-! ## Chains

Leaves joined by operators, folded from the left. The line may break after an
operator and not before it, and a leaf behind an operator may have an `@`
before it. An operator without a leaf behind it is left unread. -/

def chainOperator : Rule ChainOperator :=
  .scan? (·.eatFirst? ChainOperator.text ChainOperator.all) <|>
    .failAll (ChainOperator.all.map fun op => .symbol op.text)

/-- An operator and the leaf behind it. -/
def chainLink : Rule (ChainOperator × Leaf) :=
  .attempt do
    skipSpaces
    let operator ← chainOperator
    skipBlanks
    skipSymbol '@'
    let right ← leaf
    return (operator, right)

/-- A leaf, or a chain of them. -/
def chain : Rule Statement := do
  let first ← leaf
  Rule.foldMany (fun left (operator, right) => .chain left operator (.leaf right)) chainLink
    (.leaf first)

/-! ## Conditions

A simple condition is tried as a question for a path, as a relation with a
keyword and as an equation with `==`, in this order. One `NOT` may stand before
it. -/

/-- One side of a comparison: a run without blanks, quotes included. -/
def operand : Rule String :=
  .scan? (·.literal?) <|> .fail .operand

/-- A question for a path. -/
def existence : Rule Condition :=
  .attempt do
    keyword .exist
    spaces
    let path ← .scan? (·.quoted?) <|> .scan? (·.literal?) <|> .fail .path
    return .pathExists path

/-- A keyword of comparison with a blank behind it, as it is spelled. -/
def relationKeyword? (c : Cursor) : Option (String × Cursor) :=
  (Keyword.relations.find? fun k =>
    c.atKeyword k.text && (c.peek k.text.length).any isBlank).map fun k =>
      (String.ofList (c.rest.take k.text.length), c.skip k.text.length)

/-- Two operands with a keyword between them. -/
def relation : Rule Condition :=
  .attempt do
    let left ← operand
    spaces
    let operator ← .scan? relationKeyword? <|> .failAll (Keyword.relations.map .keyword)
    spaces
    let right ← operand
    return .comparison left operator right

/-- Whether the search for `==` ends here: found, or at the end of the line. -/
def endsLeftSide (text : List Char) : Bool :=
  ['=', '='].isPrefixOf text || text.head?.any isLineBreak

/-- An equation. Its left side is all before the first `==` of the line, trimmed. -/
def equation : Rule Condition :=
  .attempt do
    let before ← .scan (·.upTo endsLeftSide)
    .holds (·.startsWith "==") <|> .fail (.symbol "==")
    let left := String.ofList (trim before.toList)
    .holds (fun _ => !left.isEmpty) <|> .fail .operand
    .step? (·.eatText? "==")
    skipSpaces
    let right ← operand
    return .comparison left "==" right

/-- A condition without `NOT`. -/
def simpleCondition : Rule Condition :=
  existence <|> relation <|> equation

/-- A condition with `NOT`. -/
def negation : Rule Condition :=
  .attempt do
    keyword .notWord
    spaces
    let inner ← simpleCondition
    return .negated inner

/-- The condition of a branch. -/
def condition : Rule Condition :=
  negation <|> simpleCondition

/-! ## Bodies

One statement, or a block of statements in parentheses. -/

/-- The end of a keyword that a body follows: a blank or a parenthesis has to come next. -/
def bodyFollows : Rule Unit :=
  .holds (fun c => c.current.any fun x => isBlank x || x == '(') <|> .fail .whitespace

/-- A statement of a block. -/
def blockItem (statement : Rule Statement) : Rule Statement := do
  skipBlanks
  .holds fun c => c.current != some ')'
  statement

/-- Statements in parentheses. -/
def block (statement : Rule Statement) : Rule (List Statement) :=
  .attempt do
    symbol '('
    Rule.insideBlock do
      let statements ← .many (blockItem statement)
      symbol ')'
      return statements

/-- One statement or a block, inside at most `limit` bodies. -/
def body (limit : Nat) (statement : Rule Statement) : Rule (List Statement) :=
  .insideBody limit ((do return [← statement]) <|> block statement)

/-! ## Branches

A condition, a body, and perhaps `ELSE` and a body. Blanks of any kind may
stand before `ELSE` and before a body. -/

/-- The alternative of a branch. -/
def alternative (body : Rule (List Statement)) : Rule (List Statement) :=
  .attempt do
    skipBlanks
    keyword .elseWord
    bodyFollows
    skipBlanks
    body

def branch (body : Rule (List Statement)) : Rule Statement :=
  .attempt do
    keyword .ifWord
    spaces
    let condition ← condition
    skipBlanks
    let thenBody ← body
    let elseBody ← Rule.optional (alternative body)
    return .branch condition thenBody elseBody

/-! ## Loops

`FOR /F`, perhaps a quoted option, a variable of one letter, a source in
parentheses and a body. The source is kept as it is written, up to the
parenthesis that matches the opening one. Parentheses inside quotes do not
count; a quote that is left open closes at the end of its line. -/

/-- The option of a loop. -/
def loopOption : Rule String :=
  .attempt do
    let option ← .scan? (·.quoted?)
    spaces
    return option

def letter? (c : Cursor) : Option (Char × Cursor) :=
  (c.current.filter isLetter).map fun x => (x, c.next)

/-- The quote that is open behind `x`, if `quote` is open before it. -/
def quoteAfter (quote : Option Char) (x : Char) : Option Char :=
  match quote with
  | some q => if x == q || isLineBreak x then none else some q
  | none => if isQuote x then some x else none

/-- `sourceLength? n depth quote text` adds to `n` the number of characters before
the parenthesis that closes a source, when `depth` parentheses inside the source
and perhaps a quote are open. -/
def sourceLength? (n depth : Nat) (quote : Option Char) : List Char → Option Nat
  | [] => none
  | x :: rest =>
    if quote.isNone && x == ')' then
      match depth with
      | 0 => some n
      | depth + 1 => sourceLength? (n + 1) depth none rest
    else if quote.isNone && x == '(' then sourceLength? (n + 1) (depth + 1) none rest
    else sourceLength? (n + 1) depth (quoteAfter quote x) rest

theorem sourceLength?_eq_map (n depth : Nat) (quote : Option Char) (text : List Char) :
    sourceLength? n depth quote text = (sourceLength? 0 depth quote text).map (n + ·) := by
  induction text generalizing n depth quote with
  | nil => rfl
  | cons x rest ih =>
    simp only [sourceLength?]
    split
    · split
      · rfl
      · rw [ih (n + 1), ih (0 + 1)]
        simp [Function.comp_def, Nat.add_assoc]
    · split
      all_goals
        rw [ih (n + 1), ih (0 + 1)]
        simp [Function.comp_def, Nat.add_assoc]

/-- The source of a loop and the cursor behind its closing parenthesis. -/
def source? (c : Cursor) : Option (String × Cursor) :=
  (sourceLength? 0 0 none c.rest).map fun n =>
    (String.ofList (c.rest.take n), c.skip (n + 1))

/-- The source of a loop; without a closing parenthesis, one was wanted at the end
of the script. -/
def loopSource : Rule String :=
  .scan? source? <|> do
    .move fun c => c.skip c.left
    .fail (.symbol ")")

def loop (body : Rule (List Statement)) : Rule Statement :=
  .attempt do
    keyword .forWord
    spaces
    keyword .fileSwitch
    spaces
    let option ← Rule.optional loopOption
    .step? (·.eatText? "%%") <|> .fail (.symbol "%%")
    let loopVar ← .scan? letter? <|> .fail .loopVariable
    spaces
    keyword .inWord
    skipSpaces
    symbol '('
    let source ← loopSource
    skipSpaces
    keyword .doWord
    bodyFollows
    skipBlanks
    let body ← body
    return .loop option loopVar source body

/-! ## Statements and documents -/

/-- A statement, whose bodies hold statements read by `nested` and are nested at
most `limit` deep. -/
def statementWith (limit : Nat) (nested : Rule Statement) : Rule Statement :=
  .attempt do
    skipSymbol '@'
    label <|> branch (body limit nested) <|> loop (body limit nested) <|> chain

/-- A statement, with at most `limit` bodies around any part of it. -/
def statement (limit : Nat) (s : State) : Outcome Statement × State :=
  statementWith limit
    (fun t => if t.left < s.left then statement limit t else (.unmatched, t)) s
termination_by s.left

theorem statement_apply (limit : Nat) (s : State) :
    statement limit s =
      statementWith limit
        (fun t => if t.left < s.left then statement limit t else (.unmatched, t)) s := by
  rw [statement]

/-- A statement of a document, with blanks before it. -/
def documentItem (limit : Nat) : Rule Statement := do
  skipBlanks
  .holds fun c => !c.atEnd
  statement limit

/-- A whole script. -/
def document (limit : Nat) : Rule Document := do
  let statements ← .many (documentItem limit)
  .holds (·.atEnd)
  return ⟨statements⟩

end BatchScript.Grammar
