import BatchScript.Rule
import BatchScript.Statement

/-!
# Leaves

The rules for the smallest parts of a statement, and from them those for labels,
redirections and leaves. A rule for a part records what it wanted when it does not
match, and then leaves the cursor where it was.

A redirection is a mode, with a handle digit directly before it or without one,
and a destination. A destination of digits alone names a stream, if the digits
end where a redirection may end; any other is a quoted text or a token.

A leaf is tried as a comment, an assignment, an output, a jump and a call, in
this order. Free text runs to the end of the line; inside a block it ends
before a closing parenthesis, except in a comment.
-/

namespace BatchScript.Grammar

open Text

/-! ## Keywords, punctuation, names and tokens -/

/-- A keyword in any ASCII case. -/
def keyword (k : Keyword) : Rule Unit :=
  .step? (·.eatKeyword? k.text) <|> .fail (.keyword k)

/-- A punctuation character. -/
def symbol (x : Char) : Rule Unit :=
  .step? (·.eat? x) <|> .fail (.symbol (.singleton x))

/-- At least one space. -/
def spaces : Rule Unit := do
  let _ ← .scan? (·.word? isSpace) <|> .fail .whitespace

def identifier : Rule String :=
  .scan? (·.identifier?) <|> .fail .identifier

/-- Any number of spaces. -/
def skipSpaces : Rule Unit :=
  .move (·.skipWhile isSpace)

/-- Any number of blanks. -/
def skipBlanks : Rule Unit :=
  .move (·.skipWhile isBlank)

/-- A punctuation character that may be left out. -/
def skipSymbol (x : Char) : Rule Unit :=
  .move fun c => (c.eat? x).getD c

/-- Whether a character closes the enclosing block, if there is one. -/
def closesBlock (inBlock : Bool) (x : Char) : Bool :=
  inBlock && x == ')'

/-- Whether a character may stand in an unquoted token. -/
def isTokenChar (inBlock : Bool) (x : Char) : Bool :=
  !isBlank x && !isChainChar x && !closesBlock inBlock x

/-- A quoted text, or a run of characters up to a blank, a chain operator or the
end of the block. -/
def token (inBlock : Bool) : Rule String :=
  .scan? (·.quoted?) <|> .scan? (·.word? (isTokenChar inBlock))

/-! ## Redirections -/

/-- All modes; one that begins another comes after it. -/
def modes : List String :=
  [">>", ">&", ">", "<&", "<"]

/-- Whether a text begins with a handle digit that belongs to a redirection. -/
def beginsWithHandle : List Char → Bool
  | digit :: following :: _ => isHandleDigit digit && isRedirectChar following
  | _ => false

/-- The handle digit before a mode, or nothing. -/
def handle (c : Cursor) : String × Cursor :=
  if beginsWithHandle c.rest then (String.ofList (c.rest.take 1), c.next) else ("", c)

/-- Whether the number of a stream may end before a character. -/
def endsStream (inBlock : Bool) (x : Char) : Bool :=
  isBlank x || isChainChar x || isRedirectChar x || closesBlock inBlock x

/-- The number of a stream. -/
def stream? (inBlock : Bool) (c : Cursor) : Option (String × Cursor) :=
  (c.word? Char.isDigit).filter fun found => found.2.current.all (endsStream inBlock)

/-- Where a redirection leads. -/
def destination : Rule String := do
  let inBlock ← .inBlock
  .scan? (stream? inBlock) <|> token inBlock <|> .fail .redirectionTarget

def redirection : Rule Redirection :=
  .attempt do
    let handle ← .scan handle
    let mode ← .scan? (·.eatFirst? id modes) <|> .fail .redirection
    skipSpaces
    let destination ← destination
    return ⟨handle ++ mode, destination⟩

/-- Redirections with or without spaces before them. -/
def redirections : Rule (List Redirection) :=
  .many (.attempt do skipSpaces; redirection)

/-! ## Labels -/

def label : Rule Statement :=
  .attempt do
    symbol ':'
    let name ← identifier
    return .label name

/-! ## Comments -/

/-- The text of a comment line behind `REM`: nothing at the end of a line, or what
follows one space. -/
def commentText? (c : Cursor) : Option (String × Cursor) :=
  if c.atLineEnd then some ("", c)
  else if c.current.any isSpace then some c.next.restOfLine
  else none

/-- One comment line. -/
def commentLine : Rule String :=
  .attempt do
    keyword .rem
    .scan? commentText? <|> .fail .whitespace

/-- A comment on the next line. -/
def nextCommentLine : Rule String :=
  .attempt do
    .step? (·.eatLineBreak?)
    skipSpaces
    skipSymbol '@'
    commentLine

/-- Consecutive comment lines, joined by line feeds. -/
def comment : Rule Leaf := do
  let first ← commentLine
  let others ← .many nextCommentLine
  return .comment ("\n".intercalate (first :: others))

/-! ## Assignments, jumps and calls -/

/-- The rest of the line, or of the block if that ends earlier. -/
def freeText : Rule String := do
  let inBlock ← .inBlock
  .scan (·.span fun x => !isLineBreak x && !closesBlock inBlock x)

def assignment : Rule Leaf :=
  .attempt do
    keyword .set
    spaces
    let name ← identifier
    symbol '='
    let value ← freeText
    return .assignment name value

/-- A jump; its target may have a colon before it. -/
def goto : Rule Leaf :=
  .attempt do
    keyword .goto
    spaces
    skipSymbol ':'
    let target ← identifier
    return .goto target

/-- A call and its arguments. -/
def invoke : Rule Leaf :=
  .attempt do
    keyword .call
    spaces
    let inBlock ← .inBlock
    let target ← token inBlock <|> .fail .callTarget
    let arguments ← .many (.attempt do skipSpaces; token inBlock)
    return .invoke target arguments

/-! ## Output -/

/-- Whether a message ends here: at the end of the line or of the block, at a chain
operator, or at a redirection with its handle. -/
def endsMessage (inBlock : Bool) (text : List Char) : Bool :=
  text.head?.any (fun x => isLineBreak x || isRedirectChar x || isChainChar x ||
    closesBlock inBlock x) || beginsWithHandle text

/-- The message of an output. -/
def message : Rule String := do
  let inBlock ← .inBlock
  .scan (·.upTo (endsMessage inBlock))

/-- What separates `ECHO` from its message; a colon asks for escape mode. -/
def escapeMode : Rule Bool :=
  (do .step? (·.eat? ':'); return true) <|>
  (do .step? (·.eat? '.'); return false) <|>
  (do spaces; return false)

/-- An output and its redirections. -/
def emit : Rule Leaf :=
  .attempt do
    keyword .echo
    let escapeMode ← escapeMode
    let message ← message
    let redirections ← redirections
    return .emit message escapeMode redirections

/-- A statement that may stand in a chain. -/
def leaf : Rule Leaf :=
  comment <|> assignment <|> emit <|> goto <|> invoke

end BatchScript.Grammar
