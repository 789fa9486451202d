import BatchScript.Text

/-!
# Cursors

A cursor is what remains of a script together with the place where it begins.
It only moves forward, one character at a time; going back is done by keeping
an earlier cursor. A line ends after `\n`, and after a `\r` that no `\n` follows,
so that `\r\n` ends one line.

A scan says what can be read at a cursor. One that may fail answers `none` and
then moves nothing; every other scan takes the longest front of its kind, which
may be empty.

* `rest_skip`, `offset_skip`, `left_skip`: skipping `n` characters drops them from
  what remains, and counts those that were there;
* `rest_skipWhile`, `toList_span`: a run is split off where it ends;
* `word?_eq_none_iff`: when there is nothing to take;
* `eat?_eq_some_iff`, `eatText?_eq_some_iff`, `eatKeyword?_eq_some_iff`: a fixed
  text is taken whole, and only where it stands.
-/

namespace BatchScript

open Text

/-! ## Places -/

/-- A line and a column, both counted from one, and the number of characters before them. -/
structure Position where
  line : Nat
  column : Nat
  offset : Nat
deriving DecidableEq, Inhabited

namespace Position

/-- The place of the first character. -/
def start : Position :=
  ⟨1, 1, 0⟩

/-- Whether a line ends behind `c` when `following` comes next. -/
def endsLine (c : Char) (following : Option Char) : Bool :=
  c == '\n' || (c == '\r' && following != some '\n')

/-- The place behind `c` when `following` comes next. -/
def after (p : Position) (c : Char) (following : Option Char) : Position :=
  if endsLine c following then ⟨p.line + 1, 1, p.offset + 1⟩
  else ⟨p.line, p.column + 1, p.offset + 1⟩

@[simp] theorem offset_after (p : Position) (c : Char) (following : Option Char) :
    (p.after c following).offset = p.offset + 1 := by
  unfold after; split <;> rfl

/-- A place as `line:column`. -/
def text (p : Position) : String :=
  toString p.line ++ ":" ++ toString p.column

end Position

/-! ## Moves -/

/-- What remains of a script, and where it begins. The number of characters is kept beside them. -/
structure Cursor where
  rest : List Char
  position : Position
  left : Nat := rest.length
  left_eq : left = rest.length := by rfl

namespace Cursor

/-- The cursor before the first character of a text. -/
def ofText (text : List Char) : Cursor :=
  { rest := text, position := .start }

/-- The first character that remains. -/
def current (c : Cursor) : Option Char :=
  c.rest.head?

/-- The character `n` places further on. -/
def peek (c : Cursor) (n : Nat) : Option Char :=
  c.rest[n]?

/-- Whether nothing remains. -/
def atEnd (c : Cursor) : Bool :=
  c.rest.isEmpty

/-- The cursor behind the current character; at the end it stays. -/
def next (c : Cursor) : Cursor :=
  match h : c.rest with
  | [] => c
  | x :: rest =>
    { rest := rest
      position := c.position.after x rest.head?
      left := c.left - 1
      left_eq := by simp [c.left_eq, h] }

/-- The cursor `n` characters further on, or at the end. -/
def skip : Nat → Cursor → Cursor
  | 0, c => c
  | n + 1, c => skip n c.next

@[ext] theorem ext {c d : Cursor} (hr : c.rest = d.rest) (hp : c.position = d.position) :
    c = d := by
  obtain ⟨r, p, l, h⟩ := c
  obtain ⟨r', p', l', h'⟩ := d
  cases hr; cases hp; cases h; cases h'; rfl

@[simp] theorem rest_ofText (text : List Char) : (ofText text).rest = text := rfl

@[simp] theorem rest_next (c : Cursor) : c.next.rest = c.rest.tail := by
  unfold next; split <;> simp_all

theorem left_next (c : Cursor) : c.next.left = c.left - 1 := by
  simp [left_eq]

theorem position_next {c : Cursor} {x : Char} {rest : List Char} (h : c.rest = x :: rest) :
    c.next.position = c.position.after x rest.head? := by
  unfold next; split
  · simp_all
  · rename_i y r hr
    rw [h] at hr
    cases hr; rfl

theorem next_eq_self {c : Cursor} (h : c.rest = []) : c.next = c := by
  unfold next; split <;> simp_all

@[simp] theorem skip_zero (c : Cursor) : skip 0 c = c := rfl

theorem skip_succ (n : Nat) (c : Cursor) : skip (n + 1) c = skip n c.next := rfl

@[simp] theorem rest_skip (n : Nat) (c : Cursor) : (skip n c).rest = c.rest.drop n := by
  induction n generalizing c with
  | zero => rfl
  | succ n ih => rw [skip_succ, ih, rest_next, List.drop_tail]

theorem left_skip (n : Nat) (c : Cursor) : (skip n c).left = c.left - n := by
  simp [left_eq]

theorem offset_skip {n : Nat} {c : Cursor} (h : n ≤ c.rest.length) :
    (skip n c).position.offset = c.position.offset + n := by
  induction n generalizing c with
  | zero => rfl
  | succ n ih =>
    match hr : c.rest with
    | [] => simp [hr] at h
    | x :: rest =>
      have hn : n ≤ c.next.rest.length := by simp [hr] at h ⊢; omega
      rw [skip_succ, ih hn, position_next hr, Position.offset_after]; omega

/-! ## Fixed texts -/

/-- Whether what remains begins with `text`. -/
def startsWith (c : Cursor) (text : String) : Bool :=
  text.toList.isPrefixOf c.rest

/-- Whether what remains begins with `word` in any ASCII case. -/
def atKeyword (c : Cursor) (word : String) : Bool :=
  beginsWithWord word.toList c.rest

/-- The cursor behind `x`, if `x` comes next. -/
def eat? (c : Cursor) (x : Char) : Option Cursor :=
  if c.current = some x then some c.next else none

/-- The cursor behind `text`, if `text` comes next. -/
def eatText? (c : Cursor) (text : String) : Option Cursor :=
  if c.startsWith text then some (c.skip text.toList.length) else none

/-- The cursor behind `word`, if `word` comes next in any ASCII case. -/
def eatKeyword? (c : Cursor) (word : String) : Option Cursor :=
  if c.atKeyword word then some (c.skip word.toList.length) else none

/-- The cursor behind one line break, of which `\r\n` is one. -/
def eatLineBreak? (c : Cursor) : Option Cursor :=
  c.eatText? "\r\n" <|> c.eat? '\n' <|> c.eat? '\r'

theorem eat?_eq_some_iff {c d : Cursor} {x : Char} :
    c.eat? x = some d ↔ c.current = some x ∧ d = c.next := by
  simp only [eat?, Option.ite_none_right_eq_some, Option.some.injEq, @eq_comm _ d]

theorem eatText?_eq_some_iff {c d : Cursor} {text : String} :
    c.eatText? text = some d ↔ c.startsWith text = true ∧ d = c.skip text.toList.length := by
  simp only [eatText?, Option.ite_none_right_eq_some, Option.some.injEq, @eq_comm _ d]

theorem eatKeyword?_eq_some_iff {c d : Cursor} {word : String} :
    c.eatKeyword? word = some d ↔ c.atKeyword word = true ∧ d = c.skip word.toList.length := by
  simp only [eatKeyword?, Option.ite_none_right_eq_some, Option.some.injEq, @eq_comm _ d]

/-- The first of some choices whose spelling comes next, and the cursor behind it. -/
def eatFirst? {α : Type} (c : Cursor) (spelling : α → String) (choices : List α) :
    Option (α × Cursor) :=
  choices.findSome? fun a => (c.eatText? (spelling a)).map fun d => (a, d)

/-! ## Runs of characters -/

/-- The number of characters that satisfy `p` before the first that does not. -/
def runLength (c : Cursor) (p : Char → Bool) : Nat :=
  (c.rest.takeWhile p).length

/-- The cursor behind the characters that satisfy `p`. -/
def skipWhile (c : Cursor) (p : Char → Bool) : Cursor :=
  c.skip (c.runLength p)

/-- The characters that satisfy `p`, and the cursor behind them. -/
def span (c : Cursor) (p : Char → Bool) : String × Cursor :=
  (String.ofList (c.rest.takeWhile p), c.skipWhile p)

@[simp] theorem rest_skipWhile (c : Cursor) (p : Char → Bool) :
    (c.skipWhile p).rest = c.rest.dropWhile p := by
  have h : c.rest.drop (c.rest.takeWhile p).length =
      (c.rest.takeWhile p ++ c.rest.dropWhile p).drop (c.rest.takeWhile p).length := by
    rw [List.takeWhile_append_dropWhile]
  rw [skipWhile, runLength, rest_skip, h, List.drop_left]

@[simp] theorem toList_span (c : Cursor) (p : Char → Bool) :
    (c.span p).1.toList = c.rest.takeWhile p := by
  simp [span]

@[simp] theorem snd_span (c : Cursor) (p : Char → Bool) : (c.span p).2 = c.skipWhile p := rfl

/-- One or more characters that satisfy `p`, and the cursor behind them. -/
def word? (c : Cursor) (p : Char → Bool) : Option (String × Cursor) :=
  if c.runLength p = 0 then none else some (c.span p)

theorem word?_eq_none_iff {c : Cursor} {p : Char → Bool} :
    c.word? p = none ↔ c.runLength p = 0 := by
  unfold word?; split <;> simp_all

/-- Whether the line, or the script, ends here. -/
def atLineEnd (c : Cursor) : Bool :=
  c.current.all isLineBreak

/-- The text before the next line break. -/
def restOfLine (c : Cursor) : String × Cursor :=
  c.span fun x => !isLineBreak x

/-- A letter followed by letters, numerals and underscores. -/
def identifier? (c : Cursor) : Option (String × Cursor) :=
  if c.current.any isLetter then some (c.span isNameChar) else none

/-- One or more characters that are not blank. -/
def literal? (c : Cursor) : Option (String × Cursor) :=
  c.word? fun x => !isBlank x

/-- The text between two double quotes. The first quote inside closes it, also
on a later line; a quote that is never closed is no quoted text. -/
def quoted? (c : Cursor) : Option (String × Cursor) :=
  match c.rest with
  | '"' :: rest =>
    let inner := rest.takeWhile (· != '"')
    if inner.length + 1 < c.left then some (String.ofList inner, c.skip (inner.length + 2))
    else none
  | _ => none

/-! ## Fronts that end at a place -/

/-- `lengthBefore stop n text` adds to `n` the number of characters before the
first place where `stop` holds of what remains. -/
def lengthBefore (stop : List Char → Bool) (n : Nat) : List Char → Nat
  | [] => n
  | x :: rest => if stop (x :: rest) then n else lengthBefore stop (n + 1) rest

theorem lengthBefore_eq_add (stop : List Char → Bool) (n : Nat) (text : List Char) :
    lengthBefore stop n text = n + lengthBefore stop 0 text := by
  induction text generalizing n with
  | nil => rfl
  | cons x rest ih =>
    simp only [lengthBefore]
    split
    · rfl
    · rw [ih (n + 1), ih (0 + 1)]; omega

/-- The text before the first place where `stop` holds of what remains. -/
def upTo (c : Cursor) (stop : List Char → Bool) : String × Cursor :=
  let n := lengthBefore stop 0 c.rest
  (String.ofList (c.rest.take n), c.skip n)

end Cursor

end BatchScript
