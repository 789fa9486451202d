import BatchScript.Cursor
import BatchScript.Failure

/-!
# Rules

A rule reads a part of a script from a state. It matches and gives a value, it
does not match, or it meets a body that is nested too deep, which ends the
reading. Rules are joined by sequence (`do`), ordered choice (`<|>`) and
repetition (`foldMany`, `many`).

Each way to join rules has a law that says what it answers (`bind_apply`,
`orElse_apply`, `attempt_apply`, `foldMany_apply`).

A rule that does not match may leave the cursor anywhere; `attempt` puts it
back. Nothing puts the cursor back behind a body that is nested too deep, and
the record of attempts is never undone.
-/

namespace BatchScript

/-- What a rule reads from and changes. -/
structure State where
  cursor : Cursor
  /-- How many bodies are open. -/
  depth : Nat := 0
  /-- How many parenthesized blocks are open. -/
  blockDepth : Nat := 0
  attempts : Attempts := {}

/-- The number of characters that remain. -/
abbrev State.left (s : State) : Nat :=
  s.cursor.left

/-- How a rule ends. -/
inductive Outcome (α : Type) where
  | matched (value : α)
  | unmatched
  /-- A body at `position` is nested too deep. -/
  | tooDeep (position : Position)

/-- A way to read a part of a script. -/
def Rule (α : Type) : Type :=
  State → Outcome α × State

namespace Rule

variable {α β : Type}

/-! ## Sequence and choice -/

/-- The rule that matches at once. -/
protected def pure (a : α) : Rule α := fun s =>
  (.matched a, s)

/-- One rule after the other. -/
protected def bind (r : Rule α) (f : α → Rule β) : Rule β := fun s =>
  match r s with
  | (.matched a, t) => f a t
  | (.unmatched, t) => (.unmatched, t)
  | (.tooDeep p, t) => (.tooDeep p, t)

instance : Monad Rule where
  pure := Rule.pure
  bind := Rule.bind

theorem bind_apply (r : Rule α) (f : α → Rule β) (s : State) :
    (r >>= f) s =
      match r s with
      | (.matched a, t) => f a t
      | (.unmatched, t) => (.unmatched, t)
      | (.tooDeep p, t) => (.tooDeep p, t) := rfl

/-- The first rule, or the second where the first one ended if that does not match. -/
protected def orElse (r q : Rule α) : Rule α := fun s =>
  match r s with
  | (.unmatched, t) => q t
  | (outcome, t) => (outcome, t)

instance : OrElse (Rule α) where
  orElse r q := Rule.orElse r (q ())

theorem orElse_apply (r q : Rule α) (s : State) :
    (r <|> q) s =
      match r s with
      | (.unmatched, t) => q t
      | (outcome, t) => (outcome, t) := rfl

/-- The same rule, which puts the cursor back if it does not match. -/
def attempt (r : Rule α) : Rule α := fun s =>
  match r s with
  | (.unmatched, t) => (.unmatched, { t with cursor := s.cursor })
  | (outcome, t) => (outcome, t)

theorem attempt_apply (r : Rule α) (s : State) :
    attempt r s =
      match r s with
      | (.unmatched, t) => (.unmatched, { t with cursor := s.cursor })
      | (outcome, t) => (outcome, t) := rfl

/-- The value of a rule if it matches; if it does not, that is fine too. -/
def optional (r : Rule α) : Rule (Option α) :=
  some <$> r <|> pure none

/-! ## Reading at the cursor -/

/-- The rule that never matches. -/
def miss : Rule α := fun s =>
  (.unmatched, s)

/-- The rule that never matches and records what was wanted at the cursor. -/
def fail (wanted : Expectation) : Rule α := fun s =>
  (.unmatched, { s with attempts := s.attempts.note s.cursor.position wanted })

/-- The rule that never matches and records several things that were wanted. -/
def failAll : List Expectation → Rule α
  | [] => miss
  | wanted :: others => fail wanted <|> failAll others

/-- Whether a parenthesized block is open. -/
def inBlock : Rule Bool := fun s =>
  (.matched (decide (0 < s.blockDepth)), s)

/-- Moves the cursor. -/
def move (f : Cursor → Cursor) : Rule Unit := fun s =>
  (.matched (), { s with cursor := f s.cursor })

/-- Takes what a scan finds. -/
def scan (f : Cursor → α × Cursor) : Rule α := fun s =>
  (.matched (f s.cursor).1, { s with cursor := (f s.cursor).2 })

/-- Takes what a scan finds, if it finds something. -/
def scan? (f : Cursor → Option (α × Cursor)) : Rule α := fun s =>
  match f s.cursor with
  | some (a, c) => (.matched a, { s with cursor := c })
  | none => (.unmatched, s)

/-- Takes a step of the cursor, if there is one. -/
def step? (f : Cursor → Option Cursor) : Rule Unit :=
  scan? fun c => (f c).map fun d => ((), d)

/-- Matches, without moving, if the cursor is at such a place. -/
def holds (p : Cursor → Bool) : Rule Unit := fun s =>
  if p s.cursor then (.matched (), s) else (.unmatched, s)

/-! ## Repetition -/

/-- Repeats a rule until it does not match, and folds its values from the left.
A match that leaves as much to read as before is the last one. -/
def foldMany (f : β → α → β) (r : Rule α) (b : β) (s : State) : Outcome β × State :=
  match r s with
  | (.matched a, t) =>
    if t.left < s.left then foldMany f r (f b a) t else (.matched (f b a), t)
  | (.unmatched, t) => (.matched b, t)
  | (.tooDeep p, t) => (.tooDeep p, t)
termination_by s.left

theorem foldMany_apply (f : β → α → β) (r : Rule α) (b : β) (s : State) :
    foldMany f r b s =
      match r s with
      | (.matched a, t) =>
        if t.left < s.left then foldMany f r (f b a) t else (.matched (f b a), t)
      | (.unmatched, t) => (.matched b, t)
      | (.tooDeep p, t) => (.tooDeep p, t) := by
  rw [foldMany]

/-- Repeats a rule until it does not match, and lists its values. -/
def many (r : Rule α) : Rule (List α) := do
  let values ← foldMany (fun values a => a :: values) r []
  return values.reverse

/-! ## Nesting -/

/-- Runs a rule inside one more body, of which at most `limit` may be open. Where
the reading ends because of the limit, the count stays raised. -/
def insideBody (limit : Nat) (r : Rule α) : Rule α := fun s =>
  let inner := { s with depth := s.depth + 1 }
  if limit < inner.depth then (.tooDeep s.cursor.position, inner)
  else
    match r inner with
    | (.tooDeep p, t) => (.tooDeep p, t)
    | (outcome, t) => (outcome, { t with depth := t.depth - 1 })

/-- Runs a rule inside one more parenthesized block. -/
def insideBlock (r : Rule α) : Rule α := fun s =>
  match r { s with blockDepth := s.blockDepth + 1 } with
  | (outcome, t) => (outcome, { t with blockDepth := t.blockDepth - 1 })

end Rule

end BatchScript
