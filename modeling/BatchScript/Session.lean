import BatchScript.Grammar.Statement

/-!
# Sessions

A session reads one script after another under fixed limits, and keeps its
state between the steps. A script that is too large changes nothing; any other
begins afresh. After a failure the session goes on from where the reader
stopped: before the statement that did not match, or, behind a body that is
nested too deep, inside it.

* `Session.read_cases`, `Session.readStatement_cases`: what one step can be, in terms of the
  rules for documents and statements;
* `document_of_read`, `document_of_read_error`: where the answer to a whole script comes from.
-/

namespace BatchScript

open Grammar

/-- What a script may ask of its reader. -/
structure Limits where
  /-- The largest number of bytes. -/
  inputSize : Nat := 1000000
  /-- The largest number of bodies inside one another. -/
  depth : Nat := 200
deriving DecidableEq

/-- A reader that lives through several scripts. -/
structure Session where
  limits : Limits := {}
  /-- What the last step left. -/
  state : State := { cursor := .ofText [] }

namespace Session

/-- Reads a whole script. -/
def read (s : Session) (script : String) : Except Failure Document × Session :=
  if s.limits.inputSize < script.utf8ByteSize then
    (.error (.tooLarge s.limits.inputSize), s)
  else
    match Grammar.document s.limits.depth { cursor := .ofText script.toList } with
    | (.matched document, t) => (.ok document, { s with state := t })
    | (.unmatched, t) => (.error (t.attempts.failure t.cursor.position), { s with state := t })
    | (.tooDeep p, t) => (.error (.tooDeep p s.limits.depth), { s with state := t })

/-- Reads one statement where the last step stopped; there may be none. -/
def readStatement (s : Session) : Except Failure (Option Statement) × Session :=
  match Grammar.statement s.limits.depth s.state with
  | (.matched statement, t) => (.ok (some statement), { s with state := t })
  | (.unmatched, t) => (.ok none, { s with state := t })
  | (.tooDeep p, t) => (.error (.tooDeep p s.limits.depth), { s with state := t })

/-- A script that is too large changes nothing; any other one is read from its start. -/
theorem read_cases (s : Session) (script : String) :
    (s.limits.inputSize < script.utf8ByteSize ∧ s.read script = (.error (.tooLarge s.limits.inputSize), s)) ∨
    script.utf8ByteSize ≤ s.limits.inputSize ∧ ∃ t,
      (∃ d, document s.limits.depth { cursor := .ofText script.toList } = (.matched d, t) ∧
        s.read script = (.ok d, { s with state := t })) ∨
      (document s.limits.depth { cursor := .ofText script.toList } = (.unmatched, t) ∧
        s.read script = (.error (t.attempts.failure t.cursor.position), { s with state := t })) ∨
      ∃ p, document s.limits.depth { cursor := .ofText script.toList } = (.tooDeep p, t) ∧
        s.read script = (.error (.tooDeep p s.limits.depth), { s with state := t }) := by
  unfold read
  split
  · rename_i hlt
    exact .inl ⟨hlt, rfl⟩
  · rename_i hle
    refine .inr ⟨Nat.le_of_not_lt hle, ?_⟩
    match document s.limits.depth { cursor := .ofText script.toList } with
    | (.matched d, t) => exact ⟨t, .inl ⟨d, rfl, rfl⟩⟩
    | (.unmatched, t) => exact ⟨t, .inr (.inl ⟨rfl, rfl⟩)⟩
    | (.tooDeep p, t) => exact ⟨t, .inr (.inr ⟨p, rfl, rfl⟩)⟩

/-- One statement is read where the session stands. -/
theorem readStatement_cases (s : Session) : ∃ t,
    (∃ v, statement s.limits.depth s.state = (.matched v, t) ∧
      s.readStatement = (.ok (some v), { s with state := t })) ∨
    (statement s.limits.depth s.state = (.unmatched, t) ∧ s.readStatement = (.ok none, { s with state := t })) ∨
    ∃ p, statement s.limits.depth s.state = (.tooDeep p, t) ∧
      s.readStatement = (.error (.tooDeep p s.limits.depth), { s with state := t }) := by
  unfold readStatement
  match statement s.limits.depth s.state with
  | (.matched v, t) => exact ⟨t, .inl ⟨v, rfl, rfl⟩⟩
  | (.unmatched, t) => exact ⟨t, .inr (.inl ⟨rfl, rfl⟩)⟩
  | (.tooDeep p, t) => exact ⟨t, .inr (.inr ⟨p, rfl, rfl⟩)⟩

end Session

/-- Reads a script under limits. -/
def Document.read (limits : Limits) (script : String) : Except Failure Document :=
  (({ limits } : Session).read script).1

section Answers

variable {limits : Limits} {script : String}

theorem read_eq (h : script.utf8ByteSize ≤ limits.inputSize) :
    Document.read limits script =
      match document limits.depth { cursor := .ofText script.toList } with
      | (.matched d, _) => .ok d
      | (.unmatched, t) => .error (t.attempts.failure t.cursor.position)
      | (.tooDeep p, _) => .error (.tooDeep p limits.depth) := by
  unfold Document.read Session.read
  simp only
  rw [if_neg (by omega)]
  obtain ⟨o, t⟩ := document limits.depth { cursor := .ofText script.toList }
  cases o <;> rfl

theorem read_of_size_lt (h : limits.inputSize < script.utf8ByteSize) :
    Document.read limits script = .error (.tooLarge limits.inputSize) := by
  unfold Document.read Session.read
  simp only
  rw [if_pos h]

/-- What a script was read as is what the rule for documents made of it. -/
theorem document_of_read {d : Document} (h : Document.read limits script = .ok d) :
    ∃ t, document limits.depth { cursor := .ofText script.toList } = (.matched d, t) := by
  unfold Document.read at h
  obtain ⟨-, hr⟩ | ⟨-, t, ⟨d', hd, hr⟩ | ⟨-, hr⟩ | ⟨p, -, hr⟩⟩ := Session.read_cases { limits } script
  · rw [hr] at h; cases h
  · rw [hr] at h; cases h; exact ⟨t, hd⟩
  · rw [hr] at h; cases h
  · rw [hr] at h; cases h

/-- A script that is not read is too large, or has a body that is nested too deep, or the rule for
documents does not match. -/
theorem document_of_read_error {f : Failure} (h : Document.read limits script = .error f) :
    f = .tooLarge limits.inputSize ∨
    (∃ p t, document limits.depth { cursor := .ofText script.toList } = (.tooDeep p, t) ∧
      f = .tooDeep p limits.depth) ∨
    ∃ t, document limits.depth { cursor := .ofText script.toList } = (.unmatched, t) ∧
      f = t.attempts.failure t.cursor.position := by
  unfold Document.read at h
  obtain ⟨-, hr⟩ | ⟨-, t, ⟨d, -, hr⟩ | ⟨hd, hr⟩ | ⟨p, hd, hr⟩⟩ := Session.read_cases { limits } script
  · rw [hr] at h; cases h; exact .inl rfl
  · rw [hr] at h; cases h
  · rw [hr] at h; cases h; exact .inr (.inr ⟨t, hd, rfl⟩)
  · rw [hr] at h; cases h; exact .inr (.inl ⟨p, t, hd, rfl⟩)

end Answers

end BatchScript
