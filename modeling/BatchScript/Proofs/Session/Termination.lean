import BatchScript.Proofs.Grammar.Append
import BatchScript.Proofs.Grammar.Texts
import BatchScript.Proofs.Rule.Repeats
import BatchScript.Proofs.Session.GivingUp

/-!
# Termination

The rules for a statement and for bodies refer to each other, and rules are repeated. This ends on
every script because what is left to read becomes less: a nested statement begins strictly beyond the
beginning of the statement around it (`statementWith_eq_of_before`), and so statements are
nested no deeper than there are characters (`unrolled_eq`); every round of a repetition moves the cursor
forward (`Rule.Progressive`), and so does every round of a loop over characters (`Cursor.Walk`).
The limit for bodies plays no part in this (`reading_terminates`).
-/

namespace BatchScript.Grammar

open Cursor Rule Text

variable {limit : Nat}

/-! ## Nested statements -/

theorem before_skip {c : Cursor} (d : Cursor) (n : Nat) (h : c.Before d) : c.Before (d.skip n) :=
  h.trans_reaches (reaches_skip d n)

theorem reaches_skip_of_reaches {c : Cursor} (d : Cursor) (n : Nat) (h : c.Reaches d) : c.Reaches (d.skip n) :=
  h.trans (reaches_skip d n)

/-- Behind the keyword of a branch or a loop the cursor is beyond the beginning of the statement. -/
theorem narrows_before (c : Cursor) : Narrows (Keeping c.Reaches) (Keeping c.Before) where
  le h := ⟨h.1, h.2.reaches⟩
  keyword k hu _ huv hst := by
    have := left_lt_of_keyword hu
    exact ⟨huv.1, huv.2.before (Nat.lt_of_lt_of_le this hst.2.left_le)⟩

/-- What a statement is read as depends on nested statements beyond its beginning alone. -/
theorem statementWith_eq_of_before {n : Rule Statement} {s : State}
    (h : ∀ t : State, s.cursor.Before t.cursor → n t = statement limit t) :
    statementWith limit n s = statement limit s := by
  have hn : Lockstep False (Keeping s.cursor.Before) n (statement limit) := by
    intro u v huv o w e
    obtain ⟨rfl, hb⟩ := huv
    rw [h v hb] at e
    exact .inr ⟨w, e, rfl, hb.trans_reaches (statement_orderly e).follows.reaches⟩
  have hs : Lockstep False (Keeping s.cursor.Reaches) (statementWith limit n) (statementWith limit (statement limit)) :=
    statementWith_lockstep (Keeping.twin reaches_skip_of_reaches) (Keeping.twin before_skip)
      (narrows_before s.cursor) (Keeping.body_lockstep before_skip limit hn)
  rw [statement_eq]
  obtain ⟨hf, -⟩ | ⟨v, hv, rfl, -⟩ := hs ⟨rfl, .refl _⟩ rfl
  · exact hf.elim
  · exact hv.symm

/-- A statement without a guard. Statements inside `k` others are read by `n`. -/
def unrolled (limit : Nat) (n : Rule Statement) : Nat → Rule Statement
  | 0 => n
  | k + 1 => statementWith limit (unrolled limit n k)

/-- Statements are not nested deeper than there are characters. -/
theorem unrolled_eq (n : Rule Statement) {s : State} {k : Nat} (hk : s.left < k) :
    unrolled limit n k s = statement limit s := by
  induction k generalizing s with
  | zero => omega
  | succ k ih =>
    refine statementWith_eq_of_before fun t ht => ih ?_
    have hlt : t.left < s.left := ht.left_lt
    omega

/-! ## Repetitions -/

theorem left_lt_of_word? {c d : Cursor} {p : Char → Bool} {text : String} (h : c.word? p = some (text, d)) :
    d.left < c.left := by
  unfold word? at h
  split at h
  · cases h
  · rename_i hn
    cases h
    have hle : c.runLength p ≤ c.left := by
      rw [left_eq]
      exact (List.takeWhile_prefix p).length_le
    rw [skipWhile, left_skip]
    omega

theorem left_lt_of_quoted? {c d : Cursor} {text : String} (h : c.quoted? = some (text, d)) : d.left < c.left := by
  obtain ⟨front, rest, hc, -, -, rfl⟩ := quoted?_eq_some_iff.mp h
  have hl : c.left = front.length + rest.length + 2 := by
    rw [left_eq, hc, List.length_cons, List.length_append, List.length_cons]; omega
  rw [left_skip]; omega

theorem left_lt_of_mode {c d : Cursor} {mode : String} (h : c.eatFirst? id modes = some (mode, d)) :
    d.left < c.left := by
  obtain ⟨hm, he⟩ := mem_of_eatFirst? h
  obtain ⟨hs, rfl⟩ := eatText?_eq_some_iff.mp he
  have hl : mode.toList.length ≤ c.left := by
    rw [left_eq]
    exact (List.isPrefixOf_iff_prefix.mp hs).length_le
  have hp : 0 < mode.toList.length := (by decide : ∀ m ∈ modes, 0 < m.toList.length) mode hm
  rw [left_skip]
  exact Nat.sub_lt (Nat.lt_of_lt_of_le hp hl) hp

theorem token_gains (b : Bool) : Gains (token b) :=
  .orElse (Flat.orderly (.scan? localScan_quoted?) 0) (.scan? left_lt_of_quoted?) (.scan? left_lt_of_word?)

theorem redirection_gains : Gains redirection :=
  .attempt <| .after (.scan localScan_handle) fun _ =>
    .bind (.orElse (Flat.orderly (.scan? (localScan_eatFirst? (by decide))) 0) (.scan? left_lt_of_mode) (.fail _))
      fun _ => Flat.orderly (.bind skipSpaces_alike fun _ => .bind destination_alike fun _ => .pure _) 0

theorem nextCommentLine_gains : Gains nextCommentLine :=
  .attempt <| .after (.step? (localStep_eatLineBreak? .inl)) fun _ => .after skipSpaces_alike fun _ =>
    .after (skipSymbol_alike (by decide)) fun _ => commentLine_led.gains

/-- A whole script without guards. -/
def unrolledDocument (limit : Nat) (n : Rule Statement) (q : List Statement → Rule (List Statement)) (k : Nat) :
    Rule Document := do
  let statements ← (do
    let statements ← rounds (fun statements a => a :: statements)
      (do skipBlanks; .holds fun c => !c.atEnd; unrolled limit n k) q k []
    return statements.reverse)
  .holds (·.atEnd)
  return ⟨statements⟩

theorem unrolledDocument_eq (n : Rule Statement) (q : List Statement → Rule (List Statement)) {s : State} {k : Nat}
    (hk : s.left < k) : unrolledDocument limit n q k s = document limit s := by
  have hitem : ∀ t : State, t.left ≤ s.left →
      (do skipBlanks; .holds fun c => !c.atEnd; unrolled limit n k : Rule Statement) t = documentItem limit t := by
    intro t ht
    have hle : (t.cursor.skipWhile isBlank).left ≤ t.left := (reaches_skip _ _).left_le
    have hu : State.left { t with cursor := t.cursor.skipWhile isBlank } < k :=
      Nat.lt_of_le_of_lt (hle.trans ht) hk
    refine (skipBlanks_holds_apply _ _ t).trans (Eq.trans ?_ (skipBlanks_holds_apply _ _ t).symm)
    rw [unrolled_eq n hu]
  have hrounds := documentItem_gains.rounds_eq (fun statements a => a :: statements) q [] hitem hk
  show Rule.bind (Rule.bind _ _) _ s = Rule.bind (Rule.bind _ _) _ s
  unfold Rule.bind
  rw [hrounds]

/-! ## Every loop and every nested statement -/

/-- Reading ends whatever the script is and wherever it begins. -/
structure Terminates (limit : Nat) : Prop where
  /-- Nested statements begin strictly beyond the beginning of the statement around them. -/
  nested {s : State} {n : Rule Statement} :
    (∀ t : State, s.cursor.Before t.cursor → n t = statement limit t) → statementWith limit n s = statement limit s
  /-- They are nested no deeper than there are characters left. -/
  unrolled (n : Rule Statement) {s : State} {k : Nat} : s.left < k → unrolled limit n k s = statement limit s
  /-- So a script is read without guards as with them. -/
  document (n : Rule Statement) (q : List Statement → Rule (List Statement)) {s : State} {k : Nat} : s.left < k →
    unrolledDocument limit n q k s = document limit s
  statements : Progressive (documentItem limit)
  blockStatements : Progressive (blockItem (statement limit))
  links : Progressive chainLink
  commentLines : Progressive nextCommentLine
  arguments (inBlock : Bool) : Progressive (.attempt do skipSpaces; token inBlock)
  redirections : Progressive (.attempt do skipSpaces; redirection)
  characters (p : Char → Bool) (c : Cursor) : Walk (goWhile p) () c () (c.skipWhile p)
  search (stop : List Char → Bool) (c : Cursor) : Walk (goUntil stop) () c () (c.upTo stop).2
  /-- The source of a loop is what a walk passes over to a closing parenthesis. -/
  source (c : Cursor) : ∃ y d, Walk goSource (0, none) c y d ∧
    ((d.atEnd = true ∧ source? c = none) ∨
      d.current = some ')' ∧ ∃ text, source? c = some (text, d.next) ∧ text.toList ++ d.rest = c.rest)

/-- Reading ends, under every limit for bodies: no state is needed from which it would not end. -/
theorem reading_terminates (limit : Nat) : Terminates limit where
  nested := statementWith_eq_of_before
  unrolled := unrolled_eq
  document := unrolledDocument_eq
  statements := documentItem_gains.progressive documentItem_orderly
  blockStatements := (item_gains (localTest_current_ne (by decide))).progressive
    (item_orderly (localTest_current_ne (by decide)))
  links := chainLink_gains.progressive (Flat.orderly chainLink_alike 0)
  commentLines := nextCommentLine_gains.progressive (Flat.orderly nextCommentLine_alike 0)
  arguments b := Gains.progressive (.attempt <| .after skipSpaces_alike fun _ => token_gains b)
    (Flat.orderly (.attempt <| .bind skipSpaces_alike fun _ => token_alike b) 0)
  redirections := Gains.progressive (.attempt <| .after skipSpaces_alike fun _ => redirection_gains)
    (Flat.orderly (.attempt <| .bind skipSpaces_alike fun _ => redirection_alike) 0)
  characters := walk_skipWhile
  search := walk_upTo
  source := walk_source

end BatchScript.Grammar
