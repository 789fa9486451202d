import BatchScript.Proofs.Grammar.Course
import BatchScript.Proofs.Grammar.Limits
import BatchScript.Proofs.Grammar.Misses

/-!
# Where the reader cannot go on

A body that is opened while a script is read may be given up again: then the text goes
on with `IF` or `FOR`, where nothing but a branch or a loop can be read
(`headed_of_tooDeep`), or with an `ELSE` that no branch can take, however many bodies
are open (`jammed_of_refused`). A chain may be given up behind its last leaf: then the text goes on
with an operator (`jammed_of_operator`). In all cases the reader cannot go on: what follows is
not the end of a block, nor of the script (`Obstructed`).
-/

namespace BatchScript.Grammar

open Cursor Rule Text

variable {m m' left : Nat}

/-! ## Where the reader cannot go on -/

/-- A text that neither opens nor closes a block, and does not begin with a blank. -/
def Headed (rest : List Char) : Prop :=
  rest ≠ [] ∧ Stops (fun x => isBlank x || x == '(' || x == ')') rest

/-- Behind blanks there is such a text. -/
def Obstructed (s : State) : Prop :=
  Headed (s.cursor.rest.dropWhile isBlank)

/-- Behind blanks no statement begins, and no alternative is read, inside however many bodies. -/
structure Jammed (m' : Nat) (s : State) : Prop where
  obstructed : Obstructed s
  missing (d b : Nat) : Runs (statement m') d b (s.cursor.rest.dropWhile isBlank) .unmatched
    (s.cursor.rest.dropWhile isBlank)
  refused {t u : State} {b : List Statement} : t.cursor = s.cursor → t.blockDepth = s.blockDepth →
    alternative (body m' (statement m')) t ≠ (.matched b, u)

theorem Jammed.of_cursor_eq {s t : State} (h : Jammed m' s) (hc : t.cursor = s.cursor)
    (hb : t.blockDepth = s.blockDepth) : Jammed m' t where
  obstructed := by rw [Obstructed, hc]; exact h.obstructed
  missing := by rw [hc]; exact h.missing
  refused ht hd := h.refused (ht.trans hc) (hd.trans hb)

theorem headed_of_begins {k : Keyword} {rest : List Char} (h : k.Begins rest) : Headed rest := by
  refine ⟨Keyword.ne_nil_of_begins h, Keyword.stops_of_begins h (fun x hx => ?_) (by cases k <;> decide)⟩
  simp only [Bool.or_eq_true, beq_iff_eq] at hx
  rcases hx with (hx | rfl) | rfl
  · exact not_isUpper_of_isBlank hx
  · rfl
  · rfl

theorem Headed.stops {p : Char → Bool} {rest : List Char} (h : Headed rest)
    (hp : ∀ x, p x = true → isBlank x = true ∨ x = '(' ∨ x = ')') : Stops p rest := by
  intro x hx
  have hs := h.2 x hx
  cases hpx : p x with
  | false => rfl
  | true =>
    rcases hp x hpx with hb | rfl | rfl
    · simp [hb] at hs
    · simp at hs
    · simp at hs

theorem Headed.obstructed {s : State} (h : Headed s.cursor.rest) : Obstructed s := by
  rw [Obstructed, dropWhile_eq_self_of_stops (h.stops fun x hx => .inl hx)]
  exact h

theorem Obstructed.ne_nil {s : State} (h : Obstructed s) : s.cursor.rest ≠ [] := by
  intro e
  rw [Obstructed, e] at h
  exact h.1 rfl

theorem Obstructed.stops {s : State} (h : Obstructed s) : Stops (· == ')') s.cursor.rest := by
  cases hr : s.cursor.rest with
  | nil => exact stops_nil
  | cons x rest =>
    rw [stops_cons]
    by_cases hx : isBlank x = true
    · cases hc : x == ')' with
      | false => rfl
      | true => rw [eq_of_beq hc] at hx; exact absurd hx (by decide)
    · rw [Obstructed, hr, List.dropWhile_cons_of_neg hx] at h
      exact h.stops (p := (· == ')')) (fun y hy => .inr (.inr (eq_of_beq hy))) x rfl

/-- Where the reader is jammed there is no other statement. -/
theorem Jammed.item_unmatched {s : State} (h : Jammed m' s) (p : Cursor → Bool) :
    ∃ t, (do skipBlanks; .holds p; statement m' : Rule Statement) s = (.unmatched, t) ∧
      t.cursor.rest = s.cursor.rest.dropWhile isBlank := by
  have ha := skipBlanks_holds_apply p (statement m') s
  split at ha
  · obtain ⟨t, ht, hr⟩ := h.missing s.depth s.blockDepth { s with cursor := s.cursor.skipWhile isBlank }
      ⟨rest_skipWhile _ _, rfl, rfl⟩
    exact ⟨t, ha.trans ht, hr.rest⟩
  · exact ⟨_, ha, rest_skipWhile _ _⟩

/-! ## Bodies given up -/

theorem branch_agrees (hm : m ≤ m') :
    Agrees (branch (body m (statement m))) (branch (body m' (statement m'))) :=
  agrees_of_lockstep fun _ _ _ => branch_lockstep (Aligned.twin ..) (Aligned.twin ..) (.refl _)
    (body_aligned (by omega) fun _ => statement_aligned (by omega))

theorem loop_agrees (hm : m ≤ m') :
    Agrees (loop (body m (statement m))) (loop (body m' (statement m'))) :=
  agrees_of_lockstep fun _ _ _ => loop_lockstep (Aligned.twin ..) (Aligned.twin ..) (.refl _)
    (body_aligned (by omega) fun _ => statement_aligned (by omega))

/-- A statement without `@` that is given up because of a body begins with `IF` or `FOR`. -/
theorem begins_of_choice_tooDeep (hm : m ≤ m') {s t u : State} {p : Position}
    (h : (label <|> branch (body m (statement m)) <|> loop (body m (statement m)) <|> chain) s = (.tooDeep p, t))
    (h' : (label <|> branch (body m' (statement m')) <|> loop (body m' (statement m')) <|> chain) s =
      (.unmatched, u)) :
    Keyword.ifWord.Begins s.cursor.rest ∨ Keyword.forWord.Begins s.cursor.rest := by
  obtain ⟨v, hl', h'⟩ := orElse_unmatched h'
  have hv := (attempt_unmatched hl').1
  obtain hl | ⟨w, hl, h⟩ := orElse_tooDeep h
  · rw [hl'] at hl; cases hl
  rw [hl'] at hl; cases hl
  obtain hb | ⟨x, hb, h⟩ := orElse_tooDeep h
  · exact .inl (hv ▸ begins_of_tooDeep (attempt_tooDeep.mp hb))
  have hx := (attempt_unmatched hb).1
  rw [orElse_of_unmatched ((branch_agrees hm).unmatched hb)] at h'
  obtain hf | ⟨y, hf, h⟩ := orElse_tooDeep h
  · exact .inr (hv ▸ hx ▸ begins_of_tooDeep (attempt_tooDeep.mp hf))
  rw [orElse_of_unmatched ((loop_agrees hm).unmatched hf), h] at h'
  cases h'

/-- A statement that is given up because of a body. -/
theorem headed_of_tooDeep (hm : m ≤ m') {s t u : State} {p : Position}
    (h : statement m s = (.tooDeep p, t)) (h' : statement m' s = (.unmatched, u)) :
    Headed s.cursor.rest := by
  rw [statement_eq] at h h'
  obtain ⟨-, w, h'⟩ := attempt_unmatched h'
  have h := attempt_tooDeep.mp h
  have h := begins_of_choice_tooDeep hm (s := { s with cursor := (s.cursor.eat? '@').getD s.cursor }) h h'
  cases he : s.cursor.eat? '@' with
  | none =>
    simp only [he, Option.getD_none] at h
    exact h.elim headed_of_begins headed_of_begins
  | some c =>
    obtain ⟨hat, -⟩ := eat?_eq_some_iff.mp he
    cases hr : s.cursor.rest with
    | nil => simp [current, hr] at hat
    | cons x rest =>
      obtain rfl : x = '@' := by simpa [current, hr] using hat
      exact ⟨List.cons_ne_nil _ _, stops_cons.mpr (by decide)⟩

/-- At a keyword that begins neither a loop nor a leaf there is neither. -/
theorem not_loop_or_chain {k : Keyword} {b : Rule (List Statement)} {s t : State} {v : Statement}
    (h : k.Begins s.cursor.rest) (hf : k ≠ .forWord) (hl : k ∉ leafKeywords) :
    (loop b <|> chain) s ≠ (.matched v, t) := by
  intro e
  have hr : Runs (loop b <|> chain) s.depth s.blockDepth s.cursor.rest .unmatched s.cursor.rest :=
    .orElse (loop_unmatched b (h.beginsWithWord_of_ne hf)) (chain_unmatched_of_begins h hl)
  obtain ⟨u, hu, -⟩ := hr s ⟨rfl, rfl, rfl⟩
  rw [hu] at e; cases e

theorem not_chain {k : Keyword} {s t : State} {v : Statement} (h : k.Begins s.cursor.rest)
    (hl : k ∉ leafKeywords) : chain s ≠ (.matched v, t) := by
  intro e
  obtain ⟨u, hu, -⟩ := chain_unmatched_of_begins (d := s.depth) (b := s.blockDepth) h hl s ⟨rfl, rfl, rfl⟩
  rw [hu] at e; cases e

/-! ## Alternatives -/

theorem alternative_aligned {same : Prop} {d d' b : Nat} (hm : m + d' ≤ m' + d) :
    Lockstep True (Aligned same left d d' b) (alternative (body m (statement m)))
      (alternative (body m' (statement m'))) :=
  alternative_alike.lockstep (Aligned.twin ..) (body_aligned hm fun _ => statement_aligned (by omega))

/-- An alternative that is not read inside some bodies is not read inside more or fewer. -/
theorem alternative_refused {s t u v : State} {b : List Statement}
    (e : alternative (body m (statement m)) s = (.unmatched, u)) (hc : t.cursor = s.cursor)
    (hb : t.blockDepth = s.blockDepth) : alternative (body m (statement m)) t ≠ (.matched b, v) := by
  intro e'
  -- the run inside more bodies ends because of its limit, or both end alike
  rcases Nat.le_total t.depth s.depth with hd | hd
  · have ha : Aligned False (s.left + 1) s.depth t.depth s.blockDepth s t :=
      ⟨by rw [hc], rfl, hb, rfl, rfl, Nat.lt_succ_self _, False.elim⟩
    obtain ⟨w, hw, -⟩ := (alternative_aligned (Nat.add_le_add_left hd m)).unmatched ha e
    rw [hw] at e'; cases e'
  · have ha : Aligned False (t.left + 1) t.depth s.depth s.blockDepth t s :=
      ⟨by rw [hc], hb, rfl, rfl, rfl, Nat.lt_succ_self _, False.elim⟩
    obtain ⟨w, hw, -⟩ := (alternative_aligned (Nat.add_le_add_left hd m)).matched ha e'
    rw [hw] at e; cases e

/-- An alternative that is not read leaves the reader jammed before its `ELSE`. -/
theorem jammed_of_refused {s u : State} (e : alternative (body m (statement m)) s = (.unmatched, u))
    (hbegins : Keyword.elseWord.Begins (s.cursor.rest.dropWhile isBlank)) : Jammed m u := by
  have hc := (attempt_unmatched e).1
  have hb := (alternative_orderly e).follows.blockDepth
  rw [← hc] at hbegins
  refine ⟨headed_of_begins hbegins, fun d b => statement_unmatched_of_else m hbegins, fun ht hd => ?_⟩
  exact alternative_refused e (ht.trans hc) (hd.trans hb)

/-- An alternative that is given up because of a body. -/
theorem jammed_of_tooDeep {s t u : State} {p : Position}
    (e : alternative (body m (statement m)) s = (.tooDeep p, t))
    (e' : alternative (body m' (statement m')) s = (.unmatched, u)) : Jammed m' u := by
  refine jammed_of_refused e' ?_
  have hk : skipBlanks s = (.matched (), { s with cursor := s.cursor.skipWhile isBlank }) := rfl
  have hbegins := begins_of_tooDeep ((bind_of_matched hk _).symm.trans (attempt_tooDeep.mp e))
  rwa [rest_skipWhile] at hbegins

/-- Where the reader is jammed no alternative is read, and it stays jammed. -/
theorem Jammed.optional {s t : State} {o : Option (List Statement)} (h : Jammed m' s)
    (e : Rule.optional (alternative (body m' (statement m'))) s = (.matched o, t)) :
    o = none ∧ Jammed m' t := by
  obtain ⟨b, -, ha⟩ | ⟨ho, ha⟩ := optional_matched e
  · exact absurd ha (h.refused rfl rfl)
  · exact ⟨ho, h.of_cursor_eq (attempt_unmatched ha).1 (alternative_orderly ha).follows.blockDepth⟩

/-! ## Operators -/

/-- Behind spaces and behind blanks there is the same operator. -/
theorem dropWhile_isBlank_of_operator {rest : List Char} (h : ¬ Stops isChainChar (rest.dropWhile isSpace)) :
    rest.dropWhile isBlank = rest.dropWhile isSpace := by
  have hstops : Stops isBlank (rest.dropWhile isSpace) := by
    refine stops_of_not_stops (fun x hx => ?_) h
    obtain rfl | rfl := eq_of_isChainChar hx <;> rfl
  have hblank : ∀ x, isSpace x = true → isBlank x = true := fun _ => isBlank_of_isSpace
  rw [← dropWhile_dropWhile_of_imp hblank, dropWhile_eq_self_of_stops hstops]

/-- A chain operator that no chain takes leaves the reader jammed before it. -/
theorem jammed_of_operator {s : State} (h : ¬ Stops isChainChar (s.cursor.rest.dropWhile isSpace)) :
    Jammed m s := by
  rw [← dropWhile_isBlank_of_operator h] at h
  refine ⟨⟨fun hnil => ?_, ?_⟩, fun d b => statement_unmatched_of_operator m h, fun {t u b} ht _ e => ?_⟩
  · rw [hnil] at h
    exact h stops_nil
  · refine stops_of_not_stops (fun x hx => ?_) h
    obtain rfl | rfl := eq_of_isChainChar hx <;> rfl
  · have hu : ¬ Keyword.elseWord.Begins (t.cursor.rest.dropWhile isBlank) := by
      rw [ht, Keyword.Begins, Keyword.beginsWithWord_of_operator h]; exact Bool.false_ne_true
    obtain ⟨v, hv, -⟩ := alternative_unmatched (d := t.depth) (b := t.blockDepth) _ hu t ⟨rfl, rfl, rfl⟩
    rw [hv] at e; cases e

end BatchScript.Grammar
