import BatchScript.Rule

/-!
# How an outcome came about

For each way to join rules, one lemma says all that a run of the whole can have been in terms of the
runs of its parts, however it ended (`bind_cases`, `orElse_cases`, `attempt_cases`,
`insideBody_cases`, `insideBlock_cases`). A repetition is a chain of rounds, with one constructor for
each way in which a round leads on or ends it (`Loops`, `loops_of_foldMany`).

Where it is known how the whole ended, less is left of these cases (`bind_matched`, `orElse_matched`
and their kin); and where it is known how a part ended, it is known what the whole does
(`bind_of_matched`, `orElse_of_matched` and their kin).
-/

namespace BatchScript.Rule

variable {α β : Type} {s t u : State}

/-! ## Sequences -/

theorem bind_cases {r : Rule α} {f : α → Rule β} {o : Outcome β} (h : (r >>= f) s = (o, t)) :
    (∃ a u, r s = (.matched a, u) ∧ f a u = (o, t)) ∨ (r s = (.unmatched, t) ∧ o = .unmatched) ∨
      ∃ p, r s = (.tooDeep p, t) ∧ o = .tooDeep p := by
  rw [bind_apply] at h
  match hr : r s with
  | (.matched a, u) => rw [hr] at h; exact .inl ⟨a, u, rfl, h⟩
  | (.unmatched, u) => rw [hr] at h; cases h; exact .inr (.inl ⟨rfl, rfl⟩)
  | (.tooDeep p, u) => rw [hr] at h; cases h; exact .inr (.inr ⟨p, rfl, rfl⟩)

theorem bind_matched {r : Rule α} {f : α → Rule β} {b : β} (h : (r >>= f) s = (.matched b, u)) :
    ∃ a t, r s = (.matched a, t) ∧ f a t = (.matched b, u) := by
  obtain h | ⟨-, ho⟩ | ⟨p, -, ho⟩ := bind_cases h
  · exact h
  · cases ho
  · cases ho

theorem bind_unmatched {r : Rule α} {f : α → Rule β} (h : (r >>= f) s = (.unmatched, u)) :
    r s = (.unmatched, u) ∨ ∃ a t, r s = (.matched a, t) ∧ f a t = (.unmatched, u) := by
  obtain h | ⟨hr, -⟩ | ⟨p, -, ho⟩ := bind_cases h
  · exact .inr h
  · exact .inl hr
  · cases ho

theorem bind_tooDeep {r : Rule α} {f : α → Rule β} {p : Position} (h : (r >>= f) s = (.tooDeep p, u)) :
    r s = (.tooDeep p, u) ∨ ∃ a t, r s = (.matched a, t) ∧ f a t = (.tooDeep p, u) := by
  obtain h | ⟨-, ho⟩ | ⟨q, hr, ho⟩ := bind_cases h
  · exact .inr h
  · cases ho
  · cases ho; exact .inl hr

theorem bind_of_matched {r : Rule α} {a : α} (h : r s = (.matched a, t)) (f : α → Rule β) :
    (r >>= f) s = f a t := by
  rw [bind_apply, h]

theorem bind_of_unmatched {r : Rule α} (h : r s = (.unmatched, t)) (f : α → Rule β) :
    (r >>= f) s = (.unmatched, t) := by
  rw [bind_apply, h]

theorem bind_of_tooDeep {r : Rule α} {p : Position} (h : r s = (.tooDeep p, t)) (f : α → Rule β) :
    (r >>= f) s = (.tooDeep p, t) := by
  rw [bind_apply, h]

/-! ## Choices -/

theorem orElse_cases {r q : Rule α} {o : Outcome α} (h : (r <|> q) s = (o, t)) :
    (∃ u, r s = (.unmatched, u) ∧ q u = (o, t)) ∨ (r s = (o, t) ∧ o ≠ .unmatched) := by
  rw [orElse_apply] at h
  match hr : r s with
  | (.unmatched, u) => rw [hr] at h; exact .inl ⟨u, rfl, h⟩
  | (.matched a, u) => rw [hr] at h; cases h; exact .inr ⟨rfl, nofun⟩
  | (.tooDeep p, u) => rw [hr] at h; cases h; exact .inr ⟨rfl, nofun⟩

theorem orElse_matched {r q : Rule α} {a : α} (h : (r <|> q) s = (.matched a, u)) :
    r s = (.matched a, u) ∨ ∃ t, r s = (.unmatched, t) ∧ q t = (.matched a, u) :=
  (orElse_cases h).symm.imp_left And.left

theorem orElse_unmatched {r q : Rule α} (h : (r <|> q) s = (.unmatched, u)) :
    ∃ t, r s = (.unmatched, t) ∧ q t = (.unmatched, u) :=
  (orElse_cases h).resolve_right fun hr => hr.2 rfl

theorem orElse_tooDeep {r q : Rule α} {p : Position} (h : (r <|> q) s = (.tooDeep p, u)) :
    r s = (.tooDeep p, u) ∨ ∃ t, r s = (.unmatched, t) ∧ q t = (.tooDeep p, u) :=
  (orElse_cases h).symm.imp_left And.left

/-- A choice does as its first part unless that does not match. -/
theorem orElse_of_ne_unmatched {r : Rule α} {o : Outcome α} (h : r s = (o, t)) (ho : o ≠ .unmatched) (q : Rule α) :
    (r <|> q) s = (o, t) := by
  rw [orElse_apply, h]
  cases o with
  | matched a => rfl
  | unmatched => exact absurd rfl ho
  | tooDeep p => rfl

theorem orElse_of_matched {r : Rule α} {a : α} (h : r s = (.matched a, t)) (q : Rule α) :
    (r <|> q) s = (.matched a, t) :=
  orElse_of_ne_unmatched h nofun q

theorem orElse_of_unmatched {r : Rule α} (h : r s = (.unmatched, t)) (q : Rule α) : (r <|> q) s = q t := by
  rw [orElse_apply, h]

theorem orElse_of_tooDeep {r : Rule α} {p : Position} (h : r s = (.tooDeep p, t)) (q : Rule α) :
    (r <|> q) s = (.tooDeep p, t) :=
  orElse_of_ne_unmatched h nofun q

/-! ## Attempts -/

theorem attempt_of_unmatched {r : Rule α} (h : r s = (.unmatched, t)) :
    attempt r s = (.unmatched, { t with cursor := s.cursor }) := by
  rw [attempt_apply, h]

/-- An attempt does as the rule unless that does not match. -/
theorem attempt_of_ne_unmatched {r : Rule α} {o : Outcome α} (h : r s = (o, t)) (ho : o ≠ .unmatched) :
    attempt r s = (o, t) := by
  rw [attempt_apply, h]
  cases o with
  | matched a => rfl
  | unmatched => exact absurd rfl ho
  | tooDeep p => rfl

theorem attempt_cases {r : Rule α} {o : Outcome α} (h : attempt r s = (o, t)) :
    (∃ u, r s = (.unmatched, u) ∧ o = .unmatched ∧ t = { u with cursor := s.cursor }) ∨
      (r s = (o, t) ∧ o ≠ .unmatched) := by
  rw [attempt_apply] at h
  match hr : r s with
  | (.unmatched, u) => rw [hr] at h; cases h; exact .inl ⟨u, rfl, rfl, rfl⟩
  | (.matched a, u) => rw [hr] at h; cases h; exact .inr ⟨rfl, nofun⟩
  | (.tooDeep p, u) => rw [hr] at h; cases h; exact .inr ⟨rfl, nofun⟩

theorem attempt_eq_iff {r : Rule α} {o : Outcome α} (ho : o ≠ .unmatched) :
    attempt r s = (o, t) ↔ r s = (o, t) := by
  constructor
  · intro h
    obtain ⟨u, -, hu, -⟩ | ⟨hr, -⟩ := attempt_cases h
    · exact absurd hu ho
    · exact hr
  · exact fun h => attempt_of_ne_unmatched h ho

theorem attempt_matched {r : Rule α} {a : α} : attempt r s = (.matched a, t) ↔ r s = (.matched a, t) :=
  attempt_eq_iff nofun

theorem attempt_tooDeep {r : Rule α} {p : Position} : attempt r s = (.tooDeep p, t) ↔ r s = (.tooDeep p, t) :=
  attempt_eq_iff nofun

theorem attempt_unmatched {r : Rule α} (h : attempt r s = (.unmatched, t)) :
    t.cursor = s.cursor ∧ ∃ u, r s = (.unmatched, u) := by
  obtain ⟨u, hr, -, rfl⟩ | ⟨-, ho⟩ := attempt_cases h
  · exact ⟨rfl, u, hr⟩
  · exact absurd rfl ho

/-! ## Rules that need not match -/

theorem optional_of_matched {r : Rule α} {a : α} (h : r s = (.matched a, t)) :
    optional r s = (.matched (some a), t) :=
  orElse_of_matched (bind_of_matched h fun a => pure (some a)) _

theorem optional_of_unmatched {r : Rule α} (h : r s = (.unmatched, t)) : optional r s = (.matched none, t) :=
  orElse_of_unmatched (bind_of_unmatched h fun a => pure (some a)) _

theorem optional_of_tooDeep {r : Rule α} {p : Position} (h : r s = (.tooDeep p, t)) :
    optional r s = (.tooDeep p, t) :=
  orElse_of_tooDeep (bind_of_tooDeep h fun a => pure (some a)) _

theorem optional_matched {r : Rule α} {found : Option α} (h : optional r s = (.matched found, t)) :
    (∃ a, found = some a ∧ r s = (.matched a, t)) ∨ (found = none ∧ r s = (.unmatched, t)) := by
  match hr : r s with
  | (.matched a, u) => rw [optional_of_matched hr] at h; cases h; exact .inl ⟨a, rfl, rfl⟩
  | (.unmatched, u) => rw [optional_of_unmatched hr] at h; cases h; exact .inr ⟨rfl, rfl⟩
  | (.tooDeep p, u) => rw [optional_of_tooDeep hr] at h; cases h

/-! ## Reading at the cursor -/

theorem scan?_of_none {f : Cursor → Option (α × Cursor)} (h : f s.cursor = none) :
    Rule.scan? f s = (.unmatched, s) := by
  rw [Rule.scan?, h]

theorem scan?_of_some {f : Cursor → Option (α × Cursor)} {a : α} {c : Cursor}
    (h : f s.cursor = some (a, c)) : Rule.scan? f s = (.matched a, { s with cursor := c }) := by
  rw [Rule.scan?, h]

theorem scan?_cases {f : Cursor → Option (α × Cursor)} {o : Outcome α} (h : Rule.scan? f s = (o, t)) :
    (∃ a c, f s.cursor = some (a, c) ∧ o = .matched a ∧ t = { s with cursor := c }) ∨
      (f s.cursor = none ∧ o = .unmatched ∧ t = s) := by
  match hf : f s.cursor with
  | some (a, c) => rw [scan?_of_some hf] at h; cases h; exact .inl ⟨a, c, rfl, rfl, rfl⟩
  | none => rw [scan?_of_none hf] at h; cases h; exact .inr ⟨rfl, rfl, rfl⟩

theorem scan?_matched {f : Cursor → Option (α × Cursor)} {a : α} (h : Rule.scan? f s = (.matched a, t)) :
    f s.cursor = some (a, t.cursor) := by
  obtain ⟨b, c, hf, ho, rfl⟩ | ⟨-, ho, -⟩ := scan?_cases h
  · cases ho; exact hf
  · cases ho

theorem scan?_unmatched {f : Cursor → Option (α × Cursor)} (h : Rule.scan? f s = (.unmatched, t)) : t = s := by
  obtain ⟨b, c, -, ho, -⟩ | ⟨-, -, ht⟩ := scan?_cases h
  · cases ho
  · exact ht

theorem holds_cases {p : Cursor → Bool} {o : Outcome Unit} (h : Rule.holds p s = (o, t)) :
    t = s ∧ ((p s.cursor = true ∧ o = .matched ()) ∨ (p s.cursor = false ∧ o = .unmatched)) := by
  unfold Rule.holds at h
  split at h
  · rename_i hp
    cases h; exact ⟨rfl, .inl ⟨hp, rfl⟩⟩
  · rename_i hp
    cases h; exact ⟨rfl, .inr ⟨Bool.not_eq_true _ ▸ hp, rfl⟩⟩

theorem holds_matched {p : Cursor → Bool} {a : Unit} (h : Rule.holds p s = (.matched a, t)) :
    p s.cursor = true ∧ t = s := by
  obtain ⟨ht, ⟨hp, -⟩ | ⟨-, ho⟩⟩ := holds_cases h
  · exact ⟨hp, ht⟩
  · cases ho

theorem holds_unmatched {p : Cursor → Bool} (h : Rule.holds p s = (.unmatched, t)) :
    p s.cursor = false ∧ t = s := by
  obtain ⟨ht, ⟨-, ho⟩ | ⟨hp, -⟩⟩ := holds_cases h
  · cases ho
  · exact ⟨hp, ht⟩

theorem holds_orElse_fail_matched {p : Cursor → Bool} {wanted : Expectation} {a : Unit}
    (h : (Rule.holds p <|> Rule.fail wanted : Rule Unit) s = (.matched a, t)) : p s.cursor = true ∧ t = s := by
  obtain h | ⟨u, -, h⟩ := orElse_matched h
  · exact holds_matched h
  · cases h

/-! ## Repetition -/

/-- A repetition from the value `b` and the state `s` on, which ends with `o` in the last state. -/
inductive Loops (f : β → α → β) (r : Rule α) : β → State → Outcome β → State → Prop where
  /-- A round that reads something is followed by another one. -/
  | next {b : β} {s t u : State} {a : α} {o : Outcome β} : r s = (.matched a, t) → t.left < s.left →
      Loops f r (f b a) t o u → Loops f r b s o u
  | last {b : β} {s t : State} {a : α} : r s = (.matched a, t) → s.left ≤ t.left → Loops f r b s (.matched (f b a)) t
  | ended {b : β} {s t : State} : r s = (.unmatched, t) → Loops f r b s (.matched b) t
  | tooDeep {b : β} {s t : State} {p : Position} : r s = (.tooDeep p, t) → Loops f r b s (.tooDeep p) t

variable {f : β → α → β} {r : Rule α} {b : β} {o : Outcome β}

theorem loops_of_foldMany (h : foldMany f r b s = (o, t)) : Loops f r b s o t := by
  induction hn : s.left using Nat.strongRecOn generalizing s b with
  | _ n ih =>
    subst hn
    rw [foldMany_apply] at h
    match hr : r s with
    | (.matched a, u) =>
      rw [hr] at h
      simp only at h
      split at h
      · rename_i hlt
        exact .next hr hlt (ih _ hlt h rfl)
      · rename_i hle
        cases h; exact .last hr (Nat.le_of_not_lt hle)
    | (.unmatched, u) => rw [hr] at h; cases h; exact .ended hr
    | (.tooDeep p, u) => rw [hr] at h; cases h; exact .tooDeep hr

theorem foldMany_of_lt {a : α} (h : r s = (.matched a, t)) (hlt : t.left < s.left) :
    foldMany f r b s = foldMany f r (f b a) t := by
  rw [foldMany_apply, h]
  exact if_pos hlt

theorem Loops.foldMany_eq (h : Loops f r b s o t) : foldMany f r b s = (o, t) := by
  induction h with
  | next hr hlt _ ih => exact (foldMany_of_lt hr hlt).trans ih
  | last hr hle =>
    rw [foldMany_apply, hr]
    exact if_neg (Nat.not_lt.mpr hle)
  | ended hr => rw [foldMany_apply, hr]
  | tooDeep hr => rw [foldMany_apply, hr]

/-- A repetition matches, however often the rule does. -/
theorem foldMany_ne_unmatched : foldMany f r b s ≠ (.unmatched, t) := by
  intro h
  generalize ho : (.unmatched : Outcome β) = o at h
  induction loops_of_foldMany h with
  | next _ _ hl ih => exact ih ho hl.foldMany_eq
  | last => cases ho
  | ended => cases ho
  | tooDeep => cases ho

theorem many_ne_unmatched : many r s ≠ (.unmatched, t) := by
  intro h
  obtain h | ⟨_, _, -, h⟩ := bind_unmatched h
  · exact foldMany_ne_unmatched h
  · cases h

/-! ## Nesting -/

theorem insideBody_of_limit_lt {limit : Nat} (h : limit < s.depth + 1) (r : Rule α) :
    insideBody limit r s = (.tooDeep s.cursor.position, { s with depth := s.depth + 1 }) :=
  if_pos h

theorem insideBody_of_tooDeep {limit : Nat} {p : Position} (hle : s.depth + 1 ≤ limit)
    (h : r { s with depth := s.depth + 1 } = (.tooDeep p, t)) : insideBody limit r s = (.tooDeep p, t) := by
  unfold insideBody
  simp only
  rw [if_neg (Nat.not_lt.mpr hle), h]

theorem insideBody_of_ne_tooDeep {limit : Nat} {o : Outcome α} (hle : s.depth + 1 ≤ limit)
    (h : r { s with depth := s.depth + 1 } = (o, t)) (ho : ∀ p, o ≠ .tooDeep p) :
    insideBody limit r s = (o, { t with depth := t.depth - 1 }) := by
  unfold insideBody
  simp only
  rw [if_neg (Nat.not_lt.mpr hle), h]
  cases o with
  | matched a => rfl
  | unmatched => rfl
  | tooDeep p => exact absurd rfl (ho p)

/-- A body that is nested too deep is not entered; else it is read with one more body open, and the count is put back
unless the reading ends in it. -/
theorem insideBody_cases {limit : Nat} {o : Outcome α} (h : Rule.insideBody limit r s = (o, t)) :
    (limit < s.depth + 1 ∧ o = .tooDeep s.cursor.position ∧ t = { s with depth := s.depth + 1 }) ∨
      s.depth + 1 ≤ limit ∧ ∃ u, r { s with depth := s.depth + 1 } = (o, u) ∧
        ((∃ p, o = .tooDeep p) ∧ t = u ∨ (∀ p, o ≠ .tooDeep p) ∧ t = { u with depth := u.depth - 1 }) := by
  unfold Rule.insideBody at h
  simp only at h
  split at h
  · rename_i hlt
    cases h; exact .inl ⟨hlt, rfl, rfl⟩
  · rename_i hle
    refine .inr ⟨Nat.le_of_not_lt hle, ?_⟩
    match hr : r { s with depth := s.depth + 1 } with
    | (.matched a, u) => rw [hr] at h; cases h; exact ⟨u, rfl, .inr ⟨nofun, rfl⟩⟩
    | (.unmatched, u) => rw [hr] at h; cases h; exact ⟨u, rfl, .inr ⟨nofun, rfl⟩⟩
    | (.tooDeep p, u) => rw [hr] at h; cases h; exact ⟨_, rfl, .inl ⟨⟨p, rfl⟩, rfl⟩⟩

theorem insideBody_matched {limit : Nat} {a : α} (h : Rule.insideBody limit r s = (.matched a, t)) :
    s.depth + 1 ≤ limit ∧ ∃ u, r { s with depth := s.depth + 1 } = (.matched a, u) ∧
      t = { u with depth := u.depth - 1 } := by
  obtain ⟨-, ho, -⟩ | ⟨hle, u, hr, ⟨⟨p, ho⟩, -⟩ | ⟨-, ht⟩⟩ := insideBody_cases h
  · cases ho
  · cases ho
  · exact ⟨hle, u, hr, ht⟩

theorem insideBlock_of_inside {o : Outcome α} (h : r { s with blockDepth := s.blockDepth + 1 } = (o, t)) :
    insideBlock r s = (o, { t with blockDepth := t.blockDepth - 1 }) := by
  rw [insideBlock, h]

theorem insideBlock_cases {o : Outcome α} (h : Rule.insideBlock r s = (o, t)) :
    ∃ u, r { s with blockDepth := s.blockDepth + 1 } = (o, u) ∧ t = { u with blockDepth := u.blockDepth - 1 } := by
  unfold Rule.insideBlock at h
  match hr : r { s with blockDepth := s.blockDepth + 1 } with
  | (o', u) => rw [hr] at h; cases h; exact ⟨_, rfl, rfl⟩

end BatchScript.Rule
