import BatchScript.Proofs.Cursor.Local
import BatchScript.Proofs.Rule.Cases

/-!
# Rules in lockstep

Two runs that start from related states end alike and in related states. What
the relation is stays open: the theory is stated for every relation under which
rewinding, recording and counting go alike (`Companion`), and for scans if the two runs
have texts before them that a scan cannot tell apart (`Twin`). So a fact about two runs, or an
invariant of one run, is proved of the whole grammar at once.

* `Lockstep.bind`, `Lockstep.orElse`, `Lockstep.foldMany` and so on: rules
  joined from rules in lockstep are in lockstep;
* `Lockstep.insideBody`: a body, where only the first run may be too deep.
-/

namespace BatchScript

/-- A relation between the states of two runs that read on alike. -/
structure Companion (R : State → State → Prop) : Prop where
  inBlock {s t : State} : R s t → (0 < t.blockDepth ↔ 0 < s.blockDepth)
  /-- Both have less to read than before, or neither has. -/
  left_lt {s t u v : State} : R s t → R u v → (u.left < s.left ↔ v.left < t.left)
  rewind {s t u v : State} : R s t → R u v →
    R { u with cursor := s.cursor } { v with cursor := t.cursor }
  note {s t : State} (wanted : Expectation) : R s t →
    R { s with attempts := s.attempts.note s.cursor.position wanted }
      { t with attempts := t.attempts.note t.cursor.position wanted }

/-- A relation between the states of two runs whose texts are related by `E`. -/
structure Twin (E : List Char → List Char → Prop) (R : State → State → Prop) : Prop where
  rest {s t : State} : R s t → E t.cursor.rest s.cursor.rest
  blockDepth {s t : State} : R s t → t.blockDepth = s.blockDepth
  move {s t : State} {n : Nat} : n ≤ s.cursor.rest.length → R s t →
    R { s with cursor := s.cursor.skip n } { t with cursor := t.cursor.skip n }
  rewind {s t u v : State} : R s t → R u v →
    R { u with cursor := s.cursor } { v with cursor := t.cursor }
  note {s t : State} (wanted : Expectation) : R s t →
    R { s with attempts := s.attempts.note s.cursor.position wanted }
      { t with attempts := t.attempts.note t.cursor.position wanted }

theorem Twin.left {R : State → State → Prop} {s t : State} (hR : Twin Eq R) (h : R s t) : t.left = s.left := by
  simp only [State.left, Cursor.left_eq, hR.rest h]

theorem Twin.companion {E : List Char → List Char → Prop} [Text.Prolongs E] {R : State → State → Prop}
    (hR : Twin E R) : Companion R where
  inBlock h := by rw [hR.blockDepth h]
  left_lt h k := by
    simp only [State.left, Cursor.left_eq]
    exact Text.Prolongs.length_lt_iff (hR.rest h) (hR.rest k)
  rewind := hR.rewind
  note := hR.note

namespace Rule

variable {α β : Type} {loose : Prop} {E : List Char → List Char → Prop} {R Q : State → State → Prop}

/-- From states related by `R` the second rule ends as the first one does, in
states related by `R`. If `loose`, the first may instead meet a body that is
nested too deep; then nothing is said of the second. -/
def Lockstep (loose : Prop) (R : State → State → Prop) (r q : Rule α) : Prop :=
  ∀ ⦃s t : State⦄, R s t → ∀ ⦃o : Outcome α⦄ ⦃u : State⦄, r s = (o, u) →
    (loose ∧ ∃ p, o = .tooDeep p) ∨ ∃ v, q t = (o, v) ∧ R u v

namespace Lockstep

theorem matched {r q : Rule α} {s t u : State} {a : α} (h : Lockstep loose R r q) (hs : R s t)
    (e : r s = (.matched a, u)) : ∃ v, q t = (.matched a, v) ∧ R u v := by
  obtain ⟨-, p, hp⟩ | hv := h hs e
  · cases hp
  · exact hv

theorem unmatched {r q : Rule α} {s t u : State} (h : Lockstep loose R r q) (hs : R s t)
    (e : r s = (.unmatched, u)) : ∃ v, q t = (.unmatched, v) ∧ R u v := by
  obtain ⟨-, p, hp⟩ | hv := h hs e
  · cases hp
  · exact hv

/-! ## Sequence and choice -/

theorem pure (a : α) : Lockstep loose R (Pure.pure a : Rule α) (Pure.pure a) := by
  intro s t h o u e
  cases e; exact .inr ⟨t, rfl, h⟩

/-- A sequence whose first part leads from states related by `R` to states related by `Q`. -/
theorem bind_of_imp {r q : Rule α} {f g : α → Rule β}
    (h₁ : Lockstep loose R r q) (le : ∀ {s t}, Q s t → R s t)
    (h : ∀ {s t a u v}, R s t → r s = (.matched a, u) → q t = (.matched a, v) → R u v → Q u v)
    (h₂ : ∀ a, Lockstep loose Q (f a) (g a)) : Lockstep loose R (r >>= f) (q >>= g) := by
  intro s t hs o u e
  obtain ⟨a, w, hr, e⟩ | ⟨hr, rfl⟩ | ⟨p, hr, rfl⟩ := bind_cases e
  · obtain ⟨x, hq, k⟩ := h₁.matched hs hr
    rw [bind_of_matched hq]
    exact (h₂ a (h hs hr hq k) e).imp_right fun ⟨v, hv, k'⟩ => ⟨v, hv, le k'⟩
  · obtain ⟨x, hq, k⟩ := h₁.unmatched hs hr
    exact .inr ⟨x, bind_of_unmatched hq g, k⟩
  · obtain ⟨l, -⟩ | ⟨x, hq, k⟩ := h₁ hs hr
    · exact .inl ⟨l, p, rfl⟩
    · exact .inr ⟨x, bind_of_tooDeep hq g, k⟩

theorem bind {r q : Rule α} {f g : α → Rule β} (h₁ : Lockstep loose R r q)
    (h₂ : ∀ a, Lockstep loose R (f a) (g a)) : Lockstep loose R (r >>= f) (q >>= g) :=
  bind_of_imp h₁ id (fun _ _ _ k => k) h₂

theorem orElse {r q r' q' : Rule α} (h₁ : Lockstep loose R r q) (h₂ : Lockstep loose R r' q') :
    Lockstep loose R (r <|> r') (q <|> q') := by
  intro s t h o u e
  obtain ⟨w, hr, e⟩ | ⟨hr, ho⟩ := orElse_cases e
  · obtain ⟨x, hq, k⟩ := h₁.unmatched h hr
    rw [orElse_of_unmatched hq]
    exact h₂ k e
  · exact (h₁ h hr).imp_right fun ⟨x, hq, k⟩ => ⟨x, orElse_of_ne_unmatched hq ho q', k⟩

theorem attempt (hR : Companion R) {r q : Rule α} (h₁ : Lockstep loose R r q) :
    Lockstep loose R (Rule.attempt r) (Rule.attempt q) := by
  intro s t h o u e
  obtain ⟨w, hr, rfl, rfl⟩ | ⟨hr, ho⟩ := attempt_cases e
  · obtain ⟨x, hq, k⟩ := h₁.unmatched h hr
    exact .inr ⟨_, attempt_of_unmatched hq, hR.rewind h k⟩
  · exact (h₁ h hr).imp_right fun ⟨x, hq, k⟩ => ⟨x, attempt_of_ne_unmatched hq ho, k⟩

/-! ## Reading at the cursor -/

theorem miss : Lockstep loose R (Rule.miss : Rule α) Rule.miss := by
  intro s t h o u e
  cases e; exact .inr ⟨t, rfl, h⟩

theorem fail (hR : Companion R) (wanted : Expectation) :
    Lockstep loose R (Rule.fail wanted : Rule α) (Rule.fail wanted) := by
  intro s t h o u e
  cases e; exact .inr ⟨_, rfl, hR.note wanted h⟩

theorem inBlock (hR : Companion R) : Lockstep loose R Rule.inBlock Rule.inBlock := by
  intro s t h o u e
  cases e; exact .inr ⟨t, by rw [Rule.inBlock, decide_eq_decide.mpr (hR.inBlock h)], h⟩

theorem move (hR : Twin E R) {f : Cursor → Cursor} (hf : Cursor.LocalMove E f) :
    Lockstep loose R (Rule.move f) (Rule.move f) := by
  intro s t h o u e
  obtain ⟨n, hn, hs, ht⟩ := hf (hR.rest h)
  cases e
  exact .inr ⟨{ t with cursor := f t.cursor }, rfl, by rw [hs, ht]; exact hR.move hn h⟩

theorem scan (hR : Twin E R) {f : Cursor → α × Cursor} (hf : Cursor.LocalScan E f) :
    Lockstep loose R (Rule.scan f) (Rule.scan f) := by
  intro s t h o u e
  obtain ⟨a, n, hn, hs, ht⟩ := hf (hR.rest h)
  unfold Rule.scan at e ⊢
  rw [hs] at e
  rw [ht]
  cases e
  exact .inr ⟨_, rfl, hR.move hn h⟩

theorem scan? (hR : Twin E R) {f : Cursor → Option (α × Cursor)} (hf : Cursor.LocalScan? E f) :
    Lockstep loose R (Rule.scan? f) (Rule.scan? f) := by
  intro s t h o u e
  obtain ⟨hs, ht⟩ | ⟨a, n, hn, hs, ht⟩ := hf (hR.rest h)
  · rw [scan?_of_none hs] at e
    cases e; exact .inr ⟨t, scan?_of_none ht, h⟩
  · rw [scan?_of_some hs] at e
    cases e; exact .inr ⟨_, scan?_of_some ht, hR.move hn h⟩

theorem holds (hR : Twin E R) {p : Cursor → Bool} (hp : Cursor.LocalTest E p) :
    Lockstep loose R (Rule.holds p) (Rule.holds p) := by
  intro s t h o u e
  unfold Rule.holds at e ⊢
  rw [hp (hR.rest h)]
  split at e <;> rename_i hp <;> cases e
  · exact .inr ⟨t, if_pos hp, h⟩
  · exact .inr ⟨t, if_neg hp, h⟩

/-! ## Repetition -/

/-- The rounds go in lockstep, and so both loops make the same rounds. -/
theorem foldMany (hR : Companion R) {r q : Rule α} (h₁ : Lockstep loose R r q) (f : β → α → β) (b : β) :
    Lockstep loose R (Rule.foldMany f r b) (Rule.foldMany f q b) := by
  intro s t h o u e
  induction loops_of_foldMany e generalizing t with
  | next hr hlt hl ih =>
    obtain ⟨x, hq, k⟩ := h₁.matched h hr
    rw [foldMany_of_lt hq ((hR.left_lt h k).mp hlt)]
    exact ih k hl.foldMany_eq
  | last hr hle =>
    obtain ⟨x, hq, k⟩ := h₁.matched h hr
    have hle' : t.left ≤ x.left := Nat.le_of_not_lt (mt (hR.left_lt h k).mpr (Nat.not_lt.mpr hle))
    exact .inr ⟨x, (Loops.last hq hle').foldMany_eq, k⟩
  | ended hr =>
    obtain ⟨x, hq, k⟩ := h₁.unmatched h hr
    exact .inr ⟨x, (Loops.ended hq).foldMany_eq, k⟩
  | @tooDeep _ _ _ p hr =>
    obtain ⟨l, -⟩ | ⟨x, hq, k⟩ := h₁ h hr
    · exact .inl ⟨l, p, rfl⟩
    · exact .inr ⟨x, (Loops.tooDeep hq).foldMany_eq, k⟩

theorem many (hR : Companion R) {r q : Rule α} (h₁ : Lockstep loose R r q) :
    Lockstep loose R (Rule.many r) (Rule.many q) :=
  bind (foldMany hR h₁ _ _) fun _ => pure _

/-! ## Nesting -/

/-- A block, inside which the states are related by `Q`. -/
theorem insideBlock {r q : Rule α} (h₁ : Lockstep loose Q r q)
    (enter : ∀ {s t}, R s t →
      Q { s with blockDepth := s.blockDepth + 1 } { t with blockDepth := t.blockDepth + 1 })
    (leave : ∀ {s t}, Q s t →
      R { s with blockDepth := s.blockDepth - 1 } { t with blockDepth := t.blockDepth - 1 }) :
    Lockstep loose R (Rule.insideBlock r) (Rule.insideBlock q) := by
  intro s t h o u e
  obtain ⟨w, hr, rfl⟩ := insideBlock_cases e
  exact (h₁ (enter h) hr).imp_right fun ⟨x, hq, k⟩ => ⟨_, insideBlock_of_inside hq, leave k⟩

/-- A body, inside which the states are related by `Q`, and whose limit the
first run meets no later than the second. -/
theorem insideBody {limit limit' : Nat} {r q : Rule α} (h₁ : Lockstep True Q r q)
    (enter : ∀ {s t}, R s t → Q { s with depth := s.depth + 1 } { t with depth := t.depth + 1 })
    (leave : ∀ {s t}, Q s t → R { s with depth := s.depth - 1 } { t with depth := t.depth - 1 })
    (le : ∀ {s t}, R s t → limit' < t.depth + 1 → limit < s.depth + 1) :
    Lockstep True R (Rule.insideBody limit r) (Rule.insideBody limit' q) := by
  intro s t h o u e
  obtain ⟨-, rfl, -⟩ | ⟨hle, w, hr, ⟨⟨p, rfl⟩, -⟩ | ⟨ho, rfl⟩⟩ := insideBody_cases e
  · exact .inl ⟨trivial, _, rfl⟩
  · exact .inl ⟨trivial, p, rfl⟩
  · obtain ⟨-, p, hp⟩ | ⟨x, hq, k⟩ := h₁ (enter h) hr
    · exact absurd hp (ho p)
    · have hle' : t.depth + 1 ≤ limit' := Nat.le_of_not_lt fun ht => Nat.not_lt.mpr hle (le h ht)
      exact .inr ⟨_, insideBody_of_ne_tooDeep hle' hq ho, leave k⟩

/-- A body under one limit, where the relation does not depend on the common depth. -/
theorem insideBody_of_depth_eq {limit : Nat} {r q : Rule α} (h₁ : Lockstep loose R r q)
    (cursor_eq : ∀ {s t}, R s t → t.cursor = s.cursor) (depth_eq : ∀ {s t}, R s t → t.depth = s.depth)
    (keep : ∀ {s t} (d : Nat), R s t → R { s with depth := d } { t with depth := d }) :
    Lockstep loose R (Rule.insideBody limit r) (Rule.insideBody limit q) := by
  intro s t h o u e
  have enter : R { s with depth := s.depth + 1 } { t with depth := t.depth + 1 } := by
    rw [depth_eq h]
    exact keep _ h
  obtain ⟨hlt, rfl, rfl⟩ | ⟨hle, w, hr, hw⟩ := insideBody_cases e
  · have hlt' : limit < t.depth + 1 := by rwa [depth_eq h]
    exact .inr ⟨_, by rw [insideBody_of_limit_lt hlt', cursor_eq h], enter⟩
  · have hle' : t.depth + 1 ≤ limit := by rwa [depth_eq h]
    obtain hl | ⟨x, hq, k⟩ := h₁ enter hr
    · exact .inl hl
    obtain ⟨⟨p, rfl⟩, rfl⟩ | ⟨ho, rfl⟩ := hw
    · exact .inr ⟨x, insideBody_of_tooDeep hle' hq, k⟩
    · exact .inr ⟨_, insideBody_of_ne_tooDeep hle' hq ho, by rw [depth_eq k]; exact keep _ k⟩

end Lockstep

end Rule

end BatchScript
