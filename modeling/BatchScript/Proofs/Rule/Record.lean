import BatchScript.Proofs.Rule.Course

/-!
# The record of attempts

Whatever is tried while a script is read, the record names a place of this script, and
what was wanted there, each thing once (`Attempts.Sound`, `State.Follows.sound`). It is
never lost that something was wanted at some place or behind it (`Attempts.Covers`,
`State.Follows.covers`); and a rule that has to find something leaves such a mark where
it does not match (`Rule.Wants`).
-/

namespace BatchScript

namespace Attempts

variable {script : List Char} {a : Attempts} {c : Cursor} {wanted : Expectation} {n : Nat}

/-- A record of attempts made in a script. -/
structure Sound (script : List Char) (a : Attempts) : Prop where
  furthest : ∃ c, (Cursor.ofText script).Reaches c ∧ a.furthest = c.position
  nodup : a.expected.Nodup
  expected : .statement ∉ a.expected
  /-- A record without attempts is as it was at the start. -/
  start : a.expected = [] → a.furthest = .start

theorem sound_empty (script : List Char) : Sound script {} :=
  ⟨⟨.ofText script, .refl _, rfl⟩, .nil, by simp, fun _ => rfl⟩

theorem Sound.note (h : a.Sound script) (hc : (Cursor.ofText script).Reaches c) (hw : wanted ≠ .statement) :
    (a.note c.position wanted).Sound script := by
  unfold Attempts.note
  split
  · exact ⟨⟨c, hc, rfl⟩, by simp, by simpa using Ne.symm hw, nofun⟩
  · split
    · rename_i hn
      refine ⟨h.furthest, ?_, ?_, fun e => ?_⟩
      · exact List.nodup_append.mpr ⟨h.nodup, by simp, by
          rintro x hx y hy rfl; exact hn.2 (List.mem_singleton.mp hy ▸ hx)⟩
      · simpa using ⟨h.expected, Ne.symm hw⟩
      · simp at e
    · exact h

/-- Something was wanted `n` characters behind the start, or further on. -/
def Covers (n : Nat) (a : Attempts) : Prop :=
  a.expected ≠ [] ∧ n ≤ a.furthest.offset

/-- A record in which something was wanted tells that. -/
theorem Covers.failure_eq (h : a.Covers n) (here : Position) : a.failure here = .unmatched a.furthest a.expected :=
  if_neg (by simpa using h.1)

/-- A record tells of no limit. -/
theorem failure_eq (a : Attempts) (here : Position) : ∃ p expected, a.failure here = .unmatched p expected := by
  unfold failure
  split
  · exact ⟨_, _, rfl⟩
  · exact ⟨_, _, rfl⟩

theorem Covers.mono {m : Nat} (h : a.Covers n) (hm : m ≤ n) : a.Covers m :=
  ⟨h.1, Nat.le_trans hm h.2⟩

theorem Covers.note (h : a.Covers n) (p : Position) (wanted : Expectation) : (a.note p wanted).Covers n := by
  unfold Attempts.note
  split
  · rename_i hlt
    exact ⟨List.cons_ne_nil _ _, Nat.le_of_lt (Nat.lt_of_le_of_lt h.2 hlt)⟩
  · split
    · exact ⟨by simp, h.2⟩
    · exact h

theorem Sound.covers_note (h : a.Sound script) (p : Position) (wanted : Expectation) :
    (a.note p wanted).Covers p.offset := by
  unfold Attempts.note
  split
  · exact ⟨List.cons_ne_nil _ _, Nat.le_refl _⟩
  · rename_i hle
    split
    · rename_i hn
      exact ⟨by simp, Nat.le_of_eq hn.1⟩
    · rename_i hn
      refine ⟨fun he => ?_, by omega⟩
      have h₀ := congrArg Position.offset (h.start he)
      have h₀ : a.furthest.offset = 0 := h₀
      exact hn ⟨by omega, by simp [he]⟩

end Attempts

/-- A state in which a script is read. -/
structure State.Sound (script : List Char) (s : State) : Prop where
  reached : (Cursor.ofText script).Reaches s.cursor
  attempts : s.attempts.Sound script

namespace State.Follows

variable {script : List Char} {s t : State} {n : Nat}

/-- The same script is read on. -/
theorem sound (h : s.Follows t) (hs : s.Sound script) : t.Sound script := by
  obtain ⟨notes, hn, ht⟩ := h.attempts
  refine ⟨hs.reached.trans h.reaches, ht ▸ List.foldlRecOn notes _ hs.attempts fun a ha note hm => ?_⟩
  exact ha.note (hs.reached.trans (hn note hm).1) (hn note hm).2

theorem covers (h : s.Follows t) (hs : s.attempts.Covers n) : t.attempts.Covers n := by
  obtain ⟨notes, -, ht⟩ := h.attempts
  exact ht ▸ List.foldlRecOn notes _ hs fun a ha note _ => ha.note _ _

end State.Follows

namespace Rule

variable {α β : Type} {limit : Nat} {script : List Char}

/-- A rule that leaves a mark where it does not match, or further on. -/
def Wants (script : List Char) (r : Rule α) : Prop :=
  ∀ ⦃s t : State⦄, s.Sound script → r s = (.unmatched, t) → t.attempts.Covers s.cursor.position.offset

namespace Wants

theorem pure (a : α) : Wants script (Pure.pure a : Rule α) := by
  intro s t _ e; cases e

theorem fail (wanted : Expectation) : Wants script (Rule.fail wanted : Rule α) := by
  intro s t hs e
  cases e; exact hs.attempts.covers_note _ _

theorem bind {r : Rule α} {f : α → Rule β} (hr : Orderly limit r) (h₁ : Wants script r)
    (h₂ : ∀ a, Wants script (f a)) : Wants script (r >>= f) := by
  intro s t hs e
  obtain hu | ⟨a, u, hu, e⟩ := bind_unmatched e
  · exact h₁ hs hu
  · have hf := (hr hu).follows
    exact (h₂ a (hf.sound hs) e).mono hf.reaches.offset_le

/-- A choice whose last part leaves a mark. -/
theorem orElse_right {r q : Rule α} (hr : Orderly limit r) (h : Wants script q) : Wants script (r <|> q) := by
  intro s t hs e
  obtain ⟨u, hu, e⟩ := orElse_unmatched e
  have hf := (hr hu).follows
  exact (h (hf.sound hs) e).mono hf.reaches.offset_le

/-- A choice whose first part leaves a mark. -/
theorem orElse_left {r q : Rule α} (h : Wants script r) (hq : Orderly limit q) : Wants script (r <|> q) := by
  intro s t hs e
  obtain ⟨u, hu, e⟩ := orElse_unmatched e
  exact (hq e).follows.covers (h hs hu)

theorem attempt {r : Rule α} (h : Wants script r) : Wants script (Rule.attempt r) := by
  intro s t hs e
  obtain ⟨u, hu, -, rfl⟩ | ⟨-, ho⟩ := attempt_cases e
  · exact (h hs hu : u.attempts.Covers _)
  · exact absurd rfl ho

/-- A move always succeeds. -/
theorem move (f : Cursor → Cursor) : Wants script (Rule.move f) := by
  intro s t _ e; cases e

/-- A repetition always succeeds. -/
theorem many (r : Rule α) : Wants script (Rule.many r) := by
  intro s t _ e; exact absurd e many_ne_unmatched

end Wants

end Rule

end BatchScript
