import BatchScript.Proofs.Rule.Course
import BatchScript.Proofs.Rule.Runs

/-!
# What a limit costs

A rule `r` under a smaller limit is compared with the same rule `r'` under a larger one.

* `Agrees r r'`: wherever `r` does not end because of its limit, `r'` does the same;
* `Measures m left size Jam r r'`: wherever `r'` matches, `r` matches alike and the size
  of the value fits into the `m` bodies that may be open, or `r` ends because of
  its limit and the size does not fit.

There is one way out: `r` may have met its limit in a part of the text that `r'` gave
up later. Then the reader is left at a place from which it cannot go on (`Jam`).
-/

namespace BatchScript.Rule

variable {α β : Type}

/-! ## Agreement -/

/-- Wherever the first rule does not end because of its limit, the second does the same. -/
def Agrees (r r' : Rule α) : Prop :=
  ∀ s, r s = r' s ∨ ∃ p t, r s = (.tooDeep p, t)

/-- Where the rule ends, other than because of its limit, as many bodies and blocks are
open as before, and there is no more to read. -/
def Steady (r : Rule α) : Prop :=
  ∀ ⦃s t : State⦄ ⦃o : Outcome α⦄, r s = (o, t) →
    (∃ p, o = .tooDeep p) ∨ t.depth = s.depth ∧ t.blockDepth = s.blockDepth ∧ t.left ≤ s.left

theorem Orderly.steady {limit : Nat} {r : Rule α} (h : Orderly limit r) : Steady r := by
  intro s t o e
  by_cases ho : ∃ p, o = .tooDeep p
  · exact .inl ho
  · exact .inr ⟨(h e).depth (not_exists.mp ho), (h e).follows.blockDepth, h.left_le e⟩

theorem Flat.steady {r : Rule α} (h : Flat Eq r) : Steady r :=
  (h.orderly 0).steady

theorem Steady.matched {r : Rule α} {s t : State} {a : α} (h : Steady r) (e : r s = (.matched a, t)) :
    t.depth = s.depth ∧ t.blockDepth = s.blockDepth ∧ t.left ≤ s.left := by
  obtain ⟨p, hp⟩ | ht := h e
  · cases hp
  · exact ht

theorem Steady.unmatched {r : Rule α} {s t : State} (h : Steady r) (e : r s = (.unmatched, t)) :
    t.depth = s.depth ∧ t.blockDepth = s.blockDepth ∧ t.left ≤ s.left := by
  obtain ⟨p, hp⟩ | ht := h e
  · cases hp
  · exact ht

/-- What a rule does under the larger limit, it does under the smaller one, or meets that limit. -/
theorem Agrees.eq_or {r r' : Rule α} {s t : State} {o : Outcome α} (h : Agrees r r')
    (e : r' s = (o, t)) : r s = (o, t) ∨ ∃ p u, r s = (.tooDeep p, u) := by
  obtain hr | hr := h s
  · exact .inl (hr.trans e)
  · exact .inr hr

theorem Agrees.unmatched {r r' : Rule α} {s t : State} (h : Agrees r r') (e : r s = (.unmatched, t)) :
    r' s = (.unmatched, t) := by
  obtain hr | ⟨p, u, hr⟩ := h s
  · exact hr.symm.trans e
  · rw [hr] at e; cases e

/-! ## Measures -/

/-- With less than `left` characters to read: wherever `r'` matches with a value,
`r` does the same and the value fits, or meets its limit and the value does not fit or the
reader is jammed. -/
def Measures (m left : Nat) (size : α → Nat) (Jam : State → Prop) (r r' : Rule α) : Prop :=
  ∀ ⦃s t : State⦄ ⦃v : α⦄, s.left < left → s.depth ≤ m → r' s = (.matched v, t) →
    (r s = (.matched v, t) ∧ s.depth + size v ≤ m) ∨
      (∃ p u, r s = (.tooDeep p, u)) ∧ (m < s.depth + size v ∨ Jam t)

namespace Measures

variable {m m' left : Nat} {size : α → Nat} {size' : β → Nat} {Jam : State → Prop}

/-- A rule that is the same under both limits, and whose values are small. -/
theorem of_size_eq_zero {r : Rule α} (h : ∀ {s t : State} {v : α}, r s = (.matched v, t) → size v = 0) :
    Measures m left size Jam r r := by
  intro s t v _ hd e
  refine .inl ⟨e, ?_⟩
  have := h e
  omega

/-- A first part that is the same under both limits. -/
theorem after {r : Rule α} {f f' : α → Rule β} (hr : Steady r)
    (h : ∀ a, Measures m left size' Jam (f a) (f' a)) :
    Measures m left size' Jam (r >>= f) (r >>= f') := by
  intro s t v hl hd e
  obtain ⟨a, u, hu, e⟩ := bind_matched e
  obtain ⟨hdu, -, hlu⟩ := hr.matched hu
  rw [bind_of_matched hu]
  rw [← hdu] at hd ⊢
  exact h a (by omega) hd e

/-- A last part that is the same under both limits and does not match where the reader is jammed. -/
theorem before {r r' : Rule α} {f : α → Rule β} {Jam' : State → Prop} (h : Measures m left size Jam' r r')
    (hj : ∀ {a t b u}, f a t = (.matched b, u) → Jam' t → Jam u)
    (hs : ∀ {a t b u}, f a t = (.matched b, u) → size' b = size a) :
    Measures m left size' Jam (r >>= f) (r' >>= f) := by
  intro s t v hl hd e
  obtain ⟨a, u, hu, e⟩ := bind_matched e
  rw [hs e]
  obtain ⟨hr, hf⟩ | ⟨⟨p, w, hr⟩, hm⟩ := h hl hd hu
  · exact .inl ⟨by rw [bind_of_matched hr]; exact e, hf⟩
  · exact .inr ⟨⟨p, w, bind_of_tooDeep hr f⟩, hm.imp_right (hj e)⟩

theorem attempt {r r' : Rule α} (h : Measures m left size Jam r r') :
    Measures m left size Jam (Rule.attempt r) (Rule.attempt r') := by
  intro s t v hl hd e
  simp only [attempt_matched, attempt_tooDeep] at e ⊢
  exact h hl hd e

/-- A choice; where the first part meets its limit and does not match under the larger one,
the second does not match either. -/
theorem orElse {r r' q q' : Rule α} (ha : Agrees r r') (hs : Steady r')
    (h₁ : Measures m left size Jam r r') (h₂ : Measures m left size Jam q q')
    (hn : ∀ {s p u t a w}, r s = (.tooDeep p, u) → r' s = (.unmatched, t) → q' t ≠ (.matched a, w)) :
    Measures m left size Jam (r <|> q) (r' <|> q') := by
  intro s t v hl hd e
  obtain e | ⟨u, hu, e⟩ := orElse_matched e
  · obtain ⟨hr, hf⟩ | ⟨⟨p, w, hr⟩, hm⟩ := h₁ hl hd e
    · exact .inl ⟨orElse_of_matched hr q, hf⟩
    · exact .inr ⟨⟨p, w, orElse_of_tooDeep hr q⟩, hm⟩
  · obtain hr | ⟨p, w, hr⟩ := ha s
    · rw [hu] at hr
      obtain ⟨hdu, -, hlu⟩ := hs.unmatched hu
      rw [orElse_of_unmatched hr]
      rw [← hdu] at hd ⊢
      exact h₂ (by omega) hd e
    · exact absurd e (hn hr hu)

theorem insideBlock {r r' : Rule α} (h : Measures m left size (fun _ => False) r r') :
    Measures m left size (fun _ => False) (Rule.insideBlock r) (Rule.insideBlock r') := by
  intro s t v hl hd e
  obtain ⟨u, hr', rfl⟩ := insideBlock_cases e
  obtain ⟨hr, hf⟩ | ⟨⟨p, w, hr⟩, hm⟩ := h (s := { s with blockDepth := s.blockDepth + 1 }) hl hd hr'
  · exact .inl ⟨insideBlock_of_inside hr, hf⟩
  · exact .inr ⟨⟨p, _, insideBlock_of_inside hr⟩, hm.imp_right False.elim⟩

/-- A body adds one to the size of what is in it. -/
theorem insideBody {r r' : Rule α} (h : Measures m left size Jam r r')
    (hj : ∀ {t : State}, Jam t → Jam { t with depth := t.depth - 1 }) :
    Measures m left (fun v => size v + 1) Jam (Rule.insideBody m r) (Rule.insideBody m' r') := by
  intro s t v hl hd e
  obtain ⟨-, u, hr', rfl⟩ := insideBody_matched e
  simp only
  rcases Nat.lt_or_ge m (s.depth + 1) with hlt | hle
  · exact .inr ⟨⟨_, _, insideBody_of_limit_lt hlt r⟩, .inl (by omega)⟩
  · obtain ⟨hr, hf⟩ | ⟨⟨p, w, hr⟩, hm⟩ := h (s := { s with depth := s.depth + 1 }) hl hle hr'
    · exact .inl ⟨insideBody_of_ne_tooDeep hle hr nofun, by simp only at hf; omega⟩
    · refine .inr ⟨⟨p, w, insideBody_of_tooDeep hle hr⟩, ?_⟩
      exact hm.imp (fun h => by simp only at h; omega) hj

end Measures

end BatchScript.Rule
