import BatchScript.Proofs.Cursor.Mirrors
import BatchScript.Proofs.Rule.Lockstep

/-!
# Rules that mirror each other

Two runs over different texts may still say the same: the second finds `F a` where the first finds
`a`, and gives up where the first gives up. `Rule.Mirrors P R F r q` says so of two rules that
start from states related by `R`, where `P` relates the places of bodies nested too deep. The
relation of the states is that of their cursors with something beside it (`Abreast`).

* `Mirrors.bind`, `Mirrors.orElse`, `Mirrors.foldMany` and so on: rules joined from rules that
  mirror each other mirror each other;
* `Mirrors.scan`, `Mirrors.scan?`, `Mirrors.move`, `Mirrors.holds`: small steps at the cursor,
  where it is enough to look at the cursors.
-/

namespace BatchScript

variable {α β γ δ : Type}

/-- How the second of two runs ends if it mirrors the first one. -/
inductive Outcome.Mirrors (P : Position → Position → Prop) (R : State → State → Prop) (F : α → β) :
    Outcome α × State → Outcome β × State → Prop where
  | matched {a : α} {s t : State} : R s t → Mirrors P R F (.matched a, s) (.matched (F a), t)
  | unmatched {s t : State} : R s t → Mirrors P R F (.unmatched, s) (.unmatched, t)
  | tooDeep {p q : Position} {s t : State} : P p q → R s t →
      Mirrors P R F (.tooDeep p, s) (.tooDeep q, t)

/-- A relation between states that stands on a relation `C` between their cursors. -/
structure Abreast (C : Cursor → Cursor → Prop) (R : State → State → Prop) : Prop where
  cursor {s t : State} : R s t → C s.cursor t.cursor
  move {s t : State} {c d : Cursor} : R s t → C c d → R { s with cursor := c } { t with cursor := d }
  /-- Both have less to read than before, or neither has. -/
  left_lt {c d c' d' : Cursor} : C c d → C c' d' → (c'.left < c.left ↔ d'.left < d.left)
  note {s t : State} (wanted : Expectation) : R s t →
    R { s with attempts := s.attempts.note s.cursor.position wanted }
      { t with attempts := t.attempts.note t.cursor.position wanted }

namespace Rule

variable {P : Position → Position → Prop} {R : State → State → Prop} {C : Cursor → Cursor → Prop}
  {F : α → β} {G : γ → δ}

/-- From states related by `R` the second rule finds `F a` where the first one finds `a`, and ends
as the first one does in any other case; the states stay related. -/
def Mirrors (P : Position → Position → Prop) (R : State → State → Prop) (F : α → β) (r : Rule α)
    (q : Rule β) : Prop :=
  ∀ ⦃s t : State⦄, R s t → Outcome.Mirrors P R F (r s) (q t)

namespace Mirrors

/-! ## One run from the other -/

theorem of_matched {r : Rule α} {q : Rule β} {s t u : State} {a : α} (h : Mirrors P R F r q) (hs : R s t)
    (e : r s = (.matched a, u)) : ∃ v, q t = (.matched (F a), v) ∧ R u v := by
  have k := h hs
  rw [e] at k
  match hq : q t, k with
  | _, .matched k => exact ⟨_, rfl, k⟩

theorem of_unmatched {r : Rule α} {q : Rule β} {s t u : State} (h : Mirrors P R F r q) (hs : R s t)
    (e : r s = (.unmatched, u)) : ∃ v, q t = (.unmatched, v) ∧ R u v := by
  have k := h hs
  rw [e] at k
  match hq : q t, k with
  | _, .unmatched k => exact ⟨_, rfl, k⟩

/-! ## Sequence and choice -/

theorem pure (a : α) : Mirrors P R F (Pure.pure a : Rule α) (Pure.pure (F a)) :=
  fun _ _ hs => .matched hs

theorem bind {r : Rule α} {q : Rule β} {f : α → Rule γ} {g : β → Rule δ} (h₁ : Mirrors P R F r q)
    (h₂ : ∀ a, Mirrors P R G (f a) (g (F a))) : Mirrors P R G (r >>= f) (q >>= g) := by
  intro s t hs
  rw [bind_apply, bind_apply]
  match r s, q t, h₁ hs with
  | _, _, .matched k => exact h₂ _ k
  | _, _, .unmatched k => exact .unmatched k
  | _, _, .tooDeep hp k => exact .tooDeep hp k

theorem orElse {r r' : Rule α} {q q' : Rule β} (h₁ : Mirrors P R F r q) (h₂ : Mirrors P R F r' q') :
    Mirrors P R F (r <|> r') (q <|> q') := by
  intro s t hs
  rw [orElse_apply, orElse_apply]
  match r s, q t, h₁ hs with
  | _, _, .matched k => exact .matched k
  | _, _, .unmatched k => exact h₂ k
  | _, _, .tooDeep hp k => exact .tooDeep hp k

theorem optional {r : Rule α} {q : Rule β} (h : Mirrors P R F r q) :
    Mirrors P R (Option.map F) (Rule.optional r) (Rule.optional q) :=
  orElse (bind h fun a => pure (some a)) (pure none)

theorem attempt (hR : Abreast C R) {r : Rule α} {q : Rule β} (h : Mirrors P R F r q) :
    Mirrors P R F (Rule.attempt r) (Rule.attempt q) := by
  intro s t hs
  rw [attempt_apply, attempt_apply]
  match r s, q t, h hs with
  | _, _, .matched k => exact .matched k
  | _, _, .unmatched k => exact .unmatched (hR.move k (hR.cursor hs))
  | _, _, .tooDeep hp k => exact .tooDeep hp k

/-! ## Reading at the cursor -/

theorem miss : Mirrors P R F Rule.miss Rule.miss :=
  fun _ _ hs => .unmatched hs

theorem fail (hR : Abreast C R) (wanted : Expectation) : Mirrors P R F (Rule.fail wanted) (Rule.fail wanted) :=
  fun _ _ hs => .unmatched (hR.note wanted hs)

theorem failAll (hR : Abreast C R) (wanted : List Expectation) :
    Mirrors P R F (Rule.failAll wanted) (Rule.failAll wanted) := by
  induction wanted with
  | nil => exact miss
  | cons e others ih => exact orElse (fail hR e) ih

theorem move (hR : Abreast C R) {f g : Cursor → Cursor} (h : ∀ ⦃c d⦄, C c d → C (f c) (g d)) :
    Mirrors P R id (Rule.move f) (Rule.move g) :=
  fun _ _ hs => .matched (hR.move hs (h (hR.cursor hs)))

theorem scan (hR : Abreast C R) {f : Cursor → α × Cursor} {g : Cursor → β × Cursor}
    (h : ∀ ⦃c d⦄, C c d → (g d).1 = F (f c).1 ∧ C (f c).2 (g d).2) :
    Mirrors P R F (Rule.scan f) (Rule.scan g) := by
  intro s t hs
  obtain ⟨hv, hc⟩ := h (hR.cursor hs)
  unfold Rule.scan
  rw [hv]
  exact .matched (hR.move hs hc)

theorem scan? (hR : Abreast C R) {f : Cursor → Option (α × Cursor)} {g : Cursor → Option (β × Cursor)}
    (h : Cursor.Mirrors C F f g) : Mirrors P R F (Rule.scan? f) (Rule.scan? g) := by
  intro s t hs
  unfold Rule.scan?
  obtain ⟨hf, hg⟩ | ⟨a, c', d', hf, hg, k⟩ := h (hR.cursor hs)
  · rw [hf, hg]; exact .unmatched hs
  · rw [hf, hg]; exact .matched (hR.move hs k)

theorem step? (hR : Abreast C R) {f g : Cursor → Option Cursor} (h : Cursor.StepMirrors C f g) :
    Mirrors P R id (Rule.step? f) (Rule.step? g) :=
  scan? hR h.scan

theorem holds (hR : Abreast C R) {p q : Cursor → Bool} (h : ∀ ⦃c d⦄, C c d → q d = p c) :
    Mirrors P R id (Rule.holds p) (Rule.holds q) := by
  intro s t hs
  unfold Rule.holds
  rw [h (hR.cursor hs)]
  cases p s.cursor with
  | true => exact .matched hs
  | false => exact .unmatched hs

/-! ## Repetition -/

/-- Both loops make the same rounds. -/
theorem foldMany (hR : Abreast C R) {r : Rule α} {q : Rule β} (h : Mirrors P R F r q) {f : γ → α → γ}
    {g : δ → β → δ} (hf : ∀ b a, g (G b) (F a) = G (f b a)) (b : γ) :
    Mirrors P R G (Rule.foldMany f r b) (Rule.foldMany g q (G b)) := by
  intro s
  induction hn : s.left using Nat.strongRecOn generalizing s b with
  | _ n ih =>
    subst hn
    intro t hs
    rw [foldMany_apply, foldMany_apply]
    match r s, q t, h hs with
    | _, _, .unmatched k => exact .matched k
    | _, _, .tooDeep hp k => exact .tooDeep hp k
    | _, _, .matched (a := a) (s := u) (t := v) k =>
      have hleft : u.left < s.left ↔ v.left < t.left := hR.left_lt (hR.cursor hs) (hR.cursor k)
      simp only [hf]
      by_cases hlt : u.left < s.left
      · rw [if_pos hlt, if_pos (hleft.mp hlt)]
        exact ih _ hlt _ rfl k
      · rw [if_neg hlt, if_neg (mt hleft.mpr hlt)]
        exact .matched k

theorem many (hR : Abreast C R) {r : Rule α} {q : Rule β} (h : Mirrors P R F r q) :
    Mirrors P R (List.map F) (Rule.many r) (Rule.many q) := by
  refine bind (foldMany (G := List.map F) hR h (fun _ _ => List.map_cons.symm) []) fun values => ?_
  rw [← List.map_reverse]
  exact pure _

/-! ## Nesting -/

/-- A parenthesized block, of which neither or both are inside more. -/
theorem insideBlock {r : Rule α} {q : Rule β} (h : Mirrors P R F r q)
    (enter : ∀ {s t}, R s t → R { s with blockDepth := s.blockDepth + 1 } { t with blockDepth := t.blockDepth + 1 })
    (leave : ∀ {s t}, R s t → R { s with blockDepth := s.blockDepth - 1 } { t with blockDepth := t.blockDepth - 1 }) :
    Mirrors P R F (Rule.insideBlock r) (Rule.insideBlock q) := by
  intro s t hs
  unfold Rule.insideBlock
  match r { s with blockDepth := s.blockDepth + 1 }, q { t with blockDepth := t.blockDepth + 1 },
    h (enter hs) with
  | _, _, .matched k => exact .matched (leave k)
  | _, _, .unmatched k => exact .unmatched (leave k)
  | _, _, .tooDeep hp k => exact .tooDeep hp (leave k)

/-- A body, where both runs are inside the same number of bodies. -/
theorem insideBody {limit : Nat} {r : Rule α} {q : Rule β} (h : Mirrors P R F r q)
    (position : ∀ {s t}, R s t → P s.cursor.position t.cursor.position)
    (depth_eq : ∀ {s t}, R s t → t.depth = s.depth)
    (keep : ∀ {s t} (d : Nat), R s t → R { s with depth := d } { t with depth := d }) :
    Mirrors P R F (Rule.insideBody limit r) (Rule.insideBody limit q) := by
  intro s t hs
  unfold Rule.insideBody
  simp only [depth_eq hs]
  by_cases hl : limit < s.depth + 1
  · rw [if_pos hl, if_pos hl]
    exact .tooDeep (position hs) (keep _ hs)
  · rw [if_neg hl, if_neg hl]
    match r { s with depth := s.depth + 1 }, q { t with depth := s.depth + 1 }, h (keep _ hs) with
    | _, _, .matched k => simp only [depth_eq k]; exact .matched (keep _ k)
    | _, _, .unmatched k => simp only [depth_eq k]; exact .unmatched (keep _ k)
    | _, _, .tooDeep hp k => exact .tooDeep hp k

end Mirrors

end Rule

end BatchScript
