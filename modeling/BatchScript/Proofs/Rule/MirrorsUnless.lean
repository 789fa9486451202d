import BatchScript.Proofs.Rule.Runs
import BatchScript.Proofs.Rule.Mirrors

/-!
# Rules that mirror each other unless something bad is found

Two runs may part where the first one finds a value of a certain kind, and mirror each other wherever
it does not (`Rule.MirrorsUnless`). Once such a value is found, nothing is said of the second run; but the first
one has to go on to a match that shows it, or to end for another reason than that a rule does not
match (`Rule.Spoils`). Then the first run as a whole tells whether the two have parted.

* `MirrorsUnless.bind`, `MirrorsUnless.after`, `MirrorsUnless.foldMany`: how such rules are joined;
* `MirrorsUnless.of_matched`: what the second run finds, from what the first one found.
-/

namespace BatchScript

variable {α β γ δ : Type}

/-- A match with a bad value, or no match because of a limit. -/
def Outcome.Spoiled (bad : α → Prop) : Outcome α → Prop
  | .matched a => bad a
  | .unmatched => False
  | .tooDeep _ => True

namespace Rule

/-- However it runs, the rule finds a bad value or ends because of a limit. -/
def Spoils (bad : α → Prop) (r : Rule α) : Prop :=
  ∀ s, (r s).1.Spoiled bad

namespace Spoils

variable {bad : α → Prop} {bad' : β → Prop}

theorem pure {a : α} (h : bad a) : Spoils bad (Pure.pure a) :=
  fun _ => h

theorem bind {r : Rule α} {f : α → Rule β} (h₁ : Spoils (fun _ => True) r) (h₂ : ∀ a, Spoils bad' (f a)) :
    Spoils bad' (r >>= f) := by
  intro s
  have h := h₁ s
  rw [bind_apply]
  match r s, h with
  | (.matched a, t), _ => exact h₂ a t
  | (.tooDeep p, t), _ => trivial

/-- A repetition goes on from a bad value to a bad value. -/
theorem foldMany {r : Rule α} {f : β → α → β} (hf : ∀ b a, bad' b → bad' (f b a)) {b : β} (hb : bad' b) :
    Spoils bad' (Rule.foldMany f r b) := by
  intro s
  match e : Rule.foldMany f r b s with
  | (.unmatched, t) => exact foldMany_ne_unmatched e
  | (.tooDeep p, t) => trivial
  | (.matched y, t) =>
    obtain ⟨values, -, -, rfl, -⟩ := repeats_of_foldMany e
    show bad' (values.foldl f b)
    clear e
    induction values generalizing b with
    | nil => exact hb
    | cons a values ih => exact ih (hf b a hb)

theorem many {r : Rule α} : Spoils (fun _ => True) (Rule.many r) :=
  bind (foldMany (fun _ _ _ => trivial) trivial) fun _ => pure trivial

end Spoils

variable {P : Position → Position → Prop} {R : State → State → Prop} {C : Cursor → Cursor → Prop}
  {bad : α → Prop} {bad' : γ → Prop} {F : α → β} {G : γ → δ}

/-- From states related by `R` the second rule mirrors the first one, or the first one spoils it. -/
def MirrorsUnless (bad : α → Prop) (P : Position → Position → Prop) (R : State → State → Prop) (F : α → β)
    (r : Rule α) (q : Rule β) : Prop :=
  ∀ ⦃s t : State⦄, R s t → (r s).1.Spoiled bad ∨ Outcome.Mirrors P R F (r s) (q t)

theorem Mirrors.unless {r : Rule α} {q : Rule β} (h : Mirrors P R F r q) : MirrorsUnless bad P R F r q :=
  fun _ _ hs => .inr (h hs)

theorem Spoils.unless {r : Rule α} (h : Spoils bad r) (q : Rule β) : MirrorsUnless bad P R F r q :=
  fun s _ _ => .inl (h s)

namespace MirrorsUnless

theorem of_matched {r : Rule α} {q : Rule β} {s t u : State} {a : α} (h : MirrorsUnless bad P R F r q)
    (hs : R s t) (e : r s = (.matched a, u)) (ha : ¬ bad a) : ∃ v, q t = (.matched (F a), v) ∧ R u v := by
  have k := h hs
  rw [e] at k
  match hq : q t, k.resolve_left ha with
  | _, .matched k => exact ⟨_, rfl, k⟩

theorem bind {r : Rule α} {q : Rule β} {f : α → Rule γ} {g : β → Rule δ} (h₁ : MirrorsUnless bad P R F r q)
    (h₂ : ∀ a, MirrorsUnless bad' P R G (f a) (g (F a))) (hbad : ∀ a, bad a → Spoils bad' (f a)) :
    MirrorsUnless bad' P R G (r >>= f) (q >>= g) := by
  intro s t hs
  rw [bind_apply, bind_apply]
  obtain h | h := h₁ hs
  · refine .inl ?_
    match r s, h with
    | (.matched a, u), h => exact hbad a h u
    | (.tooDeep p, u), _ => trivial
  · match r s, q t, h with
    | _, _, .matched k => exact h₂ _ k
    | _, _, .unmatched k => exact .inr (.unmatched k)
    | _, _, .tooDeep hp k => exact .inl trivial

/-- What comes behind a part that is mirrored. -/
theorem after {r : Rule α} {q : Rule β} {f : α → Rule γ} {g : β → Rule δ} (h₁ : Mirrors P R F r q)
    (h₂ : ∀ a, MirrorsUnless bad' P R G (f a) (g (F a))) : MirrorsUnless bad' P R G (r >>= f) (q >>= g) :=
  bind (h₁.unless : MirrorsUnless (fun _ => False) P R F r q) h₂ fun _ => False.elim

theorem orElse {r r' : Rule α} {q q' : Rule β} (h₁ : MirrorsUnless bad P R F r q)
    (h₂ : MirrorsUnless bad P R F r' q') : MirrorsUnless bad P R F (r <|> r') (q <|> q') := by
  intro s t hs
  rw [orElse_apply, orElse_apply]
  obtain h | h := h₁ hs
  · refine .inl ?_
    match r s, h with
    | (.matched a, u), h => exact h
    | (.tooDeep p, u), _ => trivial
  · match r s, q t, h with
    | _, _, .matched k => exact .inr (.matched k)
    | _, _, .unmatched k => exact h₂ k
    | _, _, .tooDeep hp k => exact .inl trivial

theorem attempt (hR : Abreast C R) {r : Rule α} {q : Rule β} (h : MirrorsUnless bad P R F r q) :
    MirrorsUnless bad P R F (Rule.attempt r) (Rule.attempt q) := by
  intro s t hs
  rw [attempt_apply, attempt_apply]
  obtain h | h := h hs
  · refine .inl ?_
    match r s, h with
    | (.matched a, u), h => exact h
    | (.tooDeep p, u), _ => trivial
  · match r s, q t, h with
    | _, _, .matched k => exact .inr (.matched k)
    | _, _, .unmatched k => exact .inr (.unmatched (hR.move k (hR.cursor hs)))
    | _, _, .tooDeep hp k => exact .inl trivial

/-- A scan whatever it finds, if it finds nothing where the other one finds nothing. -/
theorem scan? {f : Cursor → Option (α × Cursor)} {g : Cursor → Option (β × Cursor)} (hR : Abreast C R)
    (h : ∀ ⦃c d⦄, C c d → f c = none → g d = none) :
    MirrorsUnless (fun _ => True) P R F (Rule.scan? f) (Rule.scan? g) := by
  intro s t hs
  unfold Rule.scan?
  cases hf : f s.cursor with
  | some found => exact .inl trivial
  | none => rw [h (hR.cursor hs) hf]; exact .inr (.unmatched hs)

/-- Both loops make the same rounds, up to the first one that finds something bad. -/
theorem foldMany (hR : Abreast C R) {r : Rule α} {q : Rule β} (h : MirrorsUnless bad P R F r q) {f : γ → α → γ}
    {g : δ → β → δ} (hf : ∀ b a, g (G b) (F a) = G (f b a)) (hbad : ∀ b a, bad a → bad' (f b a))
    (hkeep : ∀ b a, bad' b → bad' (f b a)) (b : γ) :
    MirrorsUnless bad' P R G (Rule.foldMany f r b) (Rule.foldMany g q (G b)) := by
  intro s
  induction hn : s.left using Nat.strongRecOn generalizing s b with
  | _ n ih =>
    subst hn
    intro t hs
    rw [foldMany_apply, foldMany_apply]
    obtain k | k := h hs
    · refine .inl ?_
      match r s, k with
      | (.tooDeep p, u), _ => trivial
      | (.matched a, u), k =>
        simp only
        split
        · exact Spoils.foldMany hkeep (hbad b a k) u
        · exact hbad b a k
    · match r s, q t, k with
      | _, _, .unmatched k => exact .inr (.matched k)
      | _, _, .tooDeep hp k => exact .inl trivial
      | _, _, .matched (a := a) (s := u) (t := v) k =>
        have hleft : u.left < s.left ↔ v.left < t.left := hR.left_lt (hR.cursor hs) (hR.cursor k)
        simp only [hf]
        by_cases hlt : u.left < s.left
        · rw [if_pos hlt, if_pos (hleft.mp hlt)]
          exact ih _ hlt _ rfl k
        · rw [if_neg hlt, if_neg (mt hleft.mpr hlt)]
          exact .inr (.matched k)

end MirrorsUnless

end Rule

end BatchScript
