import BatchScript.Proofs.Rule.Cases

/-!
# What a match ensures

`Rule.Ensures P r Q`: where what remains satisfies `P`, a match of `r` with the
value `a` leaves something that satisfies `Q a`. Nothing is said of a rule that
does not match. Most facts are about the value alone (`Rule.Yields`). Each way
to join rules has its law, and repetition has an invariant (`Ensures.foldMany`).
-/

namespace BatchScript.Rule

variable {α β : Type} {P : List Char → Prop}

/-- A match where what remains satisfies `P` has a value and leaves a rest that satisfy `Q`. -/
def Ensures (P : List Char → Prop) (r : Rule α) (Q : α → List Char → Prop) : Prop :=
  ∀ ⦃s t : State⦄ ⦃a : α⦄, P s.cursor.rest → r s = (.matched a, t) → Q a t.cursor.rest

/-- Every match has a value that satisfies `A`. -/
def Yields (r : Rule α) (A : α → Prop) : Prop :=
  Ensures (fun _ => True) r fun a _ => A a

namespace Ensures

variable {Q : α → List Char → Prop} {Q' : β → List Char → Prop}

theorem mono {r : Rule α} {P' : List Char → Prop} {Q' : α → List Char → Prop} (h : Ensures P r Q)
    (hP : ∀ i, P' i → P i) (hQ : ∀ a i, Q a i → Q' a i) : Ensures P' r Q' :=
  fun _ _ _ hi e => hQ _ _ (h (hP _ hi) e)

theorem pure {a : α} (h : ∀ i, P i → Q a i) : Ensures P (Pure.pure a) Q := by
  intro s t b hs e
  cases e; exact h _ hs

theorem bind {r : Rule α} {f : α → Rule β} (h₁ : Ensures P r Q) (h₂ : ∀ a, Ensures (Q a) (f a) Q') :
    Ensures P (r >>= f) Q' := by
  intro s t b hs e
  obtain ⟨a, u, hr, e⟩ := bind_matched e
  exact h₂ a (h₁ hs hr) e

theorem orElse {r q : Rule α} (h₁ : Ensures P r Q) (h₂ : Ensures (fun _ => True) q Q) :
    Ensures P (r <|> q) Q := by
  intro s t a hs e
  obtain hr | ⟨u, -, e⟩ := orElse_matched e
  · exact h₁ hs hr
  · exact h₂ trivial e

theorem attempt {r : Rule α} (h : Ensures P r Q) : Ensures P (Rule.attempt r) Q :=
  fun _ _ _ hs e => h hs (attempt_matched.mp e)

/-! ## Reading at the cursor -/

theorem fail (wanted : Expectation) : Ensures P (Rule.fail wanted) Q := by
  intro s t a _ e; cases e

theorem failAll (wanted : List Expectation) : Ensures P (Rule.failAll wanted) Q := by
  induction wanted generalizing P with
  | nil => intro s t a _ e; cases e
  | cons w others ih => exact orElse (fail w) ih

theorem move {Q : Unit → List Char → Prop} {f : Cursor → Cursor}
    (h : ∀ c : Cursor, P c.rest → Q () (f c).rest) : Ensures P (Rule.move f) Q := by
  intro s t a hs e
  cases e; exact h _ hs

theorem scan {f : Cursor → α × Cursor} (h : ∀ c : Cursor, P c.rest → Q (f c).1 (f c).2.rest) :
    Ensures P (Rule.scan f) Q := by
  intro s t a hs e
  cases e; exact h _ hs

theorem scan? {f : Cursor → Option (α × Cursor)}
    (h : ∀ (c : Cursor) (a : α) (d : Cursor), P c.rest → f c = some (a, d) → Q a d.rest) :
    Ensures P (Rule.scan? f) Q := by
  intro s t a hs e
  exact h _ _ _ hs (scan?_matched e)

theorem holds {Q : Unit → List Char → Prop} {p : Cursor → Bool}
    (h : ∀ c : Cursor, P c.rest → p c = true → Q () c.rest) : Ensures P (Rule.holds p) Q := by
  intro s t a hs e
  obtain ⟨hp, rfl⟩ := holds_matched e
  exact h _ hs hp

/-! ## Repetition and nesting -/

/-- A repetition with an invariant, from which `Q'` follows where the repetition ends. -/
theorem foldMany_of_unmatched {r : Rule α} {f : β → α → β} {J : β → List Char → Prop}
    (h : ∀ x, Ensures (J x) r fun a i => J (f x a) i) (le : ∀ x i, J x i → Q' x i)
    (hu : ∀ {x s t}, J x s.cursor.rest → r s = (.unmatched, t) → Q' x t.cursor.rest) (x : β) :
    Ensures (J x) (Rule.foldMany f r x) Q' := by
  intro s t y hs e
  generalize ho : Outcome.matched y = o at e
  induction loops_of_foldMany e with
  | next hr _ hl ih => exact ih (h _ hs hr) ho hl.foldMany_eq
  | last hr _ => cases ho; exact le _ _ (h _ hs hr)
  | ended hr => cases ho; exact hu hs hr
  | tooDeep _ => cases ho

/-- What holds before a repetition and after each match of the rule holds behind it. -/
theorem foldMany {r : Rule α} {f : β → α → β} {J : β → List Char → Prop}
    (h : ∀ x, Ensures (J x) (Rule.attempt r) fun a i => J (f x a) i) (x : β) :
    Ensures (J x) (Rule.foldMany f (Rule.attempt r) x) J := by
  refine foldMany_of_unmatched h (fun _ _ hi => hi) (fun {x s t} hs e => ?_) x
  rw [(attempt_unmatched e).1]
  exact hs

theorem insideBody {limit : Nat} {r : Rule α} (h : Ensures P r Q) :
    Ensures P (Rule.insideBody limit r) Q := by
  intro s t a hs e
  obtain ⟨-, u, hr, rfl⟩ := insideBody_matched e
  exact h (s := { s with depth := s.depth + 1 }) (t := u) hs hr

theorem insideBlock {r : Rule α} (h : Ensures P r Q) : Ensures P (Rule.insideBlock r) Q := by
  intro s t a hs e
  obtain ⟨u, hr, rfl⟩ := insideBlock_cases e
  exact h (s := { s with blockDepth := s.blockDepth + 1 }) (t := u) hs hr

end Ensures

/-! ## Facts about the value -/

namespace Yields

variable {A : α → Prop} {B : β → Prop}

theorem any (r : Rule α) : Yields r fun _ => True :=
  fun _ _ _ _ _ => trivial

theorem pure {a : α} (h : A a) : Yields (Pure.pure a) A :=
  Ensures.pure fun _ _ => h

theorem bind {r : Rule α} {f : α → Rule β} (h₁ : Yields r A) (h₂ : ∀ a, A a → Yields (f a) B) :
    Yields (r >>= f) B :=
  Ensures.bind h₁ fun a _ _ _ ha e => h₂ a ha trivial e

/-- A sequence where nothing is said of the first value. -/
theorem after {r : Rule α} {f : α → Rule β} (h : ∀ a, Yields (f a) B) : Yields (r >>= f) B :=
  bind (any r) fun a _ => h a

theorem orElse {r q : Rule α} (h₁ : Yields r A) (h₂ : Yields q A) : Yields (r <|> q) A :=
  Ensures.orElse h₁ h₂

theorem attempt {r : Rule α} (h : Yields r A) : Yields (Rule.attempt r) A :=
  Ensures.attempt h

theorem fail (wanted : Expectation) : Yields (Rule.fail wanted) A :=
  Ensures.fail wanted

theorem failAll (wanted : List Expectation) : Yields (Rule.failAll wanted) A :=
  Ensures.failAll wanted

theorem optional {r : Rule α} (h : Yields r A) : Yields (Rule.optional r) fun o => ∀ a ∈ o, A a :=
  orElse (bind h fun a ha => pure fun b hb => by cases hb; exact ha) (pure fun b hb => by cases hb)

theorem scan? {f : Cursor → Option (α × Cursor)} (h : ∀ {c a d}, f c = some (a, d) → A a) :
    Yields (Rule.scan? f) A :=
  Ensures.scan? fun _ _ _ _ e => h e

theorem foldMany {r : Rule α} {f : β → α → β} (h : Yields r A) (hf : ∀ x a, B x → A a → B (f x a))
    {x : β} (hx : B x) : Yields (Rule.foldMany f r x) B := by
  refine (Ensures.foldMany_of_unmatched (J := fun x _ => B x) (fun x => ?_) (fun _ _ hi => hi)
    (fun hi _ => hi) x).mono (fun _ _ => hx) fun _ _ hi => hi
  exact fun s t a hs e => hf x a hs (h trivial e)

theorem many {r : Rule α} (h : Yields r A) : Yields (Rule.many r) fun values => ∀ a ∈ values, A a := by
  have hm : Yields (Rule.foldMany (fun values a => a :: values) r []) fun values => ∀ a ∈ values, A a :=
    foldMany h (fun values a hv ha => List.forall_mem_cons.mpr ⟨ha, hv⟩) (by simp)
  exact bind hm fun values hv => pure fun a ha => hv a (List.mem_reverse.mp ha)

end Yields

end BatchScript.Rule
