import BatchScript.Proofs.Rule.Course
import BatchScript.Proofs.Rule.Runs

/-!
# Readings

A reading says what may be read and what it stands for, whatever way there is to find it: a front of the text, a
value, and what remains behind the front (`Reading`). A rule reads so if it takes just these fronts for these values
and stays where it is at any other text (`Rule.Reads`).

* `Takes.bind`, `Takes.attempt`: rules one behind another read what their readings say one behind another
  (`Reading.bind`), if the whole is an attempt;
* `Reads.orElse`: the second of two rules reads where the first reading does not apply (`Reading.otherwise`);
* `Reads.of_matched`: a rule that matches what a reading says, and nothing else, reads so.
-/

namespace BatchScript

variable {α β : Type}

/-- The fronts of texts that stand for values, each in front of what may remain. -/
def Reading (α : Type) : Type :=
  List Char → α → List Char → Prop

namespace Reading

/-- Some front of the text stands for a value. -/
def Applies (p : Reading α) (text : List Char) : Prop :=
  ∃ front a rest, text = front ++ rest ∧ p front a rest

/-- The first reading, or the second one where the first does not apply. -/
def otherwise (p q : Reading α) : Reading α := fun front a rest =>
  p front a rest ∨ ¬ p.Applies (front ++ rest) ∧ q front a rest

/-- Nothing is read. -/
def nothing : Reading α := fun _ _ _ =>
  False

theorem otherwise_nothing (p : Reading α) : p.otherwise nothing = p := by
  funext front a rest
  exact propext ⟨fun h => h.elim id fun h => h.2.elim, .inl⟩

theorem applies_otherwise {p q : Reading α} {text : List Char} :
    (p.otherwise q).Applies text ↔ p.Applies text ∨ q.Applies text := by
  constructor
  · rintro ⟨front, a, rest, h, hp | ⟨-, hq⟩⟩
    · exact .inl ⟨front, a, rest, h, hp⟩
    · exact .inr ⟨front, a, rest, h, hq⟩
  · intro h
    by_cases hp : p.Applies text
    · obtain ⟨front, a, rest, h, hp⟩ := hp
      exact ⟨front, a, rest, h, .inl hp⟩
    · obtain ⟨front, a, rest, h, hq⟩ := h.resolve_left hp
      exact ⟨front, a, rest, h, .inr ⟨h ▸ hp, hq⟩⟩

/-- What one reading says, and behind it what the reading for its value says. -/
def bind (p : Reading α) (q : α → Reading β) : Reading β := fun front b rest =>
  ∃ first second a, front = first ++ second ∧ p first a (second ++ rest) ∧ q a second b rest

end Reading

namespace Rule

/-- Where the reading applies the rule takes the front for its value; anywhere else it does not match. -/
structure Takes (r : Rule α) (p : Reading α) : Prop where
  matched {s : State} {front : List Char} {a : α} {rest : List Char} : s.cursor.rest = front ++ rest →
    p front a rest → ∃ t, r s = (.matched a, t) ∧ t.cursor = s.cursor.skip front.length
  unmatched {s : State} : ¬ p.Applies s.cursor.rest → ∃ t, r s = (.unmatched, t)

/-- Where the reading applies the rule takes the front for its value; anywhere else it does not match, and stays. -/
structure Reads (r : Rule α) (p : Reading α) : Prop where
  matched {s : State} {front : List Char} {a : α} {rest : List Char} : s.cursor.rest = front ++ rest →
    p front a rest → ∃ t, r s = (.matched a, t) ∧ t.cursor = s.cursor.skip front.length
  unmatched {s : State} : ¬ p.Applies s.cursor.rest → ∃ t, r s = (.unmatched, t) ∧ t.cursor = s.cursor

namespace Reads

variable {r q : Rule α} {p p' : Reading α} {s t : State} {a : α} {front rest : List Char}

/-- What a rule took is a front that stands for its value. -/
theorem exists_front (h : Reads r p) (e : r s = (.matched a, t)) :
    ∃ front, s.cursor.rest = front ++ t.cursor.rest ∧ p front a t.cursor.rest := by
  by_cases hp : p.Applies s.cursor.rest
  · obtain ⟨front, b, rest, hs, hp⟩ := hp
    obtain ⟨u, hu, hcursor⟩ := h.matched hs hp
    rw [hu] at e
    cases e
    have hrest : t.cursor.rest = rest := by rw [hcursor, Cursor.rest_skip, hs, List.drop_left]
    exact ⟨front, by rw [hrest, hs], by rwa [hrest]⟩
  · obtain ⟨u, hu, -⟩ := h.unmatched hp
    rw [hu] at e
    cases e

theorem not_applies (h : Reads r p) (e : r s = (.unmatched, t)) : ¬ p.Applies s.cursor.rest := by
  rintro ⟨front, a, rest, hs, hp⟩
  obtain ⟨u, hu, -⟩ := h.matched hs hp
  rw [hu] at e
  cases e

theorem congr (h : Reads r p) (hp : ∀ front a rest, p front a rest ↔ p' front a rest) : Reads r p' := by
  obtain rfl : p = p' := by
    funext front a rest
    exact propext (hp front a rest)
  exact h

theorem runs (h : Reads r p) (hr : Flat Eq r) {d b : Nat} (hp : p front a rest) :
    Runs r d b (front ++ rest) (.matched a) rest := by
  intro s hs
  obtain ⟨t, ht, hcursor⟩ := h.matched hs.rest hp
  have hcourse := hr.orderly 0 ht
  refine ⟨t, ht, ?_, (hcourse.depth nofun).trans hs.depth, hcourse.follows.blockDepth.trans hs.blockDepth⟩
  rw [hcursor, Cursor.rest_skip, hs.rest, List.drop_left]

/-- A rule without bodies that matches what a reading says, and nothing else, reads so. -/
theorem of_matched (hr : Flat Eq r)
    (complete : ∀ {d b : Nat} {front rest : List Char} {a : α}, p front a rest →
      Runs r d b (front ++ rest) (.matched a) rest)
    (sound : ∀ {s t : State} {a : α}, r s = (.matched a, t) →
      ∃ front, s.cursor.rest = front ++ t.cursor.rest ∧ p front a t.cursor.rest)
    (stays : ∀ {s t : State}, r s = (.unmatched, t) → t.cursor = s.cursor) : Reads r p where
  matched {s front a rest} hs hp := by
    obtain ⟨t, ht, hat⟩ := complete hp s ⟨hs, rfl, rfl⟩
    refine ⟨t, ht, (hr.orderly 0 ht).follows.reaches.eq_skip ?_⟩
    rw [hs, hat.rest]
  unmatched {s} hp := by
    match e : r s with
    | (.matched a, t) =>
      obtain ⟨front, hs, h⟩ := sound e
      exact absurd ⟨front, a, _, hs, h⟩ hp
    | (.unmatched, t) => exact ⟨t, rfl, stays e⟩
    | (.tooDeep _, t) => exact absurd e hr.ne_tooDeep

/-! ## Sequence -/

theorem takes (h : Reads r p) : Takes r p where
  matched hs hp := h.matched hs hp
  unmatched hp := (h.unmatched hp).imp fun _ => And.left

end Reads

namespace Takes

variable {r : Rule α} {p : Reading α}

theorem bind {f : α → Rule β} {q : α → Reading β} (h : Takes r p) (hf : ∀ a, Takes (f a) (q a)) :
    Takes (r >>= f) (p.bind q) where
  matched {s front b rest} hs hp := by
    obtain ⟨first, second, a, rfl, hp, hq⟩ := hp
    rw [List.append_assoc] at hs
    obtain ⟨t, ht, hcursor⟩ := h.matched hs hp
    have hrest : t.cursor.rest = second ++ rest := by rw [hcursor, Cursor.rest_skip, hs, List.drop_left]
    obtain ⟨u, hu, hend⟩ := (hf a).matched hrest hq
    refine ⟨u, (bind_of_matched ht f).trans hu, ?_⟩
    rw [hend, hcursor, Cursor.skip_skip, List.length_append]
  unmatched {s} hp := by
    by_cases h₁ : p.Applies s.cursor.rest
    · obtain ⟨first, a, rest, hs, ha⟩ := h₁
      obtain ⟨t, ht, hcursor⟩ := h.matched hs ha
      have hrest : t.cursor.rest = rest := by rw [hcursor, Cursor.rest_skip, hs, List.drop_left]
      have hnone : ¬ (q a).Applies t.cursor.rest := by
        rintro ⟨second, b, k, hk, hb⟩
        have hk : rest = second ++ k := hrest.symm.trans hk
        exact hp ⟨first ++ second, b, k, by rw [hs, hk, List.append_assoc], first, second, a, rfl, hk ▸ ha, hb⟩
      exact ((hf a).unmatched hnone).imp fun _ hu => (bind_of_matched ht f).trans hu
    · exact (h.unmatched h₁).imp fun _ ht => bind_of_unmatched ht f

/-- An attempt takes its step back. -/
theorem attempt (h : Takes r p) : Reads (attempt r) p where
  matched hs hp := (h.matched hs hp).imp fun _ ht => ⟨attempt_matched.mpr ht.1, ht.2⟩
  unmatched hp := by
    obtain ⟨t, ht⟩ := h.unmatched hp
    exact ⟨_, attempt_of_unmatched ht, rfl⟩

end Takes

namespace Reads

variable {r q : Rule α} {p p' : Reading α}

/-! ## Choice -/

theorem orElse (h₁ : Reads r p) (h₂ : Reads q p') : Reads (r <|> q) (p.otherwise p') where
  matched {s front a rest} hs hp := by
    obtain hp | ⟨hnone, hp⟩ := hp
    · obtain ⟨t, ht, hcursor⟩ := h₁.matched hs hp
      exact ⟨t, orElse_of_matched ht q, hcursor⟩
    · obtain ⟨t, ht, hstay⟩ := h₁.unmatched (hs ▸ hnone)
      obtain ⟨u, hu, hcursor⟩ := h₂.matched (hstay ▸ hs) hp
      exact ⟨u, (orElse_of_unmatched ht q).trans hu, hstay ▸ hcursor⟩
  unmatched {s} hp := by
    rw [Reading.applies_otherwise, not_or] at hp
    obtain ⟨t, ht, hstay⟩ := h₁.unmatched hp.1
    obtain ⟨u, hu, hcursor⟩ := h₂.unmatched (hstay ▸ hp.2)
    exact ⟨u, (orElse_of_unmatched ht q).trans hu, hcursor.trans hstay⟩

theorem miss : Reads (Rule.miss : Rule α) .nothing where
  matched _ hp := hp.elim
  unmatched _ := ⟨_, rfl, rfl⟩

theorem fail (wanted : Expectation) : Reads (Rule.fail wanted : Rule α) .nothing where
  matched _ hp := hp.elim
  unmatched _ := ⟨_, rfl, rfl⟩

theorem failAll (wanted : List Expectation) : Reads (Rule.failAll wanted : Rule α) .nothing := by
  induction wanted with
  | nil => exact miss
  | cons w others ih => exact Reading.otherwise_nothing .nothing ▸ (fail w).orElse ih

/-- What is wanted where nothing is read changes nothing in what is read. -/
theorem orElse_nothing (h₁ : Reads r p) (h₂ : Reads q .nothing) : Reads (r <|> q) p :=
  p.otherwise_nothing ▸ h₁.orElse h₂

/-! ## Reading at the cursor -/

theorem scan? {f : Cursor → Option (α × Cursor)}
    (complete : ∀ {c : Cursor} {front : List Char} {a : α} {rest : List Char}, c.rest = front ++ rest →
      p front a rest → f c = some (a, c.skip front.length))
    (sound : ∀ {c d : Cursor} {a : α}, f c = some (a, d) → p.Applies c.rest) : Reads (.scan? f) p where
  matched hs hp := ⟨_, scan?_of_some (complete hs hp), rfl⟩
  unmatched {s} hp := by
    refine ⟨s, scan?_of_none ?_, rfl⟩
    cases hf : f s.cursor with
    | none => rfl
    | some found => exact absurd (sound hf) hp

theorem map (h : Reads r p) (f : α → β) : Reads (r >>= fun a => Pure.pure (f a))
    fun front b rest => ∃ a, b = f a ∧ p front a rest where
  matched {s front b rest} hs hp := by
    obtain ⟨a, rfl, hp⟩ := hp
    obtain ⟨t, ht, hcursor⟩ := h.matched hs hp
    exact ⟨t, bind_of_matched ht _, hcursor⟩
  unmatched {s} hp := by
    have hnone : ¬ p.Applies s.cursor.rest := fun ⟨front, a, rest, hs, ha⟩ => hp ⟨front, f a, rest, hs, a, rfl, ha⟩
    obtain ⟨t, ht, hstay⟩ := h.unmatched hnone
    exact ⟨t, bind_of_unmatched ht _, hstay⟩

end Reads

end Rule

end BatchScript
