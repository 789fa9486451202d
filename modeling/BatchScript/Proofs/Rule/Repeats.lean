import BatchScript.Proofs.Cursor.Walk
import BatchScript.Proofs.Rule.Course
import BatchScript.Proofs.Rule.Runs

/-!
# Rounds of a repetition

A repetition of a rule that always reads something is the list of its rounds, and the place
behind them where the rule does not match; the two readings are one (`Gains.repeats_of_foldMany`,
`Repeats.foldMany`). Rounds can be made one list behind another (`Repeats.append`), and go in
lockstep if the rule does.

A repetition is cut off behind a round that reads nothing. Where every round moves the cursor
forward (`Rule.Progressive`) it is never cut off: without the guard, the loop ends by itself after no
more rounds than there are characters left (`Gains.progressive`).
-/

namespace BatchScript.Rule

variable {α β : Type} {r : Rule α} {values : List α} {s t u : State}

/-- A rule that always reads something leaves less of a text. -/
theorem Gains.length_lt (h : Gains r) {d b : Nat} {i j : List Char} {a : α} (hr : Runs r d b i (.matched a) j) :
    j.length < i.length := by
  obtain ⟨t, ht, hj⟩ := hr ⟨.ofText i, d, b, {}⟩ ⟨rfl, rfl, rfl⟩
  have hlt : t.cursor.left < (Cursor.ofText i).left := h ht nofun
  rwa [Cursor.left_eq, Cursor.left_eq, hj.rest] at hlt

/-! ## A repetition and its rounds -/

theorem Gains.repeats_of_foldMany (h : Gains r) {f : β → α → β} {x y : β}
    (e : Rule.foldMany f r x s = (.matched y, t)) :
    ∃ values u, Repeats r s values u ∧ y = values.foldl f x ∧ r u = (.unmatched, t) := by
  obtain ⟨values, u, hr, hy, hu | ⟨w, a, hw, hle⟩⟩ := Rule.repeats_of_foldMany e
  · exact ⟨values, u, hr, hy, hu⟩
  · have := h hw nofun
    omega

/-- A repetition of a rule that always reads something ends where the rule does not match. -/
theorem Gains.repeats_of_many (h : Gains r) (e : Rule.many r s = (.matched values, t)) :
    ∃ u, Repeats r s values u ∧ r u = (.unmatched, t) := by
  obtain ⟨u, hr, hu | ⟨w, a, hw, hle⟩⟩ := Rule.repeats_of_many e
  · exact ⟨u, hr, hu⟩
  · have := h hw nofun
    omega

namespace Repeats

theorem foldMany (h : Repeats r s values u) (hg : Gains r) (e : r u = (.unmatched, t)) (f : β → α → β) (x : β) :
    Rule.foldMany f r x s = (.matched (values.foldl f x), t) := by
  induction h generalizing x with
  | nil => exact (Loops.ended e).foldMany_eq
  | cons hr _ ih => exact (foldMany_of_lt hr (hg hr nofun)).trans (ih e _)

theorem many (h : Repeats r s values u) (hg : Gains r) (e : r u = (.unmatched, t)) :
    Rule.many r s = (.matched values, t) := by
  refine (bind_of_matched (h.foldMany hg e _ []) _).trans ?_
  rw [reverse_foldl_cons]; rfl

/-! ## Rounds one behind another -/

theorem append {others : List α} (h : Repeats r s values t) (k : Repeats r t others u) :
    Repeats r s (values ++ others) u := by
  induction h with
  | nil => exact k
  | cons hr _ ih => exact .cons hr (ih k)

theorem follows {limit : Nat} (hr : Orderly limit r) (h : Repeats r s values t) : s.Follows t := by
  induction h with
  | nil => exact .refl _
  | cons e _ ih => exact (hr e).follows.trans ih

theorem depth_eq {limit : Nat} (hr : Orderly limit r) (h : Repeats r s values t) : t.depth = s.depth := by
  induction h with
  | nil => rfl
  | cons e _ ih => exact ih.trans ((hr e).depth nofun)

theorem lockstep {loose : Prop} {R : State → State → Prop} {q : Rule α} (hr : Lockstep loose R r q)
    (h : Repeats r s values u) (hs : R s t) : ∃ v, Repeats q t values v ∧ R u v := by
  induction h generalizing t with
  | nil => exact ⟨t, .nil, hs⟩
  | cons e _ ih =>
    obtain ⟨w, hw, k⟩ := hr.matched hs e
    obtain ⟨v, hv, k⟩ := ih k
    exact ⟨v, .cons hw hv, k⟩

end Repeats

/-! ## Repetitions without a guard -/

variable {α β : Type}

/-- A repetition without a guard. Behind the `k`th round it goes on as `q`. -/
def rounds (f : β → α → β) (r : Rule α) (q : β → Rule β) : Nat → β → Rule β
  | 0, b => q b
  | k + 1, b => fun s =>
    match r s with
    | (.matched a, t) => rounds f r q k (f b a) t
    | (.unmatched, t) => (.matched b, t)
    | (.tooDeep p, t) => (.tooDeep p, t)

/-- In a repetition of the rule, every round that is followed by another one moves the cursor forward
and not beyond the end of the script; so the repetition ends by itself, and what it would do behind as
many rounds as there are characters left does not matter. -/
structure Progressive (r : Rule α) : Prop where
  before {s t : State} {a : α} : r s = (.matched a, t) → s.cursor.Before t.cursor
  ends {β : Type} {s : State} {k : Nat} (f : β → α → β) (q : β → Rule β) (b : β) : s.left < k →
    rounds f r q k b s = foldMany f r b s

theorem rounds_succ_apply (f : β → α → β) (r : Rule α) (q : β → Rule β) (k : Nat) (b : β) (s : State) :
    rounds f r q (k + 1) b s =
      match r s with
      | (.matched a, t) => rounds f r q k (f b a) t
      | (.unmatched, t) => (.matched b, t)
      | (.tooDeep p, t) => (.tooDeep p, t) := rfl

/-- A repetition without a guard, of a rule that does as `r` where as much or less is left to read. -/
theorem Gains.rounds_eq {r r' : Rule α} (h : Gains r) {s : State} {k : Nat} (f : β → α → β) (q : β → Rule β) (b : β)
    (he : ∀ t : State, t.left ≤ s.left → r' t = r t) (hk : s.left < k) : rounds f r' q k b s = foldMany f r b s := by
  induction k generalizing s b with
  | zero => omega
  | succ k ih =>
    rw [foldMany_apply, rounds_succ_apply, he s (Nat.le_refl _)]
    match e : r s with
    | (.matched a, t) =>
      have hlt : t.left < s.left := h e nofun
      have ht : t.left < k := by omega
      simp only [if_pos hlt]
      exact ih (f b a) (fun u hu => he u (by omega)) ht
    | (.unmatched, t) => rfl
    | (.tooDeep p, t) => rfl

theorem Gains.progressive {limit : Nat} {r : Rule α} (h : Gains r) (hr : Orderly limit r) : Progressive r where
  before e := (hr e).follows.reaches.before (h e nofun)
  ends f q b := h.rounds_eq f q b fun _ _ => rfl

/-! ## Scans that read something -/

theorem Gains.scan? {f : Cursor → Option (α × Cursor)} (hf : ∀ {c a d}, f c = some (a, d) → d.left < c.left) :
    Gains (Rule.scan? f) := by
  intro s t o e ho
  obtain ⟨a, c, hc, -, rfl⟩ | ⟨-, hn, -⟩ := scan?_cases e
  · exact hf hc
  · exact absurd hn ho

theorem Gains.fail (wanted : Expectation) : Gains (Rule.fail wanted : Rule α) := by
  intro s t o e ho
  cases e
  exact absurd rfl ho

end BatchScript.Rule
