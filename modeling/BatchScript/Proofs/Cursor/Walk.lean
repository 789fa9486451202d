import BatchScript.Proofs.Cursor.Reach
import BatchScript.Proofs.Grammar.Balanced

/-!
# Walks of a cursor

A loop over characters reads one character after the other until it has seen enough. Its run is a
`Walk`: finitely many steps, each of which moves the cursor forward by a character that is there.
Every loop over characters has one, and it ends where the scan says (`walk_skipWhile`, `walk_upTo`,
`walk_source`).
-/

namespace BatchScript

open Grammar

namespace Cursor

/-- The cursor `d` stands strictly beyond `c`, and not beyond the end of the script. -/
def Before (c d : Cursor) : Prop :=
  ∃ n, 0 < n ∧ n ≤ c.left ∧ d = c.skip n

variable {c d e : Cursor}

theorem Before.reaches (h : c.Before d) : c.Reaches d := by
  obtain ⟨n, -, -, rfl⟩ := h
  exact reaches_skip c n

theorem Before.left_lt (h : c.Before d) : d.left < c.left := by
  obtain ⟨n, hn, hl, rfl⟩ := h
  rw [left_skip]; omega

theorem Reaches.before (h : c.Reaches d) (hl : d.left < c.left) : c.Before d := by
  obtain ⟨n, hn, rfl⟩ := reaches_iff_le.mp h
  rw [left_skip] at hl
  exact ⟨n, by omega, by rw [left_eq]; exact hn, rfl⟩

theorem Before.trans_reaches (h : c.Before d) (k : d.Reaches e) : c.Before e :=
  (h.reaches.trans k).before (Nat.lt_of_le_of_lt k.left_le h.left_lt)

theorem before_next (h : c.rest ≠ []) : c.Before c.next :=
  ⟨1, Nat.one_pos, by rw [left_eq]; exact List.length_pos_iff.mpr h, rfl⟩

/-- A loop over characters in the state `x` at `c` comes to an end in the state `y` at `d`. In each
round `go` says whether the loop goes on, and in what state. -/
inductive Walk {σ : Type} (go : σ → Cursor → Option σ) : σ → Cursor → σ → Cursor → Prop where
  | stop {x : σ} {c : Cursor} : go x c = none → Walk go x c x c
  | step {x y z : σ} {c d : Cursor} : go x c = some y → c.Before c.next → Walk go y c.next z d → Walk go x c z d

/-- A loop that stops at the end of the script comes to an end. -/
theorem exists_walk {σ : Type} (go : σ → Cursor → Option σ) (hend : ∀ x c, c.rest = [] → go x c = none) (x : σ)
    (c : Cursor) : ∃ y d, Walk go x c y d := by
  induction hl : c.left using Nat.strongRecOn generalizing x c with
  | _ left ih =>
    subst hl
    cases hgo : go x c with
    | none => exact ⟨x, c, .stop hgo⟩
    | some y =>
      have hne : c.rest ≠ [] := fun he => by rw [hend x c he] at hgo; cases hgo
      have hb := before_next hne
      obtain ⟨z, d, h⟩ := ih _ hb.left_lt y c.next rfl
      exact ⟨z, d, .step hgo hb h⟩

/-! ## The loops -/

/-- Goes on while a character satisfies `p`. -/
def goWhile (p : Char → Bool) (_ : Unit) (c : Cursor) : Option Unit :=
  if c.current.any p then some () else none

/-- Goes on until what remains satisfies `stop`. -/
def goUntil (stop : List Char → Bool) (_ : Unit) (c : Cursor) : Option Unit :=
  if c.rest.isEmpty || stop c.rest then none else some ()

/-- Goes on in the source of a loop, where some parentheses and perhaps a quote are open. -/
def goSource (x : Nat × Option Char) (c : Cursor) : Option (Nat × Option Char) :=
  c.current.bind fun y =>
    if x.2.isNone && y == ')' then
      match x.1 with
      | 0 => none
      | depth + 1 => some (depth, none)
    else if x.2.isNone && y == '(' then some (x.1 + 1, none)
    else some (x.1, quoteAfter x.2 y)

theorem Walk.skipWhile_eq {p : Char → Bool} {x y : Unit} (h : Walk (goWhile p) x c y d) : c.skipWhile p = d := by
  induction h with
  | @stop x c hgo =>
    have hp : c.rest.takeWhile p = [] := by
      cases hc : c.rest with
      | nil => rfl
      | cons z i =>
        have hz : p z = false := by simpa [goWhile, current, hc] using hgo
        rw [List.takeWhile_cons_of_neg (by simp [hz])]
    rw [skipWhile, runLength, hp]; rfl
  | @step x y z c d hgo hb _ ih =>
    obtain ⟨w, i, hc⟩ := List.exists_cons_of_ne_nil (l := c.rest) fun he => by simp [goWhile, current, he] at hgo
    have hw : p w = true := by simpa [goWhile, current, hc] using hgo
    rw [← ih, skipWhile, skipWhile, runLength, runLength, rest_next, hc, List.takeWhile_cons_of_pos hw]; rfl

theorem Walk.upTo_eq {stop : List Char → Bool} {x y : Unit} (h : Walk (goUntil stop) x c y d) : (c.upTo stop).2 = d := by
  induction h with
  | @stop x c hgo =>
    have hz : lengthBefore stop 0 c.rest = 0 := by
      cases hc : c.rest with
      | nil => rfl
      | cons z i =>
        have hs : stop (z :: i) = true := by simpa [goUntil, hc] using hgo
        rw [lengthBefore, if_pos hs]
    simp only [upTo, hz]; rfl
  | @step x y z c d hgo hb _ ih =>
    obtain ⟨w, i, hc⟩ := List.exists_cons_of_ne_nil (l := c.rest) fun he => by simp [goUntil, he] at hgo
    have hs : stop (w :: i) = false := by simpa [goUntil, hc] using hgo
    have hn : lengthBefore stop 0 (w :: i) = lengthBefore stop 0 i + 1 := by
      rw [lengthBefore, hs, if_neg Bool.false_ne_true, lengthBefore_eq_add, Nat.add_comm]
    simp only [upTo, rest_next, hc, List.tail_cons] at ih ⊢
    rw [hn, skip_succ, ih]

theorem sourceLength?_of_goSource_none {x : Nat × Option Char} (h : goSource x c = none) :
    (c.atEnd = true ∧ sourceLength? 0 x.1 x.2 c.rest = none) ∨ sourceLength? 0 x.1 x.2 c.rest = some 0 := by
  cases hc : c.rest with
  | nil => exact .inl ⟨by simp [atEnd, hc], rfl⟩
  | cons z i =>
    simp only [goSource, current, hc, List.head?_cons, Option.bind_some] at h
    split at h
    · rename_i hz
      split at h
      · rename_i hx
        exact .inr (by simp [sourceLength?, hz, hx])
      · cases h
    · split at h <;> cases h

theorem sourceLength?_of_goSource {x y : Nat × Option Char} (h : goSource x c = some y) :
    sourceLength? 0 x.1 x.2 c.rest = sourceLength? 1 y.1 y.2 c.next.rest := by
  obtain ⟨w, i, hc⟩ := List.exists_cons_of_ne_nil (l := c.rest) fun he => by simp [goSource, current, he] at h
  obtain ⟨depth, quote⟩ := x
  rw [rest_next, hc, List.tail_cons]
  simp only [goSource, current, hc, List.head?_cons, Option.bind_some] at h
  simp only [sourceLength?]
  split at h
  · rename_i hclose
    rw [if_pos hclose]
    cases depth with
    | zero => cases h
    | succ depth => cases h; rfl
  · rename_i hclose
    rw [if_neg hclose]
    split at h <;> rename_i hopen <;> cases h
    · rw [if_pos hopen]
    · rw [if_neg hopen]

/-- A walk through a source ends at its closing parenthesis, or at the end of the script. -/
theorem Walk.sourceLength?_eq {x y : Nat × Option Char} (h : Walk goSource x c y d) :
    (d.atEnd = true ∧ sourceLength? 0 x.1 x.2 c.rest = none) ∨
      ∃ n, sourceLength? 0 x.1 x.2 c.rest = some n ∧ d = c.skip n := by
  induction h with
  | stop hgo =>
    exact (sourceLength?_of_goSource_none hgo).imp_right fun hz => ⟨0, hz, rfl⟩
  | step hgo _ _ ih =>
    rw [sourceLength?_of_goSource hgo, sourceLength?_eq_map]
    obtain ⟨hd, hn⟩ | ⟨n, hn, rfl⟩ := ih
    · exact .inl ⟨hd, by rw [hn]; rfl⟩
    · exact .inr ⟨1 + n, by rw [hn]; rfl, by rw [Nat.add_comm, skip_succ]⟩

theorem walk_skipWhile (p : Char → Bool) (c : Cursor) : Walk (goWhile p) () c () (c.skipWhile p) := by
  obtain ⟨_, d, h⟩ := exists_walk (goWhile p) (fun x c he => by simp [goWhile, current, he]) () c
  rw [h.skipWhile_eq]
  exact h

theorem walk_upTo (stop : List Char → Bool) (c : Cursor) : Walk (goUntil stop) () c () (c.upTo stop).2 := by
  obtain ⟨_, d, h⟩ := exists_walk (goUntil stop) (fun x c he => by simp [goUntil, he]) () c
  rw [h.upTo_eq]
  exact h

/-- The source is what the walk passes over, and the cursor goes on behind the parenthesis; where there
is none, the walk ends with the script and there is no source. -/
theorem walk_source (c : Cursor) :
    ∃ y d, Walk goSource (0, none) c y d ∧
      ((d.atEnd = true ∧ source? c = none) ∨
        d.current = some ')' ∧ ∃ text, source? c = some (text, d.next) ∧ text.toList ++ d.rest = c.rest) := by
  obtain ⟨y, d, h⟩ := exists_walk goSource (fun x c he => by simp [goSource, current, he]) (0, none) c
  refine ⟨y, d, h, h.sourceLength?_eq.imp (fun ⟨hd, hn⟩ => ⟨hd, ?_⟩) fun ⟨n, hn, hd⟩ => ⟨?_, ?_⟩⟩
  · rw [source?, hn]; rfl
  · rw [hd, current, rest_skip]
    exact (balanced_of_sourceLength? hn).2
  · refine ⟨_, by rw [source?, hn, hd, ← skip_succ_eq_next]; rfl, ?_⟩
    rw [String.toList_ofList, hd, rest_skip, List.take_append_drop]

end Cursor

end BatchScript
