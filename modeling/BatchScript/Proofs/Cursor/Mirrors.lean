import BatchScript.Cursor
import BatchScript.Grammar.Leaf

/-!
# Scans that mirror each other

Two scans mirror each other if from related cursors the second one finds `F a` where the first one
finds `a`, and both lead to related cursors again (`Cursor.Mirrors`, `Cursor.StepMirrors`). A scan
that takes a fixed text does so if the test for the text comes out the same at related cursors
(`stepMirrors_skip`), and a scan that takes a run of characters if the runs do (`mirrors_word?`,
`mirrors_identifier?`, `mirrors_stream?`).
-/

namespace BatchScript.Cursor

open Text

variable {α β : Type}

/-- Two scans from related cursors find nothing, or `a` and `F a` and lead to related cursors. -/
def Mirrors (C : Cursor → Cursor → Prop) (F : α → β) (f : Cursor → Option (α × Cursor))
    (g : Cursor → Option (β × Cursor)) : Prop :=
  ∀ ⦃c d : Cursor⦄, C c d → (f c = none ∧ g d = none) ∨
    ∃ a c' d', f c = some (a, c') ∧ g d = some (F a, d') ∧ C c' d'

/-- Two steps from related cursors lead nowhere, or to related cursors. -/
def StepMirrors (C : Cursor → Cursor → Prop) (f g : Cursor → Option Cursor) : Prop :=
  ∀ ⦃c d : Cursor⦄, C c d → (f c = none ∧ g d = none) ∨ ∃ c' d', f c = some c' ∧ g d = some d' ∧ C c' d'

variable {C : Cursor → Cursor → Prop}

theorem StepMirrors.scan {f g : Cursor → Option Cursor} (h : StepMirrors C f g) :
    Mirrors C (id : Unit → Unit) (fun c => (f c).map fun d => ((), d)) fun c => (g c).map fun d => ((), d) := by
  intro c d hc
  obtain ⟨hf, hg⟩ | ⟨c', d', hf, hg, k⟩ := h hc
  · exact .inl ⟨by simp only [hf, Option.map_none], by simp only [hg, Option.map_none]⟩
  · exact .inr ⟨(), c', d', by simp only [hf, Option.map_some], by simp only [hg, Option.map_some], k⟩

theorem StepMirrors.getD {f g : Cursor → Option Cursor} (h : StepMirrors C f g) {c d : Cursor} (hc : C c d) :
    C ((f c).getD c) ((g d).getD d) := by
  obtain ⟨hf, hg⟩ | ⟨c', d', hf, hg, k⟩ := h hc
  · rw [hf, hg]; exact hc
  · rw [hf, hg]; exact k

/-! ## Fixed texts -/

/-- A step over some characters, where a test says so. -/
theorem stepMirrors_skip {p : Cursor → Prop} [DecidablePred p] {n : Nat} (hp : ∀ ⦃c d⦄, C c d → (p d ↔ p c))
    (hs : ∀ ⦃c d⦄, C c d → p c → C (c.skip n) (d.skip n)) :
    StepMirrors C (fun c => if p c then some (c.skip n) else none) fun c => if p c then some (c.skip n) else none := by
  intro c d h
  simp only [hp h]
  by_cases hc : p c
  · exact .inr ⟨_, _, if_pos hc, if_pos hc, hs h hc⟩
  · exact .inl ⟨if_neg hc, if_neg hc⟩

/-- The first of some choices that comes next, none of which changes. -/
theorem mirrors_eatFirst? {F : α → α} {spelling : α → String} {choices : List α}
    (h : ∀ a ∈ choices, StepMirrors C (·.eatText? (spelling a)) (·.eatText? (spelling a)))
    (hF : ∀ a ∈ choices, F a = a) :
    Mirrors C F (·.eatFirst? spelling choices) (·.eatFirst? spelling choices) := by
  intro c d hc
  induction choices with
  | nil => exact .inl ⟨rfl, rfl⟩
  | cons a others ih =>
    simp only [eatFirst?, List.findSome?_cons]
    obtain ⟨hf, hg⟩ | ⟨c', d', hf, hg, k⟩ := h a List.mem_cons_self hc
    · simp only [hf, hg, Option.map_none]
      exact ih (fun b hb => h b (List.mem_cons_of_mem a hb)) fun b hb => hF b (List.mem_cons_of_mem a hb)
    · simp only [hf, hg, Option.map_some]
      exact .inr ⟨a, c', d', rfl, by rw [hF a List.mem_cons_self], k⟩

/-! ## Runs of characters -/

variable {F : String → String}

/-- One or more characters, which need not be the same ones for both. -/
theorem mirrors_word? {p q : Char → Bool} (hl : ∀ ⦃c d⦄, C c d → (d.runLength q = 0 ↔ c.runLength p = 0))
    (hs : ∀ ⦃c d⦄, C c d → (d.span q).1 = F (c.span p).1 ∧ C (c.span p).2 (d.span q).2) :
    Mirrors C F (·.word? p) (·.word? q) := by
  intro c d h
  obtain ⟨hv, hc⟩ := hs h
  simp only [word?, hl h]
  by_cases hn : c.runLength p = 0
  · exact .inl ⟨if_pos hn, if_pos hn⟩
  · exact .inr ⟨_, _, (d.span q).2, if_neg hn, (if_neg hn).trans (congrArg some (Prod.ext hv rfl)), hc⟩

theorem mirrors_identifier? (hl : ∀ ⦃c d⦄, C c d → d.current.any isLetter = c.current.any isLetter)
    (hs : ∀ ⦃c d⦄, C c d →
      (d.span isNameChar).1 = F (c.span isNameChar).1 ∧ C (c.span isNameChar).2 (d.span isNameChar).2) :
    Mirrors C F identifier? identifier? := by
  intro c d h
  obtain ⟨hv, hc⟩ := hs h
  rw [identifier?, identifier?, hl h]
  cases c.current.any isLetter with
  | true => exact .inr ⟨_, _, (d.span isNameChar).2, rfl, congrArg some (Prod.ext hv rfl), hc⟩
  | false => exact .inl ⟨rfl, rfl⟩

/-- The number of a stream, which may end where the number of the other one may end. -/
theorem mirrors_stream? {b b' : Bool} (hw : Mirrors C F (·.word? Char.isDigit) (·.word? Char.isDigit))
    (he : ∀ ⦃c d⦄, C c d → d.current.all (Grammar.endsStream b') = c.current.all (Grammar.endsStream b)) :
    Mirrors C F (Grammar.stream? b) (Grammar.stream? b') := by
  intro c d h
  have hw := hw h
  unfold Grammar.stream?
  simp only at hw
  obtain ⟨hc, hd⟩ | ⟨a, c', d', hc, hd, k⟩ := hw
  · exact .inl ⟨by rw [hc]; rfl, by rw [hd]; rfl⟩
  · rw [hc, hd, Option.filter_some, Option.filter_some, he k]
    cases c'.current.all (Grammar.endsStream b) with
    | true => exact .inr ⟨_, _, _, rfl, rfl, k⟩
    | false => exact .inl ⟨rfl, rfl⟩

end BatchScript.Cursor
