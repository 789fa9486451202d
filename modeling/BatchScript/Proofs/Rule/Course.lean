import BatchScript.Proofs.Rule.Alike
import BatchScript.Proofs.Rule.Cases

/-!
# The course of a run

What a run does to the state, however it ends. The reader moves forward from where it
began, as many blocks are open as before, and the record takes in what was wanted
at places the reader has been (`State.Follows`). As many bodies are open as before, too; but
where a body is nested too deep the reader stays before it, and the count stays
raised above the limit (`Course`).

* `Alike.orderly`: a rule composed of a rule whose runs take this course takes it as well;
* `Orderly.insideBody`, `Orderly.insideBlock`: so do bodies and blocks;
* `Gains.bind`, `Gains.after`: a rule with a part that reads something reads something.
-/

namespace BatchScript

/-- The record after several attempts, each at a place of its own. -/
def Attempts.noteAll (a : Attempts) (notes : List (Cursor × Expectation)) : Attempts :=
  notes.foldl (fun a note => a.note note.1.position note.2) a

/-- The reader has moved on from `s` to `t`, or has moved on and come back. -/
structure State.Follows (s t : State) : Prop where
  reaches : s.cursor.Reaches t.cursor
  blockDepth : t.blockDepth = s.blockDepth
  /-- The attempts in between, none of which wanted a statement as such. -/
  attempts : ∃ notes : List (Cursor × Expectation),
    (∀ note ∈ notes, s.cursor.Reaches note.1 ∧ note.2 ≠ .statement) ∧
      t.attempts = s.attempts.noteAll notes

namespace State.Follows

variable {s t u : State}

@[refl] theorem refl (s : State) : s.Follows s :=
  ⟨.refl _, rfl, [], by simp, rfl⟩

theorem trans (h : s.Follows t) (k : t.Follows u) : s.Follows u := by
  obtain ⟨before, hb, ht⟩ := h.attempts
  obtain ⟨behind, hu, hut⟩ := k.attempts
  refine ⟨h.reaches.trans k.reaches, k.blockDepth.trans h.blockDepth, before ++ behind, ?_, ?_⟩
  · intro note hn
    rcases List.mem_append.mp hn with hn | hn
    · exact hb note hn
    · exact ⟨h.reaches.trans (hu note hn).1, (hu note hn).2⟩
  · rw [hut, ht, Attempts.noteAll, Attempts.noteAll, Attempts.noteAll, List.foldl_append]

/-- The reader goes back to where it began. -/
theorem rewind (h : s.Follows t) : s.Follows { t with cursor := s.cursor } :=
  ⟨.refl _, h.blockDepth, h.attempts⟩

theorem skip (s : State) (n : Nat) : s.Follows { s with cursor := s.cursor.skip n } :=
  ⟨Cursor.reaches_skip _ n, rfl, [], by simp, rfl⟩

theorem note (s : State) {wanted : Expectation} (h : wanted ≠ .statement) :
    s.Follows { s with attempts := s.attempts.note s.cursor.position wanted } :=
  ⟨.refl _, rfl, [(s.cursor, wanted)], by simp [h], rfl⟩

end State.Follows

/-- A run from `s` ends in `t` with `o`, inside at most `limit` bodies. -/
structure Course {α : Type} (limit : Nat) (s : State) (o : Outcome α) (t : State) : Prop where
  follows : s.Follows t
  depth : (∀ p, o ≠ .tooDeep p) → t.depth = s.depth
  tooDeep {p : Position} : o = .tooDeep p → p = t.cursor.position ∧ t.depth = max limit s.depth + 1

namespace Course

variable {α β : Type} {limit : Nat} {s t u : State} {o : Outcome α}

theorem of_follows (h : s.Follows t) (hd : t.depth = s.depth) (ho : ∀ p, o ≠ .tooDeep p) :
    Course limit s o t :=
  ⟨h, fun _ => hd, fun e => absurd e (ho _)⟩

/-- A run behind a run that did not end because of the limit. -/
theorem behind {a : Outcome β} (h : Course limit s a t) (ha : ∀ p, a ≠ .tooDeep p)
    (k : Course limit t o u) : Course limit s o u := by
  have hd := h.depth ha
  exact ⟨h.follows.trans k.follows, fun ho => (k.depth ho).trans hd, fun ho => hd ▸ k.tooDeep ho⟩

/-- Where the reading ends because of the limit, it does not matter what was to be read. -/
theorem of_tooDeep {p : Position} (h : Course limit s (.tooDeep p : Outcome β) t) :
    Course limit s (.tooDeep p : Outcome α) t :=
  ⟨h.follows, fun ho => absurd rfl (ho p), fun e => h.tooDeep (by cases e; rfl)⟩

end Course

namespace Rule

variable {α β : Type} {limit : Nat}

/-- Every run of the rule takes its course. -/
def Orderly (limit : Nat) (r : Rule α) : Prop :=
  ∀ ⦃s t : State⦄ ⦃o : Outcome α⦄, r s = (o, t) → Course limit s o t

namespace Orderly

/-! ## Sequence and choice -/

theorem pure (a : α) : Orderly limit (Pure.pure a : Rule α) := by
  intro s t o e
  cases e; exact .of_follows (.refl s) rfl nofun

theorem bind {r : Rule α} {f : α → Rule β} (h₁ : Orderly limit r) (h₂ : ∀ a, Orderly limit (f a)) :
    Orderly limit (r >>= f) := by
  intro s t o e
  obtain ⟨a, u, hr, e⟩ | ⟨hr, rfl⟩ | ⟨p, hr, rfl⟩ := bind_cases e
  · exact (h₁ hr).behind nofun (h₂ a e)
  · exact (h₁ hr).behind nofun (.of_follows (.refl _) rfl nofun)
  · exact (h₁ hr).of_tooDeep

theorem orElse {r q : Rule α} (h₁ : Orderly limit r) (h₂ : Orderly limit q) : Orderly limit (r <|> q) := by
  intro s t o e
  obtain ⟨u, hr, e⟩ | ⟨hr, -⟩ := orElse_cases e
  · exact (h₁ hr).behind nofun (h₂ e)
  · exact h₁ hr

theorem attempt {r : Rule α} (h : Orderly limit r) : Orderly limit (Rule.attempt r) := by
  intro s t o e
  obtain ⟨u, hr, rfl, rfl⟩ | ⟨hr, -⟩ := attempt_cases e
  · exact .of_follows (h hr).follows.rewind ((h hr).depth nofun) nofun
  · exact h hr

/-! ## Reading at the cursor -/

theorem miss : Orderly limit (Rule.miss : Rule α) := by
  intro s t o e
  cases e; exact .of_follows (.refl s) rfl nofun

theorem fail {wanted : Expectation} (h : wanted ≠ .statement) : Orderly limit (Rule.fail wanted : Rule α) := by
  intro s t o e
  cases e; exact .of_follows (.note s h) rfl nofun

theorem inBlock : Orderly limit Rule.inBlock := by
  intro s t o e
  cases e; exact .of_follows (.refl s) rfl nofun

theorem move {f : Cursor → Cursor} (hf : Cursor.LocalMove Eq f) : Orderly limit (Rule.move f) := by
  intro s t o e
  obtain ⟨n, -, hn, -⟩ := hf (c := s.cursor) rfl
  cases e
  rw [hn]; exact .of_follows (.skip s n) rfl nofun

theorem scan {f : Cursor → α × Cursor} (hf : Cursor.LocalScan Eq f) : Orderly limit (Rule.scan f) := by
  intro s t o e
  obtain ⟨a, n, -, hn, -⟩ := hf (c := s.cursor) rfl
  unfold Rule.scan at e
  rw [hn] at e
  cases e; exact .of_follows (.skip s n) rfl nofun

theorem scan? {f : Cursor → Option (α × Cursor)} (hf : Cursor.LocalScan? Eq f) : Orderly limit (Rule.scan? f) := by
  intro s t o e
  obtain ⟨hn, -⟩ | ⟨a, n, -, hn, -⟩ := hf (c := s.cursor) rfl
  · rw [scan?_of_none hn] at e
    cases e; exact .of_follows (.refl s) rfl nofun
  · rw [scan?_of_some hn] at e
    cases e; exact .of_follows (.skip s n) rfl nofun

theorem holds (p : Cursor → Bool) : Orderly limit (Rule.holds p) := by
  intro s t o e
  obtain ⟨rfl, ⟨-, rfl⟩ | ⟨-, rfl⟩⟩ := holds_cases e
  · exact .of_follows (.refl _) rfl nofun
  · exact .of_follows (.refl _) rfl nofun

/-! ## Repetition and nesting -/

theorem foldMany {r : Rule α} (h : Orderly limit r) (f : β → α → β) (b : β) :
    Orderly limit (Rule.foldMany f r b) := by
  intro s t o e
  induction loops_of_foldMany e with
  | next hr _ hl ih => exact (h hr).behind nofun (ih hl.foldMany_eq)
  | last hr _ => exact (h hr).behind nofun (.of_follows (.refl _) rfl nofun)
  | ended hr => exact (h hr).behind nofun (.of_follows (.refl _) rfl nofun)
  | tooDeep hr => exact (h hr).of_tooDeep

/-- A body: the count is raised for it, and put back unless the reading ends in it. -/
theorem insideBody {r : Rule α} (h : Orderly limit r) : Orderly limit (Rule.insideBody limit r) := by
  intro s t o e
  obtain ⟨hlt, rfl, rfl⟩ | ⟨hle, u, hr, ⟨⟨p, rfl⟩, rfl⟩ | ⟨ho, rfl⟩⟩ := insideBody_cases e
  · refine ⟨⟨.refl _, rfl, [], by simp, rfl⟩, fun ho => absurd rfl (ho _), fun ho => ?_⟩
    cases ho; exact ⟨rfl, show s.depth + 1 = max limit s.depth + 1 by omega⟩
  · obtain ⟨hf, -, hp⟩ := h hr
    refine ⟨⟨hf.reaches, hf.blockDepth, hf.attempts⟩, fun ho => absurd rfl (ho _), fun ho => ?_⟩
    obtain ⟨hp, hd⟩ := hp ho
    exact ⟨hp, hd.trans (show max limit (s.depth + 1) + 1 = max limit s.depth + 1 by omega)⟩
  · obtain ⟨hf, hd, -⟩ := h hr
    exact .of_follows ⟨hf.reaches, hf.blockDepth, hf.attempts⟩ (congrArg (· - 1) (hd ho)) ho

/-- A block: the count is put back however the reading of it ends. -/
theorem insideBlock {r : Rule α} (h : Orderly limit r) : Orderly limit (Rule.insideBlock r) := by
  intro s t o e
  obtain ⟨u, hr, rfl⟩ := insideBlock_cases e
  obtain ⟨hf, hd, hp⟩ := h hr
  exact ⟨⟨hf.reaches, congrArg (· - 1) hf.blockDepth, hf.attempts⟩, hd, hp⟩

end Orderly

/-- A rule composed of a rule whose runs take their course. -/
theorem Alike.orderly {q : Rule β} {r : Rule α} (h : Alike Eq q q r r) (hq : Orderly limit q) : Orderly limit r := by
  have left : ∀ {γ : Type} {r r' : Rule γ}, Alike Eq q q r r' → Orderly limit r := by
    intro γ r r' h
    induction h with
    | given => exact hq
    | pure a => exact .pure a
    | bind _ _ ihr ihf => exact .bind ihr ihf
    | orElse _ _ ihr ihp => exact .orElse ihr ihp
    | attempt _ ih => exact .attempt ih
    | miss => exact .miss
    | fail hw => exact .fail hw
    | inBlock => exact .inBlock
    | move hf => exact .move hf
    | scan hf => exact .scan hf
    | scan? hf => exact .scan? hf
    | holds => exact .holds _
    | foldMany f b _ ih => exact .foldMany ih f b
  exact left h

theorem Flat.orderly {r : Rule α} (h : Flat Eq r) (limit : Nat) : Orderly limit r :=
  Alike.orderly h .miss

/-- A rule without bodies ends because of no limit. -/
theorem Flat.ne_tooDeep {r : Rule α} (h : Flat Eq r) {s t : State} {p : Position} : r s ≠ (.tooDeep p, t) := by
  intro e
  have h₁ := (h.orderly s.depth e).tooDeep rfl
  have h₂ := (h.orderly (s.depth + 1) e).tooDeep rfl
  omega

namespace Orderly

variable {r : Rule α} {s t : State}

theorem left_le {o : Outcome α} (h : Orderly limit r) (e : r s = (o, t)) : t.left ≤ s.left :=
  (h e).follows.reaches.left_le

end Orderly

/-! ## Rules that read something -/

/-- A rule that reads something unless it does not match. -/
def Gains (r : Rule α) : Prop :=
  ∀ ⦃s t : State⦄ ⦃o : Outcome α⦄, r s = (o, t) → o ≠ .unmatched → t.left < s.left

namespace Gains

theorem step? {f : Cursor → Option Cursor} (hf : ∀ {c d}, f c = some d → d.left < c.left) (wanted : Expectation) :
    Gains (Rule.step? f <|> Rule.fail wanted) := by
  intro s t o e ho
  obtain ⟨u, -, e⟩ | ⟨e, -⟩ := orElse_cases e
  · cases e; exact absurd rfl ho
  · obtain ⟨_, c, hc, -, rfl⟩ | ⟨-, rfl, -⟩ := scan?_cases e
    · obtain ⟨d, hd, hcd⟩ := Option.map_eq_some_iff.mp hc
      cases hcd; exact hf hd
    · exact absurd rfl ho

/-- A rule that reads something first. -/
theorem bind {r : Rule α} {f : α → Rule β} (h : Gains r) (hf : ∀ a, Orderly limit (f a)) : Gains (r >>= f) := by
  intro s t o e ho
  obtain ⟨a, u, hr, e⟩ | ⟨-, rfl⟩ | ⟨p, hr, rfl⟩ := bind_cases e
  · exact Nat.lt_of_le_of_lt ((hf a).left_le e) (h hr nofun)
  · exact absurd rfl ho
  · exact h hr nofun

/-- A rule that reads something later. -/
theorem after {r : Rule α} {f : α → Rule β} (hr : Flat Eq r) (h : ∀ a, Gains (f a)) : Gains (r >>= f) := by
  intro s t o e ho
  obtain ⟨a, u, hu, e⟩ | ⟨-, rfl⟩ | ⟨p, hu, -⟩ := bind_cases e
  · exact Nat.lt_of_lt_of_le (h a e ho) ((hr.orderly 0).left_le hu)
  · exact absurd rfl ho
  · exact absurd hu hr.ne_tooDeep

theorem orElse {r q : Rule α} (hr : Orderly limit r) (h₁ : Gains r) (h₂ : Gains q) : Gains (r <|> q) := by
  intro s t o e ho
  obtain ⟨u, hu, e⟩ | ⟨hu, -⟩ := orElse_cases e
  · exact Nat.lt_of_lt_of_le (h₂ e ho) (hr.left_le hu)
  · exact h₁ hu ho

theorem attempt {r : Rule α} (h : Gains r) : Gains (Rule.attempt r) := by
  intro s t o e ho
  exact h ((attempt_eq_iff ho).mp e) ho

end Gains

end Rule

end BatchScript
