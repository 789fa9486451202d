import Mathlib.Data.List.MinMax
import BatchScript.Proofs.Rule.Course

/-!
# What a run notes

A rule that fails notes where it failed and what it wanted there; another one is tried, and may fail
and note something in its turn. `Rule.Notes r s notes` says that `notes` is all that `r` notes on its run
from `s`, in the order in which it is noted, also where what was read in between is given up again.

* `Notes.leads`: a run notes something only at places in front of it, and the record behind the run is
  the one before it after these notes;
* `Alike.noted`: a rule composed of a rule whose runs have their notes is such a rule as well;
* `Attempts.noteAll_eq_summary`: of all that is noted in a text the record keeps the furthest place and what
  was wanted there, each thing once and in the order of the notes. Here one more note changes the record as
  it changes this summary (`Attempts.summary_concat`); the notes may go back and forth in the text.
-/

namespace BatchScript

/-- A place, and what was wanted there. -/
abbrev Note : Type :=
  Cursor × Expectation

theorem Attempts.noteAll_append (a : Attempts) (before behind : List Note) :
    a.noteAll (before ++ behind) = (a.noteAll before).noteAll behind :=
  List.foldl_append

namespace Rule

/-- From `s`, the rule notes `notes`. The cursor is never moved but forward, or back to where it was. -/
inductive Notes : {α : Type} → Rule α → State → List Note → Prop where
  | fail {α : Type} (wanted : Expectation) (s : State) : Notes (Rule.fail wanted : Rule α) s [(s.cursor, wanted)]
  | miss {α : Type} (s : State) : Notes (Rule.miss : Rule α) s []
  | pure {α : Type} (a : α) (s : State) : Notes (Pure.pure a) s []
  | inBlock (s : State) : Notes Rule.inBlock s []
  | holds (p : Cursor → Bool) (s : State) : Notes (Rule.holds p) s []
  | move {f : Cursor → Cursor} (hf : ∀ c : Cursor, c.Reaches (f c)) (s : State) : Notes (Rule.move f) s []
  | scan {α : Type} {f : Cursor → α × Cursor} (hf : ∀ c : Cursor, c.Reaches (f c).2) (s : State) :
      Notes (Rule.scan f) s []
  | scan? {α : Type} {f : Cursor → Option (α × Cursor)} (hf : ∀ c : Cursor, ∀ found ∈ f c, c.Reaches found.2)
      (s : State) : Notes (Rule.scan? f) s []
  | bind_matched {α β : Type} {r : Rule α} {f : α → Rule β} {s t : State} {a : α}
      {before behind : List Note} :
      Notes r s before → r s = (.matched a, t) → Notes (f a) t behind → Notes (r >>= f) s (before ++ behind)
  | bind_stopped {α β : Type} {r : Rule α} {f : α → Rule β} {s : State} {notes : List Note} :
      Notes r s notes → (∀ a t, r s ≠ (.matched a, t)) → Notes (r >>= f) s notes
  | orElse_first {α : Type} {r q : Rule α} {s : State} {notes : List Note} :
      Notes r s notes → (∀ t, r s ≠ (.unmatched, t)) → Notes (r <|> q) s notes
  | orElse_second {α : Type} {r q : Rule α} {s t : State} {before behind : List Note} :
      Notes r s before → r s = (.unmatched, t) → Notes q t behind → Notes (r <|> q) s (before ++ behind)
  -- What was read is given up, what was noted is not.
  | attempt {α : Type} {r : Rule α} {s : State} {notes : List Note} :
      Notes r s notes → Notes (Rule.attempt r) s notes
  | foldMany_next {α β : Type} {f : β → α → β} {r : Rule α} {b : β} {s t : State} {a : α}
      {before behind : List Note} :
      Notes r s before → r s = (.matched a, t) → t.left < s.left → Notes (Rule.foldMany f r (f b a)) t behind →
      Notes (Rule.foldMany f r b) s (before ++ behind)
  | foldMany_last {α β : Type} {f : β → α → β} {r : Rule α} {b : β} {s : State} {notes : List Note} :
      Notes r s notes → (∀ a t, r s = (.matched a, t) → s.left ≤ t.left) → Notes (Rule.foldMany f r b) s notes
  | insideBody_tooDeep {α : Type} {limit : Nat} {r : Rule α} {s : State} :
      limit < s.depth + 1 → Notes (Rule.insideBody limit r) s []
  | insideBody {α : Type} {limit : Nat} {r : Rule α} {s : State} {notes : List Note} :
      s.depth + 1 ≤ limit → Notes r { s with depth := s.depth + 1 } notes → Notes (Rule.insideBody limit r) s notes
  | insideBlock {α : Type} {r : Rule α} {s : State} {notes : List Note} :
      Notes r { s with blockDepth := s.blockDepth + 1 } notes → Notes (Rule.insideBlock r) s notes

end Rule

/-! ## What notes do to the record -/

/-- A run from `s` that leads to `t` and notes `notes` on its way. -/
structure State.Leads (s : State) (notes : List Note) (t : State) : Prop where
  reaches : s.cursor.Reaches t.cursor
  places : ∀ note ∈ notes, s.cursor.Reaches note.1
  attempts : t.attempts = s.attempts.noteAll notes

namespace State.Leads

variable {s t u : State} {notes before behind : List Note}

theorem quiet {c : Cursor} (h : s.cursor.Reaches c) : s.Leads [] { s with cursor := c } :=
  ⟨h, by simp, rfl⟩

theorem refl (s : State) : s.Leads [] s :=
  quiet (.refl _)

theorem trans (h : s.Leads before t) (k : t.Leads behind u) : s.Leads (before ++ behind) u := by
  refine ⟨h.reaches.trans k.reaches, fun note hn => ?_, ?_⟩
  · obtain hn | hn := List.mem_append.mp hn
    · exact h.places note hn
    · exact h.reaches.trans (k.places note hn)
  · rw [k.attempts, h.attempts, Attempts.noteAll_append]

/-- The reader goes back to where it began. -/
theorem rewind (h : s.Leads notes t) : s.Leads notes { t with cursor := s.cursor } :=
  ⟨.refl _, h.places, h.attempts⟩

end State.Leads

namespace Rule

variable {α β : Type} {r : Rule α} {s t : State} {notes : List Note}

/-- What a run notes is all that it changes in the record. -/
theorem Notes.leads (h : Notes r s notes) : ∀ {o : Outcome α} {t : State}, r s = (o, t) → s.Leads notes t := by
  induction h with
  | fail wanted s => intro o t e; cases e; exact ⟨.refl _, by simp, rfl⟩
  | miss s => intro o t e; cases e; exact .refl s
  | pure a s => intro o t e; cases e; exact .refl s
  | inBlock s => intro o t e; cases e; exact .refl s
  | holds p s =>
    intro o t e
    obtain ⟨rfl, -⟩ := holds_cases e
    exact .refl _
  | move hf s => intro o t e; cases e; exact .quiet (hf _)
  | scan hf s => intro o t e; cases e; exact .quiet (hf _)
  | scan? hf s =>
    intro o t e
    obtain ⟨a, c, hc, -, rfl⟩ | ⟨-, -, rfl⟩ := scan?_cases e
    · exact .quiet (hf _ _ hc)
    · exact .refl _
  | bind_matched _ hr _ ih ik =>
    intro o t e
    rw [bind_of_matched hr] at e
    exact (ih hr).trans (ik e)
  | bind_stopped _ hstop ih =>
    intro o t e
    obtain ⟨a, u, hr, -⟩ | ⟨hr, -⟩ | ⟨p, hr, -⟩ := bind_cases e
    · exact absurd hr (hstop a u)
    · exact ih hr
    · exact ih hr
  | orElse_first _ hfirst ih =>
    intro o t e
    obtain ⟨u, hr, -⟩ | ⟨hr, -⟩ := orElse_cases e
    · exact absurd hr (hfirst u)
    · exact ih hr
  | orElse_second _ hr _ ih ik =>
    intro o t e
    rw [orElse_of_unmatched hr] at e
    exact (ih hr).trans (ik e)
  | attempt _ ih =>
    intro o t e
    obtain ⟨u, hr, -, rfl⟩ | ⟨hr, -⟩ := attempt_cases e
    · exact (ih hr).rewind
    · exact ih hr
  | foldMany_next _ hr hlt _ ih ik =>
    intro o t e
    rw [foldMany_of_lt hr hlt] at e
    exact (ih hr).trans (ik e)
  | foldMany_last _ hlast ih =>
    intro o t e
    cases loops_of_foldMany e with
    | next hr hlt _ => exact absurd hlt (Nat.not_lt.mpr (hlast _ _ hr))
    | last hr _ => exact ih hr
    | ended hr => exact ih hr
    | tooDeep hr => exact ih hr
  | insideBody_tooDeep hlt =>
    intro o t e
    obtain ⟨-, -, rfl⟩ | ⟨hle, -⟩ := insideBody_cases e
    · exact ⟨.refl _, by simp, rfl⟩
    · omega
  | insideBody hle _ ih =>
    intro o t e
    obtain ⟨hlt, -⟩ | ⟨-, u, hr, ⟨-, rfl⟩ | ⟨-, rfl⟩⟩ := insideBody_cases e
    · omega
    · exact ⟨(ih hr).reaches, (ih hr).places, (ih hr).attempts⟩
    · exact ⟨(ih hr).reaches, (ih hr).places, (ih hr).attempts⟩
  | insideBlock _ ih =>
    intro o t e
    obtain ⟨u, hr, rfl⟩ := insideBlock_cases e
    exact ⟨(ih hr).reaches, (ih hr).places, (ih hr).attempts⟩

theorem Notes.left_le {o : Outcome α} (h : Notes r s notes) (e : r s = (o, t)) : t.left ≤ s.left :=
  (h.leads e).reaches.left_le

/-! ## Every run has its notes -/

end Rule

namespace Cursor

variable {α : Type}

theorem LocalMove.reaches {f : Cursor → Cursor} (hf : LocalMove Eq f) (c : Cursor) : c.Reaches (f c) := by
  obtain ⟨n, -, hn, -⟩ := hf (c := c) rfl
  exact ⟨n, hn⟩

theorem LocalScan.reaches {f : Cursor → α × Cursor} (hf : LocalScan Eq f) (c : Cursor) : c.Reaches (f c).2 := by
  obtain ⟨a, n, -, hn, -⟩ := hf (c := c) rfl
  exact ⟨n, by rw [hn]⟩

theorem LocalScan?.reaches {f : Cursor → Option (α × Cursor)} (hf : LocalScan? Eq f) (c : Cursor) :
    ∀ found ∈ f c, c.Reaches found.2 := by
  intro found hfound
  obtain ⟨hn, -⟩ | ⟨a, n, -, hn, -⟩ := hf (c := c) rfl
  · rw [hn] at hfound; cases hfound
  · rw [hn] at hfound; cases hfound
    exact ⟨n, rfl⟩

end Cursor

namespace Rule

variable {α β : Type} {r : Rule α}

/-- Each run that begins with less than `n` characters to read has its notes. -/
def Noted (n : Nat) (r : Rule α) : Prop :=
  ∀ s : State, s.left < n → ∃ notes, Notes r s notes

namespace Noted

variable {n : Nat}

/-- What is read first tells how much is left for what is read then. -/
theorem bind_of_left {m : Nat} {f : α → Rule β} (hr : Noted m r)
    (hleft : ∀ {s t : State} {a : α}, r s = (.matched a, t) → s.left < m → t.left < n) (hf : ∀ a, Noted n (f a)) :
    Noted m (r >>= f) := by
  intro s hs
  obtain ⟨before, h⟩ := hr s hs
  match e : r s with
  | (.matched a, t) =>
    obtain ⟨behind, k⟩ := hf a t (hleft e hs)
    exact ⟨_, .bind_matched h e k⟩
  | (.unmatched, t) => exact ⟨_, .bind_stopped h (by simp [e])⟩
  | (.tooDeep p, t) => exact ⟨_, .bind_stopped h (by simp [e])⟩

theorem bind {f : α → Rule β} (hr : Noted n r) (hf : ∀ a, Noted n (f a)) : Noted n (r >>= f) := by
  refine .bind_of_left hr (fun e hs => ?_) hf
  obtain ⟨notes, h⟩ := hr _ hs
  exact Nat.lt_of_le_of_lt (h.left_le e) hs

theorem orElse {q : Rule α} (hr : Noted n r) (hq : Noted n q) : Noted n (r <|> q) := by
  intro s hs
  obtain ⟨before, h⟩ := hr s hs
  match e : r s with
  | (.matched a, t) => exact ⟨_, .orElse_first h (by simp [e])⟩
  | (.unmatched, t) =>
    obtain ⟨behind, k⟩ := hq t (Nat.lt_of_le_of_lt (h.left_le e) hs)
    exact ⟨_, .orElse_second h e k⟩
  | (.tooDeep p, t) => exact ⟨_, .orElse_first h (by simp [e])⟩

theorem attempt (hr : Noted n r) : Noted n (Rule.attempt r) := by
  intro s hs
  obtain ⟨notes, h⟩ := hr s hs
  exact ⟨notes, .attempt h⟩

theorem foldMany (hr : Noted n r) (f : β → α → β) (b : β) : Noted n (Rule.foldMany f r b) := by
  intro s
  -- A round that leaves no less to read is the last one.
  induction hl : s.left using Nat.strongRecOn generalizing s b with
  | _ left ih =>
    subst hl
    intro hs
    obtain ⟨before, h⟩ := hr s hs
    by_cases hgo : ∃ a t, r s = (.matched a, t) ∧ t.left < s.left
    · obtain ⟨a, t, e, hlt⟩ := hgo
      obtain ⟨behind, k⟩ := ih _ hlt (f b a) t rfl (Nat.lt_trans hlt hs)
      exact ⟨_, .foldMany_next h e hlt k⟩
    · exact ⟨_, .foldMany_last h fun a t e => Nat.le_of_not_lt fun hlt => hgo ⟨a, t, e, hlt⟩⟩

theorem insideBody {limit : Nat} (hr : Noted n r) : Noted n (Rule.insideBody limit r) := by
  intro s hs
  rcases Nat.lt_or_ge limit (s.depth + 1) with hlt | hle
  · exact ⟨_, .insideBody_tooDeep hlt⟩
  · obtain ⟨notes, h⟩ := hr { s with depth := s.depth + 1 } hs
    exact ⟨_, .insideBody hle h⟩

theorem insideBlock (hr : Noted n r) : Noted n (Rule.insideBlock r) := by
  intro s hs
  obtain ⟨notes, h⟩ := hr { s with blockDepth := s.blockDepth + 1 } hs
  exact ⟨_, .insideBlock h⟩

end Noted

/-- A rule composed of a rule whose runs have their notes. -/
theorem Alike.noted {n : Nat} {q : Rule β} (h : Alike Eq q q r r) (hq : Noted n q) : Noted n r := by
  have left : ∀ {γ : Type} {r r' : Rule γ}, Alike Eq q q r r' → Noted n r := by
    intro γ r r' h
    induction h with
    | given => exact hq
    | pure a => exact fun s _ => ⟨_, .pure a s⟩
    | bind _ _ ihr ihf => exact .bind ihr ihf
    | orElse _ _ ihr ihp => exact .orElse ihr ihp
    | attempt _ ih => exact .attempt ih
    | miss => exact fun s _ => ⟨_, .miss s⟩
    | fail _ => exact fun s _ => ⟨_, .fail _ s⟩
    | inBlock => exact fun s _ => ⟨_, .inBlock s⟩
    | move hf => exact fun s _ => ⟨_, .move hf.reaches s⟩
    | scan hf => exact fun s _ => ⟨_, .scan hf.reaches s⟩
    | scan? hf => exact fun s _ => ⟨_, .scan? hf.reaches s⟩
    | holds => exact fun s _ => ⟨_, .holds _ s⟩
    | foldMany f b _ ih => exact .foldMany ih f b
  exact left h

theorem Flat.noted (h : Flat Eq r) (n : Nat) : Noted n r :=
  Alike.noted h fun s _ => ⟨_, .miss s⟩

end Rule

/-! ## What the record keeps of the notes -/

section Summary

open Cursor

section Distinct

variable {α β : Type} [DecidableEq α] [DecidableEq β]

theorem eraseDups_concat (l : List α) (a : α) :
    (l ++ [a]).eraseDups = if a ∈ l then l.eraseDups else l.eraseDups ++ [a] := by
  rw [List.eraseDups_append]
  split
  · rename_i h
    simp [List.removeAll, h]
  · rename_i h
    simp [List.removeAll, h, List.eraseDups_cons]

/-- The first occurrences of what has different images are those of the images. -/
theorem eraseDups_map {f : α → β} (hf : Function.Injective f) (l : List α) :
    (l.map f).eraseDups = l.eraseDups.map f := by
  induction l using List.reverseRecOn with
  | nil => rfl
  | append_singleton l a ih =>
    have hm : f a ∈ l.map f ↔ a ∈ l := List.mem_map_of_injective hf
    rw [List.map_append, List.map_singleton, eraseDups_concat, eraseDups_concat, ih]
    by_cases ha : a ∈ l
    · rw [if_pos ha, if_pos (hm.mpr ha)]
    · rw [if_neg ha, if_neg (mt hm.mp ha), List.map_append, List.map_singleton]

end Distinct

variable {text : List Char} {notes : List Note}

namespace Attempts

/-- What was wanted where so many characters were read. -/
def wantedAt (offset : Nat) (notes : List Note) : List Expectation :=
  (notes.filter fun note => note.1.position.offset = offset).map Prod.snd

/-- The first of the furthest places of some notes, and what was wanted there, each thing once and in the
order of the notes. -/
def summary (notes : List Note) : Attempts :=
  let furthest := ((notes.map (·.1.position)).argmax Position.offset).getD .start
  ⟨furthest, (wantedAt furthest.offset notes).eraseDups⟩

theorem wantedAt_concat (offset : Nat) (notes : List Note) (note : Note) :
    wantedAt offset (notes ++ [note]) =
      wantedAt offset notes ++ if note.1.position.offset = offset then [note.2] else [] := by
  simp only [wantedAt, List.filter_append, List.map_append]
  split <;> simp_all

theorem wantedAt_eq_nil {offset : Nat} (h : ∀ note ∈ notes, note.1.position.offset ≠ offset) :
    wantedAt offset notes = [] := by
  simpa [wantedAt] using fun c e hn => h (c, e) hn

theorem summary_of_argmax {p : Position} (h : (notes.map (·.1.position)).argmax Position.offset = some p) :
    summary notes = ⟨p, (wantedAt p.offset notes).eraseDups⟩ := by
  simp only [summary, h, Option.getD_some]

theorem offset_le_of_argmax {p : Position} (h : (notes.map (·.1.position)).argmax Position.offset = some p)
    {note : Note} (hn : note ∈ notes) : note.1.position.offset ≤ p.offset :=
  List.le_of_mem_argmax (List.mem_map.mpr ⟨note, hn, rfl⟩) h

/-- One more note changes the summary as it changes a record. -/
theorem summary_concat {note : Note} (hnote : (ofText text).Reaches note.1) :
    summary (notes ++ [note]) = (summary notes).note note.1.position note.2 := by
  have hmax := List.argmax_concat Position.offset note.1.position (notes.map (·.1.position))
  rw [← List.map_singleton (f := fun note : Note => note.1.position), ← List.map_append] at hmax
  cases hc : (notes.map (·.1.position)).argmax Position.offset with
  | none =>
    obtain rfl : notes = [] := List.map_eq_nil_iff.mp (List.argmax_eq_none.mp hc)
    rw [hc] at hmax
    rw [summary_of_argmax hmax, wantedAt_concat, if_pos rfl]
    rcases Nat.eq_zero_or_pos note.1.position.offset with h₀ | hpos
    · -- At the start of the text the record is at the first place already.
      have hp : note.1.position = .start := by rw [(position_of_reaches hnote).2, h₀]; rfl
      rw [hp]; rfl
    · exact (if_pos hpos).symm
  | some c =>
    rw [hc] at hmax
    rw [summary_of_argmax hc]
    rcases Nat.lt_or_ge c.offset note.1.position.offset with hlt | hge
    · have hnone : wantedAt note.1.position.offset notes = [] :=
        wantedAt_eq_nil fun n hn => Nat.ne_of_lt (Nat.lt_of_le_of_lt (offset_le_of_argmax hc hn) hlt)
      have hp := summary_of_argmax (hmax.trans (if_pos hlt))
      rw [hp, wantedAt_concat, hnone, if_pos rfl]
      exact (if_pos hlt).symm
    · have hp := summary_of_argmax (hmax.trans (if_neg (Nat.not_lt.mpr hge)))
      rw [hp, wantedAt_concat, Attempts.note, if_neg (Nat.not_lt.mpr hge)]
      by_cases hat : note.1.position.offset = c.offset
      · rw [if_pos hat, eraseDups_concat]
        by_cases hmem : note.2 ∈ wantedAt c.offset notes
        · rw [if_pos hmem, if_neg fun h => h.2 (List.mem_eraseDups.mpr hmem)]
        · rw [if_neg hmem, if_pos ⟨hat, mt List.mem_eraseDups.mp hmem⟩]
      · rw [if_neg hat, List.append_nil, if_neg fun h => hat h.1]

/-- The record of what is noted in a text is the summary of it. -/
theorem noteAll_eq_summary (h : ∀ note ∈ notes, (ofText text).Reaches note.1) :
    ({} : Attempts).noteAll notes = summary notes := by
  induction notes using List.reverseRecOn with
  | nil => rfl
  | append_singleton notes note ih =>
    rw [noteAll_append, ih fun n hn => h n (List.mem_append_left _ hn)]
    exact (summary_concat (h note (by simp))).symm

end Attempts

end Summary

end BatchScript
