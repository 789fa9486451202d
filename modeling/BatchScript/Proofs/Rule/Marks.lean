import BatchScript.Proofs.Rule.Record
import BatchScript.Proofs.Rule.Runs

/-!
# Runs that leave a mark

On a known text it is known how far a rule tries to read, whether it matches or not. `Rule.Marks`
says of one run that something was wanted at some place of the script or behind it. One part of
a rule that leaves such a mark is enough, for nothing behind it takes the mark back; and each way to join rules
has its law of that.
-/

namespace BatchScript.Rule

open Cursor

variable {α β : Type} {limit d b n : Nat} {script i j k : List Char}

/-- At `input`, inside `d` bodies and `b` blocks, the rule leaves a mark `n` characters behind the
start of the script, or further on. -/
def Marks (script : List Char) (n : Nat) (r : Rule α) (d b : Nat) (input : List Char) : Prop :=
  ∀ s : State, s.Sound script → s.At d b input → (r s).2.attempts.Covers n

namespace Marks

theorem of_run {r : Rule α}
    (h : ∀ ⦃s t : State⦄ ⦃o : Outcome α⦄, s.Sound script → s.At d b i → r s = (o, t) → t.attempts.Covers n) :
    Marks script n r d b i :=
  fun _ hs hi => h hs hi rfl

theorem covers {r : Rule α} {s t : State} {o : Outcome α} (h : Marks script n r d b i) (hs : s.Sound script)
    (hi : s.At d b i) (e : r s = (o, t)) : t.attempts.Covers n := by
  have hcovers := h s hs hi
  rwa [e] at hcovers

/-! ## Sequence and choice -/

theorem bind_left {r : Rule α} {f : α → Rule β} (h : Marks script n r d b i) (hf : ∀ a, Orderly limit (f a)) :
    Marks script n (r >>= f) d b i := by
  refine of_run fun s t o hs hi e => ?_
  obtain ⟨a, u, hr, e⟩ | ⟨hr, -⟩ | ⟨p, hr, -⟩ := bind_cases e
  · exact (hf a e).follows.covers (h.covers hs hi hr)
  · exact h.covers hs hi hr
  · exact h.covers hs hi hr

theorem bind_right {r : Rule α} {f : α → Rule β} {a : α} (hr : Orderly limit r)
    (h₁ : Runs r d b i (.matched a) j) (h₂ : Marks script n (f a) d b j) : Marks script n (r >>= f) d b i := by
  intro s hs hi
  obtain ⟨t, ht, hj⟩ := h₁ s hi
  rw [bind_of_matched ht]
  exact h₂ t ((hr ht).follows.sound hs) hj

theorem orElse_left {r q : Rule α} (h : Marks script n r d b i) (hq : Orderly limit q) :
    Marks script n (r <|> q) d b i := by
  refine of_run fun s t o hs hi e => ?_
  obtain ⟨u, hr, e⟩ | ⟨hr, -⟩ := orElse_cases e
  · exact (hq e).follows.covers (h.covers hs hi hr)
  · exact h.covers hs hi hr

theorem orElse_right {r q : Rule α} (hr : Orderly limit r) (h₁ : Runs r d b i .unmatched j)
    (h₂ : Marks script n q d b j) : Marks script n (r <|> q) d b i := by
  intro s hs hi
  obtain ⟨t, ht, hj⟩ := h₁ s hi
  rw [orElse_of_unmatched ht]
  exact h₂ t ((hr ht).follows.sound hs) hj

theorem attempt {r : Rule α} (h : Marks script n r d b i) : Marks script n (Rule.attempt r) d b i := by
  refine of_run fun s t o hs hi e => ?_
  obtain ⟨u, hr, -, rfl⟩ | ⟨hr, -⟩ := attempt_cases e
  · exact (h.covers hs hi hr : u.attempts.Covers n)
  · exact h.covers hs hi hr

/-- A rule that leaves a mark where it does not match. -/
theorem of_wants {r : Rule α} (hw : Wants script r) (h : Runs r d b i .unmatched j)
    (hn : n + i.length ≤ script.length) : Marks script n r d b i := by
  refine of_run fun s t o hs hi e => ?_
  obtain ⟨rfl, -⟩ := hi.outcome e h
  obtain ⟨m, hm, hc⟩ := reaches_iff_le.mp hs.reached
  rw [rest_ofText] at hm
  have hoffset : s.cursor.position.offset = 0 + m := by
    rw [hc, offset_skip (by rwa [rest_ofText])]; rfl
  have hlength : i.length = script.length - m := by
    rw [← hi.rest, hc, rest_skip, rest_ofText, List.length_drop]
  exact (hw hs e).mono (by omega)

/-! ## Repetition and nesting -/

/-- The first round leaves a mark. -/
theorem foldMany_first {r : Rule α} (h : Marks script n r d b i) (hr : Orderly limit r) (f : β → α → β) (x : β) :
    Marks script n (Rule.foldMany f r x) d b i := by
  refine of_run fun s t o hs hi e => ?_
  cases loops_of_foldMany e with
  | next ht _ hl => exact (Orderly.foldMany hr f _ hl.foldMany_eq).follows.covers (h.covers hs hi ht)
  | last ht _ => exact h.covers hs hi ht
  | ended ht => exact h.covers hs hi ht
  | tooDeep ht => exact h.covers hs hi ht

/-- The last round leaves a mark, in which the rule does not match. -/
theorem foldMany_last {r : Rule α} {values : List α} (hr : Orderly limit r) (h : Runs.Rounds r d b i values k)
    (hk : ∀ j, Runs r d b j .unmatched k → Marks script n r d b j) (f : β → α → β) (x : β) :
    Marks script n (Rule.foldMany f r x) d b i := by
  induction h generalizing x with
  | nil h => exact (hk _ h).foldMany_first hr f x
  | cons h hlt _ ih =>
    intro s hs hi
    obtain ⟨t, ht, hj⟩ := h s hi
    have hl : t.left < s.left := by simpa only [State.left, Cursor.left_eq, hi.rest, hj.rest] using hlt
    rw [foldMany_of_lt ht hl]
    exact ih hk _ t ((hr ht).follows.sound hs) hj

theorem many_first {r : Rule α} (h : Marks script n r d b i) (hr : Orderly limit r) :
    Marks script n (Rule.many r) d b i := by
  have hpure : ∀ values : List α, Orderly limit (Pure.pure values.reverse : Rule (List α)) := fun _ => .pure _
  exact .bind_left (h.foldMany_first hr _ _) hpure

theorem insideBody {r : Rule α} (h : Marks script n r (d + 1) b i) (hd : d < limit) :
    Marks script n (Rule.insideBody limit r) d b i := by
  refine of_run fun s t o hs hi e => ?_
  have hle : s.depth + 1 ≤ limit := by rw [hi.depth]; omega
  obtain ⟨hlt, -⟩ | ⟨-, u, hr, ht⟩ := insideBody_cases e
  · omega
  · have hcovers : u.attempts.Covers n :=
      h.covers (s := { s with depth := s.depth + 1 }) ⟨hs.reached, hs.attempts⟩
        ⟨hi.rest, congrArg (· + 1) hi.depth, hi.blockDepth⟩ hr
    obtain ⟨-, rfl⟩ | ⟨-, rfl⟩ := ht
    · exact hcovers
    · exact hcovers

theorem insideBlock {r : Rule α} (h : Marks script n r d (b + 1) i) : Marks script n (Rule.insideBlock r) d b i :=
  fun s hs hi => h { s with blockDepth := s.blockDepth + 1 } ⟨hs.reached, hs.attempts⟩
    ⟨hi.rest, hi.depth, congrArg (· + 1) hi.blockDepth⟩

end Marks

end BatchScript.Rule
