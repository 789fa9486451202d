import BatchScript.Proofs.Cursor.Reach
import BatchScript.Proofs.Text.Spelling

/-!
# Cursors in another spelling

To a place in a script belongs a place in a spelling of the script, on the same line and in the same
column (`Spelling.Beside`); places in the order of the script belong to places in the same order.
To a cursor belongs a cursor at that place (`Spelling.Reads`).

* `Beside.offset_lt_iff`: of two places in a spelling the later one belongs to the later place;
* `Reads.next`, `Reads.skip`: skipping some text leads to the cursor behind the spelling of that text.
-/

namespace BatchScript

open Text Cursor

namespace Spelling

/-- The place `q` in the spelling of a script belongs to the place `p` in the script. -/
structure Beside (σ : Spelling) (script : List Char) (p q : Position) : Prop where
  le : p.offset ≤ script.length
  offset : q.offset = (σ.text (script.take p.offset)).length
  line : q.line = p.line
  column : q.column = p.column

/-- The cursor `d` in the spelling of a script belongs to the cursor `c` in the script. -/
structure Reads (σ : Spelling) (script : List Char) (c d : Cursor) : Prop where
  front : c.rest = script.drop c.position.offset
  rest : d.rest = σ.text c.rest
  beside : σ.Beside script c.position d.position

variable {σ : Spelling} {script : List Char} {p q p' q' : Position} {c d c' d' : Cursor} {x : Char} {i : List Char}

/-! ## Places -/

theorem beside_start : σ.Beside script .start .start :=
  ⟨Nat.zero_le _, rfl, rfl, rfl⟩

theorem Beside.offset_lt_iff (h : σ.Beside script p q) (k : σ.Beside script p' q') :
    q.offset < q'.offset ↔ p.offset < p'.offset := by
  rw [h.offset, k.offset, σ.length_text_take_lt_iff h.le k.le]

theorem Beside.offset_eq_iff (h : σ.Beside script p q) (k : σ.Beside script p' q') :
    q.offset = q'.offset ↔ p.offset = p'.offset := by
  have := h.offset_lt_iff k
  have := k.offset_lt_iff h
  omega

/-! ## Cursors -/

theorem reads_ofText : σ.Reads script (.ofText script) (.ofText (σ.text script)) :=
  ⟨rfl, rfl, beside_start⟩

theorem Reads.left_lt (h : σ.Reads script c d) (k : σ.Reads script c' d') :
    c'.left < c.left ↔ d'.left < d.left := by
  have left : ∀ {c d : Cursor}, σ.Reads script c d →
      c.left + c.position.offset = script.length ∧ d.left + d.position.offset = (σ.text script).length := by
    intro c d h
    have he : σ.text script = σ.text (script.take c.position.offset) ++ σ.text c.rest := by
      rw [h.front, ← text_append, List.take_append_drop]
    have hl := h.beside.le
    rw [left_eq, left_eq, h.rest, h.beside.offset, he, List.length_append, h.front, List.length_drop]
    omega
  have hc := left h
  have hk := left k
  have := h.beside.offset_lt_iff k.beside
  omega

theorem Reads.fits (hf : σ.Fits script) (h : σ.Reads script c d) : σ.Fits c.rest :=
  hf.of_suffix (h.front ▸ List.drop_suffix _ _)

/-- Two characters end a line alike, or neither does. -/
theorem endsLine_spell (hf : σ.Fits (x :: i)) (hx : x ≠ '\n') :
    Position.endsLine (σ.letter x) (σ.text i).head? = Position.endsLine x i.head? := by
  by_cases hr : x = '\r'
  · obtain hl | hn := hf
    · rw [hr, σ.letter_eq_return_iff.mpr rfl, σ.text_eq_map hl]
      cases i with
      | nil => rfl
      | cons y i =>
        have hy : Caseless (· == '\n') := .of_letters (by decide)
        simp [Position.endsLine, bne, σ.letter_beq hy]
    · exact absurd (hr ▸ List.mem_cons_self) hn
  · have h : ∀ {y : Char} {f : Option Char}, y ≠ '\n' → y ≠ '\r' → Position.endsLine y f = false := by
      intro y f hn hr
      simp [Position.endsLine, hn, hr]
    rw [h hx hr, h (mt σ.letter_eq_lineFeed_iff.mp hx) (mt σ.letter_eq_return_iff.mp hr)]

theorem line_column_after {e f : Option Char} {y : Char} (he : Position.endsLine y f = Position.endsLine x e)
    (hl : q.line = p.line) (hc : q.column = p.column) :
    (q.after y f).line = (p.after x e).line ∧ (q.after y f).column = (p.after x e).column := by
  unfold Position.after
  rw [he]
  split <;> simp [hl, hc]

/-- Behind the spelling of one character the line and the column are those behind the character. -/
theorem Reads.line_column_next (hf : σ.Fits script) (h : σ.Reads script c d) (hc : c.rest = x :: i) :
    (d.skip (σ.spell x).length).position.line = c.next.position.line ∧
      (d.skip (σ.spell x).length).position.column = c.next.position.column := by
  have hd := h.rest
  rw [hc, text_cons] at hd
  rw [position_next hc]
  by_cases hx : x = '\n'
  · subst hx
    rw [spell_lineFeed] at hd ⊢
    have he : ∀ e, Position.endsLine '\n' e = true := fun _ => rfl
    obtain hl | hl | hl := σ.lineFeed_cases
    · rw [hl] at hd ⊢
      show (d.next).position.line = _ ∧ (d.next).position.column = _
      rw [position_next hd]
      exact line_column_after ((he _).trans (he _).symm) h.beside.line h.beside.column
    · rw [hl] at hd ⊢
      show (d.next).position.line = _ ∧ (d.next).position.column = _
      rw [position_next hd]
      exact line_column_after (by simp [Position.endsLine, σ.head?_text_ne hl]) h.beside.line h.beside.column
    · rw [hl] at hd ⊢
      show (d.next.next).position.line = _ ∧ (d.next.next).position.column = _
      have hn : d.next.rest = '\n' :: σ.text i := by rw [rest_next, hd]; rfl
      rw [position_next hn, position_next hd]
      simp [Position.after, Position.endsLine, h.beside.line]
  · rw [σ.spell_of_ne hx] at hd ⊢
    show (d.next).position.line = _ ∧ (d.next).position.column = _
    rw [position_next hd]
    exact line_column_after (endsLine_spell (hc ▸ h.fits hf) hx) h.beside.line h.beside.column

theorem Reads.next (hf : σ.Fits script) (h : σ.Reads script c d) (hc : c.rest = x :: i) :
    σ.Reads script c.next (d.skip (σ.spell x).length) := by
  obtain ⟨hl, hco⟩ := h.line_column_next hf hc
  have hd := h.rest
  rw [hc, text_cons] at hd
  have hlt : c.position.offset < script.length := by
    have := congrArg List.length h.front
    rw [hc, List.length_cons, List.length_drop] at this
    omega
  have ho : c.next.position.offset = c.position.offset + 1 := by rw [position_next hc, Position.offset_after]
  refine ⟨?_, ?_, by omega, ?_, hl, hco⟩
  · rw [rest_next, h.front, List.tail_drop, ho]
  · rw [rest_skip, hd, List.drop_left, rest_next, hc]; rfl
  · have hx : script[c.position.offset] = x := by
      have := h.front
      rw [hc, List.drop_eq_getElem_cons hlt] at this
      exact (List.cons.inj this).1.symm
    have hlen : (σ.spell x).length ≤ d.rest.length := by rw [hd, List.length_append]; omega
    rw [offset_skip hlen, h.beside.offset, ho, List.take_succ_eq_append_getElem hlt, hx, text_append, List.length_append]
    simp

/-- Behind some text of the script and behind the spelling of that text. -/
theorem Reads.skip (hf : σ.Fits script) (h : σ.Reads script c d) (n : Nat) :
    σ.Reads script (c.skip n) (d.skip (σ.text (c.rest.take n)).length) := by
  induction n generalizing c d with
  | zero => exact h
  | succ n ih =>
    cases hc : c.rest with
    | nil =>
      rw [skip_of_length_le (by rw [hc]; exact Nat.zero_le _), hc]
      exact h
    | cons x i =>
      have k := ih (h.next hf hc)
      rw [rest_next, hc, List.tail_cons, skip_skip] at k
      rw [skip_succ, List.take_succ_cons, text_cons, List.length_append]
      exact k

/-- Text without a line feed is spelled with as many characters. -/
theorem Reads.skip_of_notMem (hf : σ.Fits script) (h : σ.Reads script c d) {n : Nat} (hl : n ≤ c.rest.length)
    (hn : '\n' ∉ c.rest.take n) : σ.Reads script (c.skip n) (d.skip n) := by
  have k := h.skip hf n
  rwa [σ.length_text_of_notMem hn, List.length_take, Nat.min_eq_left hl] at k

end Spelling

end BatchScript
