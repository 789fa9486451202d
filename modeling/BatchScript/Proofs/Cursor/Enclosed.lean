import BatchScript.Proofs.Cursor.Local
import BatchScript.Proofs.Cursor.Mirrors

/-!
# The text of a block

A text that stands in a block has a parenthesis behind it where the text alone has its end
(`Cursor.Enclosed`). Inside a block the scans of the grammar stop at that parenthesis, and so they find
there what they find in the text alone, if there are no parentheses and no double quotes in the
text.

* `Enclosed.span_bounded`, `Enclosed.mirrors_word?`: runs of characters, of which the block takes one away
  (`Bounded`);
* `Enclosed.upTo_eq`, `Enclosed.mirrors_stream?`: searches and tests that take the end of the block for
  the end of the text.
-/

namespace BatchScript

open Text

namespace Cursor

/-- The cursor `d` is inside a block where `c` is in the text of the block, and `more` follows the
block. -/
structure Enclosed (more : List Char) (c d : Cursor) : Prop where
  rest : d.rest = c.rest ++ ')' :: more
  unclosed : ')' ∉ c.rest
  unquoted : '"' ∉ c.rest

/-- Inside a block `q` says what `p` says outside of it: the same, but it stops at the end of the block. -/
def Bounded (p q : Char → Bool) : Prop :=
  ∀ x, q x = (p x && x != ')')

theorem bounded_self {p : Char → Bool} (hp : p ')' = false) : Bounded p p := by
  intro x
  by_cases hx : x = ')'
  · rw [hx, hp]; rfl
  · simp [hx]

namespace Enclosed

variable {more : List Char} {c d c' d' : Cursor} {p q : Char → Bool} {n : Nat} {x : Char}

/-! ## Moving on -/

theorem left_lt (h : Enclosed more c d) (k : Enclosed more c' d') : c'.left < c.left ↔ d'.left < d.left := by
  rw [left_eq, left_eq, left_eq, left_eq, h.rest, k.rest, List.length_append, List.length_append]
  omega

theorem skip (h : Enclosed more c d) (hn : n ≤ c.rest.length) : Enclosed more (c.skip n) (d.skip n) where
  rest := by rw [rest_skip, rest_skip, h.rest, List.drop_append_of_le_length hn]
  unclosed := by rw [rest_skip]; exact fun hm => h.unclosed (List.mem_of_mem_drop hm)
  unquoted := by rw [rest_skip]; exact fun hm => h.unquoted (List.mem_of_mem_drop hm)

theorem next (h : Enclosed more c d) (hc : c.rest ≠ []) : Enclosed more c.next d.next :=
  h.skip (n := 1) (List.length_pos_iff.mpr hc)

theorem take (h : Enclosed more c d) (hn : n ≤ c.rest.length) : d.rest.take n = c.rest.take n := by
  rw [h.rest, List.take_append_of_le_length hn]

theorem apply_eq (h : Enclosed more c d) (hp : Bounded p q) (hx : x ∈ c.rest) : q x = p x := by
  have hne : x ≠ ')' := fun e => h.unclosed (e ▸ hx)
  simp [hp x, hne]

/-! ## Tests -/

theorem current_any (h : Enclosed more c d) (hp : Bounded p q) : d.current.any q = c.current.any p := by
  have hclose : q ')' = false := by rw [hp]; exact Bool.and_false _
  cases hc : c.rest with
  | nil => rw [current, current, h.rest, hc]; exact hclose
  | cons x i =>
    rw [current, current, h.rest, hc]
    exact h.apply_eq hp (hc ▸ List.mem_cons_self)

theorem current_eq (h : Enclosed more c d) (hc : c.rest ≠ []) : d.current = c.current := by
  obtain ⟨x, i, hr⟩ := List.exists_cons_of_ne_nil hc
  rw [current, current, h.rest, hr]; rfl

theorem current_eq_iff (h : Enclosed more c d) (hx : x ≠ ')') : d.current = some x ↔ c.current = some x := by
  have hp : d.current.any (· == x) = c.current.any (· == x) :=
    h.current_any (bounded_self (beq_false_of_ne hx.symm))
  simpa [Option.any_eq_true] using Bool.eq_iff_iff.mp hp

/-! ## Fixed texts -/

theorem stepMirrors_eat? (hx : x ≠ ')') : StepMirrors (Enclosed more) (·.eat? x) (·.eat? x) := by
  refine stepMirrors_skip (n := 1) (fun _ _ h => h.current_eq_iff hx) fun c d h hc => h.next fun e => ?_
  rw [current, e] at hc
  cases hc

theorem stepMirrors_eatText? {word : String} (hw : ')' ∉ word.toList) :
    StepMirrors (Enclosed more) (·.eatText? word) (·.eatText? word) := by
  refine stepMirrors_skip (fun c d h => ?_) fun c d h hc => h.skip (List.isPrefixOf_iff_prefix.mp hc).length_le
  rw [startsWith, startsWith, h.rest, isPrefixOf_append_cons hw]

theorem stepMirrors_eatKeyword? {word : String} (hw : ')' ∉ word.toList.map Char.toLower) :
    StepMirrors (Enclosed more) (·.eatKeyword? word) (·.eatKeyword? word) := by
  refine stepMirrors_skip (fun c d h => ?_) fun c d h hc => h.skip (length_le_of_beginsWithWord hc)
  rw [atKeyword, atKeyword, h.rest, beginsWithWord_append_cons (x := ')') hw]

/-! ## Runs of characters -/

theorem takeWhile (h : Enclosed more c d) (hp : Bounded p q) : d.rest.takeWhile q = c.rest.takeWhile p := by
  rw [h.rest]
  exact takeWhile_append_cons (fun _ hx => h.apply_eq hp hx) (by rw [hp]; exact Bool.and_false _)

theorem skipWhile (h : Enclosed more c d) (hp : Bounded p q) : Enclosed more (c.skipWhile p) (d.skipWhile q) := by
  have k := h.skip (List.takeWhile_prefix p (l := c.rest)).length_le
  rwa [Cursor.skipWhile, Cursor.skipWhile, runLength, runLength, h.takeWhile hp]

theorem span_bounded (hp : Bounded p q) ⦃c d : Cursor⦄ (h : Enclosed more c d) :
    (d.span q).1 = (c.span p).1 ∧ Enclosed more (c.span p).2 (d.span q).2 := by
  refine ⟨?_, h.skipWhile hp⟩
  rw [span, span, h.takeWhile hp]

theorem mirrors_word? (hp : Bounded p q) : Cursor.Mirrors (Enclosed more) id (·.word? p) (·.word? q) :=
  Cursor.mirrors_word? (fun _ _ h => by rw [runLength, runLength, h.takeWhile hp]) (span_bounded hp)

theorem mirrors_identifier? : Cursor.Mirrors (Enclosed more) id identifier? identifier? :=
  Cursor.mirrors_identifier? (fun _ _ h => h.current_any (bounded_self (by decide +kernel)))
    (span_bounded (bounded_self (by decide +kernel)))

/-- There are no quotes. -/
theorem mirrors_quoted? : Cursor.Mirrors (Enclosed more) id quoted? quoted? := by
  intro c d h
  have hc : ∀ r, c.rest ≠ '"' :: r := fun r e => h.unquoted (e ▸ List.mem_cons_self)
  refine .inl ⟨quoted?_eq_none hc, quoted?_eq_none fun r e => ?_⟩
  have hd : d.current = some '"' := by rw [current, e]; rfl
  obtain ⟨r, e⟩ := List.head?_eq_some_iff.mp ((h.current_eq_iff (by decide)).mp hd)
  exact hc r e

/-! ## Searches and scans of the grammar -/

theorem upTo_eq {stop stop' : List Char → Bool} (hend : stop' (')' :: more) = true)
    (hs : ∀ v, ')' ∉ v → v ≠ [] → stop' (v ++ ')' :: more) = stop v) ⦃c d : Cursor⦄ (h : Enclosed more c d) :
    (d.upTo stop').1 = (c.upTo stop).1 ∧ Enclosed more (c.upTo stop).2 (d.upTo stop').2 := by
  have hlen : lengthBefore stop' 0 d.rest = lengthBefore stop 0 c.rest := by
    rw [h.rest]
    exact lengthBefore_append_cons hend fun v hv => hs v fun hm => h.unclosed (hv.subset hm)
  have hl := lengthBefore_le_length stop c.rest
  rw [upTo, upTo, hlen, h.take hl]
  exact ⟨rfl, h.skip hl⟩

theorem handle_eq ⦃c d : Cursor⦄ (h : Enclosed more c d) :
    (Grammar.handle d).1 = (Grammar.handle c).1 ∧ Enclosed more (Grammar.handle c).2 (Grammar.handle d).2 := by
  have hb : Grammar.beginsWithHandle d.rest = Grammar.beginsWithHandle c.rest := by
    rw [h.rest]
    exact beginsWithHandle_append_cons rfl rfl
  unfold Grammar.handle
  rw [hb]
  cases hc : Grammar.beginsWithHandle c.rest with
  | false => exact ⟨rfl, h⟩
  | true =>
    have hne : c.rest ≠ [] := by
      rintro e
      rw [e] at hc
      cases hc
    refine ⟨?_, h.next hne⟩
    show String.ofList (d.rest.take 1) = String.ofList (c.rest.take 1)
    rw [h.take (List.length_pos_iff.mpr hne)]

/-- The number of a stream ends at the end of the block as at the end of the text. -/
theorem mirrors_stream? (b : Bool) :
    Cursor.Mirrors (Enclosed more) id (Grammar.stream? b) (Grammar.stream? true) := by
  refine Cursor.mirrors_stream? (mirrors_word? (bounded_self (by decide))) fun c d h => ?_
  rw [current, current, h.rest]
  cases hr : c.rest with
  | nil => rfl
  | cons x i =>
    have hx : x ≠ ')' := fun e => h.unclosed (hr ▸ e ▸ List.mem_cons_self)
    simp [Grammar.endsStream, Grammar.closesBlock, beq_false_of_ne hx]

end Enclosed

end Cursor

end BatchScript
