import BatchScript.Grammar.Statement

/-!
# Balanced texts

The source of a loop ends at the parenthesis that matches the opening one, and
what stands before it is balanced: parentheses outside quotes match, and a quote
ends at the same quote or at the end of its line (`Balanced`). The search for
the end and this language agree.

* `sourceLength?_of_balanced`: a balanced text before a parenthesis is found whole;
* `balanced_of_sourceLength?`: what is found is balanced, and a parenthesis follows.
-/

namespace BatchScript

namespace Text

/-- A text whose parentheses outside quotes match. -/
inductive Balanced : List Char → Prop where
  | nil : Balanced []
  | plain {x : Char} {s : List Char} : isQuote x = false → x ≠ '(' → x ≠ ')' → Balanced s →
      Balanced (x :: s)
  /-- A quote, up to the same quote or the end of its line. -/
  | quoted {q close : Char} {inner s : List Char} : isQuote q = true →
      (∀ x ∈ inner, x ≠ q ∧ isLineBreak x = false) → close = q ∨ isLineBreak close = true →
      Balanced s → Balanced (q :: (inner ++ close :: s))
  | group {inner s : List Char} : Balanced inner → Balanced s → Balanced ('(' :: (inner ++ ')' :: s))

/-- A balanced text with `depth` closing parentheses in it that match nothing. -/
inductive Closing : Nat → List Char → Prop where
  | zero {s : List Char} : Balanced s → Closing 0 s
  | succ {depth : Nat} {s t : List Char} : Balanced s → Closing depth t →
      Closing (depth + 1) (s ++ ')' :: t)

theorem Closing.append_left {depth : Nat} {s : List Char} (front : List Char)
    (hf : ∀ t, Balanced t → Balanced (front ++ t)) (h : Closing depth s) : Closing depth (front ++ s) := by
  cases h with
  | zero h => exact .zero (hf _ h)
  | succ h k => rw [← List.append_assoc]; exact .succ (hf _ h) k

/-- What a text is whose front was read: a quote may be open before it. -/
def ClosingBehind (depth : Nat) (s : List Char) : Option Char → Prop
  | none => Closing depth s
  | some q => ∃ inner close t, s = inner ++ close :: t ∧ (∀ x ∈ inner, x ≠ q ∧ isLineBreak x = false) ∧
      (close = q ∨ isLineBreak close = true) ∧ Closing depth t

end Text

namespace Grammar

open Text

variable {n m depth : Nat} {x : Char} {rest : List Char}

/-! ## One character -/

theorem sourceLength?_close_zero : sourceLength? n 0 none (')' :: rest) = some n := rfl

theorem sourceLength?_close_succ :
    sourceLength? n (depth + 1) none (')' :: rest) = sourceLength? (n + 1) depth none rest := rfl

theorem sourceLength?_open :
    sourceLength? n depth none ('(' :: rest) = sourceLength? (n + 1) (depth + 1) none rest := rfl

theorem sourceLength?_other (ho : x ≠ '(') (hc : x ≠ ')') :
    sourceLength? n depth none (x :: rest) = sourceLength? (n + 1) depth (quoteAfter none x) rest := by
  simp [sourceLength?, ho, hc]

theorem sourceLength?_inside (q : Char) :
    sourceLength? n depth (some q) (x :: rest) =
      sourceLength? (n + 1) depth (quoteAfter (some q) x) rest := by
  simp [sourceLength?]

theorem quoteAfter_none (hx : isQuote x = false) : quoteAfter none x = none := by
  simp [quoteAfter, hx]

theorem quoteAfter_close {q : Char} (hx : x = q ∨ isLineBreak x = true) :
    quoteAfter (some q) x = none := by
  have h : (x == q || isLineBreak x) = true := by simpa using hx
  simp only [quoteAfter, h, ite_true]

theorem quoteAfter_inside {q : Char} (hx : x ≠ q ∧ isLineBreak x = false) :
    quoteAfter (some q) x = some q := by
  simp [quoteAfter, hx.1, hx.2]

/-! ## A balanced text is found whole -/

theorem sourceLength?_quoted {q close : Char} {inner : List Char}
    (hi : ∀ x ∈ inner, x ≠ q ∧ isLineBreak x = false) (hc : close = q ∨ isLineBreak close = true) :
    sourceLength? n depth (some q) (inner ++ close :: rest) =
      sourceLength? (n + inner.length + 1) depth none rest := by
  induction inner generalizing n with
  | nil => rw [List.nil_append, sourceLength?_inside, quoteAfter_close hc]; rfl
  | cons x inner ih =>
    rw [List.cons_append, sourceLength?_inside, quoteAfter_inside (hi x List.mem_cons_self),
      ih fun y hy => hi y (List.mem_cons_of_mem _ hy), List.length_cons]
    congr 1; omega

theorem sourceLength?_append {s : List Char} (h : Balanced s) :
    sourceLength? n depth none (s ++ rest) = sourceLength? (n + s.length) depth none rest := by
  induction h generalizing n depth rest with
  | nil => rfl
  | plain hx ho hc _ ih =>
    rw [List.cons_append, sourceLength?_other ho hc, quoteAfter_none hx, ih, List.length_cons]
    congr 1; omega
  | @quoted q close inner s hq hi hc _ ih =>
    have ho : q ≠ '(' := by rintro rfl; exact absurd hq (by decide)
    have hp : q ≠ ')' := by rintro rfl; exact absurd hq (by decide)
    have ha : quoteAfter none q = some q := by simp [quoteAfter, hq]
    rw [List.cons_append, List.append_assoc, List.cons_append, sourceLength?_other ho hp, ha,
      sourceLength?_quoted hi hc, ih]
    congr 1; simp only [List.length_cons, List.length_append]; omega
  | group _ _ ih₁ ih₂ =>
    rw [List.cons_append, List.append_assoc, List.cons_append, sourceLength?_open, ih₁,
      sourceLength?_close_succ, ih₂]
    congr 1; simp only [List.length_cons, List.length_append]; omega

/-- A balanced text before a closing parenthesis is the source. -/
theorem sourceLength?_of_balanced {s : List Char} (h : Balanced s) :
    sourceLength? 0 0 none (s ++ ')' :: rest) = some s.length := by
  rw [sourceLength?_append h, sourceLength?_close_zero, Nat.zero_add]

/-! ## What is found is balanced -/

theorem exists_of_sourceLength?_succ {quote : Option Char}
    (h : sourceLength? (0 + 1) depth quote rest = some m) :
    ∃ k, m = k + 1 ∧ sourceLength? 0 depth quote rest = some k := by
  rw [sourceLength?_eq_map, Option.map_eq_some_iff] at h
  obtain ⟨k, hk, rfl⟩ := h
  exact ⟨k, by omega, hk⟩

theorem closing_open {s : List Char} (h : Closing (depth + 1) s) : Closing depth ('(' :: s) := by
  -- the group ends at the first parenthesis that matched nothing so far
  obtain _ | ⟨hs, ht⟩ := h
  rename_i s t
  have := Closing.append_left ('(' :: (s ++ [')'])) (fun u hu => by simpa using Balanced.group hs hu) ht
  simpa using this

theorem closingBehind_inside {q : Char} {s : List Char} (h : ClosingBehind depth s (quoteAfter (some q) x)) :
    ClosingBehind depth (x :: s) (some q) := by
  by_cases hx : x = q ∨ isLineBreak x = true
  · rw [quoteAfter_close hx] at h
    exact ⟨[], x, s, rfl, by simp, hx, h⟩
  · have hx' : x ≠ q ∧ isLineBreak x = false := by simpa using hx
    rw [quoteAfter_inside hx'] at h
    obtain ⟨inner, close, t, rfl, hi, hclose, ht⟩ := h
    exact ⟨x :: inner, close, t, rfl, List.forall_mem_cons.mpr ⟨hx', hi⟩, hclose, ht⟩

theorem closingBehind_other {s : List Char} (ho : x ≠ '(') (hc : x ≠ ')')
    (h : ClosingBehind depth s (quoteAfter none x)) : ClosingBehind depth (x :: s) none := by
  cases hq : isQuote x with
  | true =>
    rw [show quoteAfter none x = some x by simp [quoteAfter, hq]] at h
    obtain ⟨inner, close, t, rfl, hi, hclose, ht⟩ := h
    have := Closing.append_left (x :: (inner ++ [close])) (fun u hu => by simpa using Balanced.quoted hq hi hclose hu) ht
    show Closing depth (x :: (inner ++ close :: t))
    simpa using this
  | false =>
    rw [quoteAfter_none hq] at h
    exact Closing.append_left [x] (fun _ => Balanced.plain hq ho hc) h

theorem closingBehind_of_sourceLength? {quote : Option Char} {text : List Char}
    (h : sourceLength? 0 depth quote text = some m) :
    ClosingBehind depth (text.take m) quote ∧ (text.drop m).head? = some ')' := by
  induction text generalizing depth quote m with
  | nil => cases h
  | cons x rest ih =>
    cases quote with
    | some q =>
      rw [sourceLength?_inside] at h
      obtain ⟨k, rfl, hk⟩ := exists_of_sourceLength?_succ h
      exact ⟨closingBehind_inside (ih hk).1, (ih hk).2⟩
    | none =>
      by_cases hc : x = ')'
      · subst hc
        cases depth with
        | zero =>
          rw [sourceLength?_close_zero] at h
          cases h; exact ⟨.zero .nil, rfl⟩
        | succ depth =>
          rw [sourceLength?_close_succ] at h
          obtain ⟨k, rfl, hk⟩ := exists_of_sourceLength?_succ h
          exact ⟨.succ .nil (ih hk).1, (ih hk).2⟩
      by_cases ho : x = '('
      · subst ho
        rw [sourceLength?_open] at h
        obtain ⟨k, rfl, hk⟩ := exists_of_sourceLength?_succ h
        exact ⟨closing_open (ih hk).1, (ih hk).2⟩
      · rw [sourceLength?_other ho hc] at h
        obtain ⟨k, rfl, hk⟩ := exists_of_sourceLength?_succ h
        exact ⟨closingBehind_other ho hc (ih hk).1, (ih hk).2⟩

/-- What is found before the end of a source is balanced, and its parenthesis follows. -/
theorem balanced_of_sourceLength? {text : List Char} (h : sourceLength? 0 0 none text = some m) :
    Balanced (text.take m) ∧ (text.drop m).head? = some ')' := by
  obtain ⟨hc, hd⟩ := closingBehind_of_sourceLength? h
  obtain hb | _ : Closing 0 (text.take m) := hc
  exact ⟨hb, hd⟩

theorem lt_length_of_sourceLength? {text : List Char} (h : sourceLength? 0 0 none text = some m) : m < text.length := by
  have hclose := (balanced_of_sourceLength? h).2
  refine Nat.lt_of_not_le fun hle => ?_
  rw [List.drop_of_length_le hle] at hclose
  cases hclose

/-- A source that is closed is the same whatever follows behind the text. -/
theorem sourceLength?_append_right {text : List Char} (h : sourceLength? 0 0 none text = some m)
    (more : List Char) : sourceLength? 0 0 none (text ++ more) = some m := by
  obtain ⟨hb, hclose⟩ := balanced_of_sourceLength? h
  have hlen := lt_length_of_sourceLength? h
  cases hd : text.drop m with
  | nil => rw [hd] at hclose; cases hclose
  | cons x behind =>
    obtain rfl : x = ')' := by simpa [hd] using hclose
    have hlen : (text.take m).length = m := by rw [List.length_take]; omega
    rw [← List.take_append_drop m text, hd, List.append_assoc, List.cons_append, sourceLength?_of_balanced hb, hlen]

theorem balanced_iff {s : List Char} :
    Balanced s ↔ sourceLength? 0 0 none (s ++ [')']) = some s.length := by
  refine ⟨sourceLength?_of_balanced, fun h => ?_⟩
  have := (balanced_of_sourceLength? h).1
  rwa [List.take_left] at this

instance (s : List Char) : Decidable (Balanced s) :=
  decidable_of_iff _ balanced_iff.symm

end Grammar

end BatchScript
