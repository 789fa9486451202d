import BatchScript.Cursor
import BatchScript.Proofs.Text.Fronts

/-!
# Scans of a known front

Where the search for a place ends, on a text of which the front is known (`lengthBefore_append`)
and on any text (`not_stop_of_lt_lengthBefore`, `stop_drop_lengthBefore`); what the scans of
a cursor answer there; and which line break a text begins with (`exists_lineBreak`).
-/

namespace BatchScript.Cursor

open Text

variable {c : Cursor} {p : Char → Bool} {front rest : List Char}

/-! ## Searches -/

section Search

variable {stop : List Char → Bool}

/-- A search that ends behind a known front. -/
theorem lengthBefore_append (hf : ∀ v, v <:+ front → v ≠ [] → stop (v ++ rest) = false)
    (hr : rest ≠ [] → stop rest = true) : lengthBefore stop 0 (front ++ rest) = front.length := by
  induction front with
  | nil =>
    cases rest with
    | nil => rfl
    | cons x xs => simp [lengthBefore, hr]
  | cons x xs ih =>
    have hx := hf (x :: xs) (List.suffix_refl _) (List.cons_ne_nil _ _)
    rw [List.cons_append] at hx ⊢
    simp only [lengthBefore, hx, Bool.false_eq_true, ite_false]
    rw [lengthBefore_eq_add, ih fun v hv => hf v (hv.trans (List.suffix_cons _ _)), List.length_cons]
    omega

/-- A search ends at a character where it stops, if what comes before does not depend on it; another
search may end there with the text. -/
theorem lengthBefore_append_cons {stop' : List Char → Bool} {x : Char} (hx : stop' (x :: rest) = true)
    (h : ∀ v, v <:+ front → v ≠ [] → stop' (v ++ x :: rest) = stop v) :
    lengthBefore stop' 0 (front ++ x :: rest) = lengthBefore stop 0 front := by
  induction front with
  | nil => exact if_pos hx
  | cons y ys ih =>
    have hy := h (y :: ys) (List.suffix_refl _) (List.cons_ne_nil _ _)
    rw [List.cons_append] at hy ⊢
    simp only [lengthBefore, hy]
    rw [lengthBefore_eq_add, ih fun v hv => h v (hv.trans (List.suffix_cons _ _)), ← lengthBefore_eq_add]

theorem lengthBefore_le_length (stop : List Char → Bool) (text : List Char) :
    lengthBefore stop 0 text ≤ text.length := by
  induction text with
  | nil => exact Nat.le_refl 0
  | cons x xs ih =>
    simp only [lengthBefore]
    split
    · exact Nat.zero_le _
    · rw [lengthBefore_eq_add, List.length_cons]; omega

/-- A search does not end late. -/
theorem lengthBefore_le {text : List Char} {n : Nat} (h : stop (text.drop n) = true) (hn : n < text.length) :
    lengthBefore stop 0 text ≤ n := by
  induction text generalizing n with
  | nil => exact absurd hn (Nat.not_lt_zero n)
  | cons x xs ih =>
    simp only [lengthBefore]
    split
    · exact Nat.zero_le n
    · rename_i hs
      cases n with
      | zero => exact absurd h hs
      | succ n =>
        have := ih (n := n) h (Nat.lt_of_succ_lt_succ hn)
        rw [lengthBefore_eq_add]; omega

/-- A search does not end early. -/
theorem not_stop_of_lt_lengthBefore {text : List Char} {i : Nat} (h : i < lengthBefore stop 0 text) :
    stop (text.drop i) = false := by
  induction text generalizing i with
  | nil => exact absurd h (Nat.not_lt_zero i)
  | cons x xs ih =>
    simp only [lengthBefore] at h
    split at h
    · exact absurd h (Nat.not_lt_zero i)
    · rename_i hs
      rw [lengthBefore_eq_add] at h
      cases i with
      | zero => simpa using hs
      | succ i => exact ih (by omega)

/-- A search ends at such a place, or at the end of the text. -/
theorem stop_drop_lengthBefore {text : List Char} (h : text.drop (lengthBefore stop 0 text) ≠ []) :
    stop (text.drop (lengthBefore stop 0 text)) = true := by
  induction text with
  | nil => simp at h
  | cons x xs ih =>
    simp only [lengthBefore] at h ⊢
    split
    · assumption
    · rename_i hs
      rw [if_neg hs, lengthBefore_eq_add, Nat.add_comm] at h
      rw [lengthBefore_eq_add, Nat.add_comm]
      exact ih h

/-- No character that a search passes over begins a place where it stops. -/
theorem exists_not_stop_of_mem_upTo {x : Char} (h : x ∈ (c.upTo stop).1.toList) :
    ∃ rest, stop (x :: rest) = false := by
  simp only [upTo, String.toList_ofList] at h
  obtain ⟨i, hi, rfl⟩ := List.mem_iff_getElem.mp h
  rw [List.length_take] at hi
  have hs : stop (c.rest.drop i) = false := not_stop_of_lt_lengthBefore (by omega)
  rw [List.drop_eq_getElem_cons (by omega)] at hs
  exact ⟨_, by rw [List.getElem_take]; exact hs⟩

/-- Nor does its last one. -/
theorem not_stop_of_getLast_upTo {x : Char} (h : x ∈ (c.upTo stop).1.toList.getLast?) :
    stop (x :: (c.upTo stop).2.rest) = false := by
  simp only [upTo, String.toList_ofList, rest_skip, Option.mem_def] at h ⊢
  have hn := lengthBefore_le_length stop c.rest
  cases hk : lengthBefore stop 0 c.rest with
  | zero => simp [hk] at h
  | succ k =>
    rw [hk] at h hn
    have hs : stop (c.rest.drop k) = false := not_stop_of_lt_lengthBefore (by omega)
    rw [List.drop_eq_getElem_cons hn] at hs
    have hx : c.rest[k] = x := by simpa [List.getLast?_take, List.getElem?_eq_getElem hn] using h
    rw [← hx]; exact hs

theorem toList_upTo_append (c : Cursor) (stop : List Char → Bool) :
    (c.upTo stop).1.toList ++ (c.upTo stop).2.rest = c.rest := by
  simp only [upTo, String.toList_ofList, rest_skip, List.take_append_drop]

theorem upTo_append (hc : c.rest = front ++ rest)
    (hf : ∀ v, v <:+ front → v ≠ [] → stop (v ++ rest) = false) (hr : rest ≠ [] → stop rest = true) :
    (c.upTo stop).1 = String.ofList front ∧ (c.upTo stop).2.rest = rest := by
  have hl := lengthBefore_append hf hr
  simp only [upTo, hc, hl, rest_skip, List.take_left, List.drop_left, and_self]

end Search

/-! ## Scans of a known front -/

theorem skipWhile_append (hc : c.rest = front ++ rest) (hf : ∀ x ∈ front, p x = true)
    (hr : Stops p rest) : (c.skipWhile p).rest = rest := by
  rw [rest_skipWhile, hc, dropWhile_append_of_stops hf hr]

theorem span_append (hc : c.rest = front ++ rest) (hf : ∀ x ∈ front, p x = true)
    (hr : Stops p rest) : (c.span p).1 = String.ofList front ∧ (c.span p).2.rest = rest := by
  refine ⟨?_, skipWhile_append hc hf hr⟩
  rw [span, hc, takeWhile_append_of_stops hf hr]

theorem word?_append (hc : c.rest = front ++ rest) (hne : front ≠ []) (hf : ∀ x ∈ front, p x = true)
    (hr : Stops p rest) : ∃ d, c.word? p = some (String.ofList front, d) ∧ d.rest = rest := by
  obtain ⟨hs, hd⟩ := span_append hc hf hr
  have hl : c.runLength p ≠ 0 := by
    rw [runLength, hc, takeWhile_append_of_stops hf hr]
    exact fun e => hne (List.length_eq_zero_iff.mp e)
  refine ⟨(c.span p).2, ?_, hd⟩
  rw [word?, if_neg hl, ← hs]

theorem word?_eq_none_of_stops (hr : Stops p c.rest) : c.word? p = none := by
  rw [word?_eq_none_iff, runLength, takeWhile_eq_nil_of_stops hr, List.length_nil]

/-- What stands between two double quotes is found at the first one. -/
theorem quoted?_eq_some_iff {t : String} :
    c.quoted? = some (t, d) ↔ ∃ front rest, c.rest = '"' :: (front ++ '"' :: rest) ∧ '"' ∉ front ∧
      t = String.ofList front ∧ d = c.skip (front.length + 2) := by
  constructor
  · intro h
    unfold quoted? at h
    split at h
    · rename_i rest hc
      obtain ⟨hl, h⟩ := Option.ite_none_right_eq_some.mp h
      cases h
      have hq : '"' ∉ rest.takeWhile (· != '"') := fun hm => absurd (of_mem_takeWhile hm) (by decide)
      have hr := List.takeWhile_append_dropWhile (p := (· != '"')) (l := rest)
      have hs := stops_dropWhile (· != '"') rest
      cases hd : rest.dropWhile (· != '"') with
      | nil =>
        rw [hd, List.append_nil] at hr
        rw [left_eq, hc, hr] at hl
        exact absurd hl (Nat.lt_irrefl _)
      | cons x tail =>
        rw [hd] at hr hs
        obtain rfl : x = '"' := by simpa using stops_cons.mp hs
        exact ⟨_, tail, by rw [hc, hr], hq, rfl, rfl⟩
    · cases h
  · rintro ⟨front, rest, hc, hf, rfl, rfl⟩
    have ht : (front ++ '"' :: rest).takeWhile (· != '"') = front :=
      takeWhile_append_of_stops (fun x hx => by simpa using fun e : x = '"' => hf (e ▸ hx)) (by simp)
    unfold quoted?
    rw [hc]
    simp only [ht, left_eq, hc]
    rw [if_pos (by simp only [List.length_cons, List.length_append]; omega)]

theorem quoted?_append (hc : c.rest = '"' :: (front ++ '"' :: rest)) (hf : '"' ∉ front) :
    ∃ d, c.quoted? = some (String.ofList front, d) ∧ d.rest = rest := by
  refine ⟨c.skip (front.length + 2), quoted?_eq_some_iff.mpr ⟨front, rest, hc, hf, rfl, rfl⟩, ?_⟩
  rw [rest_skip, hc, List.drop_succ_cons, ← List.drop_drop, List.drop_left]; rfl

theorem quoted?_eq_none (h : ∀ r, c.rest ≠ '"' :: r) : c.quoted? = none := by
  unfold quoted?
  split
  · rename_i r hr; exact absurd hr (h r)
  · rfl

theorem eat?_cons {x : Char} (hc : c.rest = x :: rest) : ∃ d, c.eat? x = some d ∧ d.rest = rest := by
  refine ⟨c.next, eat?_eq_some_iff.mpr ⟨?_, rfl⟩, by rw [rest_next, hc]; rfl⟩
  rw [current, hc]; rfl

theorem eat?_eq_none {x : Char} (h : Stops (· == x) c.rest) : c.eat? x = none := by
  unfold eat? current
  split
  · rename_i hx
    have := h x (Option.mem_def.mpr hx)
    simp at this
  · rfl

theorem eatText?_append {text : String} (hc : c.rest = text.toList ++ rest) :
    ∃ d, c.eatText? text = some d ∧ d.rest = rest := by
  refine ⟨c.skip text.toList.length, eatText?_eq_some_iff.mpr ⟨?_, rfl⟩, ?_⟩
  · rw [startsWith, hc, List.isPrefixOf_iff_prefix]
    exact List.prefix_append _ _
  · rw [rest_skip, hc, List.drop_left]

/-! ## Line breaks -/

/-- The number of characters of the line break with which a text begins. -/
def lineBreakLength? : List Char → Option Nat
  | [] => none
  | x :: i => if x = '\r' ∧ i.head? = some '\n' then some 2 else if isLineBreak x then some 1 else none

theorem eatLineBreak?_eq (c : Cursor) : c.eatLineBreak? = (lineBreakLength? c.rest).map fun n => c.skip n := by
  have hs : c.startsWith "\r\n" = ['\r', '\n'].isPrefixOf c.rest := rfl
  unfold eatLineBreak? eatText? eat? current
  rw [hs]
  cases c.rest with
  | nil => rfl
  | cons x i =>
    by_cases hn : x = '\n'
    · subst hn; rfl
    · by_cases hr : x = '\r'
      · subst hr
        cases i with
        | nil => rfl
        | cons y i =>
          by_cases hy : y = '\n'
          · subst hy; rfl
          · simp [lineBreakLength?, isLineBreak, List.isPrefixOf, hy, Ne.symm hy]; rfl
      · simp [lineBreakLength?, isLineBreak, List.isPrefixOf, hn, hr, Ne.symm hr]

/-- At the end of a line nothing comes next but a line break. -/
theorem lineEnd_cases {text : List Char} (h : Stops (fun x => !isLineBreak x) text) :
    text = [] ∨ ∃ rest, text = '\r' :: rest ∨ text = '\n' :: rest := by
  cases text with
  | nil => exact .inl rfl
  | cons x rest =>
    have hb : isLineBreak x = true := by simpa using h
    have hx : x = '\r' ∨ x = '\n' := by simpa [isLineBreak] using hb
    rcases hx with rfl | rfl
    · exact .inr ⟨rest, .inl rfl⟩
    · exact .inr ⟨rest, .inr rfl⟩

/-- What a line may end with. -/
inductive LineBreak where
  | lf
  | cr
  | crlf
deriving DecidableEq

/-- The characters of a line break. -/
def LineBreak.chars : LineBreak → List Char
  | .lf => ['\n']
  | .cr => ['\r']
  | .crlf => ['\r', '\n']

/-- A `\r` in front of an `\n` is no line break of its own. -/
theorem eatLineBreak?_append (l : LineBreak) (hc : c.rest = l.chars ++ rest)
    (hr : l = .cr → Stops (· == '\n') rest) : ∃ d, c.eatLineBreak? = some d ∧ d.rest = rest := by
  refine ⟨c.skip l.chars.length, ?_, by rw [rest_skip, hc, List.drop_left]⟩
  rw [eatLineBreak?_eq, hc]
  cases l with
  | lf => rfl
  | crlf => rfl
  | cr =>
    cases rest with
    | nil => rfl
    | cons x rest =>
      have hx : x ≠ '\n' := by simpa using hr rfl
      simp [LineBreak.chars, lineBreakLength?, isLineBreak, hx]

theorem eatLineBreak?_eq_none (h : Stops isLineBreak c.rest) : c.eatLineBreak? = none := by
  rw [eatLineBreak?_eq]
  cases hc : c.rest with
  | nil => rfl
  | cons x rest =>
    rw [hc, stops_cons] at h
    have hx : x ≠ '\r' := by rintro rfl; cases h
    simp [lineBreakLength?, h, hx]

/-- A text that begins with a line break, taken apart. -/
theorem exists_lineBreak {text : List Char} (h : ¬ Stops isLineBreak text) :
    ∃ (l : LineBreak) (rest : List Char), text = l.chars ++ rest ∧ (l = .cr → Stops (· == '\n') rest) := by
  have hend : Stops (fun x => !isLineBreak x) text := by
    cases text with
    | nil => exact stops_nil
    | cons x rest => simpa using h
  obtain rfl | ⟨rest, rfl | rfl⟩ := lineEnd_cases hend
  · exact absurd stops_nil h
  · by_cases hr : Stops (· == '\n') rest
    · exact ⟨.cr, rest, rfl, fun _ => hr⟩
    · cases rest with
      | nil => exact absurd stops_nil hr
      | cons y rest =>
        obtain rfl : y = '\n' := by simpa using hr
        exact ⟨.crlf, rest, rfl, nofun⟩
  · exact ⟨.lf, rest, rfl, nofun⟩

end BatchScript.Cursor
