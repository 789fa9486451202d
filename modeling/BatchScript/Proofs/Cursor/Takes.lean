import BatchScript.Proofs.Cursor.Moves

/-!
# What scans take

A scan goes over what it asks for and over nothing else, or the cursor stays (`Cursor.Passes`). A fixed text is
gone over where it comes next, a run of characters as far as it goes (`Text.LongestFront`, `Cursor.Takes`), and
a quoted text with its two quotes (`Cursor.ScansExactly`). That is so wherever a cursor was led before, and
nothing beyond the text is looked at (`Tape.taken_run`).
-/

namespace BatchScript

open Text

/-! ## Longest fronts -/

/-- The longest front of a text all of whose characters satisfy `p`. -/
structure Text.LongestFront (p : Char → Bool) (text front : List Char) : Prop where
  isFront : front <+: text
  all : ∀ x ∈ front, p x = true
  longest : ∀ other, other <+: text → (∀ x ∈ other, p x = true) → other.length ≤ front.length

theorem Text.longestFront_iff {p : Char → Bool} {text front : List Char} :
    LongestFront p text front ↔ front = text.takeWhile p := by
  have within : ∀ other, other <+: text → (∀ x ∈ other, p x = true) → other <+: text.takeWhile p := by
    rintro other ⟨rest, rfl⟩ hp
    rw [List.takeWhile_append_of_pos hp]
    exact List.prefix_append _ _
  constructor
  · intro h
    exact (within front h.isFront h.all).eq_of_length_le
      (h.longest _ (List.takeWhile_prefix p) fun _ => of_mem_takeWhile)
  · rintro rfl
    exact ⟨List.takeWhile_prefix p, fun _ => of_mem_takeWhile, fun other ho hp => (within other ho hp).length_le⟩

namespace Cursor

variable {c d : Cursor} {p : Char → Bool} {front : List Char} {s : String}

/-! ## Going over a text -/

/-- From `c` the cursor goes over `front` to `d`. -/
structure Passes (c : Cursor) (front : List Char) (d : Cursor) : Prop where
  rest : c.rest = front ++ d.rest
  eq_skip : d = c.skip front.length

theorem passes_iff : c.Passes front d ↔ front <+: c.rest ∧ d = c.skip front.length := by
  constructor
  · exact fun h => ⟨⟨d.rest, h.rest.symm⟩, h.eq_skip⟩
  · rintro ⟨⟨rest, hc⟩, rfl⟩
    refine ⟨?_, rfl⟩
    rw [rest_skip, ← hc, List.drop_left]

theorem passes_nil_iff : c.Passes [] d ↔ d = c := by
  simp [passes_iff]

theorem Passes.offset_eq (h : c.Passes front d) : d.position.offset = c.position.offset + front.length := by
  rw [h.eq_skip, offset_skip (by rw [h.rest, List.length_append]; omega)]

theorem eat?_iff_passes {x : Char} : c.eat? x = some d ↔ c.Passes [x] d := by
  rw [eat?_eq_some_iff, passes_iff, current]
  cases c.rest with
  | nil => simp
  | cons y rest => simp [eq_comm, skip_succ]

theorem eatText?_iff_passes {w : String} : c.eatText? w = some d ↔ c.Passes w.toList d := by
  rw [eatText?_eq_some_iff, passes_iff, startsWith, List.isPrefixOf_iff_prefix]

theorem isSome_eatText? (c : Cursor) (w : String) : (c.eatText? w).isSome = c.startsWith w := by
  unfold eatText?
  split <;> simp_all

theorem eatKeyword?_iff_passes {w : String} : c.eatKeyword? w = some d ↔
    ∃ front, front.map Char.toLower = w.toList.map Char.toLower ∧ c.Passes front d := by
  have length_eq : ∀ {front : List Char}, front.map Char.toLower = w.toList.map Char.toLower →
      front.length = w.toList.length := fun h => by simpa using congrArg List.length h
  rw [eatKeyword?_eq_some_iff, atKeyword, beginsWithWord_iff]
  constructor
  · rintro ⟨hw, rfl⟩
    refine ⟨_, hw, passes_iff.mpr ⟨List.take_prefix _ _, ?_⟩⟩
    rw [length_eq hw]
  · rintro ⟨front, hw, h⟩
    obtain ⟨hf, hd⟩ := passes_iff.mp h
    rw [← length_eq hw, ← List.prefix_iff_eq_take.mp hf]
    exact ⟨hw, hd⟩

theorem isSome_eatKeyword? (c : Cursor) (w : String) : (c.eatKeyword? w).isSome = c.atKeyword w := by
  unfold eatKeyword?
  split <;> simp_all

theorem eatLineBreak?_iff_passes : c.eatLineBreak? = some d ↔
    ∃ l : LineBreak, (l = .cr → d.current ≠ some '\n') ∧ c.Passes l.chars d := by
  have stops_iff : Stops (· == '\n') d.rest ↔ d.current ≠ some '\n' := by
    unfold current
    cases d.rest <;> simp
  constructor
  · intro h
    obtain ⟨l, hc, hr, -⟩ := eatLineBreak?_iff.mp h
    exact ⟨l, fun hl => stops_iff.mp (hr hl), hc, (reaches_of_eatLineBreak? h).eq_skip hc⟩
  · rintro ⟨l, hr, h⟩
    have hr : l = .cr → Stops (· == '\n') d.rest := fun hl => stops_iff.mpr (hr hl)
    refine eatLineBreak?_iff.mpr ⟨l, h.rest, hr, ?_⟩
    rw [← position_skip_lineBreak h.rest hr, ← h.eq_skip]

/-! ## Runs of characters -/

/-- At `c` the longest run of characters that satisfy `p` is `s`, and the cursor goes over it to `d`. -/
structure Takes (c : Cursor) (p : Char → Bool) (s : String) (d : Cursor) : Prop where
  longest : LongestFront p c.rest s.toList
  passes : c.Passes s.toList d

theorem takes_iff : c.Takes p s d ↔ s = String.ofList (c.rest.takeWhile p) ∧ d = c.skipWhile p := by
  constructor
  · rintro ⟨hl, hd⟩
    have hs := longestFront_iff.mp hl
    exact ⟨by rw [← hs, String.ofList_toList], by rw [hd.eq_skip, hs]; rfl⟩
  · rintro ⟨rfl, rfl⟩
    refine ⟨longestFront_iff.mpr (String.toList_ofList ..), passes_iff.mpr ?_⟩
    rw [String.toList_ofList]
    exact ⟨List.takeWhile_prefix p, rfl⟩

theorem span_eq_iff_takes : c.span p = (s, d) ↔ c.Takes p s d := by
  rw [takes_iff, span, Prod.mk.injEq, @eq_comm _ s, @eq_comm _ d]

theorem skipWhile_eq_iff_takes {n : Nat} :
    c.runLength p = n ∧ c.skipWhile p = d ↔ ∃ s, c.Takes p s d ∧ s.length = n := by
  constructor
  · rintro ⟨rfl, rfl⟩
    exact ⟨_, takes_iff.mpr ⟨rfl, rfl⟩, by simp [runLength]⟩
  · rintro ⟨s, h, rfl⟩
    obtain ⟨rfl, rfl⟩ := takes_iff.mp h
    simp [runLength]

theorem word?_iff_takes : c.word? p = some (s, d) ↔ s ≠ "" ∧ c.Takes p s d := by
  rw [← span_eq_iff_takes, word?, Option.ite_none_left_eq_some, Option.some.injEq]
  refine and_congr_left fun h => not_congr ?_
  have hs : String.ofList (c.rest.takeWhile p) = s := congrArg Prod.fst h
  rw [← hs, runLength, List.length_eq_zero_iff, ← String.toList_eq_nil_iff, String.toList_ofList]

theorem identifier?_iff_takes :
    c.identifier? = some (s, d) ↔ (∃ x ∈ c.current, isLetter x = true) ∧ c.Takes isNameChar s d := by
  rw [← span_eq_iff_takes, identifier?, Option.ite_none_right_eq_some, Option.some.injEq, Option.any_eq_true]
  rfl

/-! ## Quoted texts -/

theorem quoted?_iff_passes :
    c.quoted? = some (s, d) ↔ '"' ∉ s.toList ∧ c.Passes ('"' :: (s.toList ++ ['"'])) d := by
  rw [quoted?_eq_some_iff]
  constructor
  · rintro ⟨front, rest, hc, hq, rfl, rfl⟩
    rw [String.toList_ofList]
    exact ⟨hq, passes_iff.mpr ⟨⟨rest, by simp [hc]⟩, by simp⟩⟩
  · rintro ⟨hq, h⟩
    exact ⟨s.toList, d.rest, by simp [h.rest], hq, (String.ofList_toList ..).symm, by simpa using h.eq_skip⟩

/-! ## All scans -/

/-- Every scan at a cursor goes over what it asks for, if that comes next, and over nothing else. -/
structure ScansExactly (c : Cursor) : Prop where
  eat? (x : Char) (d : Cursor) : c.eat? x = some d ↔ c.Passes [x] d
  eatText? (w : String) (d : Cursor) : c.eatText? w = some d ↔ c.Passes w.toList d
  startsWith (w : String) : (c.eatText? w).isSome = c.startsWith w
  /-- A keyword comes next in any case of its ASCII letters. -/
  eatKeyword? (w : String) (d : Cursor) : c.eatKeyword? w = some d ↔
    ∃ front, front.map Char.toLower = w.toList.map Char.toLower ∧ c.Passes front d
  atKeyword (w : String) : (c.eatKeyword? w).isSome = c.atKeyword w
  /-- A `\r` before an `\n` is not gone over alone. -/
  eatLineBreak? (d : Cursor) : c.eatLineBreak? = some d ↔
    ∃ l : LineBreak, (l = .cr → d.current ≠ some '\n') ∧ c.Passes l.chars d
  span (p : Char → Bool) (s : String) (d : Cursor) : c.span p = (s, d) ↔ c.Takes p s d
  skipWhile (p : Char → Bool) (n : Nat) (d : Cursor) :
    c.runLength p = n ∧ c.skipWhile p = d ↔ ∃ s, c.Takes p s d ∧ s.length = n
  word? (p : Char → Bool) (s : String) (d : Cursor) : c.word? p = some (s, d) ↔ s ≠ "" ∧ c.Takes p s d
  restOfLine (s : String) (d : Cursor) : c.restOfLine = (s, d) ↔ c.Takes (fun x => !isLineBreak x) s d
  literal? (s : String) (d : Cursor) : c.literal? = some (s, d) ↔ s ≠ "" ∧ c.Takes (fun x => !isBlank x) s d
  identifier? (s : String) (d : Cursor) : c.identifier? = some (s, d) ↔
    (∃ x ∈ c.current, isLetter x = true) ∧ c.Takes isNameChar s d
  /-- The quotes are gone over with the text between them, which may be empty and may span lines. -/
  quoted? (s : String) (d : Cursor) : c.quoted? = some (s, d) ↔
    '"' ∉ s.toList ∧ c.Passes ('"' :: (s.toList ++ ['"'])) d

theorem scansExactly (c : Cursor) : c.ScansExactly where
  eat? _ _ := eat?_iff_passes
  eatText? _ _ := eatText?_iff_passes
  startsWith := isSome_eatText? c
  eatKeyword? _ _ := eatKeyword?_iff_passes
  atKeyword := isSome_eatKeyword? c
  eatLineBreak? _ := eatLineBreak?_iff_passes
  span _ _ _ := span_eq_iff_takes
  skipWhile _ _ _ := skipWhile_eq_iff_takes
  word? _ _ _ := word?_iff_takes
  restOfLine _ _ := span_eq_iff_takes
  literal? _ _ := word?_iff_takes
  identifier? _ _ := identifier?_iff_takes
  quoted? _ _ := quoted?_iff_passes

end Cursor

namespace Tape

open Cursor

/-- Wherever a cursor was led, each scan goes over what it asks for and over nothing else, as many characters as
that has; where it does not come next, or is empty, the cursor stays. Neither the cursor nor what is looked at
is ever beyond the text, and behind a character that comes next there is a rest of the text. -/
theorem taken_run (text : List Char) (moves : List Move) :
    let t := (start text).run moves
    let c := t.cursor
    c.ScansExactly ∧
    (∀ s : Scan, s.behind? c = none → (t.move (.scan s)).cursor = c) ∧
    (∀ (s : Scan) d, s.behind? c = some d → (t.move (.scan s)).cursor = d ∧ d.position.offset ≤ text.length) ∧
    (∀ d, c.Passes [] d ↔ d = c) ∧
    (∀ front d, c.Passes front d → d.position.offset = c.position.offset + front.length) ∧
    c.position.offset ≤ text.length ∧
    (∀ n, c.peek n = text[c.position.offset + n]?) ∧
    ∀ x, c.current = some x →
      c.position.offset + 1 ≤ text.length ∧ c.rest = x :: text.drop (c.position.offset + 1) := by
  intro t c
  have hon : t.On text := (on_start text).run moves
  have hc : c.Placed text := hon.placed c List.mem_cons_self
  refine ⟨c.scansExactly, fun s h => ?_, fun s d h => ?_, fun d => passes_nil_iff, fun front d h => h.offset_eq,
    hc.offset_le, fun n => ?_, fun x hx => ?_⟩
  · rw [Tape.move, h]; rfl
  · have hd : (t.move (.scan s)).cursor = d := by rw [Tape.move, h]; rfl
    exact ⟨hd, hd ▸ ((hon.move (.scan s)).placed _ List.mem_cons_self).offset_le⟩
  · rw [peek, hc.rest, List.getElem?_drop]
  · have hat : text[c.position.offset]? = some x := by rw [← List.head?_drop, ← hc.rest]; exact hx
    obtain ⟨hlt, rfl⟩ := List.getElem?_eq_some_iff.mp hat
    exact ⟨hlt, hc.rest.trans (List.drop_eq_getElem_cons hlt)⟩

/-- The first quote closes, on a later line too. -/
example :
    (start "\"a\nb\"\"\"".toList).cursor.quoted?.map (fun found => (found.1, found.2.position)) =
      some ("a\nb", ⟨2, 3, 5⟩) := by decide

end Tape

end BatchScript
