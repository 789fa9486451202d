import BatchScript.Proofs.Cursor.Reach
import BatchScript.Proofs.Grammar.Balanced
import BatchScript.Proofs.Cursor.Fronts
import Mathlib.Data.List.Find

/-!
# Local scans

Every scan of the grammar is local: what it takes, and how many characters it skips, is a
matter of what remains (`LocalScan?`, `LocalScan`, `LocalMove`). So at the same text a scan
does the same wherever the text begins. Most scans do not look beyond the end of the line
either, and do the same at a text that goes on behind its end with a new line; which texts they
cannot tell apart is a parameter of locality, and `Prolongs` says what is asked of it.

* `Prolongs.takeWhile`, `Prolongs.startsWith`, `Prolongs.lengthBefore`: what such texts have in common;
* `localScan_word?`, `localScan_upTo` and so on: scans that end with the line;
* `localScan_source?`, `localStep_eatLineBreak?`: scans that are local at the same text only.
-/

namespace BatchScript

namespace Text

/-- A character that has no part in a handle may come next. -/
theorem beginsWithHandle_append_cons {x : Char} {i rest : List Char} (hd : isHandleDigit x = false)
    (hx : isRedirectChar x = false) :
    Grammar.beginsWithHandle (i ++ x :: rest) = Grammar.beginsWithHandle i := by
  match i with
  | [] => cases rest with
    | nil => rfl
    | cons y rest => exact congrArg (· && isRedirectChar y) hd
  | [y] => exact (congrArg (isHandleDigit y && ·) hx).trans (Bool.and_false _)
  | y :: z :: i => rfl

/-- A relation under which the first text is the second one, or goes on behind it: always in the
same way, on a new line, and only where the second one has no double quote. -/
class Prolongs (E : List Char → List Char → Prop) : Prop where
  exists_tail : ∃ tail : List Char, (∀ x ∈ tail.head?, x = '\n') ∧
    ∀ {j i : List Char}, E j i → j = i ++ tail ∧ (tail ≠ [] → '"' ∉ i)

instance prolongsEq : Prolongs Eq where
  exists_tail := ⟨[], by simp, fun h => ⟨by simp [h], by simp⟩⟩

namespace Prolongs

variable {E : List Char → List Char → Prop} [Prolongs E] {i j : List Char} {p : Char → Bool}

theorem exists_eq_append (h : E j i) : ∃ tail, j = i ++ tail ∧ (∀ x ∈ tail.head?, x = '\n') ∧
    (tail ≠ [] → '"' ∉ i) := by
  obtain ⟨tail, ht, he⟩ := Prolongs.exists_tail (E := E)
  exact ⟨tail, (he h).1, ht, (he h).2⟩

/-- Both are the same, or the first text goes on with a new line. -/
theorem eq_or_eq_append_cons (h : E j i) : j = i ∨ ∃ rest, j = i ++ '\n' :: rest := by
  obtain ⟨tail, rfl, ht, -⟩ := exists_eq_append h
  cases tail with
  | nil => exact .inl (List.append_nil i)
  | cons y tail =>
    obtain rfl : y = '\n' := ht y rfl
    exact .inr ⟨tail, rfl⟩

theorem of_imp {E' : List Char → List Char → Prop} (h : ∀ {j i}, E' j i → E j i) : Prolongs E' := by
  obtain ⟨tail, ht, he⟩ := Prolongs.exists_tail (E := E)
  exact ⟨tail, ht, fun hj => he (h hj)⟩

theorem length_lt_iff {i' j' : List Char} (h : E j i) (h' : E j' i') :
    i'.length < i.length ↔ j'.length < j.length := by
  obtain ⟨tail, -, he⟩ := Prolongs.exists_tail (E := E)
  rw [(he h).1, (he h').1, List.length_append, List.length_append]
  omega

/-- What follows does not go on as the line does. -/
theorem stops_of_head {tail : List Char} (h : ∀ x ∈ tail.head?, x = '\n') (hp : p '\n' = false) :
    Stops p tail :=
  fun x hx => by rw [h x hx, hp]

theorem takeWhile (h : E j i) (hp : p '\n' = false) : j.takeWhile p = i.takeWhile p := by
  obtain ⟨tail, rfl, ht, -⟩ := exists_eq_append h
  exact takeWhile_append_right_of_stops (stops_of_head ht hp)

theorem any_head (h : E j i) (hp : p '\n' = false) : j.head?.any p = i.head?.any p := by
  obtain rfl | ⟨rest, rfl⟩ := eq_or_eq_append_cons h
  · rfl
  · cases i with
    | nil => exact hp
    | cons x i => rfl

theorem all_head_append {tail : List Char} (ht : ∀ x ∈ tail.head?, x = '\n') (hp : p '\n' = true) (i : List Char) :
    (i ++ tail).head?.all p = i.head?.all p := by
  cases i with
  | cons x i => rfl
  | nil => cases tail with
    | nil => rfl
    | cons y tail => simpa [ht y rfl] using hp

theorem head_iff (h : E j i) {x : Char} (hx : x ≠ '\n') : j.head? = some x ↔ i.head? = some x := by
  have hp : ('\n' == x) = false := beq_false_of_ne hx.symm
  have hany : j.head?.any (· == x) = i.head?.any (· == x) := any_head h hp
  simpa [Option.any_eq_true] using Bool.eq_iff_iff.mp hany

theorem startsWith (h : E j i) {word : List Char} (hw : '\n' ∉ word) : word.isPrefixOf j = word.isPrefixOf i := by
  obtain rfl | ⟨rest, rfl⟩ := eq_or_eq_append_cons h
  · rfl
  · exact isPrefixOf_append_cons hw

theorem beginsWithWord (h : E j i) {word : List Char} (hw : '\n' ∉ word.map Char.toLower) :
    Text.beginsWithWord word j = Text.beginsWithWord word i := by
  obtain rfl | ⟨rest, rfl⟩ := eq_or_eq_append_cons h
  · rfl
  · exact beginsWithWord_append_cons (x := '\n') hw

/-- A search that ends with the line, and in which what comes before the end does not depend on what
comes behind it. -/
theorem lengthBefore (h : E j i) {stop : List Char → Bool} (hend : ∀ rest, stop ('\n' :: rest) = true)
    (hline : ∀ v rest, v ≠ [] → stop (v ++ '\n' :: rest) = stop v) :
    Cursor.lengthBefore stop 0 j = Cursor.lengthBefore stop 0 i := by
  obtain rfl | ⟨rest, rfl⟩ := eq_or_eq_append_cons h
  · rfl
  · exact Cursor.lengthBefore_append_cons (hend rest) fun v _ => hline v rest

/-- What follows a digit at the end of the line is no redirection. -/
theorem beginsWithHandle (h : E j i) : Grammar.beginsWithHandle j = Grammar.beginsWithHandle i := by
  obtain rfl | ⟨rest, rfl⟩ := eq_or_eq_append_cons h
  · rfl
  · exact beginsWithHandle_append_cons rfl rfl

end Prolongs

end Text

namespace Cursor

open Text

variable {α : Type} {E : List Char → List Char → Prop}

/-! ## Locality -/

section Locality

variable (E)

/-- A move that skips as many characters as what remains tells. -/
def LocalMove (f : Cursor → Cursor) : Prop :=
  ∀ ⦃c d : Cursor⦄, E d.rest c.rest → ∃ n ≤ c.rest.length, f c = c.skip n ∧ f d = d.skip n

/-- A scan whose value and length what remains tells. -/
def LocalScan (f : Cursor → α × Cursor) : Prop :=
  ∀ ⦃c d : Cursor⦄, E d.rest c.rest →
    ∃ a, ∃ n ≤ c.rest.length, f c = (a, c.skip n) ∧ f d = (a, d.skip n)

/-- A scan that may answer nothing, whose answer and length what remains tells. -/
def LocalScan? (f : Cursor → Option (α × Cursor)) : Prop :=
  ∀ ⦃c d : Cursor⦄, E d.rest c.rest → f c = none ∧ f d = none ∨
    ∃ a, ∃ n ≤ c.rest.length, f c = some (a, c.skip n) ∧ f d = some (a, d.skip n)

/-- A step that may be none, whose length what remains tells. -/
def LocalStep? (f : Cursor → Option Cursor) : Prop :=
  ∀ ⦃c d : Cursor⦄, E d.rest c.rest → f c = none ∧ f d = none ∨
    ∃ n ≤ c.rest.length, f c = some (c.skip n) ∧ f d = some (d.skip n)

/-- A question that what remains answers. -/
def LocalTest (p : Cursor → Bool) : Prop :=
  ∀ ⦃c d : Cursor⦄, E d.rest c.rest → p d = p c

end Locality

theorem LocalStep?.scan {f : Cursor → Option Cursor} (hf : LocalStep? E f) :
    LocalScan? E fun c => (f c).map fun d => ((), d) := by
  intro c d h
  obtain ⟨hc, hd⟩ | ⟨n, hn, hc, hd⟩ := hf h
  · exact .inl ⟨by simp only [hc]; rfl, by simp only [hd]; rfl⟩
  · exact .inr ⟨(), n, hn, by simp only [hc]; rfl, by simp only [hd]; rfl⟩

theorem LocalStep?.orElse {f g : Cursor → Option Cursor} (hf : LocalStep? E f) (hg : LocalStep? E g) :
    LocalStep? E fun c => f c <|> g c := by
  intro c d h
  obtain ⟨hc, hd⟩ | ⟨n, hn, hc, hd⟩ := hf h
  · simp only [hc, hd]
    exact hg h
  · exact .inr ⟨n, hn, by simp only [hc]; rfl, by simp only [hd]; rfl⟩

theorem LocalStep?.getD {f : Cursor → Option Cursor} (hf : LocalStep? E f) : LocalMove E fun c => (f c).getD c := by
  intro c d h
  obtain ⟨hc, hd⟩ | ⟨n, hn, hc, hd⟩ := hf h
  · exact ⟨0, Nat.zero_le _, by simp only [hc]; rfl, by simp only [hd]; rfl⟩
  · exact ⟨n, hn, by simp only [hc]; rfl, by simp only [hd]; rfl⟩

theorem localMove_skipWhile {p : Char → Bool} (hp : ∀ {j i}, E j i → j.takeWhile p = i.takeWhile p) :
    LocalMove E (·.skipWhile p) :=
  fun c _ h => ⟨c.runLength p, (List.takeWhile_prefix _).length_le, rfl, by simp only [skipWhile, runLength, hp h]⟩

theorem localStep_eat? {x : Char} (hx : ∀ {j i}, E j i → (j.head? = some x ↔ i.head? = some x)) :
    LocalStep? E (·.eat? x) := by
  intro c d h
  simp only [eat?, current, hx h]
  by_cases hc : c.rest.head? = some x
  · refine .inr ⟨1, ?_, if_pos hc, if_pos hc⟩
    cases hr : c.rest with
    | nil => simp [hr] at hc
    | cons y rest => simp
  · exact .inl ⟨if_neg hc, if_neg hc⟩

theorem localStep_eatText? {text : String}
    (ht : ∀ {j i}, E j i → text.toList.isPrefixOf j = text.toList.isPrefixOf i) :
    LocalStep? E (·.eatText? text) := by
  intro c d h
  simp only [eatText?, startsWith, ht h]
  by_cases ht : text.toList.isPrefixOf c.rest = true
  · exact .inr ⟨_, (List.isPrefixOf_iff_prefix.mp ht).length_le, if_pos ht, if_pos ht⟩
  · exact .inl ⟨if_neg ht, if_neg ht⟩

theorem localTest_atEnd : LocalTest Eq fun c => !c.atEnd :=
  fun c d h => by simp only [atEnd, h]

/-! ## Scans that end with the line -/

section Lines

variable [Prolongs E]

theorem localTest_current_ne {x : Char} (hx : x ≠ '\n') : LocalTest E fun c => c.current != some x := by
  intro c d h
  have hx : d.current = some x ↔ c.current = some x := Prolongs.head_iff h hx
  rw [Bool.eq_iff_iff, bne_iff_ne, bne_iff_ne, Ne, Ne, hx]

theorem localStep_eat?_of_ne {x : Char} (hx : x ≠ '\n') : LocalStep? E (·.eat? x) :=
  localStep_eat? fun h => Prolongs.head_iff h hx

theorem localStep_eatText?_of_notMem {text : String} (ht : '\n' ∉ text.toList) : LocalStep? E (·.eatText? text) :=
  localStep_eatText? fun h => Prolongs.startsWith h ht

theorem localStep_eatKeyword? {word : String} (hx : '\n' ∉ word.toList.map Char.toLower) :
    LocalStep? E (·.eatKeyword? word) := by
  intro c d h
  simp only [eatKeyword?, atKeyword, Prolongs.beginsWithWord h hx]
  by_cases hw : beginsWithWord word.toList c.rest = true
  · exact .inr ⟨_, length_le_of_beginsWithWord hw, if_pos hw, if_pos hw⟩
  · exact .inl ⟨if_neg hw, if_neg hw⟩

theorem localScan_eatFirst? {spelling : α → String} {choices : List α}
    (hx : ∀ a ∈ choices, '\n' ∉ (spelling a).toList) : LocalScan? E (·.eatFirst? spelling choices) := by
  intro c d h
  induction choices with
  | nil => exact .inl ⟨rfl, rfl⟩
  | cons a others ih =>
    have ih := ih fun b hb => hx b (List.mem_cons_of_mem _ hb)
    simp only [eatFirst?, List.findSome?_cons] at ih ⊢
    obtain ⟨hc, hd⟩ | ⟨n, hn, hc, hd⟩ := localStep_eatText?_of_notMem (hx a List.mem_cons_self) h
    · simp only [hc, hd]
      exact ih
    · exact .inr ⟨a, n, hn, by simp only [hc]; rfl, by simp only [hd]; rfl⟩

theorem localScan_span {p : Char → Bool} (hp : p '\n' = false) : LocalScan E (·.span p) :=
  fun c _ h => ⟨_, c.runLength p, (List.takeWhile_prefix _).length_le, rfl, by
    simp only [span, skipWhile, runLength, Prolongs.takeWhile h hp]⟩

theorem localScan_word? {p : Char → Bool} (hp : p '\n' = false) : LocalScan? E (·.word? p) := by
  intro c d h
  simp only [word?, span, skipWhile, runLength, Prolongs.takeWhile h hp]
  by_cases hl : (c.rest.takeWhile p).length = 0
  · exact .inl ⟨if_pos hl, if_pos hl⟩
  · exact .inr ⟨_, _, (List.takeWhile_prefix _).length_le, if_neg hl, if_neg hl⟩

theorem localScan_identifier? : LocalScan? E identifier? := by
  intro c d h
  have hl : d.rest.head?.any isLetter = c.rest.head?.any isLetter := Prolongs.any_head h (by decide +kernel)
  have hn : d.rest.takeWhile isNameChar = c.rest.takeWhile isNameChar := Prolongs.takeWhile h (by decide +kernel)
  simp only [identifier?, current, span, skipWhile, runLength, hl, hn]
  by_cases hl : c.rest.head?.any isLetter = true
  · exact .inr ⟨_, _, (List.takeWhile_prefix _).length_le, if_pos hl, if_pos hl⟩
  · exact .inl ⟨if_neg hl, if_neg hl⟩

/-- A quote may run over many lines, but not where the text goes on. -/
theorem localScan_quoted? : LocalScan? E quoted? := by
  intro c d h
  obtain ⟨tail, hd, ht, hq⟩ := Prolongs.exists_eq_append h
  by_cases hne : tail = []
  · rw [hne, List.append_nil] at hd
    unfold quoted?
    rw [hd]
    split
    · rename_i rest hr
      simp only [left_eq, hd]
      by_cases hl : (rest.takeWhile (· != '"')).length + 1 < c.rest.length
      · exact .inr ⟨_, _, hl, if_pos hl, if_pos hl⟩
      · exact .inl ⟨if_neg hl, if_neg hl⟩
    · exact .inl ⟨rfl, rfl⟩
  · have hc : c.rest.head?.any (· == '"') = false := by
      cases hr : c.rest with
      | nil => rfl
      | cons x rest => exact beq_false_of_ne fun e : x = '"' => hq hne (hr ▸ e ▸ List.mem_cons_self)
    have hd : d.rest.head?.any (· == '"') = false := by
      have hp : ('\n' == '"') = false := rfl
      rw [Prolongs.any_head h hp, hc]
    exact .inl ⟨quoted?_eq_none fun r hr => by simp [hr] at hc, quoted?_eq_none fun r hr => by simp [hr] at hd⟩

theorem localScan_upTo {stop : List Char → Bool} (hend : ∀ rest, stop ('\n' :: rest) = true)
    (hline : ∀ v rest, v ≠ [] → stop (v ++ '\n' :: rest) = stop v) : LocalScan E (·.upTo stop) := by
  intro c d h
  have hl := lengthBefore_le_length stop c.rest
  refine ⟨_, _, hl, rfl, ?_⟩
  simp only [upTo, Prolongs.lengthBefore h hend hline]
  obtain ⟨tail, hd, -, -⟩ := Prolongs.exists_eq_append h
  rw [hd, List.take_append_of_le_length hl]

/-- A line break is one or two characters long, which the end of a text leaves open. -/
theorem localStep_eatLineBreak? (hE : ∀ {j i}, E j i → j = i ∨ i ≠ [] ∧ i ≠ ['\r']) :
    LocalStep? E eatLineBreak? := by
  have hsame : ∀ {j i}, E j i → j.head? = i.head? ∧
      "\r\n".toList.isPrefixOf j = "\r\n".toList.isPrefixOf i := by
    intro j i h
    obtain ⟨tail, hj, -, -⟩ := Prolongs.exists_eq_append h
    rcases hE h with rfl | ⟨hne, hr⟩
    · exact ⟨rfl, rfl⟩
    · rw [hj]
      match i with
      | [] => exact absurd rfl hne
      | [x] =>
        have hx : x ≠ '\r' := fun e => hr (by rw [e])
        simp [List.isPrefixOf, Ne.symm hx]
      | x :: y :: rest => simp [List.isPrefixOf]
  exact (localStep_eatText? fun h => (hsame h).2).orElse <|
    (localStep_eat? fun h => by rw [(hsame h).1]).orElse (localStep_eat? fun h => by rw [(hsame h).1])

end Lines

end Cursor

namespace Grammar

open Cursor Text

variable {E : List Char → List Char → Prop} [Prolongs E]

theorem localScan_letter? : LocalScan? E letter? := by
  intro c d h
  have hany : d.rest.head?.any isLetter = c.rest.head?.any isLetter := Prolongs.any_head h (by decide +kernel)
  have hf : ∀ {i : List Char}, i.head?.any isLetter = false → i.head?.filter isLetter = none := by
    intro i hi
    cases i with
    | nil => rfl
    | cons x i => exact if_neg (by simpa using hi)
  obtain ⟨tail, hd, -, -⟩ := Prolongs.exists_eq_append h
  simp only [letter?, current]
  cases hl : c.rest.head?.any isLetter with
  | false => exact .inl ⟨by rw [hf hl]; rfl, by rw [hf (hany.trans hl)]; rfl⟩
  | true =>
    cases hc : c.rest with
    | nil => simp [hc] at hl
    | cons x rest =>
      have hx : isLetter x = true := by simpa [hc] using hl
      have hs : (some x).filter isLetter = some x := if_pos hx
      rw [hd, hc]
      exact .inr ⟨x, 1, by simp, by rw [List.head?_cons, hs]; rfl, by rw [List.cons_append, List.head?_cons, hs]; rfl⟩

theorem localScan_commentText? : LocalScan? E commentText? := by
  intro c d h
  obtain ⟨tail, hd, ht, -⟩ := Prolongs.exists_eq_append h
  have hend : d.rest.head?.all isLineBreak = c.rest.head?.all isLineBreak := by
    rw [hd]; exact Prolongs.all_head_append ht rfl _
  have hspace : d.rest.head?.any isSpace = c.rest.head?.any isSpace := Prolongs.any_head h rfl
  simp only [commentText?, atLineEnd, current, restOfLine, span, skipWhile, runLength, rest_next, hend, hspace]
  by_cases hl : c.rest.head?.all isLineBreak = true
  · exact .inr ⟨"", 0, Nat.zero_le _, if_pos hl, if_pos hl⟩
  · simp only [if_neg hl]
    by_cases hs : c.rest.head?.any isSpace = true
    · cases hc : c.rest with
      | nil => simp [hc] at hs
      | cons x rest =>
        have hline : (rest ++ tail).takeWhile (fun x => !isLineBreak x) = rest.takeWhile fun x => !isLineBreak x :=
          takeWhile_append_right_of_stops (Prolongs.stops_of_head ht rfl)
        rw [hc] at hs
        refine .inr ⟨_, (rest.takeWhile fun x => !isLineBreak x).length + 1, ?_, if_pos hs, ?_⟩
        · exact Nat.succ_le_succ (List.takeWhile_prefix _).length_le
        · rw [if_pos hs, hd, hc, List.cons_append, List.tail_cons, hline]; rfl
    · exact .inl ⟨if_neg hs, if_neg hs⟩

theorem localScan_stream? (inBlock : Bool) : LocalScan? E (stream? inBlock) := by
  intro c d h
  obtain ⟨hc, hd⟩ | ⟨a, n, hn, hc, hd⟩ := localScan_word? (p := Char.isDigit) rfl h
  · exact .inl ⟨by simp only [stream?, hc]; rfl, by simp only [stream?, hd]; rfl⟩
  · have he : (d.rest.drop n).head?.all (endsStream inBlock) = (c.rest.drop n).head?.all (endsStream inBlock) := by
      obtain ⟨tail, hd, ht, -⟩ := Prolongs.exists_eq_append h
      rw [hd, List.drop_append_of_le_length hn]
      exact Prolongs.all_head_append ht (by cases inBlock <;> rfl) _
    simp only [stream?, hc, hd, Option.filter_some, current, rest_skip, he]
    by_cases he : (c.rest.drop n).head?.all (endsStream inBlock) = true
    · exact .inr ⟨a, n, hn, if_pos he, if_pos he⟩
    · exact .inl ⟨if_neg he, if_neg he⟩

theorem localScan_handle : LocalScan E handle := by
  intro c d h
  simp only [handle, Prolongs.beginsWithHandle h]
  by_cases hh : beginsWithHandle c.rest = true
  · have hl : 1 ≤ c.rest.length := by
      cases hr : c.rest with
      | nil => simp [hr, beginsWithHandle] at hh
      | cons x rest => simp
    obtain ⟨tail, hd, -, -⟩ := Prolongs.exists_eq_append h
    refine ⟨_, 1, hl, if_pos hh, ?_⟩
    rw [if_pos hh, hd, List.take_append_of_le_length hl]; rfl
  · exact ⟨_, 0, Nat.zero_le _, if_neg hh, if_neg hh⟩

/-- At the end of the line the search for `==` ends; a single `=` there is none. -/
theorem localScan_leftSide : LocalScan E (·.upTo endsLeftSide) := by
  refine localScan_upTo (fun rest => rfl) fun v rest hv => ?_
  match v with
  | [] => exact absurd rfl hv
  | [x] => simp [endsLeftSide, List.isPrefixOf]
  | x :: y :: v => simp [endsLeftSide, List.isPrefixOf]

/-- At the end of the line a message ends; a handle digit there belongs to it. -/
theorem localScan_message (inBlock : Bool) : LocalScan E (·.upTo (endsMessage inBlock)) := by
  refine localScan_upTo (fun rest => rfl) fun v rest hv => ?_
  match v with
  | [] => exact absurd rfl hv
  | [x] => exact congrArg (_ || ·) (Bool.and_false _)
  | x :: y :: v => rfl

/-! ## Scans that may look further -/

/-- A keyword of comparison is three characters long, and a blank has to come behind it, which the
end of a text leaves open. -/
theorem localScan_relationKeyword? (hE : ∀ {j i}, E j i → j = i ∨ i.length ≠ 3) :
    LocalScan? E relationKeyword? := by
  intro c d h
  have hsame : ∀ k ∈ Keyword.relations,
      (beginsWithWord k.text.toList d.rest && d.rest[k.text.length]?.any isBlank) =
        (beginsWithWord k.text.toList c.rest && c.rest[k.text.length]?.any isBlank) := by
    intro k hk
    obtain ⟨tail, hd, -, -⟩ := Prolongs.exists_eq_append h
    have hlen : k.text.length = 3 ∧ k.text.toList.length = 3 := by revert k; decide
    rw [Prolongs.beginsWithWord h (by cases k <;> decide)]
    cases hb : beginsWithWord k.text.toList c.rest with
    | false => rfl
    | true =>
      have hle := length_le_of_beginsWithWord hb
      rcases hE h with he | hne
      · rw [he]
      · rw [hd, List.getElem?_append_left (by omega)]
  simp only [relationKeyword?, atKeyword, peek, List.find?_congr hsame]
  cases hf : Keyword.relations.find? fun k =>
      beginsWithWord k.text.toList c.rest && c.rest[k.text.length]?.any isBlank with
  | none => exact .inl ⟨rfl, rfl⟩
  | some k =>
    have hk := List.find?_some hf
    rw [Bool.and_eq_true] at hk
    have hle := length_le_of_beginsWithWord hk.1
    obtain ⟨tail, hd, -, -⟩ := Prolongs.exists_eq_append h
    refine .inr ⟨_, _, hle, rfl, ?_⟩
    rw [hd, Option.map_some, ← String.length_toList, List.take_append_of_le_length hle]

theorem localScan_source? : LocalScan? Eq source? := by
  intro c d h
  simp only [source?, h]
  cases hn : sourceLength? 0 0 none c.rest with
  | none => exact .inl ⟨rfl, rfl⟩
  | some n => exact .inr ⟨_, _, lt_length_of_sourceLength? hn, rfl, rfl⟩

end Grammar

end BatchScript
