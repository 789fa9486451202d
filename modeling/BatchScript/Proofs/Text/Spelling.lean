import BatchScript.Grammar.Statement
import BatchScript.Grammar.Leaf
import BatchScript.Proofs.Text.Fronts
import BatchScript.Proofs.Cursor.Fronts

/-!
# A text in another spelling

A spelling writes each letter in one case or the other, and each line feed as one of the line
breaks; it leaves every other character as it is (`Spelling`). What the grammar looks for in a text
is found in every spelling of it, at the place that belongs to it:

* `takeWhile_text`: runs of an indifferent class of characters;
* `isPrefixOf_text`, `beginsWithWord_text`: punctuation and keywords;
* `lengthBefore_text`, `sourceLength?_text`: searches.
-/

namespace BatchScript

open Text

/-- A way to spell a script, in which no letter changes but for its case, and no line break but for
its kind. -/
structure Spelling where
  /-- How a character other than a line feed is spelled. -/
  letter : Char → Char
  /-- How a line feed is spelled. -/
  lineFeed : List Char
  toLower_letter (c : Char) : (letter c).toLower = c.toLower
  lineFeed_mem : lineFeed ∈ [['\n'], ['\r'], ['\r', '\n']]

namespace Spelling

/-- How one character is spelled. -/
def spell (σ : Spelling) (c : Char) : List Char :=
  if c = '\n' then σ.lineFeed else [σ.letter c]

/-- How a text is spelled. -/
def text (σ : Spelling) (i : List Char) : List Char :=
  i.flatMap σ.spell

/-- Whether a text may be spelled so: where a line feed is spelled with a carriage return, the text
has no carriage return of its own. -/
def Fits (σ : Spelling) (i : List Char) : Prop :=
  σ.lineFeed = ['\n'] ∨ '\r' ∉ i

variable (σ : Spelling) {p : Char → Bool} {c d x y : Char} {i j : List Char}

theorem lineFeed_cases : σ.lineFeed = ['\n'] ∨ σ.lineFeed = ['\r'] ∨ σ.lineFeed = ['\r', '\n'] := by
  have h := σ.lineFeed_mem
  simpa using h

variable {σ} in
theorem Fits.of_suffix (h : σ.Fits i) (hj : j <:+ i) : σ.Fits j :=
  h.imp id (mt fun hm => hj.subset hm)

/-! ## Characters -/

theorem apply_letter (hp : Caseless p) (c : Char) : p (σ.letter c) = p c :=
  hp.eq (σ.toLower_letter c)

theorem letter_beq (hd : Caseless (· == d)) (c : Char) : (σ.letter c == d) = (c == d) :=
  σ.apply_letter hd c

theorem letter_eq_iff (hd : Caseless (· == d)) : σ.letter c = d ↔ c = d := by
  rw [← beq_iff_eq, σ.letter_beq hd, beq_iff_eq]

@[simp] theorem letter_eq_lineFeed_iff : σ.letter c = '\n' ↔ c = '\n' :=
  σ.letter_eq_iff (.of_letters (by decide))

@[simp] theorem letter_eq_return_iff : σ.letter c = '\r' ↔ c = '\r' :=
  σ.letter_eq_iff (.of_letters (by decide))

theorem letter_of_isMark (hd : isMark d = true) : σ.letter d = d :=
  (σ.letter_eq_iff (indifferent_beq hd).caseless).mpr rfl

@[simp] theorem letter_lineFeed : σ.letter '\n' = '\n' :=
  σ.letter_eq_lineFeed_iff.mpr rfl

theorem spell_lineFeed : σ.spell '\n' = σ.lineFeed :=
  if_pos rfl

theorem spell_of_ne (h : x ≠ '\n') : σ.spell x = [σ.letter x] :=
  if_neg h

theorem spell_ne_nil (x : Char) : σ.spell x ≠ [] := by
  by_cases h : x = '\n'
  · subst h
    rw [spell_lineFeed]
    obtain h | h | h := σ.lineFeed_cases <;> simp [h]
  · simp [σ.spell_of_ne h]

/-- The characters of a spelling are of the classes of the character that is spelled. -/
theorem apply_of_mem_spell (hp : Indifferent p) (hy : y ∈ σ.spell x) : p y = p x := by
  by_cases h : x = '\n'
  · subst h
    rw [spell_lineFeed] at hy
    obtain h | h | h := σ.lineFeed_cases <;> rw [h] at hy
    · rw [List.mem_singleton.mp hy]
    · rw [List.mem_singleton.mp hy, hp.lineBreak]
    · obtain rfl | hy := List.mem_cons.mp hy
      · exact hp.lineBreak
      · rw [List.mem_singleton.mp hy]
  · rw [σ.spell_of_ne h, List.mem_singleton] at hy
    rw [hy, σ.apply_letter hp.caseless]

/-! ## Texts -/

@[simp] theorem text_nil : σ.text [] = [] := rfl

@[simp] theorem text_cons : σ.text (x :: i) = σ.spell x ++ σ.text i := rfl

@[simp] theorem text_append : σ.text (i ++ j) = σ.text i ++ σ.text j :=
  List.flatMap_append

theorem text_cons_of_ne (h : x ≠ '\n') : σ.text (x :: i) = σ.letter x :: σ.text i := by
  rw [text_cons, σ.spell_of_ne h]; rfl

@[simp] theorem text_eq_nil_iff : σ.text i = [] ↔ i = [] := by
  cases i with
  | nil => simp
  | cons x i => simp [σ.spell_ne_nil]

theorem text_of_notMem (h : '\n' ∉ i) : σ.text i = i.map σ.letter := by
  induction i with
  | nil => rfl
  | cons x i ih =>
    rw [List.mem_cons, not_or] at h
    rw [σ.text_cons_of_ne (Ne.symm h.1), ih h.2, List.map_cons]

theorem mem_text_iff (hy : isMark y = true) : y ∈ σ.text i ↔ y ∈ i := by
  constructor
  · intro h
    obtain ⟨x, hx, hm⟩ := List.mem_flatMap.mp h
    have he := σ.apply_of_mem_spell (indifferent_beq hy) hm
    rw [beq_self_eq_true] at he
    exact beq_iff_eq.mp he.symm ▸ hx
  · intro h
    refine List.mem_flatMap.mpr ⟨y, h, ?_⟩
    rw [σ.spell_of_ne (by rintro rfl; cases hy), σ.letter_of_isMark hy]
    exact List.mem_singleton_self y

theorem length_text_of_notMem (h : '\n' ∉ i) : (σ.text i).length = i.length := by
  rw [σ.text_of_notMem h, List.length_map]

theorem text_eq_map (h : σ.lineFeed = ['\n']) : σ.text i = i.map σ.letter := by
  induction i with
  | nil => rfl
  | cons x i ih =>
    by_cases hx : x = '\n'
    · rw [hx, text_cons, spell_lineFeed, h, ih, List.map_cons, letter_lineFeed]; rfl
    · rw [σ.text_cons_of_ne hx, ih, List.map_cons]

theorem head?_text_ne (h : σ.lineFeed = ['\r']) : (σ.text i).head? ≠ some '\n' := by
  cases i with
  | nil => simp
  | cons x i =>
    by_cases hx : x = '\n'
    · rw [hx, text_cons, spell_lineFeed, h]; simp
    · rw [σ.text_cons_of_ne hx]; simpa using hx

theorem take_length_text (i : List Char) (n : Nat) : (σ.text i).take (σ.text (i.take n)).length = σ.text (i.take n) := by
  have h : σ.text i = σ.text (i.take n) ++ σ.text (i.drop n) := by rw [← text_append, List.take_append_drop]
  rw [h, List.take_left]

/-- More text is spelled with more characters. -/
theorem length_text_take_lt {m n : Nat} (h : m < n) (hn : n ≤ i.length) :
    (σ.text (i.take m)).length < (σ.text (i.take n)).length := by
  have hs : i.take n = i.take m ++ (i.drop m).take (n - m) := by
    rw [← List.take_add, Nat.add_sub_cancel' (Nat.le_of_lt h)]
  have hne : σ.text ((i.drop m).take (n - m)) ≠ [] := by
    rw [ne_eq, text_eq_nil_iff, ← List.length_eq_zero_iff, List.length_take, List.length_drop]
    omega
  rw [hs, text_append, List.length_append]
  have := List.length_pos_iff.mpr hne
  omega

theorem length_text_take_lt_iff {m n : Nat} (hm : m ≤ i.length) (hn : n ≤ i.length) :
    (σ.text (i.take m)).length < (σ.text (i.take n)).length ↔ m < n := by
  refine ⟨fun h => ?_, fun h => σ.length_text_take_lt h hn⟩
  apply Nat.lt_of_not_le
  intro hle
  obtain h' | rfl := Nat.lt_or_eq_of_le hle
  · exact absurd (σ.length_text_take_lt h' hm) (Nat.lt_asymm h)
  · exact Nat.lt_irrefl _ h

/-! ## Runs of characters -/

theorem head?_any_text (hp : Indifferent p) : (σ.text i).head?.any p = i.head?.any p := by
  cases i with
  | nil => rfl
  | cons x i =>
    obtain ⟨y, ys, hy⟩ := List.exists_cons_of_ne_nil (σ.spell_ne_nil x)
    rw [text_cons, hy, List.cons_append, List.head?_cons, List.head?_cons, Option.any_some, Option.any_some]
    exact σ.apply_of_mem_spell hp (by rw [hy]; exact List.mem_cons_self)

theorem takeWhile_text (hp : Indifferent p) : (σ.text i).takeWhile p = σ.text (i.takeWhile p) := by
  induction i with
  | nil => rfl
  | cons x i ih =>
    rw [text_cons]
    cases hx : p x with
    | true =>
      rw [List.takeWhile_append_of_pos fun y hy => (σ.apply_of_mem_spell hp hy).trans hx, ih,
        List.takeWhile_cons_of_pos hx, text_cons]
    | false =>
      obtain ⟨y, ys, hy⟩ := List.exists_cons_of_ne_nil (σ.spell_ne_nil x)
      have hpy : p y = false := (σ.apply_of_mem_spell hp (by rw [hy]; exact List.mem_cons_self)).trans hx
      rw [hy, List.cons_append, List.takeWhile_cons_of_neg (by simp [hpy]), List.takeWhile_cons_of_neg (by simp [hx]),
        text_nil]

theorem trim_map_letter : trim (i.map σ.letter) = (trim i).map σ.letter := by
  have h : isBlank ∘ σ.letter = isBlank := funext fun c => σ.apply_letter (.of_letters (by decide)) c
  simp only [trim, List.dropWhile_map, ← List.map_reverse, h]

/-! ## Fixed texts -/

theorem isPrefixOf_text {word : List Char} (hw : ∀ d ∈ word, isMark d = true) :
    word.isPrefixOf (σ.text i) = word.isPrefixOf i := by
  induction word generalizing i with
  | nil => simp
  | cons d word ih =>
    have hd := indifferent_beq (hw d List.mem_cons_self)
    cases i with
    | nil => rfl
    | cons x i =>
      by_cases hx : x = '\n'
      · obtain ⟨y, ys, hy⟩ := List.exists_cons_of_ne_nil (σ.spell_ne_nil x)
        have hyx : (y == d) = (x == d) := σ.apply_of_mem_spell hd (by rw [hy]; exact List.mem_cons_self)
        have hxd : (x == d) = false := by
          rw [hx, beq_eq_false_iff_ne]
          rintro rfl
          exact absurd (hw _ List.mem_cons_self) (by decide)
        rw [text_cons, hy, List.cons_append, List.isPrefixOf, List.isPrefixOf, BEq.comm, hyx, BEq.comm (a := d), hxd,
          Bool.false_and, Bool.false_and]
      · rw [σ.text_cons_of_ne hx, List.isPrefixOf, List.isPrefixOf, BEq.comm, σ.letter_beq hd.caseless,
          BEq.comm (a := d), ih fun e he => hw e (List.mem_cons_of_mem d he)]

/-- A keyword has no line break in it, in any case of its letters. -/
def IsWord (word : List Char) : Prop :=
  '\n' ∉ word.map Char.toLower ∧ '\r' ∉ word.map Char.toLower

instance (word : List Char) : Decidable (IsWord word) :=
  inferInstanceAs (Decidable (_ ∧ _))

theorem isWord_text (k : Keyword) : IsWord k.text.toList := by
  cases k <;> decide

theorem notMem_take_of_beginsWithWord {word : List Char} (hw : IsWord word) (h : beginsWithWord word i = true) :
    '\n' ∉ i.take word.length := by
  intro hm
  have := List.mem_map_of_mem (f := Char.toLower) hm
  rw [beginsWithWord_iff.mp h] at this
  exact hw.1 this

theorem beginsWithWord_text {word : List Char} (hw : IsWord word) :
    beginsWithWord word (σ.text i) = beginsWithWord word i := by
  induction word generalizing i with
  | nil => rfl
  | cons k word ih =>
    have hk : k.toLower ≠ '\n' ∧ k.toLower ≠ '\r' :=
      ⟨fun e => hw.1 (by simp [e]), fun e => hw.2 (by simp [e])⟩
    have ht : IsWord word :=
      ⟨fun h => hw.1 (List.mem_cons_of_mem _ h), fun h => hw.2 (List.mem_cons_of_mem _ h)⟩
    cases i with
    | nil => rfl
    | cons x i =>
      by_cases hx : x = '\n'
      · subst hx
        have hn : ∀ y : Char, y.toLower ≠ k.toLower → sameLetter y k = false :=
          fun y h => beq_eq_false_iff_ne.mpr h
        rw [text_cons, spell_lineFeed]
        obtain h | h | h := σ.lineFeed_cases
        all_goals
          rw [h, List.cons_append, beginsWithWord, beginsWithWord]
          rw [hn '\n' fun e => hk.1 e.symm]
          try rw [hn '\r' fun e => hk.2 e.symm]
          rfl
      · rw [σ.text_cons_of_ne hx, beginsWithWord, beginsWithWord, ih ht, sameLetter, sameLetter, σ.toLower_letter]

theorem beginsWithHandle_text : Grammar.beginsWithHandle (σ.text i) = Grammar.beginsWithHandle i := by
  have h : ∀ (x : Char) (j : List Char),
      Grammar.beginsWithHandle (x :: j) = (isHandleDigit x && j.head?.any isRedirectChar) := by
    intro x j
    cases j with
    | nil => simp [Grammar.beginsWithHandle]
    | cons y j => rfl
  cases i with
  | nil => rfl
  | cons x i =>
    by_cases hx : x = '\n'
    · subst hx
      rw [text_cons, spell_lineFeed]
      obtain e | e | e := σ.lineFeed_cases <;> rw [e, List.cons_append, h, h] <;> rfl
    · rw [σ.text_cons_of_ne hx, h, h, σ.head?_any_text (.of_letters (by decide) (by decide)),
        σ.apply_letter (p := isHandleDigit) (.of_letters (by decide))]

/-! ## Searches -/

/-- A search that ends at the end of the line at the latest. -/
theorem lengthBefore_text {stop : List Char → Bool} (hs : ∀ j, stop (σ.text j) = stop j)
    (hn : ∀ j, stop ('\n' :: j) = true) (n : Nat) :
    Cursor.lengthBefore stop n (σ.text i) = Cursor.lengthBefore stop n i := by
  induction i generalizing n with
  | nil => rfl
  | cons x i ih =>
    by_cases hx : x = '\n'
    · obtain ⟨y, ys, hy⟩ := List.exists_cons_of_ne_nil (mt (σ.text_eq_nil_iff (i := x :: i)).mp (List.cons_ne_nil x i))
      have ht := hs (x :: i)
      rw [hx, hn, ← hx, hy] at ht
      rw [hy, Cursor.lengthBefore, if_pos ht, hx, Cursor.lengthBefore, if_pos (hn i)]
    · have ht := hs (x :: i)
      rw [σ.text_cons_of_ne hx] at ht ⊢
      rw [Cursor.lengthBefore, Cursor.lengthBefore, ht, ih]

theorem notMem_take_lengthBefore {stop : List Char → Bool} (hn : ∀ j, stop ('\n' :: j) = true) :
    '\n' ∉ i.take (Cursor.lengthBefore stop 0 i) := by
  intro hm
  obtain ⟨k, hk, e⟩ := List.mem_iff_getElem.mp hm
  rw [List.length_take] at hk
  have hs : stop (i.drop k) = false := Cursor.not_stop_of_lt_lengthBefore (by omega)
  rw [List.drop_eq_getElem_cons (by omega)] at hs
  rw [List.getElem_take] at e
  rw [e, hn] at hs
  cases hs

theorem isMark_of_isQuote (h : isQuote x = true) : isMark x = true := by
  simp only [isQuote, Bool.or_eq_true, beq_iff_eq] at h
  obtain (rfl | rfl) | rfl := h <;> decide

/-- A line break closes an open quote. -/
theorem sourceLength?_lineBreak (n depth : Nat) (quote : Option Char) (hx : isLineBreak x = true) :
    Grammar.sourceLength? n depth quote (x :: i) = Grammar.sourceLength? (n + 1) depth none i := by
  have h : x = '\r' ∨ x = '\n' := by simpa [isLineBreak] using hx
  have hq : Grammar.quoteAfter quote x = none := by
    cases quote with
    | none => obtain rfl | rfl := h <;> rfl
    | some q => simp [Grammar.quoteAfter, hx]
  simp only [Grammar.sourceLength?, hq]
  obtain rfl | rfl := h <;> simp

theorem quoteAfter_letter {quote : Option Char} (hq : ∀ y ∈ quote, isQuote y = true) :
    Grammar.quoteAfter quote (σ.letter x) = Grammar.quoteAfter quote x := by
  cases quote with
  | none =>
    simp only [Grammar.quoteAfter, σ.apply_letter (p := isQuote) (.of_letters (by decide))]
    split
    · rename_i hx
      rw [σ.letter_of_isMark (isMark_of_isQuote hx)]
    · rfl
  | some q =>
    have hm := indifferent_beq (isMark_of_isQuote (hq q rfl))
    simp only [Grammar.quoteAfter, σ.letter_beq hm.caseless,
      σ.apply_letter (p := isLineBreak) (.of_letters (by decide))]

theorem isQuote_quoteAfter {quote : Option Char} (hq : ∀ y ∈ quote, isQuote y = true) :
    ∀ y ∈ Grammar.quoteAfter quote x, isQuote y = true := by
  intro y hy
  cases quote with
  | none =>
    simp only [Grammar.quoteAfter] at hy
    split at hy
    · rename_i hx
      cases hy; exact hx
    · cases hy
  | some q =>
    simp only [Grammar.quoteAfter] at hy
    split at hy
    · cases hy
    · exact hq y hy

/-- The source of a loop ends at the parenthesis that belongs to it. -/
theorem sourceLength?_text (depth : Nat) {quote : Option Char} (hq : ∀ y ∈ quote, isQuote y = true) :
    Grammar.sourceLength? 0 depth quote (σ.text i) =
      (Grammar.sourceLength? 0 depth quote i).map fun n => (σ.text (i.take n)).length := by
  induction i generalizing depth quote with
  | nil => rfl
  | cons x i ih =>
    -- one character on, in both texts
    have step : ∀ (depth : Nat) {quote : Option Char}, (∀ y ∈ quote, isQuote y = true) →
        Grammar.sourceLength? (σ.spell x).length depth quote (σ.text i) =
          (Grammar.sourceLength? 1 depth quote i).map fun n => (σ.text ((x :: i).take n)).length := by
      intro depth quote hq
      rw [Grammar.sourceLength?_eq_map, ih depth hq, Grammar.sourceLength?_eq_map 1, Option.map_map, Option.map_map]
      congr 1
      funext n
      simp [Nat.add_comm 1 n]
    by_cases hx : x = '\n'
    · subst hx
      rw [sourceLength?_lineBreak _ _ _ (by decide), ← step depth (by simp), text_cons, spell_lineFeed]
      obtain h | h | h := σ.lineFeed_cases
      · rw [h, List.singleton_append, sourceLength?_lineBreak _ _ _ (by decide)]; rfl
      · rw [h, List.singleton_append, sourceLength?_lineBreak _ _ _ (by decide)]; rfl
      · rw [h, List.cons_append, sourceLength?_lineBreak _ _ _ (by decide), List.singleton_append,
          sourceLength?_lineBreak _ _ _ (by decide)]
        rfl
    · have hl : (σ.spell x).length = 1 := by rw [σ.spell_of_ne hx]; rfl
      rw [hl] at step
      rw [σ.text_cons_of_ne hx]
      simp only [Grammar.sourceLength?, σ.letter_beq (indifferent_beq (d := ')') (by decide)).caseless,
        σ.letter_beq (indifferent_beq (d := '(') (by decide)).caseless, σ.quoteAfter_letter hq]
      split
      · cases depth with
        | zero => rfl
        | succ depth => exact step depth (by simp)
      · split
        · exact step (depth + 1) (by simp)
        · exact step depth (isQuote_quoteAfter hq)

end Spelling

end BatchScript
