import BatchScript.Text

/-!
# Fronts of a text

Where a run of characters ends, on a text of which the front is known
(`takeWhile_append_of_stops`) and on any text (`stops_dropWhile`); and which
word a text begins with (`beginsWithWord_iff`).

The lower case of an ASCII letter, and the classes of characters that depend neither on the case of
ASCII letters (`Caseless`) nor on which line break ends a line (`Indifferent`). That a class is one
of these has to be seen of the 26 letters alone.
-/

namespace BatchScript.Text

/-- What is true of every character of a text is decided on that text. -/
instance decidableForallMem {p : Char → Prop} [DecidablePred p] (text : List Char) :
    Decidable (∀ x ∈ text, p x) :=
  List.decidableBAll p text

instance decidableForallMemOption {p : Char → Prop} [DecidablePred p] (found : Option Char) :
    Decidable (∀ x ∈ found, p x) :=
  Option.decidableForallMem found

instance decidableInfix (word text : List Char) : Decidable (word <:+: text) :=
  List.instDecidableIsInfixOfDecidableEq word text

/-- A text that does not go on with a character that satisfies `p`. -/
def Stops (p : Char → Bool) (text : List Char) : Prop :=
  ∀ x ∈ text.head?, p x = false

variable {p : Char → Bool} {front rest : List Char}

@[simp] theorem stops_nil : Stops p [] := by simp [Stops]

@[simp] theorem stops_cons {x : Char} : Stops p (x :: rest) ↔ p x = false := by simp [Stops]

theorem stops_append_of_ne_nil (h : front ≠ []) : Stops p (front ++ rest) ↔ Stops p front := by
  cases front with
  | nil => exact absurd rfl h
  | cons x xs => simp

theorem stops_append (hf : ∀ x ∈ front, p x = false) (hr : Stops p rest) : Stops p (front ++ rest) := by
  cases front with
  | nil => exact hr
  | cons x xs => exact stops_cons.mpr (hf x List.mem_cons_self)

theorem stops_dropWhile (p : Char → Bool) (text : List Char) : Stops p (text.dropWhile p) := by
  intro x hx
  have h := List.head?_dropWhile_not p text
  rw [Option.mem_def.mp hx] at h
  exact h

theorem of_mem_takeWhile {x : Char} {text : List Char} (h : x ∈ text.takeWhile p) : p x = true :=
  List.all_eq_true.mp List.all_takeWhile x h

theorem takeWhile_eq_nil_of_stops (h : Stops p rest) : rest.takeWhile p = [] := by
  cases rest with
  | nil => rfl
  | cons x xs => rw [List.takeWhile_cons, stops_cons.mp h]; rfl

theorem takeWhile_ne_nil_of_not_stops (h : ¬ Stops p rest) : rest.takeWhile p ≠ [] := by
  cases rest with
  | nil => exact absurd stops_nil h
  | cons x xs =>
    rw [stops_cons, Bool.not_eq_false] at h
    rw [List.takeWhile_cons_of_pos h]
    exact List.cons_ne_nil _ _

theorem dropWhile_eq_self_of_stops (h : Stops p rest) : rest.dropWhile p = rest := by
  cases rest with
  | nil => rfl
  | cons x xs => rw [List.dropWhile_cons, stops_cons.mp h]; rfl

theorem takeWhile_append_of_stops (hf : ∀ x ∈ front, p x = true) (hr : Stops p rest) :
    (front ++ rest).takeWhile p = front := by
  rw [List.takeWhile_append_of_pos hf, takeWhile_eq_nil_of_stops hr, List.append_nil]

theorem dropWhile_append_of_stops (hf : ∀ x ∈ front, p x = true) (hr : Stops p rest) :
    (front ++ rest).dropWhile p = rest := by
  rw [List.dropWhile_append_of_pos hf, dropWhile_eq_self_of_stops hr]

theorem takeWhile_append_right_of_stops (hr : Stops p rest) : (front ++ rest).takeWhile p = front.takeWhile p := by
  induction front with
  | nil => exact takeWhile_eq_nil_of_stops hr
  | cons x xs ih => simp only [List.cons_append, List.takeWhile_cons, ih]

/-- A run ends at a character that is none of its own, whatever another predicate says of that one. -/
theorem takeWhile_append_cons {q : Char → Bool} {x : Char} (h : ∀ y ∈ front, q y = p y) (hx : q x = false) :
    (front ++ x :: rest).takeWhile q = front.takeWhile p := by
  rw [takeWhile_append_right_of_stops (stops_cons.mpr hx)]
  induction front with
  | nil => rfl
  | cons y ys ih =>
    obtain ⟨hy, h⟩ := List.forall_mem_cons.mp h
    rw [List.takeWhile_cons, List.takeWhile_cons, hy, ih h]

theorem dropWhile_append_of_ne_nil (h : front.dropWhile p ≠ []) :
    (front ++ rest).dropWhile p = front.dropWhile p ++ rest := by
  rw [List.dropWhile_append, if_neg (by simpa using h)]

theorem Stops.of_front {text : List Char} (h : Stops p text) (hf : front <+: text) : Stops p front := by
  cases front with
  | nil => exact stops_nil
  | cons x xs =>
    obtain ⟨rest, rfl⟩ := hf
    rw [List.cons_append, stops_cons] at h
    exact stops_cons.mpr h

theorem stops_or {q : Char → Bool} : Stops (fun x => p x || q x) rest ↔ Stops p rest ∧ Stops q rest := by
  cases rest <;> simp

/-- A character that satisfies one predicate is one that does not satisfy another. -/
theorem stops_of_not_stops {q : Char → Bool} (hp : ∀ x, p x = true → q x = false) (h : ¬ Stops p rest) :
    Stops q rest := by
  cases rest with
  | nil => exact stops_nil
  | cons x rest => exact stops_cons.mpr (hp x (by simpa using h))

/-- Where a text stops behind a run of other characters, it stops before them too. -/
theorem stops_of_stops_dropWhile {q : Char → Bool} (hp : ∀ x, q x = true → p x = false)
    (h : Stops p (rest.dropWhile q)) : Stops p rest := by
  cases rest with
  | nil => exact stops_nil
  | cons x rest =>
    cases hq : q x with
    | true => exact stops_cons.mpr (hp x hq)
    | false => rwa [List.dropWhile_cons_of_neg (by simp [hq])] at h

theorem dropWhile_dropWhile_of_imp {q : Char → Bool} (h : ∀ x, q x = true → p x = true) (text : List Char) :
    (text.dropWhile q).dropWhile p = text.dropWhile p := by
  induction text with
  | nil => rfl
  | cons x rest ih =>
    cases hq : q x with
    | true => rw [List.dropWhile_cons_of_pos hq, ih, List.dropWhile_cons_of_pos (h x hq)]
    | false => rw [List.dropWhile_cons_of_neg (by simp [hq])]

/-! ## Words -/

theorem beginsWithWord_iff {word text : List Char} :
    beginsWithWord word text = true ↔
      (text.take word.length).map Char.toLower = word.map Char.toLower := by
  induction word generalizing text with
  | nil => simp [beginsWithWord]
  | cons c word ih =>
    cases text with
    | nil => simp [beginsWithWord]
    | cons x text => simp [beginsWithWord, sameLetter, ih]

theorem length_le_of_beginsWithWord {word text : List Char} (h : beginsWithWord word text = true) :
    word.length ≤ text.length := by
  have h := congrArg List.length (beginsWithWord_iff.mp h)
  simp only [List.length_map, List.length_take] at h
  omega

theorem beginsWithWord_append {word text : List Char} (h : beginsWithWord word text = true) (rest : List Char) :
    beginsWithWord word (text ++ rest) = true := by
  have hl := length_le_of_beginsWithWord h
  rw [beginsWithWord_iff] at h ⊢
  rw [List.take_append_of_le_length hl, h]

/-- A word at the front of a text ends before a character that it does not have. -/
theorem beginsWithWord_of_append {word text rest : List Char} {x : Char}
    (hx : x.toLower ∉ word.map Char.toLower) (h : beginsWithWord word (text ++ x :: rest) = true) :
    beginsWithWord word text = true := by
  rw [beginsWithWord_iff] at h ⊢
  by_cases hl : word.length ≤ text.length
  · rwa [List.take_append_of_le_length hl] at h
  · obtain ⟨n, hn⟩ : ∃ n, word.length - text.length = n + 1 := ⟨word.length - text.length - 1, by omega⟩
    rw [List.take_append, hn, List.take_succ_cons] at h
    exact absurd (by rw [← h]; simp) hx

/-- The same of a word that is spelled exactly so. -/
theorem prefix_of_prefix_append {word text rest : List Char} {x : Char} (hx : x ∉ word)
    (h : word <+: text ++ x :: rest) : word <+: text := by
  obtain h' | ⟨k, rfl⟩ := List.prefix_or_prefix_of_prefix h (List.prefix_append _ _)
  · exact h'
  · cases k with
    | nil => simp
    | cons y k =>
      obtain rfl : y = x := (List.cons_prefix_cons.mp ((List.prefix_append_right_inj text).mp h)).1
      exact absurd (List.mem_append_right _ List.mem_cons_self) hx

/-- So a text that ends before such a character begins with the same words as before. -/
theorem beginsWithWord_append_cons {word text rest : List Char} {x : Char}
    (hx : x.toLower ∉ word.map Char.toLower) :
    beginsWithWord word (text ++ x :: rest) = beginsWithWord word text :=
  Bool.eq_iff_iff.mpr ⟨beginsWithWord_of_append hx, fun h => beginsWithWord_append h _⟩

theorem isPrefixOf_append_cons {word text rest : List Char} {x : Char} (hx : x ∉ word) :
    word.isPrefixOf (text ++ x :: rest) = word.isPrefixOf text := by
  rw [Bool.eq_iff_iff, List.isPrefixOf_iff_prefix, List.isPrefixOf_iff_prefix]
  exact ⟨prefix_of_prefix_append hx, fun h => h.trans (List.prefix_append _ _)⟩

/-! ## Trimming -/

theorem trim_infix (text : List Char) : trim text <:+: text := by
  have h : (text.dropWhile isBlank).reverse.dropWhile isBlank <:+ (text.dropWhile isBlank).reverse :=
    List.dropWhile_suffix _
  rw [← List.reverse_prefix, List.reverse_reverse] at h
  exact h.isInfix.trans (List.dropWhile_suffix _).isInfix

theorem stops_trim (text : List Char) : Stops isBlank (trim text) := by
  refine (stops_dropWhile isBlank text).of_front ?_
  rw [trim, ← List.reverse_suffix, List.reverse_reverse]
  exact List.dropWhile_suffix _

theorem trim_eq_self {text : List Char} (h : Stops isBlank text) (hr : Stops isBlank text.reverse) :
    trim text = text := by
  rw [trim, dropWhile_eq_self_of_stops h, dropWhile_eq_self_of_stops hr, List.reverse_reverse]

theorem trim_ne_nil {text : List Char} (h : Stops isBlank text) (hne : text ≠ []) : trim text ≠ [] := by
  intro e
  rw [trim, dropWhile_eq_self_of_stops h, List.reverse_eq_nil_iff] at e
  have hb : text.reverse.takeWhile isBlank = text.reverse := by
    simpa [e] using List.takeWhile_append_dropWhile (p := isBlank) (l := text.reverse)
  cases text with
  | nil => exact hne rfl
  | cons x xs =>
    have hx : isBlank x = true := of_mem_takeWhile (hb ▸ List.mem_reverse.mpr List.mem_cons_self)
    rw [stops_cons.mp h] at hx
    cases hx

theorem stops_reverse_trim (text : List Char) : Stops isBlank (trim text).reverse := by
  rw [trim, List.reverse_reverse]
  exact stops_dropWhile _ _

theorem trim_trim (text : List Char) : trim (trim text) = trim text :=
  trim_eq_self (stops_trim text) (stops_reverse_trim text)

/-! ## Letters in either case -/

theorem toLower_of_not_isUpper {c : Char} (h : c.isUpper = false) : c.toLower = c := by
  have h : ¬ (c.val ≥ 'A'.val ∧ c.val ≤ 'Z'.val) := of_decide_eq_false h
  exact dif_neg h

/-- What is true of the 26 capitals is true of every upper case letter. -/
theorem of_isUpper {P : Char → Prop} (h : ∀ i : Fin 26, P (.ofNat (i + 65))) {c : Char}
    (hc : c.isUpper = true) : P c := by
  have hn : 65 ≤ c.toNat ∧ c.toNat ≤ 90 := of_decide_eq_true hc
  have hp : P (.ofNat (c.toNat - 65 + 65)) := h ⟨c.toNat - 65, by omega⟩
  rwa [Nat.sub_add_cancel hn.1, Char.ofNat_toNat] at hp

theorem toLower_toLower (c : Char) : c.toLower.toLower = c.toLower := by
  cases hc : c.isUpper with
  | false => rw [toLower_of_not_isUpper hc, toLower_of_not_isUpper hc]
  | true => exact of_isUpper (P := fun c => c.toLower.toLower = c.toLower) (by decide) hc

/-- A class of characters that holds a letter in either case or in none. -/
def Caseless (p : Char → Bool) : Prop :=
  ∀ c : Char, p c.toLower = p c

theorem Caseless.of_letters {p : Char → Bool}
    (h : ∀ i : Fin 26, p (Char.ofNat (i + 65)).toLower = p (.ofNat (i + 65))) : Caseless p := by
  intro c
  cases hc : c.isUpper with
  | false => rw [toLower_of_not_isUpper hc]
  | true => exact of_isUpper (P := fun c => p c.toLower = p c) h hc

theorem Caseless.eq {p : Char → Bool} (h : Caseless p) {c d : Char} (e : c.toLower = d.toLower) : p c = p d := by
  rw [← h c, e, h d]

/-- A class of characters for which neither the case of a letter nor the kind of a line break makes
a difference. -/
structure Indifferent (p : Char → Bool) : Prop where
  caseless : Caseless p
  lineBreak : p '\r' = p '\n'

theorem Indifferent.of_letters {p : Char → Bool}
    (h : ∀ i : Fin 26, p (Char.ofNat (i + 65)).toLower = p (.ofNat (i + 65))) (hb : p '\r' = p '\n') :
    Indifferent p :=
  ⟨.of_letters h, hb⟩

/-- A character that is neither an ASCII letter nor a line break. -/
def isMark (d : Char) : Bool :=
  !d.isAlpha && !isLineBreak d

theorem indifferent_beq {d : Char} (hd : isMark d = true) : Indifferent (· == d) := by
  simp only [isMark, Bool.and_eq_true, Bool.not_eq_true', isLineBreak, Bool.or_eq_false_iff,
    beq_eq_false_iff_ne] at hd
  refine ⟨fun c => ?_, by simp only [beq_eq_false_iff_ne.mpr hd.2.1.symm, beq_eq_false_iff_ne.mpr hd.2.2.symm]⟩
  cases hc : c.isUpper with
  | false => simp only [toLower_of_not_isUpper hc]
  | true =>
    have hl : c.toLower.isAlpha = true := of_isUpper (P := fun c => c.toLower.isAlpha = true) (by decide) hc
    have hu : c.isAlpha = true := congrArg (· || c.isLower) hc
    have hne : ∀ e : Char, e.isAlpha = true → (e == d) = false := by
      intro e he
      exact beq_eq_false_iff_ne.mpr (ne_of_apply_ne Char.isAlpha (by rw [he, hd.1]; decide))
    simp only [hne _ hl, hne _ hu]

end BatchScript.Text
