import BatchScript.Proofs.Grammar.Misses
import BatchScript.Proofs.Tree.Script

/-!
# Words that are read back

The rules for words on a text that begins with the word they read.
-/

namespace BatchScript

namespace Text

/-- The code points of the blanks. -/
def blankCodes : List Nat :=
  [9, 10, 11, 12, 13, 32, 133, 160, 5760, 8192, 8193, 8194, 8195, 8196, 8197, 8198, 8199, 8200, 8201,
  8202, 8232, 8233, 8239, 8287, 12288]

theorem mem_blankCodes {c : Char} (h : isBlank c = true) : c.toNat ∈ blankCodes := by
  simp [isBlank, blanks] at h
  simp only [blankCodes, List.mem_cons, List.not_mem_nil, or_false]
  omega

/-- What is false of every blank is seen on the list of them. -/
theorem not_of_isBlank {p : Char → Bool} (h : ∀ n ∈ blankCodes, p (.ofNat n) = false) {c : Char}
    (hc : isBlank c = true) : p c = false := by
  have hp := h _ (mem_blankCodes hc)
  rwa [Char.ofNat_toNat] at hp

theorem not_isNameChar_of_isBlank {c : Char} (h : isBlank c = true) : isNameChar c = false :=
  not_of_isBlank (by decide +kernel) h

/-- A letter is no blank. -/
theorem not_isBlank_of_isLetter {c : Char} (h : isLetter c = true) : isBlank c = false := by
  cases hb : isBlank c with
  | false => rfl
  | true =>
    rw [not_of_isBlank (p := isLetter) (by decide +kernel) hb] at h
    cases h

theorem not_isSpace_of_not_isBlank {c : Char} (h : isBlank c = false) : isSpace c = false := by
  rw [isSpace, h]; rfl

theorem not_isLineBreak_of_not_isBlank {c : Char} (h : isBlank c = false) : isLineBreak c = false := by
  cases hl : isLineBreak c with
  | false => rfl
  | true =>
    simp only [isLineBreak, Bool.or_eq_true, beq_iff_eq] at hl
    rcases hl with rfl | rfl <;> exact absurd h (by decide)

end Text

open Text

theorem IsKeyword.length_eq {k : Keyword} {word : List Char} (h : IsKeyword k word) :
    word.length = k.text.toList.length := by
  have h := congrArg List.length h
  simpa using h

theorem IsKeyword.begins {k : Keyword} {word : List Char} (h : IsKeyword k word) (rest : List Char) :
    k.Begins (word ++ rest) := by
  apply Keyword.begins_append
  rw [beginsWithWord_iff, ← h.length_eq, List.take_length]
  exact h

theorem IsName.exists_cons {t : String} (h : IsName t) :
    ∃ x rest, t.toList = x :: rest ∧ isLetter x = true := by
  cases ht : t.toList with
  | nil => simp [IsName, ht] at h
  | cons x rest => exact ⟨x, rest, rfl, by simpa [ht] using h.1⟩

theorem IsName.stops {t : String} {rest : List Char} {p : Char → Bool} (h : IsName t)
    (hp : ∀ x, isLetter x = true → p x = false) : Stops p (t.toList ++ rest) := by
  obtain ⟨x, xs, hx, hl⟩ := h.exists_cons
  rw [hx]
  exact stops_cons.mpr (hp x hl)

theorem IsWord.exists_cons {t : String} (h : IsWord t) :
    ∃ x rest, t.toList = x :: rest ∧ isBlank x = false := by
  cases ht : t.toList with
  | nil => exact absurd (String.toList_eq_nil_iff.mp ht) h.1
  | cons x rest => exact ⟨x, rest, rfl, h.2 x (by rw [ht]; exact List.mem_cons_self)⟩

theorem IsWord.stops_isBlank {t : String} {rest : List Char} (h : IsWord t) :
    Stops isBlank (t.toList ++ rest) := by
  obtain ⟨x, xs, hx, hb⟩ := h.exists_cons
  rw [hx]
  exact stops_cons.mpr hb

theorem IsWord.stops_isSpace {t : String} {rest : List Char} (h : IsWord t) :
    Stops isSpace (t.toList ++ rest) :=
  fun x hx => not_isSpace_of_not_isBlank (h.stops_isBlank x hx)

theorem toList_quoted (t : String) : (quoted t).toList = '"' :: (t.toList ++ ['"']) := by
  simp [quoted]

/-- The `@` that may stand before a statement. -/
def atSign (marked : Bool) : String :=
  if marked then "@" else ""

theorem stops_atSign {p : Char → Bool} {i : List Char} (marked : Bool) (hp : p '@' = false) (hi : Stops p i) :
    Stops p ((atSign marked).toList ++ i) := by
  cases marked with
  | false => exact hi
  | true => exact stops_cons.mpr hp

namespace Grammar

open Cursor Rule

variable {d b : Nat} {rest : List Char}

theorem keyword_runs_of_begins {k : Keyword} {i : List Char} (h : k.Begins i) :
    Runs (keyword k) d b i (.matched ()) (i.drop k.text.toList.length) := by
  refine .orElse_matched (.step? fun c hc => ⟨c.skip k.text.toList.length, ?_, by rw [rest_skip, hc]⟩) _
  rw [eatKeyword?_eq_some_iff, atKeyword, hc]
  exact ⟨h, rfl⟩

theorem keyword_runs {k : Keyword} {word : List Char} (h : IsKeyword k word) :
    Runs (keyword k) d b (word ++ rest) (.matched ()) rest := by
  have := keyword_runs_of_begins (d := d) (b := b) (h.begins rest)
  rwa [← h.length_eq, List.drop_left] at this

theorem symbol_runs (x : Char) : Runs (symbol x) d b (x :: rest) (.matched ()) rest :=
  .orElse_matched (.step? fun _ hc => eat?_cons hc) _

theorem word_runs {p : Char → Bool} {i : List Char} (h : ¬ Stops p i) :
    Runs (.scan? (·.word? p)) d b i (.matched (.ofList (i.takeWhile p))) (i.dropWhile p) := by
  refine .scan? fun c hc => ?_
  exact word?_append (hc.trans List.takeWhile_append_dropWhile.symm) (takeWhile_ne_nil_of_not_stops h)
    (fun _ => of_mem_takeWhile) (stops_dropWhile p i)

theorem spaces_runs_of_not_stops {i : List Char} (h : ¬ Stops isSpace i) :
    Runs spaces d b i (.matched ()) (i.dropWhile isSpace) :=
  .bind (.orElse_matched (word_runs h) _) (.pure ())

theorem spaces_runs (hr : Stops isSpace rest) : Runs spaces d b (' ' :: rest) (.matched ()) rest := by
  have hs : isSpace ' ' = true := by decide
  have := spaces_runs_of_not_stops (d := d) (b := b) (i := ' ' :: rest) (by rw [stops_cons, hs]; decide)
  rwa [List.dropWhile_cons_of_pos hs, dropWhile_eq_self_of_stops hr] at this

theorem skipSpaces_runs_append {spaces : List Char} (hs : ∀ x ∈ spaces, isSpace x = true) (hr : Stops isSpace rest) :
    Runs skipSpaces d b (spaces ++ rest) (.matched ()) rest :=
  .move fun _ hc => skipWhile_append hc hs hr

theorem skipSpaces_runs (hr : Stops isSpace rest) : Runs skipSpaces d b (' ' :: rest) (.matched ()) rest := by
  have hs : ∀ x ∈ [' '], isSpace x = true := by decide
  exact skipSpaces_runs_append hs hr

theorem skipSpaces_of_stops (hr : Stops isSpace rest) : Runs skipSpaces d b rest (.matched ()) rest :=
  .move fun c hc => by rw [rest_skipWhile, hc, dropWhile_eq_self_of_stops hr]

theorem skipBlanks_runs {blanks : List Char} (hb : ∀ x ∈ blanks, isBlank x = true) (hr : Stops isBlank rest) :
    Runs skipBlanks d b (blanks ++ rest) (.matched ()) rest :=
  .move fun _ hc => skipWhile_append hc hb hr

theorem skipBlanks_of_stops (hr : Stops isBlank rest) : Runs skipBlanks d b rest (.matched ()) rest :=
  .move fun c hc => by rw [rest_skipWhile, hc, dropWhile_eq_self_of_stops hr]

theorem skipAtSign_runs (marked : Bool) (hr : marked = false → Stops (· == '@') rest) :
    Runs (skipSymbol '@') d b ((atSign marked).toList ++ rest) (.matched ()) rest := by
  cases marked with
  | false => exact skipSymbol_of_stops (hr rfl)
  | true =>
    refine .move fun c hc => ?_
    have hc : c.rest = '@' :: rest := hc
    obtain ⟨e, he, hrest⟩ := eat?_cons hc
    rw [he, Option.getD_some, hrest]

theorem identifier_runs {t : String} (ht : IsName t) (hr : Stops isNameChar rest) :
    Runs identifier d b (t.toList ++ rest) (.matched t) rest := by
  obtain ⟨x, xs, hx, hl⟩ := ht.exists_cons
  refine .orElse_matched (.scan? fun c hc => ?_) _
  have hcur : c.current.any isLetter = true := by
    rw [current, hc, hx]; exact hl
  obtain ⟨hs, hd⟩ := span_append hc ht.2 hr
  rw [String.ofList_toList] at hs
  exact ⟨(c.span isNameChar).2, by rw [identifier?, if_pos hcur, ← hs], hd⟩

theorem quoted_runs {t : String} (ht : '"' ∉ t.toList) :
    Runs (.scan? (·.quoted?)) d b ('"' :: (t.toList ++ '"' :: rest)) (.matched t) rest := by
  refine .scan? fun c hc => ?_
  have := quoted?_append hc ht
  rwa [String.ofList_toList] at this

theorem token_runs {t : String} (ht : '"' ∉ t.toList) (inBlock : Bool) :
    Runs (token inBlock) d b ('"' :: (t.toList ++ '"' :: rest)) (.matched t) rest :=
  .orElse_matched (quoted_runs ht) _

theorem token_unmatched {inBlock : Bool} (hq : Stops (· == '"') rest) (hr : Stops (isTokenChar inBlock) rest) :
    Runs (token inBlock) d b rest .unmatched rest := by
  refine .orElse (.scan?_unmatched fun c hc => quoted?_eq_none fun r h => ?_) (word_unmatched hr)
  rw [← hc, h, stops_cons] at hq
  cases hq

theorem operand_runs_of_not_stops {i : List Char} (h : ¬ Stops (fun y => !isBlank y) i) :
    Runs operand d b i (.matched (.ofList (i.takeWhile fun y => !isBlank y))) (i.dropWhile fun y => !isBlank y) :=
  .orElse_matched (word_runs h) _

theorem operand_runs {t : String} (ht : IsWord t) (hr : Stops (fun x => !isBlank x) rest) :
    Runs operand d b (t.toList ++ rest) (.matched t) rest := by
  have hb : ∀ x ∈ t.toList, (!isBlank x) = true := fun x hx => by rw [ht.2 x hx]; rfl
  have hstop : ¬ Stops (fun x => !isBlank x) (t.toList ++ rest) := by
    obtain ⟨x, xs, hx, hblank⟩ := ht.exists_cons
    rw [hx, List.cons_append, stops_cons, hblank]
    decide
  have h := operand_runs_of_not_stops (d := d) (b := b) hstop
  rwa [takeWhile_append_of_stops hb hr, dropWhile_append_of_stops hb hr, String.ofList_toList] at h

end Grammar

end BatchScript
