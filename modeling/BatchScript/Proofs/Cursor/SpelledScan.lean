import BatchScript.Proofs.Cursor.Mirrors
import BatchScript.Proofs.Cursor.Reach
import BatchScript.Proofs.Cursor.Spelling
import BatchScript.Proofs.Grammar.Balanced
import BatchScript.Proofs.Tree.Basic

/-!
# Scans in another spelling

Each scan of the grammar finds in the spelling of a script the spelling of what it finds in the
script. What a scan takes from one line has as many characters as before (`Spelling.line`), and what
may go on over several lines has its line breaks spelled too (`Spelling.token`).

* `span_line`, `span_token`, `upTo_line`: runs of characters and searches;
* `mirrors_quoted?`, `mirrors_source?`, `mirrors_relationKeyword?` and so on: scans that may find nothing;
* `lineBreakLength?_text`: one line break is spelled as one line break.
-/

namespace BatchScript

open Text Cursor

namespace Spelling

/-- A text of one line in another spelling; line feeds in it stay. -/
def line (σ : Spelling) (s : String) : String :=
  s.map σ.letter

/-- A text in another spelling. -/
def token (σ : Spelling) (s : String) : String :=
  .ofList (σ.text s.toList)

/-- How the texts of a tree change with the spelling of its script. -/
def rewording (σ : Spelling) : Rewording :=
  ⟨σ.line, σ.token, σ.letter⟩

variable (σ : Spelling)

theorem line_ofList (i : List Char) : σ.line (.ofList i) = .ofList (i.map σ.letter) := by
  apply String.toList_injective
  rw [line, String.toList_map, String.toList_ofList, String.toList_ofList]

theorem line_ofList_of_notMem {i : List Char} (h : '\n' ∉ i) : σ.line (.ofList i) = .ofList (σ.text i) := by
  rw [σ.line_ofList, σ.text_of_notMem h]

theorem token_ofList (i : List Char) : σ.token (.ofList i) = .ofList (σ.text i) := by
  rw [token, String.toList_ofList]

theorem line_append (s t : String) : σ.line (s ++ t) = σ.line s ++ σ.line t := by
  apply String.toList_injective
  simp only [line, String.toList_map, String.toList_append, List.map_append]

theorem line_of_isMark {s : String} (h : ∀ x ∈ s.toList, isMark x = true) : σ.line s = s := by
  apply String.toList_injective
  rw [line, String.toList_map]
  exact (List.map_congr_left fun x hx => σ.letter_of_isMark (h x hx)).trans (List.map_id _)

/-- Lines that are joined by line feeds stay joined by line feeds. -/
theorem line_intercalate (lines : List String) :
    σ.line ("\n".intercalate lines) = "\n".intercalate (lines.map σ.line) := by
  induction lines with
  | nil => exact σ.line_ofList []
  | cons s others ih =>
    by_cases ho : others = []
    · rw [ho, List.map_cons, List.map_nil, String.intercalate_singleton, String.intercalate_singleton]
    · have hl : σ.line "\n" = "\n" := by
        apply String.toList_injective
        rw [line, String.toList_map]
        simp
      rw [List.map_cons, String.intercalate_cons_of_ne_nil ho,
        String.intercalate_cons_of_ne_nil (mt List.map_eq_nil_iff.mp ho), σ.line_append, σ.line_append, hl, ih]

theorem trim_line (s : String) : String.ofList (trim (σ.line s).toList) = σ.line (.ofList (trim s.toList)) := by
  rw [line, String.toList_map, σ.trim_map_letter, σ.line_ofList]

theorem isEmpty_line (s : String) : (σ.line s).isEmpty = s.isEmpty := by
  rw [Bool.eq_iff_iff, String.isEmpty_iff, String.isEmpty_iff, ← String.toList_eq_nil_iff, ← String.toList_eq_nil_iff,
    line, String.toList_map, List.map_eq_nil_iff]

variable {σ} {script : List Char} {c d : Cursor} {p : Char → Bool}

/-! ## Tests -/

theorem Reads.current_any (h : σ.Reads script c d) (hp : Indifferent p) : d.current.any p = c.current.any p := by
  rw [current, current, h.rest, σ.head?_any_text hp]

theorem Reads.atEnd (h : σ.Reads script c d) : d.atEnd = c.atEnd := by
  rw [Bool.eq_iff_iff, Cursor.atEnd, Cursor.atEnd, List.isEmpty_iff, List.isEmpty_iff, h.rest, text_eq_nil_iff]

theorem Reads.current_all (h : σ.Reads script c d) (hp : Indifferent p) : d.current.all p = c.current.all p := by
  have hn : Indifferent fun x => !p x :=
    ⟨fun x => by simp only [hp.caseless x], by simp only [hp.lineBreak]⟩
  have all : ∀ o : Option Char, o.all p = !o.any fun x => !p x := by
    intro o
    cases o <;> simp
  rw [all, all, h.current_any hn]

theorem Reads.current_eq_iff (h : σ.Reads script c d) {x : Char} (hx : isMark x = true) :
    d.current = some x ↔ c.current = some x := by
  have eq : ∀ o : Option Char, o = some x ↔ o.any (· == x) = true := by
    intro o
    cases o <;> simp
  rw [eq, eq, h.current_any (indifferent_beq hx)]

theorem Reads.startsWith (h : σ.Reads script c d) {word : String} (hw : ∀ x ∈ word.toList, isMark x = true) :
    d.startsWith word = c.startsWith word := by
  rw [Cursor.startsWith, Cursor.startsWith, h.rest, σ.isPrefixOf_text hw]

theorem Reads.atKeyword (h : σ.Reads script c d) {word : String} (hw : IsWord word.toList) :
    d.atKeyword word = c.atKeyword word := by
  rw [Cursor.atKeyword, Cursor.atKeyword, h.rest, σ.beginsWithWord_text hw]

theorem Reads.take_line (h : σ.Reads script c d) {n : Nat} (hl : n ≤ c.rest.length) (hn : '\n' ∉ c.rest.take n) :
    String.ofList (d.rest.take n) = σ.line (.ofList (c.rest.take n)) := by
  have k := σ.take_length_text c.rest n
  rw [σ.length_text_of_notMem hn, List.length_take, Nat.min_eq_left hl] at k
  rw [h.rest, k, σ.line_ofList_of_notMem hn]

/-! ## Steps -/

section Steps

variable (hf : σ.Fits script)

include hf

theorem Reads.skip_of_startsWith (h : σ.Reads script c d) {word : String} (hw : ∀ x ∈ word.toList, isMark x = true)
    (hc : c.startsWith word = true) : σ.Reads script (c.skip word.toList.length) (d.skip word.toList.length) := by
  have hp : word.toList <+: c.rest := List.isPrefixOf_iff_prefix.mp hc
  refine h.skip_of_notMem hf hp.length_le ?_
  rw [← List.prefix_iff_eq_take.mp hp]
  exact fun hm => absurd (hw _ hm) (by decide)

theorem Reads.next_of_current (h : σ.Reads script c d) {x : Char} (hx : x ≠ '\n') (hc : c.current = some x) :
    σ.Reads script c.next d.next := by
  obtain ⟨i, hi⟩ : ∃ i, c.rest = x :: i := by
    rw [current, List.head?_eq_some_iff] at hc
    exact hc
  have k := h.next hf hi
  rwa [σ.spell_of_ne hx] at k

theorem stepMirrors_eatText? {word : String} (hw : ∀ x ∈ word.toList, isMark x = true) :
    StepMirrors (σ.Reads script) (·.eatText? word) (·.eatText? word) :=
  stepMirrors_skip (fun _ _ h => by rw [h.startsWith hw]) fun _ _ h hc => h.skip_of_startsWith hf hw hc

theorem stepMirrors_eat? {x : Char} (hx : isMark x = true) :
    StepMirrors (σ.Reads script) (·.eat? x) (·.eat? x) := by
  have hn : x ≠ '\n' := by
    rintro rfl
    exact absurd hx (by decide)
  exact stepMirrors_skip (n := 1) (fun _ _ h => h.current_eq_iff hx) fun _ _ h hc => h.next_of_current hf hn hc

theorem stepMirrors_eatKeyword? {word : String} (hw : IsWord word.toList) :
    StepMirrors (σ.Reads script) (·.eatKeyword? word) (·.eatKeyword? word) :=
  stepMirrors_skip (fun _ _ h => by rw [h.atKeyword hw]) fun _ _ h hc =>
    h.skip_of_notMem hf (length_le_of_beginsWithWord hc) (notMem_take_of_beginsWithWord hw hc)

theorem Reads.skipWhile (h : σ.Reads script c d) (hp : Indifferent p) :
    σ.Reads script (c.skipWhile p) (d.skipWhile p) := by
  have k := h.skip hf (c.runLength p)
  have hr : c.rest.take (c.runLength p) = c.rest.takeWhile p :=
    (List.prefix_iff_eq_take.mp (List.takeWhile_prefix p)).symm
  rwa [hr, ← σ.takeWhile_text hp, ← h.rest] at k

end Steps

/-! ## Line breaks -/

/-- A line break is spelled with the characters of one line break. -/
theorem lineBreakLength?_text {i : List Char} (hf : σ.Fits i) :
    lineBreakLength? (σ.text i) = (lineBreakLength? i).map fun n => (σ.text (i.take n)).length := by
  cases i with
  | nil => rfl
  | cons x i =>
    by_cases hn : x = '\n'
    · have hl : lineBreakLength? (x :: i) = some 1 := by rw [hn]; rfl
      rw [hl, hn, text_cons, spell_lineFeed, Option.map_some, List.take_succ_cons, text_cons, spell_lineFeed]
      obtain hl | hl | hl := σ.lineFeed_cases
      · rw [hl]; rfl
      · rw [hl, List.singleton_append, lineBreakLength?, if_neg fun h => σ.head?_text_ne hl h.2]; rfl
      · rw [hl]; rfl
    · rw [σ.text_cons_of_ne hn]
      by_cases hr : x = '\r'
      · have hl : σ.lineFeed = ['\n'] := hf.resolve_right fun h => h (hr ▸ List.mem_cons_self)
        have hh : (σ.text i).head? = some '\n' ↔ i.head? = some '\n' := by
          rw [σ.text_eq_map hl]
          cases i <;> simp
        simp only [lineBreakLength?, letter_eq_return_iff, hh, σ.apply_letter (p := isLineBreak) (.of_letters (by decide))]
        split
        · rename_i h
          obtain ⟨j, hj⟩ := List.head?_eq_some_iff.mp h.2
          simp only [hj, σ.text_eq_map hl]; rfl
        · simp only [hr, σ.text_eq_map hl]; rfl
      · simp [lineBreakLength?, isLineBreak, hn, hr]

theorem stepMirrors_eatLineBreak? (hf : σ.Fits script) : StepMirrors (σ.Reads script) eatLineBreak? eatLineBreak? := by
  intro c d h
  rw [eatLineBreak?_eq, eatLineBreak?_eq, h.rest, lineBreakLength?_text (h.fits hf)]
  cases lineBreakLength? c.rest with
  | none => exact .inl ⟨rfl, rfl⟩
  | some n => exact .inr ⟨_, _, rfl, rfl, h.skip hf n⟩

/-! ## Runs of characters -/

section Runs

variable (hf : σ.Fits script)

include hf

theorem span_token (hp : Indifferent p) ⦃c d : Cursor⦄ (h : σ.Reads script c d) :
    (d.span p).1 = σ.token (c.span p).1 ∧ σ.Reads script (c.span p).2 (d.span p).2 := by
  refine ⟨?_, h.skipWhile hf hp⟩
  rw [span, span, σ.token_ofList, ← σ.takeWhile_text hp, h.rest]

theorem span_line (hp : Indifferent p) (hn : p '\n' = false) ⦃c d : Cursor⦄ (h : σ.Reads script c d) :
    (d.span p).1 = σ.line (c.span p).1 ∧ σ.Reads script (c.span p).2 (d.span p).2 := by
  obtain ⟨hs, hc⟩ := span_token hf hp h
  refine ⟨?_, hc⟩
  rw [hs, span, σ.token_ofList, σ.line_ofList_of_notMem]
  intro hm
  rw [of_mem_takeWhile hm] at hn
  cases hn

omit hf in
theorem runLength_eq_zero_iff (hp : Indifferent p) (h : σ.Reads script c d) :
    d.runLength p = 0 ↔ c.runLength p = 0 := by
  rw [runLength, runLength, List.length_eq_zero_iff, List.length_eq_zero_iff, h.rest, σ.takeWhile_text hp,
    text_eq_nil_iff]

/-- One or more characters. -/
theorem mirrors_word? (hp : Indifferent p) : Cursor.Mirrors (σ.Reads script) σ.token (·.word? p) (·.word? p) :=
  Cursor.mirrors_word? (fun _ _ => runLength_eq_zero_iff hp) (span_token hf hp)

/-- One or more characters of a line. -/
theorem mirrors_word?_line (hp : Indifferent p) (hn : p '\n' = false) :
    Cursor.Mirrors (σ.Reads script) σ.line (·.word? p) (·.word? p) :=
  Cursor.mirrors_word? (fun _ _ => runLength_eq_zero_iff hp) (span_line hf hp hn)

theorem mirrors_identifier? : Cursor.Mirrors (σ.Reads script) σ.line identifier? identifier? :=
  Cursor.mirrors_identifier? (fun _ _ h => h.current_any (.of_letters (by decide) (by decide)))
    (span_line hf (.of_letters (by decide) (by decide)) (by decide))

theorem mirrors_quoted? : Cursor.Mirrors (σ.Reads script) σ.token quoted? quoted? := by
  intro c d h
  have hq : isMark '"' = true := by decide
  have hcons : ∀ i, σ.text ('"' :: i) = '"' :: σ.text i := fun i => by
    rw [σ.text_cons_of_ne (by decide), σ.letter_of_isMark hq]
  cases hc : c.quoted? with
  | none =>
    refine .inl ⟨rfl, Option.eq_none_iff_forall_ne_some.mpr fun ⟨t, e⟩ hd => ?_⟩
    obtain ⟨front, behind, hd, -, -, -⟩ := quoted?_eq_some_iff.mp hd
    have hcurrent : d.current = some '"' := by rw [current, hd]; rfl
    obtain ⟨i, hi⟩ := List.head?_eq_some_iff.mp ((h.current_eq_iff hq).mp hcurrent)
    -- a second quote in the spelling is one in the script
    rw [h.rest, hi, hcons] at hd
    have hm : '"' ∈ σ.text i := by rw [List.tail_eq_of_cons_eq hd]; simp
    obtain ⟨inner, rest, rfl, hn⟩ := List.eq_append_cons_of_mem ((σ.mem_text_iff hq).mp hm)
    rw [quoted?_eq_some_iff.mpr ⟨inner, rest, hi, hn, rfl, rfl⟩] at hc
    cases hc
  | some found =>
    obtain ⟨inner, rest, hi, hn, ht, he⟩ := quoted?_eq_some_iff.mp hc
    have htext : σ.text c.rest = '"' :: (σ.text inner ++ '"' :: σ.text rest) := by
      rw [hi, hcons, σ.text_append, hcons]
    have htake : c.rest.take (inner.length + 2) = '"' :: (inner ++ ['"']) := by
      rw [hi, List.take_succ_cons, List.take_length_add_append]; rfl
    have hlen : (σ.text (c.rest.take (inner.length + 2))).length = (σ.text inner).length + 2 := by
      rw [htake, hcons, σ.text_append, hcons]; simp
    have k := h.skip hf (inner.length + 2)
    rw [hlen, ← he] at k
    refine .inr ⟨_, _, _, rfl, quoted?_eq_some_iff.mpr ⟨σ.text inner, σ.text rest, ?_, ?_, ?_, rfl⟩, k⟩
    · rw [h.rest, htext]
    · rwa [σ.mem_text_iff hq]
    · rw [ht, σ.token_ofList]

end Runs

/-! ## Searches and scans of the grammar -/

section Grammar

variable (hf : σ.Fits script)

include hf

/-- The text before a place in the line, or before its end. -/
theorem upTo_line {stop : List Char → Bool} (hs : ∀ j, stop (σ.text j) = stop j)
    (hn : ∀ j, stop ('\n' :: j) = true) ⦃c d : Cursor⦄ (h : σ.Reads script c d) :
    (d.upTo stop).1 = σ.line (c.upTo stop).1 ∧ σ.Reads script (c.upTo stop).2 (d.upTo stop).2 := by
  have hlen : lengthBefore stop 0 d.rest = lengthBefore stop 0 c.rest := by
    rw [h.rest, σ.lengthBefore_text hs hn]
  have hl := lengthBefore_le_length stop c.rest
  have hm : '\n' ∉ c.rest.take (lengthBefore stop 0 c.rest) := notMem_take_lengthBefore hn
  simp only [upTo, hlen]
  exact ⟨h.take_line hl hm, h.skip_of_notMem hf hl hm⟩

theorem mirrors_relationKeyword? :
    Cursor.Mirrors (σ.Reads script) σ.line Grammar.relationKeyword? Grammar.relationKeyword? := by
  intro c d h
  have behind : ∀ k : Keyword, c.atKeyword k.text = true →
      k.text.length ≤ c.rest.length ∧ '\n' ∉ c.rest.take k.text.length := by
    intro k hk
    rw [← String.length_toList]
    exact ⟨length_le_of_beginsWithWord hk, notMem_take_of_beginsWithWord (isWord_text k) hk⟩
  have test : (fun k : Keyword => d.atKeyword k.text && (d.peek k.text.length).any isBlank) =
      fun k => c.atKeyword k.text && (c.peek k.text.length).any isBlank := by
    funext k
    rw [h.atKeyword (isWord_text k)]
    cases hk : c.atKeyword k.text with
    | false => rfl
    | true =>
      have hp : ∀ (c : Cursor) (n : Nat), c.peek n = (c.skip n).current := by
        intro c n
        rw [peek, current, rest_skip, List.head?_drop]
      obtain ⟨hl, hn⟩ := behind k hk
      rw [hp, hp, (h.skip_of_notMem hf hl hn).current_any (.of_letters (by decide) (by decide))]
  unfold Grammar.relationKeyword?
  rw [test]
  cases hfind : Keyword.relations.find? fun k => c.atKeyword k.text && (c.peek k.text.length).any isBlank with
  | none => exact .inl ⟨rfl, rfl⟩
  | some k =>
    have hk := List.find?_some hfind
    rw [Bool.and_eq_true] at hk
    obtain ⟨hl, hn⟩ := behind k hk.1
    exact .inr ⟨_, _, _, rfl, congrArg some (Prod.ext (h.take_line hl hn) rfl), h.skip_of_notMem hf hl hn⟩

theorem handle_line ⦃c d : Cursor⦄ (h : σ.Reads script c d) :
    (Grammar.handle d).1 = σ.line (Grammar.handle c).1 ∧
      σ.Reads script (Grammar.handle c).2 (Grammar.handle d).2 := by
  unfold Grammar.handle
  rw [h.rest, σ.beginsWithHandle_text, ← h.rest]
  cases hc : Grammar.beginsWithHandle c.rest with
  | false => exact ⟨(σ.line_ofList []).symm, h⟩
  | true =>
    obtain ⟨x, i, hr⟩ := List.exists_cons_of_ne_nil (l := c.rest) (by rintro e; rw [e] at hc; cases hc)
    have hx : x ≠ '\n' := by
      rintro rfl
      rw [hr] at hc
      cases i <;> cases hc
    have hn : '\n' ∉ c.rest.take 1 := by simpa [hr] using hx.symm
    exact ⟨h.take_line (by rw [hr, List.length_cons]; omega) hn, h.next_of_current hf hx (by rw [current, hr]; rfl)⟩

theorem mirrors_stream? (inBlock : Bool) :
    Cursor.Mirrors (σ.Reads script) σ.token (Grammar.stream? inBlock) (Grammar.stream? inBlock) :=
  Cursor.mirrors_stream? (mirrors_word? hf (.of_letters (by decide) (by decide))) fun _ _ h =>
    h.current_all (by cases inBlock <;> exact .of_letters (by decide) (by decide))

theorem mirrors_letter? : Cursor.Mirrors (σ.Reads script) σ.letter Grammar.letter? Grammar.letter? := by
  intro c d h
  have hl : Indifferent isLetter := .of_letters (by decide) (by decide)
  have hany := h.current_any hl
  unfold Grammar.letter?
  cases hc : c.rest with
  | nil =>
    have hd : d.rest = [] := by rw [h.rest, hc, text_nil]
    exact .inl ⟨by rw [current, hc]; rfl, by rw [current, hd]; rfl⟩
  | cons x i =>
    have hcur : c.current = some x := by rw [current, hc]; rfl
    by_cases hx : isLetter x = true
    · have hn : x ≠ '\n' := by
        rintro rfl
        exact absurd hx (by decide)
      have hd : d.current = some (σ.letter x) := by rw [current, h.rest, hc, σ.text_cons_of_ne hn]; rfl
      have hx' : isLetter (σ.letter x) = true := (σ.apply_letter hl.caseless x).trans hx
      refine .inr ⟨x, _, _, ?_, ?_, h.next_of_current hf hn hcur⟩
      · rw [hcur, Option.filter_some, if_pos hx, Option.map_some]
      · rw [hd, Option.filter_some, if_pos hx', Option.map_some]
    · have none_of : ∀ {c : Cursor}, c.current.any isLetter = false → c.current.filter isLetter = none := by
        intro c hc
        cases hcur : c.current with
        | none => rfl
        | some x => rw [Option.filter_some, if_neg]; simpa [hcur] using hc
      have hf : c.current.any isLetter = false := by rw [hcur]; simpa using hx
      exact .inl ⟨by rw [none_of hf]; rfl, by rw [none_of (hany.trans hf)]; rfl⟩

theorem mirrors_source? : Cursor.Mirrors (σ.Reads script) σ.token Grammar.source? Grammar.source? := by
  intro c d h
  have hlen : Grammar.sourceLength? 0 0 none d.rest = _ := h.rest ▸ σ.sourceLength?_text 0 (by simp)
  unfold Grammar.source?
  rw [hlen]
  cases hs : Grammar.sourceLength? 0 0 none c.rest with
  | none => exact .inl ⟨rfl, rfl⟩
  | some n =>
    have hclose : (c.skip n).current = some ')' := by
      rw [current, rest_skip]
      exact (Grammar.balanced_of_sourceLength? hs).2
    have k := (h.skip hf n).next_of_current hf (by decide) hclose
    rw [← skip_succ_eq_next, ← skip_succ_eq_next] at k
    refine .inr ⟨_, _, _, rfl, congrArg some (Prod.ext ?_ rfl), k⟩
    simp only [σ.token_ofList, h.rest, σ.take_length_text]

theorem mirrors_commentText? : Cursor.Mirrors (σ.Reads script) σ.line Grammar.commentText? Grammar.commentText? := by
  intro c d h
  unfold Grammar.commentText?
  rw [atLineEnd, atLineEnd, h.current_all (.of_letters (by decide) (by decide)),
    h.current_any (p := isSpace) (.of_letters (by decide) (by decide))]
  cases c.current.all isLineBreak with
  | true => exact .inr ⟨_, _, _, rfl, congrArg some (Prod.ext (σ.line_ofList []).symm rfl), h⟩
  | false =>
    cases hc : c.current with
    | none => exact .inl ⟨rfl, rfl⟩
    | some x =>
      rw [Option.any_some]
      cases hx : isSpace x with
      | false => exact .inl ⟨rfl, rfl⟩
      | true =>
        have hn : x ≠ '\n' := by
          rintro rfl
          exact absurd hx (by decide)
        obtain ⟨hv, k⟩ := span_line (p := fun x => !isLineBreak x) hf (.of_letters (by decide) (by decide)) rfl
          (h.next_of_current hf hn hc)
        exact .inr ⟨_, _, _, rfl, congrArg some (Prod.ext hv rfl), k⟩

/-- Both cursors go to the end. -/
theorem Reads.skip_left (h : σ.Reads script c d) : σ.Reads script (c.skip c.left) (d.skip d.left) := by
  have k := h.skip hf c.left
  rw [List.take_of_length_le (Nat.le_of_eq c.left_eq.symm), ← h.rest, ← d.left_eq] at k
  exact k

end Grammar

end Spelling

end BatchScript
