import BatchScript.Proofs.Grammar.Texts
import BatchScript.Proofs.RoundTrip.Conditions
import BatchScript.Proofs.Rule.Readings

/-!
# What the words read

The smallest rules of the grammar, each with the fronts that it takes: keywords in any case, spaces, texts in
quotes, and the longest runs of characters of one kind.
-/

namespace BatchScript

open Text

/-! ## Readings -/

/-- All spaces up to what comes next, and at least one. -/
structure IsSpacing (spaces rest : List Char) : Prop where
  ne_nil : spaces ≠ []
  spaces : ∀ x ∈ spaces, isSpace x = true
  stops : Stops isSpace rest

/-- What comes first in a gap is a blank. -/
theorem IsSpacing.not_stops_isBlank {spaces rest : List Char} (h : IsSpacing spaces rest) :
    ¬ Stops isBlank (spaces ++ rest) := by
  rw [stops_append_of_ne_nil h.ne_nil]
  intro hstop
  obtain ⟨x, others, rfl⟩ := List.exists_cons_of_ne_nil h.ne_nil
  have hx := isBlank_of_isSpace (h.spaces x List.mem_cons_self)
  rw [stops_cons.mp hstop] at hx
  cases hx

theorem IsSpacing.stops_word {spaces rest : List Char} (h : IsSpacing spaces rest) :
    Stops (fun x => !isBlank x) (spaces ++ rest) :=
  stops_of_not_stops (fun x hx => by rw [hx]; rfl) h.not_stops_isBlank

namespace Reading

/-- A text in double quotes, which are not part of it. -/
def quotation : Reading String := fun front t _ =>
  '"' ∉ t.toList ∧ front = (quoted t).toList

/-- All characters up to the first that does not satisfy `p`, and at least one. -/
def run (p : Char → Bool) : Reading String := fun front t rest =>
  front = t.toList ∧ t ≠ "" ∧ (∀ x ∈ t.toList, p x = true) ∧ Stops p rest

/-- A word goes up to the next blank. -/
abbrev word : Reading String :=
  run fun x => !isBlank x

/-- A token is a text in quotes, and otherwise a run of characters. -/
def token (inBlock : Bool) : Reading String :=
  quotation.otherwise (run (Grammar.isTokenChar inBlock))

theorem run_applies {p : Char → Bool} {text : List Char} (h : ¬ Stops p text) : (run p).Applies text := by
  refine ⟨text.takeWhile p, .ofList (text.takeWhile p), text.dropWhile p, List.takeWhile_append_dropWhile.symm,
    String.toList_ofList.symm, ?_, ?_, stops_dropWhile p text⟩
  · simpa using takeWhile_ne_nil_of_not_stops h
  · rw [String.toList_ofList]
    exact fun x => of_mem_takeWhile

end Reading

theorem IsWord.word {t : String} {rest : List Char} (h : IsWord t) (hr : Stops (fun x => !isBlank x) rest) :
    Reading.word t.toList t rest :=
  ⟨rfl, h.1, fun x hx => by simpa using h.2 x hx, hr⟩

theorem isWord_of_run {t : String} {rest : List Char} (h : Reading.word t.toList t rest) : IsWord t :=
  ⟨h.2.1, fun x hx => by simpa using h.2.2.1 x hx⟩

namespace Grammar

open Cursor Rule

theorem keyword_reads (k : Keyword) : Reads (keyword k) fun front _ _ => IsKeyword k front := by
  refine .orElse_nothing (.scan? (fun {c front _ rest} hc hw => ?_) fun {c d _} h => ?_) (.fail _)
  · have hat : c.eatKeyword? k.text = some (c.skip front.length) := by
      rw [eatKeyword?_eq_some_iff, atKeyword, hc, hw.length_eq]
      exact ⟨hw.begins rest, rfl⟩
    show (c.eatKeyword? k.text).map (fun d => ((), d)) = _
    rw [hat]; rfl
  · obtain ⟨e, he, -⟩ := Option.map_eq_some_iff.mp h
    have hat := (eatKeyword?_eq_some_iff.mp he).1
    exact ⟨_, (), _, (List.take_append_drop _ _).symm, beginsWithWord_iff.mp hat⟩

theorem quotation_reads : Reads (.scan? (·.quoted?)) .quotation := by
  refine .scan? (fun {c front t rest} hc ⟨ht, hf⟩ => ?_) fun {c d t} h => ?_
  · have hlen : front.length = t.toList.length + 2 := by simp [hf, toList_quoted]
    rw [hlen]
    refine quoted?_eq_some_iff.mpr ⟨t.toList, rest, ?_, ht, String.ofList_toList.symm, rfl⟩
    rw [hc, hf, toList_quoted]
    simp
  · obtain ⟨front, rest, hc, hq, rfl, -⟩ := quoted?_eq_some_iff.mp h
    refine ⟨(quoted (.ofList front)).toList, _, rest, ?_, by rwa [String.toList_ofList], rfl⟩
    rw [hc, toList_quoted]
    simp

theorem run_reads (p : Char → Bool) : Reads (.scan? (·.word? p)) (.run p) := by
  refine .scan? (fun {c front t rest} hc ⟨hf, hne, hp, hr⟩ => ?_) fun {c d t} h => ?_
  · have hrun : c.rest.takeWhile p = t.toList := by
      rw [hc, hf, takeWhile_append_of_stops hp hr]
    have hlen : c.runLength p ≠ 0 := by
      rw [runLength, hrun]
      simpa using hne
    rw [word?, if_neg hlen, span, skipWhile, runLength, hrun, hf, String.ofList_toList]
  · obtain ⟨hne, hp⟩ := of_word? h
    have ht : t.toList = c.rest.takeWhile p := by
      unfold word? at h
      split at h
      · cases h
      · cases h; exact String.toList_ofList
    exact ⟨_, t, _, (List.takeWhile_append_dropWhile (p := p)).symm, ht.symm, hne, hp, stops_dropWhile p _⟩

theorem spaces_reads : Reads spaces fun front _ rest => IsSpacing front rest := by
  have h := ((run_reads isSpace).orElse_nothing (.fail .whitespace)).map fun _ => ()
  refine h.congr fun front _ rest => ⟨?_, fun hg => ?_⟩
  · rintro ⟨t, -, rfl, hne, hs, hr⟩
    exact ⟨fun e => hne (String.toList_eq_nil_iff.mp e), hs, hr⟩
  · refine ⟨.ofList front, rfl, String.toList_ofList.symm, ?_, ?_, hg.stops⟩
    · simpa using hg.ne_nil
    · rw [String.toList_ofList]; exact hg.spaces

theorem operand_reads : Reads operand .word :=
  (run_reads _).orElse_nothing (.fail _)

theorem token_reads (inBlock : Bool) : Reads (token inBlock) (.token inBlock) :=
  quotation_reads.orElse (run_reads _)

theorem eatText_matched {text : String} {s t : State} {a : Unit}
    (e : Rule.step? (·.eatText? text) s = (.matched a, t)) : s.cursor.rest = text.toList ++ t.cursor.rest := by
  obtain ⟨d, hd, hcursor⟩ := Option.map_eq_some_iff.mp (scan?_matched e)
  obtain ⟨hbegins, rfl⟩ := eatText?_eq_some_iff.mp hd
  obtain ⟨-, hcursor⟩ := Prod.mk.inj hcursor
  rw [← hcursor, rest_skip]
  exact (List.prefix_iff_eq_append.mp (List.isPrefixOf_iff_prefix.mp hbegins)).symm

theorem skipSpaces_matched {s t : State} {a : Unit} (e : skipSpaces s = (.matched a, t)) :
    ∃ spaces, s.cursor.rest = spaces ++ t.cursor.rest ∧ (∀ x ∈ spaces, isSpace x = true) ∧
      Stops isSpace t.cursor.rest := by
  cases e
  refine ⟨s.cursor.rest.takeWhile isSpace, ?_, fun x => of_mem_takeWhile, ?_⟩
  · show s.cursor.rest = _ ++ (s.cursor.skipWhile isSpace).rest
    rw [rest_skipWhile, List.takeWhile_append_dropWhile]
  · show Stops isSpace (s.cursor.skipWhile isSpace).rest
    rw [rest_skipWhile]
    exact stops_dropWhile _ _

end Grammar

end BatchScript
