import BatchScript.Proofs.Grammar.Course
import BatchScript.Proofs.Grammar.Misses
import BatchScript.Proofs.Rule.Continued

/-!
# Leaves and conditions on a text that goes on

Behind the end of a text another one goes on with an empty line. A leaf and a condition
are read alike on both (`leaf_continued`, `condition_continued`). Two of their parts look further than the
line: a keyword of comparison wants a blank behind it, and a comment goes on over a line break. In both
cases what follows is given up, and the reader goes back.
-/

namespace BatchScript.Grammar

open Cursor Rule Text State

variable {more : List Char} {left : Nat}

/-- A rule that does not look beyond the end of the line. -/
theorem flat_continued {α : Type} {r : Rule α} (h : Flat (Continues more) r) :
    Lockstep False (Continued more left) r r :=
  h.lockstep (Continued.twin more left)

/-! ## Conditions -/

theorem relationKeyword?_at_end {c : Cursor} (h : c.rest.length = 3) : relationKeyword? c = none := by
  rw [relationKeyword?, Option.map_eq_none_iff, List.find?_eq_none]
  intro k hk
  have hlen : k.text.length = 3 := by revert k; decide
  have hpeek : c.peek k.text.length = none := List.getElem?_eq_none (by omega)
  simp [hpeek]

theorem skip_of_relationKeyword? {c d : Cursor} {a : String} (h : relationKeyword? c = some (a, d)) :
    d = c.skip 3 := by
  obtain ⟨k, hk, he⟩ := Option.map_eq_some_iff.mp h
  have hlen : k.text.length = 3 := by
    have hm := List.mem_of_find?_eq_some hk
    clear hk he h
    revert k; decide
  rw [hlen] at he
  exact (congrArg Prod.snd he).symm

/-- At the end of the first text no keyword of comparison is read, and in the second one there is no
space behind it. -/
theorem comparison_tracks {α : Type} {f : String → Rule α} (hf : ∀ op, Tracks more left (f op)) :
    Tracks more left (do
      let operator ← .scan? relationKeyword? <|> .failAll (Keyword.relations.map .keyword)
      spaces
      f operator) := by
  intro s t hs
  have hfail : ∀ w, ∃ x, (.failAll (Keyword.relations.map .keyword) : Rule String) w = (.unmatched, x) := by
    intro w
    obtain ⟨x, hx, -⟩ := Runs.failAll (Keyword.relations.map .keyword) w ⟨rfl, rfl, rfl⟩
    exact ⟨x, hx⟩
  by_cases hl : s.cursor.rest.length = 3
  · -- the second run may find a keyword that fills the end of the first text, and then stops at the line feed
    obtain ⟨u, hu⟩ := hfail s
    have hu := (orElse_of_unmatched (scan?_of_none (relationKeyword?_at_end hl)) _).trans hu
    cases hk : relationKeyword? t.cursor with
    | none =>
      obtain ⟨v, hv⟩ := hfail t
      have hv := (orElse_of_unmatched (scan?_of_none hk) _).trans hv
      exact .of_unmatched (bind_of_unmatched hu _) (bind_of_unmatched hv _)
    | some found =>
      obtain ⟨op, d⟩ := found
      have hv := orElse_of_matched (scan?_of_some hk) (.failAll (Keyword.relations.map .keyword))
      have hd : d.rest = '\n' :: '\n' :: more := by
        rw [skip_of_relationKeyword? hk, rest_skip, hs.rest.1, ← hl, List.drop_left]
      have hstop : Stops isSpace d.rest := by rw [hd]; exact stops_cons.mpr rfl
      obtain ⟨w, hw, -⟩ := spaces_unmatched hstop { t with cursor := d } ⟨rfl, rfl, rfl⟩
      exact .of_unmatched (bind_of_unmatched hu _) ((bind_of_matched hv _).trans (bind_of_unmatched hw _))
  · let E : List Char → List Char → Prop := fun j i => Continues more j i ∧ i.length ≠ 3
    have : Prolongs E := .of_imp And.left
    have hscan := TracksFrom.scan? hs (localScan_relationKeyword? (E := E) (fun h => .inr h.2) ⟨hs.rest, hl⟩)
    exact (hscan.orElse hfail).bind fun op => .bind (.of_lockstep (flat_continued spaces_alike)) fun _ => hf op

theorem relation_continued : Lockstep False (Continued more left) relation relation := by
  refine Tracks.attempt relation_alike (.bind (.of_lockstep (flat_continued operand_alike)) fun _ => ?_)
  refine .bind (.of_lockstep (flat_continued spaces_alike)) fun _ => comparison_tracks fun _ => ?_
  exact .of_lockstep <| .bind (flat_continued operand_alike) fun _ => .pure _

theorem simpleCondition_continued : Lockstep False (Continued more left) simpleCondition simpleCondition :=
  .orElse (flat_continued existence_alike) (.orElse relation_continued (flat_continued equation_alike))

theorem negation_continued : Lockstep False (Continued more left) negation negation :=
  .attempt (Continued.twin more left).companion <| .bind (flat_continued (keyword_alike _)) fun _ =>
    .bind (flat_continued spaces_alike) fun _ => .bind simpleCondition_continued fun _ => .pure _

theorem condition_continued : Lockstep False (Continued more left) condition condition :=
  .orElse negation_continued simpleCondition_continued

/-! ## Leaves -/

/-- A text that ends in a line break. -/
theorem nextCommentLine_unmatched_at_end {d b : Nat} {i : List Char} (h : i = [] ∨ i = ['\r']) :
    Runs nextCommentLine d b i .unmatched i := by
  rcases h with rfl | rfl
  · exact nextCommentLine_unmatched_of_stops stops_nil
  · exact nextCommentLine_unmatched .cr (fun _ => stops_nil) stops_nil

/-- A text that goes on behind such an end. -/
theorem nextCommentLine_unmatched_of_continues {d b : Nat} {i j : List Char} (hj : Continues more j i)
    (h : i = [] ∨ i = ['\r']) : Runs nextCommentLine d b j .unmatched j := by
  rw [hj.1]
  rcases h with rfl | rfl
  · exact nextCommentLine_unmatched .lf nofun (stops_cons.mpr rfl)
  · exact nextCommentLine_unmatched .crlf nofun (stops_cons.mpr rfl)

theorem nextCommentLine_continued : Lockstep False (Continued more left) nextCommentLine nextCommentLine := by
  intro s t hs o u e
  refine .inr ?_
  by_cases hend : s.cursor.rest = [] ∨ s.cursor.rest = ['\r']
  · -- the second run goes over the end, and stops at the empty line
    obtain ⟨w, hw, -⟩ := nextCommentLine_unmatched_at_end hend s ⟨rfl, rfl, rfl⟩
    cases hw.symm.trans e
    exact hs.of_runs (Flat.orderly nextCommentLine_alike 0) hw (attempt_unmatched hw).1
      (nextCommentLine_unmatched_of_continues hs.rest hend)
  · let E : List Char → List Char → Prop := fun j i => Continues more j i ∧ i ≠ [] ∧ i ≠ ['\r']
    have : Prolongs E := .of_imp And.left
    have hbreak : LocalScan? E fun c => c.eatLineBreak?.map fun d => ((), d) :=
      (localStep_eatLineBreak? fun h => .inr h.2).scan
    refine TracksFrom.attempt (.bind (.scan? hs (hbreak ⟨hs.rest, not_or.mp hend⟩)) fun _ => ?_)
      nextCommentLine_alike hs e
    exact .of_lockstep <| flat_continued <| .bind skipSpaces_alike fun _ =>
      .bind (skipSymbol_alike (by decide)) fun _ => commentLine_led.alike

theorem comment_continued : Lockstep False (Continued more left) comment comment :=
  .bind (flat_continued commentLine_led.alike) fun _ =>
    .bind (.many (Continued.twin more left).companion nextCommentLine_continued) fun _ => .pure _

theorem leaf_continued : Lockstep False (Continued more left) leaf leaf :=
  .orElse comment_continued <| flat_continued <| .orElse assignment_led.alike <| .orElse emit_led.alike <|
    .orElse goto_led.alike invoke_led.alike

end BatchScript.Grammar
