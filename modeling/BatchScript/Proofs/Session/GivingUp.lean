import BatchScript.Proofs.Cursor.Reach
import BatchScript.Proofs.Rule.Repeats
import BatchScript.Proofs.Session.History

/-!
# Where a session stops

A script that is read is read to its end. Where it is given up, statements were read one behind
another from its start, and the reader stands where the next one should begin
(`GivesUpAt`); only a body that is nested too deep is not left again. Reading one statement
moves the reader forward in the same script, or not at all (`Session.serve_cursor`).
-/

namespace BatchScript

open Grammar Rule Cursor

variable {limit : Nat} {script : String}

/-- The start of a script. -/
abbrev State.begin (script : String) : State :=
  { cursor := .ofText script.toList }

/-- From the start of a script statements are read, one behind another, up to blanks before `c`;
the script goes on at `c`, but not with a statement. -/
def GivesUpAt (limit : Nat) (script : String) (c : Cursor) : Prop :=
  ∃ statements s t, Repeats (documentItem limit) (.begin script) statements s ∧
    c = s.cursor.skipWhile Text.isBlank ∧ c.atEnd = false ∧
      statement limit { s with cursor := c } = (.unmatched, t)

namespace Grammar

theorem documentItem_gains : Gains (documentItem limit) :=
  item_gains localTest_atEnd

theorem documentItem_orderly : Orderly limit (documentItem limit) :=
  item_orderly localTest_atEnd

/-- Where no further statement of a document is read, the script ends or no statement begins. -/
theorem documentItem_unmatched {s t : State} (e : documentItem limit s = (.unmatched, t)) :
    t.cursor = s.cursor.skipWhile Text.isBlank ∧
      (t.cursor.atEnd = true ∨ statement limit { s with cursor := t.cursor } = (.unmatched, t)) :=
  (item_unmatched e).imp_right (.imp_left fun h => by simpa using h)

/-- A document is read as its statements, one behind another, up to the end. -/
theorem document_matched {s t : State} {d : Document} (e : document limit s = (.matched d, t)) :
    ∃ u, Repeats (documentItem limit) s d.statements u ∧ documentItem limit u = (.unmatched, t) ∧
      t.cursor.atEnd = true := by
  obtain ⟨statements, w, hm, h⟩ := bind_matched e
  obtain ⟨⟨⟩, x, hx, h⟩ := bind_matched h
  cases h
  obtain ⟨hend, rfl⟩ := holds_matched hx
  obtain ⟨u, hr, hu⟩ := documentItem_gains.repeats_of_many hm
  exact ⟨u, hr, hu, hend⟩

theorem document_of_repeats {s t u : State} {statements : List Statement}
    (h : Repeats (documentItem limit) s statements u) (e : documentItem limit u = (.unmatched, t))
    (hend : t.cursor.atEnd = true) : document limit s = (.matched ⟨statements⟩, t) := by
  refine (bind_of_matched (h.many documentItem_gains e) _).trans ?_
  exact bind_of_matched (if_pos hend) _

/-- Where a document is not read, a statement is missing. -/
theorem document_unmatched {s t : State} (e : document limit s = (.unmatched, t)) :
    ∃ statements u, Repeats (documentItem limit) s statements u ∧ t.cursor = u.cursor.skipWhile Text.isBlank ∧
      t.cursor.atEnd = false ∧ statement limit { u with cursor := t.cursor } = (.unmatched, t) := by
  obtain e | ⟨statements, _, hm, e⟩ := bind_unmatched e
  · exact absurd e many_ne_unmatched
  obtain e | ⟨_, _, -, e⟩ := bind_unmatched e
  · obtain ⟨hend, rfl⟩ := holds_unmatched e
    obtain ⟨u, hr, hu⟩ := documentItem_gains.repeats_of_many hm
    obtain ⟨hc, hs⟩ := documentItem_unmatched hu
    exact ⟨statements, u, hr, hc, hend, hs.resolve_left (by simp [hend])⟩
  · cases e

end Grammar

variable {limits : Limits}

theorem givesUpAt_of_document {t : State} (e : document limit (.begin script) = (.unmatched, t)) :
    GivesUpAt limit script t.cursor := by
  obtain ⟨statements, u, hr, hc, hend, hs⟩ := document_unmatched e
  exact ⟨statements, u, t, hr, hc, hend, hs⟩

namespace Session

/-- How one statement moves the reader from the state `u` of a script. -/
theorem readStatement_cursor (limits : Limits) {script : String} {u : State}
    (hu : (ofText script.toList).Reaches u.cursor) :
    match ({ limits, state := u } : Session).readStatement with
    | (.ok (some _), t) => ∃ m ≤ script.length, t.state.cursor = (ofText script.toList).skip m ∧
        u.cursor.position.offset < m
    | (.ok none, t) => t.state.cursor = u.cursor
    | (.error f, t) => ∃ m ≤ script.length, t.state.cursor = (ofText script.toList).skip m ∧
        u.cursor.position.offset < m ∧
        f.report = ⟨t.state.cursor.position, ["at most " ++ toString limits.depth ++ " nested bodies"]⟩ := by
  obtain ⟨t, ⟨v, hs, he⟩ | ⟨hs, he⟩ | ⟨p, hs, he⟩⟩ := readStatement_cases { limits, state := u }
  · have hr := (statement_orderly hs).follows.reaches
    have ht := hu.trans hr
    rw [he]
    exact ⟨_, (position_of_reaches ht).1, eq_skip_offset ht, hr.offset_lt (statement_gains hs nofun)⟩
  · rw [statement_eq] at hs
    rw [he]
    exact (attempt_unmatched hs).1
  · have hr := (statement_orderly hs).follows.reaches
    have ht := hu.trans hr
    rw [he]
    refine ⟨_, (position_of_reaches ht).1, eq_skip_offset ht, hr.offset_lt (statement_gains hs nofun), ?_⟩
    rw [((statement_orderly hs).tooDeep rfl).1]; rfl

/-- Where a whole script leaves the reader. -/
theorem read_cursor (s : Session) (next : String) :
    match s.read next with
    | (.ok _, t) => t.state.cursor = (ofText next.toList).skip next.length
    | (.error (.unmatched ..), t) => GivesUpAt s.limits.depth next t.state.cursor
    | (.error (.tooDeep p _), t) => (ofText next.toList).Reaches t.state.cursor ∧ p = t.state.cursor.position
    | (.error (.tooLarge _), t) => t = s := by
  obtain ⟨-, he⟩ | ⟨-, t, ⟨d, hd, he⟩ | ⟨hd, he⟩ | ⟨p, hd, he⟩⟩ := s.read_cases next
  · rw [he]
  · have hr := (document_orderly hd).follows.reaches
    obtain ⟨-, -, -, hend⟩ := document_matched hd
    rw [he]
    show t.cursor = _
    rw [eq_skip_of_atEnd hr hend]; rfl
  · obtain ⟨p, expected, hf⟩ := t.attempts.failure_eq t.cursor.position
    rw [he, hf]
    exact givesUpAt_of_document hd
  · rw [he]
    exact ⟨(document_orderly hd).follows.reaches, ((document_orderly hd).tooDeep rfl).1⟩

/-- Where a session is in its scripts, whatever it was asked for. It stands in the script that was let
in last. One statement that is read, from whatever place and inside however many bodies and blocks,
moves the reader forward; none leaves it where it is; and a body that is nested too deep is
reported where the reader then stands. A script that is read leaves the reader at its end, and one that is
given up, before the statement that is missing. -/
theorem serve_cursor (limits : Limits) (requests : List Request) :
    let s := (({ limits } : Session).serve requests).2
    let script := requests.foldl (fun script q => q.scriptAfter limits.inputSize script) ""
    (∃ n ≤ script.length, s.state.cursor = (ofText script.toList).skip n) ∧
    (∀ n depth blockDepth attempts,
      let u : State := ⟨(ofText script.toList).skip n, depth, blockDepth, attempts⟩
      match ({ s with state := u } : Session).readStatement with
      | (.ok (some _), t) => ∃ m ≤ script.length, t.state.cursor = (ofText script.toList).skip m ∧
          u.cursor.position.offset < m
      | (.ok none, t) => t.state.cursor = u.cursor
      | (.error f, t) => ∃ m ≤ script.length, t.state.cursor = (ofText script.toList).skip m ∧
          u.cursor.position.offset < m ∧
          f.report = ⟨t.state.cursor.position, ["at most " ++ toString limits.depth ++ " nested bodies"]⟩) ∧
    ∀ next, match s.read next with
      | (.ok _, t) => t.state.cursor = (ofText next.toList).skip next.length
      | (.error (.unmatched ..), t) => GivesUpAt limits.depth next t.state.cursor
      | (.error (.tooDeep p _), t) => (ofText next.toList).Reaches t.state.cursor ∧ p = t.state.cursor.position
      | (.error (.tooLarge _), t) => t = s := by
  intro s script
  have hl : s.limits = limits := limits_serve { limits } requests
  have hr := rests_serve (s := { limits }) (State.Rests.start limits.depth "") requests
  refine ⟨⟨_, (position_of_reaches hr.sound.reached).1, eq_skip_offset hr.sound.reached⟩, fun n depth b a => ?_,
    fun next => ?_⟩
  · rw [hl]
    exact readStatement_cursor limits (reaches_skip _ n)
  · rw [← hl]
    exact read_cursor s next

end Session

end BatchScript
