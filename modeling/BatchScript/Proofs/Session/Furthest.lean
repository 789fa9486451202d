import BatchScript.Proofs.Grammar.Course
import BatchScript.Proofs.Rule.Notes
import BatchScript.Proofs.Session.Reports

/-!
# Reports and what was noted

Every run of the rules for statements and for documents has its notes (`statement_noted`,
`document_noted`). A statement inside a body begins behind a keyword, with less to read; so the induction is on
what is left to read.

While a script is read, rule after rule fails and notes it, over all statements and all that is read
and given up again. The report of a script that is given up tells of all these notes: the furthest place,
and what was wanted there (`Session.read_tells`).
-/

namespace BatchScript

/-! ## Notes of the grammar -/

namespace Grammar

open Rule

variable {α : Type} {limit n : Nat}

theorem body_noted {statement : Rule Statement} (h : Noted n statement) : Noted n (body limit statement) := by
  rw [body_eq, bodyStatements, block_eq]
  refine .insideBody <| .orElse (.bind h fun a => Flat.noted (.pure [a]) n) <| .attempt ?_
  exact .bind (Flat.noted (symbol_alike (by decide)) n) fun _ => .insideBlock (blockStatements_alike.noted h)

/-- Behind a keyword there is less to read. -/
theorem noted_of_keyword {k : Keyword} {r : Unit → Rule α} (h : ∀ a, Noted n (r a)) :
    Noted (n + 1) (keyword k >>= r) := by
  refine .bind_of_left (Flat.noted (keyword_alike k) _) (fun e hs => ?_) h
  have hlt := left_lt_of_keyword e
  omega

theorem statement_noted (limit n : Nat) : Noted n (statement limit) := by
  induction n with
  | zero => exact fun s hs => absurd hs (Nat.not_lt_zero _)
  | succ n ih =>
    have hb : Noted n (body limit (statement limit)) := body_noted ih
    have hbranch : Noted (n + 1) (branch (body limit (statement limit))) := by
      rw [branch_eq]
      exact .attempt <| noted_of_keyword fun _ => .bind (Flat.noted branchHead_alike n) fun _ =>
        (branchBodies_alike _).noted hb
    have hloop : Noted (n + 1) (loop (body limit (statement limit))) := by
      rw [loop_eq]
      exact .attempt <| noted_of_keyword fun _ => .bind (Flat.noted loopHead_alike n) fun _ =>
        .bind hb fun _ => Flat.noted (.pure _) n
    rw [statement_eq]
    refine .attempt <| .bind (Flat.noted (skipSymbol_alike (by decide)) _) fun _ => ?_
    exact .orElse (Flat.noted label_alike _) <| .orElse hbranch <| .orElse hloop (Flat.noted chain_alike _)

theorem document_noted (limit : Nat) (s : State) : ∃ notes, Notes (document limit) s notes :=
  document_alike.noted (statement_noted limit _) s (Nat.lt_succ_self s.left)

end Grammar

/-! ## What a report tells -/

open Grammar Rule Cursor

variable {notes : List Note}

/-- A report tells of some notes: of the furthest of their places, and by name of what was wanted there, each
thing once and in the order of the notes. -/
structure Report.Tells (notes : List Note) (r : Report) : Prop where
  position : ∃ note ∈ notes, note.1.position = r.position
  furthest : ∀ note ∈ notes, note.1.position.offset ≤ r.position.offset
  expected : r.expected =
    ((notes.filter fun note => note.1.position.offset = r.position.offset).map fun note => note.2.text).eraseDups

theorem Attempts.tells_summary (hne : notes ≠ []) :
    (Failure.unmatched (summary notes).furthest (summary notes).expected).report.Tells notes := by
  cases hc : (notes.map (·.1.position)).argmax Position.offset with
  | none => exact absurd (List.map_eq_nil_iff.mp (List.argmax_eq_none.mp hc)) hne
  | some c =>
    rw [summary_of_argmax hc]
    refine ⟨List.mem_map.mp (List.argmax_mem hc), fun n hn => offset_le_of_argmax hc hn, ?_⟩
    show (wantedAt c.offset notes).eraseDups.map Expectation.text = _
    rw [← eraseDups_map Expectation.text_injective, wantedAt, List.map_map]
    rfl

/-- Where a script is given up, its report tells of all that was noted from its start. -/
theorem tells_of_document {limits : Limits} {script : String} {t : State}
    (hd : document limits.depth (.begin script) = (.unmatched, t))
    (h : Notes (document limits.depth) (.begin script) notes) :
    (t.attempts.failure t.cursor.position).report.Tells notes := by
  have hcovers := covers_of_document hd
  have hleads := h.leads hd
  have ht : t.attempts = .summary notes :=
    hleads.attempts.trans (Attempts.noteAll_eq_summary hleads.places)
  have hne : notes ≠ [] := by
    rintro rfl
    exact hcovers.1 (by rw [ht]; rfl)
  rw [hcovers.failure_eq, ht]
  exact Attempts.tells_summary hne

namespace Session

/-- A script that is given up has its notes, all that was noted while it was read, and the report tells
of them. The record that the report is taken from is the summary of any notes in a text. -/
theorem read_tells (s : Session) (script : String) :
    (∀ p expected, (s.read script).1 = .error (.unmatched p expected) →
      (∃ notes, Notes (document s.limits.depth) (.begin script) notes) ∧
      ∀ notes, Notes (document s.limits.depth) (.begin script) notes →
        (Failure.unmatched p expected).report.Tells notes) ∧
    ∀ notes : List Note, (∀ note ∈ notes, (ofText script.toList).Reaches note.1) →
      ({} : Attempts).noteAll notes = .summary notes := by
  refine ⟨fun p expected h => ⟨document_noted _ _, fun notes hn => ?_⟩,
    fun notes hn => Attempts.noteAll_eq_summary hn⟩
  rw [fst_read] at h
  obtain hf | ⟨q, t, -, hf⟩ | ⟨t, hd, hf⟩ := document_of_read_error h
  · cases hf
  · cases hf
  · rw [hf]
    exact tells_of_document hd hn

/-- Behind `NOT x` neither a blank nor `==` is found; the second is looked for once more when `NOT` itself
is tried as an operand, and `EQU` and its kin are wanted before that place. -/
theorem read_tells_not : ∃ notes, Notes (document 200) (.begin "if not x") notes ∧
    (({} : Session).read "if not x").1 = .error (.unmatched ⟨1, 9, 8⟩ [.whitespace, .symbol "=="]) ∧
    Report.Tells notes ⟨⟨1, 9, 8⟩, ["whitespace", "'=='"]⟩ := by
  have h : (({} : Session).read "if not x").1 = .error (.unmatched ⟨1, 9, 8⟩ [.whitespace, .symbol "=="]) := by
    decide +kernel
  obtain ⟨⟨notes, hn⟩, htells⟩ := (read_tells {} "if not x").1 _ _ h
  exact ⟨notes, hn, h, htells notes hn⟩

end Session

end BatchScript
