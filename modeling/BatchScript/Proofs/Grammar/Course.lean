import BatchScript.Proofs.Grammar.Nesting
import BatchScript.Proofs.Rule.Runs
import BatchScript.Proofs.Rule.Record

/-!
# The course of reading

Every run of the rules for statements and documents takes its course
(`statement_orderly`, `document_orderly`): it moves forward, and puts the counts of
bodies and blocks back, except the count of bodies where one is nested too deep. A
statement that is read, or that ends in such a body, is not empty (`statement_gains`); and
where none is read there is a mark in the record (`statement_wants`).
-/

namespace BatchScript.Grammar

open Cursor Rule Text

variable {limit : Nat} {script : List Char}

/-! ## Statements -/

/-- What is read inside a body. -/
def bodyStatements (statement : Rule Statement) : Rule (List Statement) :=
  (do return [← statement]) <|> block statement

theorem body_eq (limit : Nat) (statement : Rule Statement) :
    body limit statement = .insideBody limit (bodyStatements statement) := rfl

theorem blockStatements_orderly {n : Rule Statement} (hn : Orderly limit n) :
    Orderly limit (blockStatements n) :=
  blockStatements_alike.orderly hn

theorem bodyStatements_orderly {n : Rule Statement} (hn : Orderly limit n) :
    Orderly limit (bodyStatements n) := by
  refine .orElse (.bind hn fun _ => .pure _) ?_
  rw [block_eq]
  exact .attempt <| .bind (Flat.orderly (symbol_alike (by decide)) limit) fun _ =>
    .insideBlock (blockStatements_orderly hn)

theorem body_orderly {n : Rule Statement} (hn : Orderly limit n) : Orderly limit (body limit n) :=
  body_eq limit n ▸ .insideBody (bodyStatements_orderly hn)

theorem statement_orderly : Orderly limit (statement limit) := by
  intro s t o e
  refine statement_induction (P := fun s o t => Course limit s o t) (fun s => ?_) (fun n hn => ?_) e
  · exact .of_follows (.refl s) rfl nofun
  · exact fun e => statementWith_alike.orderly (body_orderly fun _ _ _ => hn) e

theorem alternative_orderly : Orderly limit (alternative (body limit (statement limit))) :=
  alternative_alike.orderly (body_orderly statement_orderly)

theorem branch_orderly : Orderly limit (branch (body limit (statement limit))) :=
  branch_alike.orderly (body_orderly statement_orderly)

theorem loop_orderly : Orderly limit (loop (body limit (statement limit))) :=
  loop_alike.orderly (body_orderly statement_orderly)

theorem document_orderly : Orderly limit (document limit) :=
  document_alike.orderly statement_orderly

/-! ## Statements are not empty -/

theorem keyword_gains (k : Keyword) : Gains (keyword k) :=
  .step? (left_lt_of_eatKeyword? (by cases k <;> decide)) _

theorem symbol_gains (x : Char) : Gains (symbol x) := by
  refine .step? (fun {c d} h => ?_) _
  obtain ⟨hx, rfl⟩ := eat?_eq_some_iff.mp h
  have hne : c.rest ≠ [] := by
    intro he
    simp [current, he] at hx
  have := List.length_pos_iff.mpr hne
  rw [left_next, left_eq]; omega

theorem Led.gains {k : Keyword} {α : Type} {r : Rule α} (h : Led Eq k r) : Gains r := by
  obtain ⟨f, rfl, hf⟩ := h
  exact .attempt <| .bind (keyword_gains k) fun _ => hf.orderly 0

theorem Led.orderly {k : Keyword} {α : Type} {r : Rule α} (h : Led Eq k r) (limit : Nat) : Orderly limit r :=
  Flat.orderly h.alike limit

theorem leaf_gains : Gains leaf := by
  have hcomment : Gains comment := .bind commentLine_led.gains fun _ =>
    .bind (Flat.orderly (.many nextCommentLine_alike) 0) fun _ => .pure _
  refine .orElse (Flat.orderly comment_alike 0) hcomment ?_
  refine .orElse (assignment_led.orderly 0) assignment_led.gains ?_
  refine .orElse (emit_led.orderly 0) emit_led.gains ?_
  exact .orElse (goto_led.orderly 0) goto_led.gains invoke_led.gains

theorem chain_gains : Gains chain :=
  .bind leaf_gains fun _ => .foldMany (Flat.orderly chainLink_alike 0) _ _

theorem label_gains : Gains label :=
  .attempt <| .bind (symbol_gains ':') fun _ => .bind (Flat.orderly identifier_alike 0) fun _ => .pure _

section Bodies

variable {b : Rule (List Statement)}

theorem branch_gains (hb : Orderly limit b) : Gains (branch b) := by
  rw [branch_eq]
  exact .attempt <| .bind (keyword_gains _) fun _ => .bind (Flat.orderly branchHead_alike limit) fun _ =>
    (branchBodies_alike _).orderly hb

theorem loop_gains (hb : Orderly limit b) : Gains (loop b) := by
  rw [loop_eq]
  exact .attempt <| .bind (keyword_gains _) fun _ => .bind (Flat.orderly loopHead_alike limit) fun _ =>
    .bind hb fun _ => .pure _

end Bodies

/-- A statement that is read, or that ends in a body nested too deep, is not empty. -/
theorem statement_gains : Gains (statement limit) := by
  have hb : Orderly limit (body limit (statement limit)) := body_orderly statement_orderly
  rw [statement_eq]
  refine .attempt <| .after (skipSymbol_alike (by decide)) fun _ => ?_
  refine .orElse (Flat.orderly label_alike limit) label_gains ?_
  refine .orElse branch_orderly (branch_gains hb) ?_
  exact .orElse loop_orderly (loop_gains hb) chain_gains

/-! ## Statements behind blanks -/

theorem skipBlanks_holds_apply {α : Type} (p : Cursor → Bool) (r : Rule α) (s : State) :
    (do skipBlanks; .holds p; r : Rule α) s =
      if p (s.cursor.skipWhile isBlank) then r { s with cursor := s.cursor.skipWhile isBlank }
      else (.unmatched, { s with cursor := s.cursor.skipWhile isBlank }) := by
  have hb : skipBlanks s = (.matched (), { s with cursor := s.cursor.skipWhile isBlank }) := rfl
  rw [bind_of_matched hb]
  split
  · rename_i hp
    exact bind_of_matched (if_pos hp) _
  · rename_i hp
    exact bind_of_unmatched (if_neg hp) _

section Items

variable {p : Cursor → Bool}

theorem item_orderly (hp : LocalTest Eq p) : Orderly limit (do skipBlanks; .holds p; statement limit) :=
  (item_alike hp).orderly statement_orderly

theorem item_gains (hp : LocalTest Eq p) : Gains (do skipBlanks; .holds p; statement limit) :=
  .after skipBlanks_alike fun _ => .after (.holds hp) fun _ => statement_gains

/-- Where no further statement is read, the place is not such that one may begin, or none begins. -/
theorem item_unmatched {s t : State}
    (e : (do skipBlanks; .holds p; statement limit : Rule Statement) s = (.unmatched, t)) :
    t.cursor = s.cursor.skipWhile isBlank ∧
      (p t.cursor = false ∨ statement limit { s with cursor := t.cursor } = (.unmatched, t)) := by
  have e := (skipBlanks_holds_apply p (statement limit) s).symm.trans e
  split at e
  · have hc := e
    rw [statement_eq] at hc
    have hc := (attempt_unmatched hc).1
    exact ⟨hc, .inr (by rw [hc]; exact e)⟩
  · rename_i hp
    cases e
    exact ⟨rfl, .inl (Bool.eq_false_iff.mpr hp)⟩

end Items

/-! ## Where nothing is read -/

theorem keyword_wants (k : Keyword) : Wants script (keyword k) :=
  .orElse_right (Flat.orderly (.step? (localStep_eatKeyword? (by cases k <;> decide))) 0) (.fail _)

/-- Where no leaf is read, there is something that was wanted there or further on. -/
theorem leaf_wants : Wants script leaf := by
  have hline : Wants script commentLine :=
    .attempt <| .bind (Flat.orderly (keyword_alike _) 0) (keyword_wants _) fun _ =>
      .orElse_right (Flat.orderly (.scan? localScan_commentText?) 0) (.fail _)
  have hcomment : Wants script comment := .bind (commentLine_led.orderly 0) hline fun _ =>
    .bind (Flat.orderly (.many nextCommentLine_alike) 0) (.many _) fun _ => .pure _
  refine .orElse_left hcomment <| .orElse (assignment_led.orderly 0) <| .orElse (emit_led.orderly 0) ?_
  exact .orElse (goto_led.orderly 0) (invoke_led.orderly 0)

/-- Where no statement is read, there is something that was wanted there or further on. -/
theorem statement_wants : Wants script (statement limit) := by
  have hcolon : Wants script (symbol ':') :=
    .orElse_right (Flat.orderly (.step? (localStep_eat?_of_ne (by decide))) limit) (.fail _)
  have hname : Wants script identifier :=
    .orElse_right (Flat.orderly (.scan? localScan_identifier?) limit) (.fail _)
  have hlabel : Wants script label :=
    .attempt <| .bind (Flat.orderly (symbol_alike (by decide)) limit) hcolon fun _ =>
      .bind (Flat.orderly identifier_alike limit) hname fun _ => .pure _
  rw [statement_eq]
  refine .attempt <| .bind (Flat.orderly (skipSymbol_alike (by decide)) limit) (.move _) fun _ => ?_
  exact .orElse_left hlabel <| .orElse branch_orderly <| .orElse loop_orderly (Flat.orderly chain_alike limit)

end BatchScript.Grammar
