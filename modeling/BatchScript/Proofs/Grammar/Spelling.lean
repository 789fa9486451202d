import BatchScript.Proofs.Cursor.SpelledScan
import BatchScript.Proofs.Grammar.Mirrors

/-!
# Scripts in another spelling

The rules read a spelling of a script as they read the script: they find the same tree with its
texts in that spelling, or fail at the place that belongs to the one where they fail in the script,
and want the same there (`document_respells`). What the two runs have in common at every moment is
`Spelling.Alongside`; it is kept by each small step, and so by every rule that is composed of them.
-/

namespace BatchScript

open Text Cursor Grammar

namespace Spelling

/-- The state of a run over the spelling of a script belongs to that of a run over the script. -/
structure Alongside (σ : Spelling) (script : List Char) (s t : State) : Prop where
  cursor : σ.Reads script s.cursor t.cursor
  depth : t.depth = s.depth
  blockDepth : t.blockDepth = s.blockDepth
  furthest : σ.Beside script s.attempts.furthest t.attempts.furthest
  expected : t.attempts.expected = s.attempts.expected

variable {σ : Spelling} {script : List Char}

theorem Alongside.note {s t : State} (h : σ.Alongside script s t) (wanted : Expectation) :
    σ.Alongside script { s with attempts := s.attempts.note s.cursor.position wanted }
      { t with attempts := t.attempts.note t.cursor.position wanted } := by
  have hlt := h.furthest.offset_lt_iff h.cursor.beside
  have heq := h.cursor.beside.offset_eq_iff h.furthest
  refine ⟨h.cursor, h.depth, h.blockDepth, ?_, ?_⟩
  all_goals
    simp only [Attempts.note, hlt, heq, h.expected]
    split
  · exact h.cursor.beside
  · split <;> exact h.furthest
  · rfl
  · split <;> simp [h.expected]

theorem abreast : Abreast (σ.Reads script) (σ.Alongside script) where
  cursor h := h.cursor
  move h k := ⟨k, h.depth, h.blockDepth, h.furthest, h.expected⟩
  left_lt h k := h.left_lt k
  note wanted h := h.note wanted

/-- Labels and leaves read the spelling of a script as the script. -/
theorem readings (hf : σ.Fits script) : Readings (σ.Reads script) σ.rewording id where
  keyword k := stepMirrors_eatKeyword? hf (isWord_text k)
  symbol hx := stepMirrors_eat? hf ((by decide : ∀ x ∈ [':', '.', '@', '='], isMark x = true) _ hx)
  spaces := mirrors_word?_line hf (.of_letters (by decide) (by decide)) (by decide)
  skipSpaces _ _ h := h.skipWhile hf (.of_letters (by decide) (by decide))
  identifier := mirrors_identifier? hf
  quoted := mirrors_quoted? hf
  word b := mirrors_word? hf (by cases b <;> exact .of_letters (by decide) (by decide))
  freeText b := span_line hf (by cases b <;> exact .of_letters (by decide) (by decide)) (by cases b <;> decide)
  message b := upTo_line hf
    (fun j => by
      unfold endsMessage
      rw [σ.beginsWithHandle_text, σ.head?_any_text (by cases b <;> exact .of_letters (by decide) (by decide))])
    fun j => by cases b <;> rfl
  handle := handle_line hf
  mode := mirrors_eatFirst? (fun m hm => stepMirrors_eatText? hf (by revert m; decide))
    fun m hm => σ.line_of_isMark (by revert m; decide)
  stream b := mirrors_stream? hf b
  operator := mirrors_eatFirst? (fun op _ => stepMirrors_eatText? hf (by cases op <;> decide)) fun _ _ => rfl
  line_append := σ.line_append

/-! ## The rules of the grammar -/

section Rules

variable (hf : σ.Fits script)

/-- A rule reads the spelling of a script as another one reads the script, with `F a` for `a`. -/
abbrev Respells (σ : Spelling) (script : List Char) {α β : Type} (F : α → β) (r : Rule α) (q : Rule β) : Prop :=
  Rule.Mirrors (σ.Beside script) (σ.Alongside script) F r q

theorem inBlock_respells : σ.Respells script id Rule.inBlock Rule.inBlock := by
  intro s t h
  unfold Rule.inBlock
  rw [h.blockDepth]
  exact .matched (F := id) h

include hf

theorem keyword_respells (k : Keyword) : σ.Respells script id (keyword k) (keyword k) :=
  keyword_mirrors abreast (readings hf) k

theorem symbol_respells {x : Char} (hx : isMark x = true) : σ.Respells script id (symbol x) (symbol x) :=
  .orElse (.step? abreast (stepMirrors_eat? hf hx)) (.fail abreast _)

theorem spaces_respells : σ.Respells script id spaces spaces :=
  spaces_mirrors abreast (readings hf)

theorem skipSpaces_respells : σ.Respells script id skipSpaces skipSpaces :=
  skipSpaces_mirrors abreast (readings hf)

theorem skipBlanks_respells : σ.Respells script id skipBlanks skipBlanks :=
  .move abreast fun _ _ h => h.skipWhile hf (.of_letters (by decide) (by decide))

/-! ### Conditions -/

theorem operand_respells : σ.Respells script σ.line operand operand :=
  .orElse (.scan? abreast (mirrors_word?_line hf (.of_letters (by decide) (by decide)) (by decide)))
    (.fail abreast _)

theorem existence_respells : σ.Respells script (Condition.reword σ.rewording) existence existence :=
  .attempt abreast <| .bind (keyword_respells hf _) fun _ => .bind (spaces_respells hf) fun _ =>
    .bind (.orElse (.scan? abreast (mirrors_quoted? hf)) <|
      .orElse (.scan? abreast (mirrors_word? hf (.of_letters (by decide) (by decide)))) (.fail abreast _))
      fun _ => .pure _

theorem relation_respells : σ.Respells script (Condition.reword σ.rewording) relation relation :=
  .attempt abreast <| .bind (operand_respells hf) fun _ => .bind (spaces_respells hf) fun _ =>
    .bind (.orElse (.scan? abreast (mirrors_relationKeyword? hf)) (.failAll abreast _)) fun _ =>
      .bind (spaces_respells hf) fun _ => .bind (operand_respells hf) fun _ => .pure _

theorem equation_respells : σ.Respells script (Condition.reword σ.rewording) equation equation := by
  have hside : ∀ j, endsLeftSide (σ.text j) = endsLeftSide j := by
    intro j
    unfold endsLeftSide
    rw [σ.isPrefixOf_text (by decide), σ.head?_any_text (.of_letters (by decide) (by decide))]
  refine .attempt abreast <| .bind (.scan abreast (upTo_line hf hside fun _ => rfl)) fun before => ?_
  refine .bind (.orElse (.holds abreast fun _ _ h => h.startsWith (by decide)) (.fail abreast _)) fun _ => ?_
  simp only [trim_line]
  generalize String.ofList (trim before.toList) = left
  refine .bind (.orElse (.holds abreast fun _ _ _ => by rw [isEmpty_line]) (.fail abreast _)) fun _ => ?_
  refine .bind (.step? abreast (stepMirrors_eatText? hf (by decide))) fun _ => ?_
  refine .bind (skipSpaces_respells hf) fun _ => .bind (operand_respells hf) fun right => ?_
  have heq : Condition.reword σ.rewording (.comparison left "==" right) =
      .comparison (σ.line left) "==" (σ.line right) :=
    congrArg (Condition.comparison _ · _) (σ.line_of_isMark (by decide))
  rw [← heq]
  exact .pure _

theorem simpleCondition_respells : σ.Respells script (Condition.reword σ.rewording) simpleCondition simpleCondition :=
  .orElse (existence_respells hf) <| .orElse (relation_respells hf) (equation_respells hf)

theorem negation_respells : σ.Respells script (Condition.reword σ.rewording) negation negation :=
  .attempt abreast <| .bind (keyword_respells hf _) fun _ => .bind (spaces_respells hf) fun _ =>
    .bind (simpleCondition_respells hf) fun _ => .pure _

theorem condition_respells : σ.Respells script (Condition.reword σ.rewording) condition condition :=
  .orElse (negation_respells hf) (simpleCondition_respells hf)

/-! ### Leaves and chains -/

theorem commentLine_respells : σ.Respells script σ.line commentLine commentLine :=
  .attempt abreast <| .bind (keyword_respells hf _) fun _ =>
    .orElse (.scan? abreast (mirrors_commentText? hf)) (.fail abreast _)

theorem nextCommentLine_respells : σ.Respells script σ.line nextCommentLine nextCommentLine :=
  .attempt abreast <| .bind (.step? abreast (stepMirrors_eatLineBreak? hf)) fun _ =>
    .bind (skipSpaces_respells hf) fun _ => .bind (skipSymbol_mirrors abreast (readings hf) (by decide)) fun _ =>
      commentLine_respells hf

theorem comment_respells : σ.Respells script (Leaf.reword σ.rewording) comment comment :=
  .bind (commentLine_respells hf) fun first => .bind (.many abreast (nextCommentLine_respells hf)) fun others => by
    rw [← List.map_cons, ← σ.line_intercalate]
    exact .pure (F := Leaf.reword σ.rewording) (.comment _)

theorem leaf_respells : σ.Respells script (Leaf.reword σ.rewording) leaf leaf :=
  .orElse (comment_respells hf) <| .orElse (assignment_mirrors abreast (readings hf) inBlock_respells) <|
    .orElse (emit_mirrors abreast (readings hf) inBlock_respells) <|
      .orElse (goto_mirrors abreast (readings hf)) (invoke_mirrors abreast (readings hf) inBlock_respells)

theorem chainLink_respells :
    σ.Respells script (Prod.map id (Leaf.reword σ.rewording)) chainLink chainLink :=
  .attempt abreast <| .bind (skipSpaces_respells hf) fun _ =>
    .bind (chainOperator_mirrors abreast (readings hf)) fun _ => .bind (skipBlanks_respells hf) fun _ =>
      .bind (skipSymbol_mirrors abreast (readings hf) (by decide)) fun _ => .bind (leaf_respells hf) fun _ => .pure _

theorem chain_respells : σ.Respells script (Statement.reword σ.rewording) chain chain :=
  .bind (leaf_respells hf) fun first =>
    .foldMany (G := Statement.reword σ.rewording) abreast (chainLink_respells hf) (fun _ _ => rfl) (.leaf first)

/-! ### Bodies -/

omit hf in
theorem bodyFollows_respells : σ.Respells script id bodyFollows bodyFollows :=
  .orElse (.holds abreast fun _ _ h => h.current_any (.of_letters (by decide) (by decide))) (.fail abreast _)

theorem loopOption_respells : σ.Respells script σ.token loopOption loopOption :=
  .attempt abreast <| .bind (.scan? abreast (mirrors_quoted? hf)) fun _ => .bind (spaces_respells hf) fun _ => .pure _

theorem loopSource_respells : σ.Respells script σ.token loopSource loopSource :=
  .orElse (.scan? abreast (mirrors_source? hf)) <|
    .bind (.move abreast fun _ _ h => h.skip_left hf) fun _ => .fail abreast _

section Nested

variable {limit : Nat} {n n' : Rule Statement} {b b' : Rule (List Statement)}

theorem block_respells (hn : σ.Respells script (Statement.reword σ.rewording) n n') :
    σ.Respells script (List.map (Statement.reword σ.rewording)) (block n) (block n') := by
  have item : σ.Respells script (Statement.reword σ.rewording) (blockItem n) (blockItem n') :=
    .bind (skipBlanks_respells hf) fun _ => .bind (.holds abreast fun c d h => by
      rw [Bool.eq_iff_iff, bne_iff_ne, bne_iff_ne, ne_eq, ne_eq, h.current_eq_iff (by decide)]) fun _ => hn
  refine .attempt abreast <| .bind (symbol_respells hf (by decide)) fun _ => .insideBlock ?_ ?_ ?_
  · exact .bind (.many abreast item) fun _ => .bind (symbol_respells hf (by decide)) fun _ => .pure _
  · exact fun h => ⟨h.cursor, h.depth, congrArg (· + 1) h.blockDepth, h.furthest, h.expected⟩
  · exact fun h => ⟨h.cursor, h.depth, congrArg (· - 1) h.blockDepth, h.furthest, h.expected⟩

theorem body_respells (hn : σ.Respells script (Statement.reword σ.rewording) n n') :
    σ.Respells script (List.map (Statement.reword σ.rewording)) (body limit n) (body limit n') := by
  refine .insideBody (.orElse (.bind hn fun s => .pure [s]) (block_respells hf hn)) ?_ ?_ ?_
  · exact fun h => h.cursor.beside
  · exact fun h => h.depth
  · exact fun d h => ⟨h.cursor, rfl, h.blockDepth, h.furthest, h.expected⟩

theorem alternative_respells (hb : σ.Respells script (List.map (Statement.reword σ.rewording)) b b') :
    σ.Respells script (List.map (Statement.reword σ.rewording)) (alternative b) (alternative b') :=
  .attempt abreast <| .bind (skipBlanks_respells hf) fun _ => .bind (keyword_respells hf _) fun _ =>
    .bind (bodyFollows_respells) fun _ => .bind (skipBlanks_respells hf) fun _ => hb

theorem branch_respells (hb : σ.Respells script (List.map (Statement.reword σ.rewording)) b b') :
    σ.Respells script (Statement.reword σ.rewording) (branch b) (branch b') :=
  .attempt abreast <| .bind (keyword_respells hf _) fun _ => .bind (spaces_respells hf) fun _ =>
    .bind (condition_respells hf) fun condition => .bind (skipBlanks_respells hf) fun _ =>
      .bind hb fun thenBody => .bind (.optional (alternative_respells hf hb)) fun elseBody => by
        rw [← bodyReword_eq_map, ← elseReword_eq_map]
        exact .pure (F := Statement.reword σ.rewording) (.branch condition thenBody elseBody)

theorem loop_respells (hb : σ.Respells script (List.map (Statement.reword σ.rewording)) b b') :
    σ.Respells script (Statement.reword σ.rewording) (loop b) (loop b') :=
  .attempt abreast <| .bind (keyword_respells hf _) fun _ => .bind (spaces_respells hf) fun _ =>
    .bind (keyword_respells hf _) fun _ => .bind (spaces_respells hf) fun _ =>
    .bind (.optional (loopOption_respells hf)) fun option =>
    .bind (.orElse (.step? abreast (stepMirrors_eatText? hf (by decide))) (.fail abreast _)) fun _ =>
    .bind (.orElse (.scan? abreast (mirrors_letter? hf)) (.fail abreast _)) fun loopVar =>
    .bind (spaces_respells hf) fun _ => .bind (keyword_respells hf _) fun _ => .bind (skipSpaces_respells hf) fun _ =>
    .bind (symbol_respells hf (by decide)) fun _ => .bind (loopSource_respells hf) fun source =>
    .bind (skipSpaces_respells hf) fun _ => .bind (keyword_respells hf _) fun _ => .bind (bodyFollows_respells) fun _ =>
    .bind (skipBlanks_respells hf) fun _ => .bind hb fun body => by
      rw [← bodyReword_eq_map]
      exact .pure (F := Statement.reword σ.rewording) (.loop option loopVar source body)

theorem statementWith_respells (hn : σ.Respells script (Statement.reword σ.rewording) n n') :
    σ.Respells script (Statement.reword σ.rewording) (statementWith limit n) (statementWith limit n') := by
  have hb : σ.Respells script (List.map (Statement.reword σ.rewording)) (body limit n) (body limit n') :=
    body_respells hf hn
  exact .attempt abreast <| .bind (skipSymbol_mirrors abreast (readings hf) (by decide)) fun _ =>
    .orElse (label_mirrors abreast (readings hf)) <| .orElse (branch_respells hf hb) <|
      .orElse (loop_respells hf hb) (chain_respells hf)

end Nested

/-! ## Statements and documents -/

theorem statement_respells (limit : Nat) :
    σ.Respells script (Statement.reword σ.rewording) (statement limit) (statement limit) :=
  statement_mirrors abreast fun _ _ hn => statementWith_respells hf hn

/-- The spelling of a script is read as the script. -/
theorem document_respells (limit : Nat) :
    σ.Respells script (Document.reword σ.rewording) (document limit) (document limit) := by
  have item : σ.Respells script (Statement.reword σ.rewording) (documentItem limit) (documentItem limit) :=
    .bind (skipBlanks_respells hf) fun _ => .bind (.holds abreast fun _ _ h => by rw [h.atEnd]) fun _ =>
      statement_respells hf limit
  exact .bind (.many abreast item) fun _ => .bind (.holds abreast fun _ _ h => h.atEnd) fun _ => .pure _

end Rules

end Spelling

end BatchScript
