import BatchScript.Proofs.Rule.Alike

/-!
# How the rules of the grammar are composed

Every rule without bodies is composed of small steps alone (`leaf_alike`,
`condition_alike`, `chain_alike`), and every other one of such steps and of a rule for
its bodies or its statements (`statementWith_alike`, `blockStatements_alike`,
`document_alike`). A branch, an alternative and a loop are their heads and their bodies
(`branch_eq`, `alternative_eq`, `loop_eq`). Rules that do not look beyond the end of the line are
composed of steps that are local at any two texts that a scan cannot tell apart, and the others of
steps that are local at the same text.
-/

namespace BatchScript.Grammar

open Cursor Rule Text

variable {β : Type} {q q' : Rule β} {E : List Char → List Char → Prop} [Prolongs E]

/-! ## Words -/

theorem keyword_alike (k : Keyword) : Alike E q q' (keyword k) (keyword k) :=
  .orElse (.step? (localStep_eatKeyword? (by cases k <;> decide))) (.fail nofun)

theorem symbol_alike {x : Char} (hx : x ≠ '\n') : Alike E q q' (symbol x) (symbol x) :=
  .orElse (.step? (localStep_eat?_of_ne hx)) (.fail nofun)

theorem spaces_alike : Alike E q q' spaces spaces :=
  .bind (.orElse (.scan? (localScan_word? rfl)) (.fail nofun)) fun _ => .pure _

theorem identifier_alike : Alike E q q' identifier identifier :=
  .orElse (.scan? localScan_identifier?) (.fail nofun)

theorem skipSpaces_alike : Alike E q q' skipSpaces skipSpaces :=
  .move (localMove_skipWhile fun h => Prolongs.takeWhile h rfl)

theorem skipBlanks_alike : Alike Eq q q' skipBlanks skipBlanks :=
  .move (localMove_skipWhile fun h => by rw [h])

theorem skipSymbol_alike {x : Char} (hx : x ≠ '\n') : Alike E q q' (skipSymbol x) (skipSymbol x) :=
  .move (localStep_eat?_of_ne hx).getD

theorem token_alike (inBlock : Bool) : Alike E q q' (token inBlock) (token inBlock) :=
  .orElse (.scan? localScan_quoted?) (.scan? (localScan_word? rfl))

/-! ## Conditions -/

theorem operand_alike : Alike E q q' operand operand :=
  .orElse (.scan? (localScan_word? rfl)) (.fail nofun)

theorem existence_alike : Alike E q q' existence existence :=
  .attempt <| .bind (keyword_alike _) fun _ => .bind spaces_alike fun _ =>
    .bind (.orElse (.scan? localScan_quoted?) (.orElse (.scan? (localScan_word? rfl)) (.fail nofun)))
      fun _ => .pure _

theorem relation_alike : Alike Eq q q' relation relation :=
  .attempt <| .bind operand_alike fun _ => .bind spaces_alike fun _ =>
    .bind (.orElse (.scan? (localScan_relationKeyword? .inl)) (.failAll (by decide))) fun _ =>
      .bind spaces_alike fun _ => .bind operand_alike fun _ => .pure _

theorem equation_alike : Alike E q q' equation equation :=
  .attempt <| .bind (.scan localScan_leftSide) fun _ =>
    .bind (.orElse (.holds fun c d h => Prolongs.startsWith h (by decide)) (.fail nofun)) fun _ =>
      .bind (.orElse (.holds fun _ _ _ => rfl) (.fail nofun)) fun _ =>
        .bind (.step? (localStep_eatText?_of_notMem (by decide))) fun _ => .bind skipSpaces_alike fun _ =>
          .bind operand_alike fun _ => .pure _

theorem simpleCondition_alike : Alike Eq q q' simpleCondition simpleCondition :=
  .orElse existence_alike (.orElse relation_alike equation_alike)

theorem negation_alike : Alike Eq q q' negation negation :=
  .attempt <| .bind (keyword_alike _) fun _ => .bind spaces_alike fun _ =>
    .bind simpleCondition_alike fun _ => .pure _

theorem condition_alike : Alike Eq q q' condition condition :=
  .orElse negation_alike simpleCondition_alike

/-! ## Leaves -/

/-- A rule without bodies that begins with a keyword. -/
def Led (E : List Char → List Char → Prop) (k : Keyword) {α : Type} (r : Rule α) : Prop :=
  ∃ f : Unit → Rule α, r = .attempt (keyword k >>= f) ∧ Flat E (f ())

theorem Led.alike {k : Keyword} {α : Type} {r : Rule α} (h : Led E k r) : Alike E q q' r r := by
  obtain ⟨f, rfl, hf⟩ := h
  exact .attempt <| .bind (keyword_alike _) fun _ => hf.alike

theorem label_alike : Alike E q q' label label :=
  .attempt <| .bind (symbol_alike (by decide)) fun _ => .bind identifier_alike fun _ => .pure _

theorem commentLine_led : Led E .rem commentLine :=
  ⟨_, rfl, .orElse (.scan? localScan_commentText?) (.fail nofun)⟩

theorem nextCommentLine_alike : Alike Eq q q' nextCommentLine nextCommentLine :=
  .attempt <| .bind (.step? (localStep_eatLineBreak? .inl)) fun _ => .bind skipSpaces_alike fun _ =>
    .bind (skipSymbol_alike (by decide)) fun _ => commentLine_led.alike

theorem comment_alike : Alike Eq q q' comment comment :=
  .bind commentLine_led.alike fun _ => .bind (.many nextCommentLine_alike) fun _ => .pure _

theorem freeText_alike : Alike E q q' freeText freeText :=
  .bind .inBlock fun inBlock => .scan (localScan_span (by cases inBlock <;> rfl))

theorem assignment_led : Led E .set assignment :=
  ⟨_, rfl, .bind spaces_alike fun _ => .bind identifier_alike fun _ => .bind (symbol_alike (by decide)) fun _ =>
    .bind freeText_alike fun _ => .pure _⟩

theorem goto_led : Led E .goto goto :=
  ⟨_, rfl, .bind spaces_alike fun _ => .bind (skipSymbol_alike (by decide)) fun _ =>
    .bind identifier_alike fun _ => .pure _⟩

theorem invoke_led : Led E .call invoke :=
  ⟨_, rfl, .bind spaces_alike fun _ => .bind .inBlock fun inBlock =>
    .bind (.orElse (token_alike inBlock) (.fail nofun)) fun _ =>
      .bind (.many <| .attempt <| .bind skipSpaces_alike fun _ => token_alike inBlock) fun _ => .pure _⟩

theorem destination_alike : Alike E q q' destination destination :=
  .bind .inBlock fun inBlock => .orElse (.scan? (localScan_stream? _))
    (.orElse (token_alike inBlock) (.fail nofun))

theorem redirection_alike : Alike E q q' redirection redirection :=
  .attempt <| .bind (.scan localScan_handle) fun _ =>
    .bind (.orElse (.scan? (localScan_eatFirst? (by decide))) (.fail nofun)) fun _ =>
      .bind skipSpaces_alike fun _ => .bind destination_alike fun _ => .pure _

theorem redirections_alike : Alike E q q' redirections redirections :=
  .many <| .attempt <| .bind skipSpaces_alike fun _ => redirection_alike

theorem message_alike : Alike E q q' message message :=
  .bind .inBlock fun inBlock => .scan (localScan_message inBlock)

theorem escapeMode_alike : Alike E q q' escapeMode escapeMode :=
  .orElse (.bind (.step? (localStep_eat?_of_ne (by decide))) fun _ => .pure _) <|
    .orElse (.bind (.step? (localStep_eat?_of_ne (by decide))) fun _ => .pure _) (.bind spaces_alike fun _ => .pure _)

theorem emit_led : Led E .echo emit :=
  ⟨_, rfl, .bind escapeMode_alike fun _ => .bind message_alike fun _ => .bind redirections_alike fun _ => .pure _⟩

theorem leaf_alike : Alike Eq q q' leaf leaf :=
  .orElse comment_alike <| .orElse assignment_led.alike <| .orElse emit_led.alike <|
    .orElse goto_led.alike invoke_led.alike

/-! ## Chains -/

theorem chainOperator_alike : Alike E q q' chainOperator chainOperator :=
  .orElse (.scan? (localScan_eatFirst? (by decide))) (.failAll (by decide))

theorem chainLink_alike : Alike Eq q q' chainLink chainLink :=
  .attempt <| .bind skipSpaces_alike fun _ => .bind chainOperator_alike fun _ =>
    .bind skipBlanks_alike fun _ => .bind (skipSymbol_alike (by decide)) fun _ => .bind leaf_alike fun _ => .pure _

theorem chain_alike : Alike Eq q q' chain chain :=
  .bind leaf_alike fun _ => .foldMany _ _ chainLink_alike

/-! ## Bodies -/

theorem bodyFollows_alike : Alike Eq q q' bodyFollows bodyFollows :=
  .orElse (.holds fun c d h => by simp only [current, h]) (.fail nofun)

theorem loopSource_alike : Alike Eq q q' loopSource loopSource :=
  .orElse (.scan? localScan_source?) <|
    .bind (.move fun c d h => ⟨c.left, Nat.le_of_eq c.left_eq, rfl, by simp only [left_eq, h]⟩) fun _ => .fail nofun

theorem loopOption_alike : Alike E q q' loopOption loopOption :=
  .attempt <| .bind (.scan? localScan_quoted?) fun _ => .bind spaces_alike fun _ => .pure _

/-! ## Heads and bodies -/

/-- The words of a branch between its keyword and its body. -/
def branchHead : Rule Condition := do
  spaces
  let condition ← condition
  skipBlanks
  return condition

/-- The words of an alternative before its body. -/
def alternativeHead : Rule Unit := do
  skipBlanks
  keyword .elseWord
  bodyFollows
  skipBlanks

/-- The words of a loop between its keyword and its body. -/
def loopHead : Rule (Option String × Char × String) := do
  spaces
  keyword .fileSwitch
  spaces
  let option ← Rule.optional loopOption
  .step? (·.eatText? "%%") <|> .fail (.symbol "%%")
  let loopVar ← .scan? letter? <|> .fail .loopVariable
  spaces
  keyword .inWord
  skipSpaces
  symbol '('
  let source ← loopSource
  skipSpaces
  keyword .doWord
  bodyFollows
  skipBlanks
  return (option, loopVar, source)

/-- The bodies of a branch. -/
def branchBodies (body : Rule (List Statement)) (condition : Condition) : Rule Statement := do
  let thenBody ← body
  let elseBody ← Rule.optional (alternative body)
  return .branch condition thenBody elseBody

/-- The statements of a block and its end. -/
def blockStatements (statement : Rule Statement) : Rule (List Statement) := do
  let statements ← .many (blockItem statement)
  symbol ')'
  return statements

theorem branch_eq (body : Rule (List Statement)) :
    branch body = .attempt (do keyword .ifWord; let condition ← branchHead; branchBodies body condition) := by
  simp only [branch, branchHead, branchBodies, bind_assoc, pure_bind]

theorem alternative_eq (body : Rule (List Statement)) :
    alternative body = .attempt (do alternativeHead; body) := by
  simp only [alternative, alternativeHead, bind_assoc]

theorem loop_eq (body : Rule (List Statement)) :
    loop body = .attempt (do
      keyword .forWord
      let head ← loopHead
      let statements ← body
      return .loop head.1 head.2.1 head.2.2 statements) := by
  simp only [loop, loopHead, bind_assoc, pure_bind]

theorem block_eq (statement : Rule Statement) :
    block statement = .attempt (do symbol '('; Rule.insideBlock (blockStatements statement)) := rfl

theorem branchHead_alike : Alike Eq q q' branchHead branchHead :=
  .bind spaces_alike fun _ => .bind condition_alike fun _ => .bind skipBlanks_alike fun _ => .pure _

theorem alternativeHead_alike : Alike Eq q q' alternativeHead alternativeHead :=
  .bind skipBlanks_alike fun _ => .bind (keyword_alike _) fun _ => .bind bodyFollows_alike fun _ =>
    skipBlanks_alike

theorem loopHead_alike : Alike Eq q q' loopHead loopHead :=
  .bind spaces_alike fun _ => .bind (keyword_alike _) fun _ => .bind spaces_alike fun _ =>
    .bind (.optional loopOption_alike) fun _ =>
    .bind (.orElse (.step? (localStep_eatText?_of_notMem (by decide))) (.fail nofun)) fun _ =>
    .bind (.orElse (.scan? localScan_letter?) (.fail nofun)) fun _ =>
    .bind spaces_alike fun _ => .bind (keyword_alike _) fun _ => .bind skipSpaces_alike fun _ =>
    .bind (symbol_alike (by decide)) fun _ => .bind loopSource_alike fun _ => .bind skipSpaces_alike fun _ =>
    .bind (keyword_alike _) fun _ => .bind bodyFollows_alike fun _ => .bind skipBlanks_alike fun _ => .pure _

section Bodies

variable {b b' : Rule (List Statement)}

theorem alternative_alike : Alike Eq b b' (alternative b) (alternative b') := by
  rw [alternative_eq, alternative_eq]
  exact .attempt <| .bind alternativeHead_alike fun _ => .given

theorem branchBodies_alike (condition : Condition) :
    Alike Eq b b' (branchBodies b condition) (branchBodies b' condition) :=
  .bind .given fun _ => .bind (.optional alternative_alike) fun _ => .pure _

theorem branch_alike : Alike Eq b b' (branch b) (branch b') := by
  rw [branch_eq, branch_eq]
  exact .attempt <| .bind (keyword_alike _) fun _ => .bind branchHead_alike fun _ => branchBodies_alike _

theorem loop_alike : Alike Eq b b' (loop b) (loop b') := by
  rw [loop_eq, loop_eq]
  exact .attempt <| .bind (keyword_alike _) fun _ => .bind loopHead_alike fun _ => .bind .given fun _ => .pure _

theorem statementWith_alike {limit limit' : Nat} {n n' : Rule Statement} :
    Alike Eq (body limit n) (body limit' n') (statementWith limit n) (statementWith limit' n') :=
  .attempt <| .bind (skipSymbol_alike (by decide)) fun _ => .orElse label_alike <| .orElse branch_alike <|
    .orElse loop_alike chain_alike

end Bodies

section Items

variable {n n' : Rule Statement}

/-- A statement behind blanks, if the place is such that one may begin. -/
theorem item_alike {p : Cursor → Bool} (hp : LocalTest Eq p) :
    Alike Eq n n' (do skipBlanks; .holds p; n) (do skipBlanks; .holds p; n') :=
  .bind skipBlanks_alike fun _ => .bind (.holds hp) fun _ => .given

theorem blockStatements_alike : Alike Eq n n' (blockStatements n) (blockStatements n') :=
  .bind (.many <| item_alike (localTest_current_ne (by decide))) fun _ =>
    .bind (symbol_alike (by decide)) fun _ => .pure _

theorem document_alike {limit limit' : Nat} :
    Alike Eq (statement limit) (statement limit') (document limit) (document limit') :=
  .bind (.many <| item_alike localTest_atEnd) fun _ =>
    .bind (.holds fun c d h => by simp only [atEnd, h]) fun _ => .pure _

end Items

end BatchScript.Grammar
