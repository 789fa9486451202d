import BatchScript.Proofs.Cursor.Enclosed
import BatchScript.Proofs.Grammar.Append
import BatchScript.Proofs.Grammar.Mirrors
import BatchScript.Proofs.Rule.Ensures
import BatchScript.Proofs.Rule.MirrorsUnless
import BatchScript.Proofs.RoundTrip.Chains

/-!
# Statements in a block

A label, a leaf or a chain is read inside a block as in the text of the block alone
(`statement_enclosed`). The exception is a comment, which runs over the end of the block and takes
the rest of the line; so the leaves of the two runs mirror each other unless a comment is found
(`leaf_unless`), and a chain shows whether there is one in it (`chain_unless`). Branches and loops are not
compared: where the first run finds something else, there is none in the second run either.
-/

namespace BatchScript

/-- A leaf that is a comment. -/
def Leaf.isComment : Leaf → Bool
  | .comment _ => true
  | _ => false

/-- A label, a leaf that is no comment, or a chain of such leaves. -/
def Statement.isEnclosable : Statement → Bool
  | .leaf l => !l.isComment
  | .label _ => true
  | .branch .. => false
  | .loop .. => false
  | .chain left _ right => left.isEnclosable && right.isEnclosable

/-- The state `t` of a run inside a block, with `d` bodies and `b` more blocks around it, belongs to the state
`s` of a run on the text of the block alone; `more` follows the block. -/
structure State.Enclosed (more : List Char) (d b : Nat) (s t : State) : Prop where
  cursor : s.cursor.Enclosed more t.cursor
  depth : t.depth = d
  blockDepth : t.blockDepth = b + 1

variable {more : List Char} {d b : Nat} {s t u : State}

/-- Where neither run finds something, both stay where they were. -/
theorem State.Enclosed.of_runs {α : Type} {r : Rule α} (hs : s.Enclosed more d b t) (hc : u.cursor = s.cursor)
    (hr : Rule.Runs r d (b + 1) t.cursor.rest .unmatched t.cursor.rest) :
    ∃ v, r t = (.unmatched, v) ∧ u.Enclosed more d b v := by
  obtain ⟨v, hv, hat⟩ := hr t ⟨rfl, hs.depth, hs.blockDepth⟩
  exact ⟨v, hv, ⟨by rw [hat.rest, hc, hs.cursor.rest], hc ▸ hs.cursor.unclosed, hc ▸ hs.cursor.unquoted⟩,
    hat.depth, hat.blockDepth⟩

namespace Grammar

open Cursor Rule Text

variable {limit : Nat}

theorem abreast_enclosed : Abreast (Cursor.Enclosed more) (State.Enclosed more d b) where
  cursor h := h.cursor
  move h k := ⟨k, h.depth, h.blockDepth⟩
  left_lt h k := h.left_lt k
  note _ h := ⟨h.cursor, h.depth, h.blockDepth⟩

/-- The scans of labels and leaves find inside a block what they find in its text. -/
theorem readings_enclosed : Readings (Cursor.Enclosed more) .same fun _ => true where
  keyword k := Enclosed.stepMirrors_eatKeyword? (by cases k <;> decide)
  symbol hx := Enclosed.stepMirrors_eat? ((by decide : ∀ x ∈ [':', '.', '@', '='], x ≠ ')') _ hx)
  spaces := Enclosed.mirrors_word? (bounded_self (by decide))
  skipSpaces _ _ h := h.skipWhile (bounded_self (by decide))
  identifier := Enclosed.mirrors_identifier?
  quoted := Enclosed.mirrors_quoted?
  word b := Enclosed.mirrors_word? fun x => by cases b <;> simp [isTokenChar, closesBlock, bne, Bool.and_assoc]
  freeText b := Enclosed.span_bounded fun x => by cases b <;> simp [closesBlock, bne]
  message b := Enclosed.upTo_eq rfl fun v hv hne => by
    obtain ⟨x, v, rfl⟩ := List.exists_cons_of_ne_nil hne
    have hx : x ≠ ')' := fun e => hv (e ▸ List.mem_cons_self)
    rw [endsMessage, endsMessage, beginsWithHandle_append_cons rfl rfl]
    simp [closesBlock, beq_false_of_ne hx]
  handle := Enclosed.handle_eq
  mode := mirrors_eatFirst? (fun m hm => Enclosed.stepMirrors_eatText? (by revert m; decide)) fun _ _ => rfl
  stream b := Enclosed.mirrors_stream? b
  operator := mirrors_eatFirst? (fun op _ => Enclosed.stepMirrors_eatText? (by cases op <;> decide)) fun _ _ => rfl
  line_append _ _ := rfl

/-- Inside a block a rule finds what another one finds in the text of the block. -/
abbrev Encloses (more : List Char) (d b : Nat) {α β : Type} (F : α → β) (r : Rule α) (q : Rule β) : Prop :=
  Rule.Mirrors (fun _ _ => True) (State.Enclosed more d b) F r q

/-- The same, unless something bad is found in the text of the block. -/
abbrev EnclosesUnless {α : Type} (bad : α → Prop) (more : List Char) (d b : Nat) (r : Rule α) : Prop :=
  Rule.MirrorsUnless bad (fun _ _ => True) (State.Enclosed more d b) id r r

theorem inBlock_enclosed : Encloses more d b (fun _ => true) Rule.inBlock Rule.inBlock := by
  intro s t h
  have hin : decide (0 < t.blockDepth) = true := decide_eq_true (by rw [h.blockDepth]; exact Nat.succ_pos b)
  unfold Rule.inBlock
  rw [hin]
  exact .matched (F := fun _ => true) h

theorem skipBlanks_enclosed : Encloses more d b id skipBlanks skipBlanks :=
  .move abreast_enclosed fun _ _ h => h.skipWhile (bounded_self (by decide))

/-! ## Leaves and chains -/

/-- A comment line is found, or in both texts there is none. -/
theorem commentLine_unless : EnclosesUnless (fun _ => True) more d b commentLine := by
  refine .attempt abreast_enclosed <| .after (keyword_mirrors abreast_enclosed readings_enclosed _) fun _ => ?_
  refine .orElse (.scan? abreast_enclosed fun c d h hc => ?_) (Mirrors.fail abreast_enclosed _).unless
  unfold commentText? at hc ⊢
  have hline : c.atLineEnd = false := by
    cases hl : c.atLineEnd with
    | false => rfl
    | true => rw [hl] at hc; cases hc
  have hspace : c.current.any isSpace = false := by
    cases hs : c.current.any isSpace with
    | false => rfl
    | true => rw [hline, hs] at hc; cases hc
  -- there is another character on the line, and it is the same in both texts
  have hne : c.rest ≠ [] := fun e => by rw [atLineEnd, current, e] at hline; cases hline
  rw [atLineEnd, h.current_eq hne, hspace, ← atLineEnd, hline]
  rfl

theorem comment_unless : EnclosesUnless (·.isComment = true) more d b comment := by
  have hspoils : ∀ first, Spoils (·.isComment = true)
      (Rule.many nextCommentLine >>= fun others => pure (Leaf.comment ("\n".intercalate (first :: others)))) :=
    fun _ => .bind .many fun _ => .pure rfl
  exact .bind commentLine_unless (fun first => (hspoils first).unless _) fun first _ => hspoils first

theorem leaf_unless : EnclosesUnless (·.isComment = true) more d b leaf := by
  have hmirrors : Encloses more d b (Leaf.reword .same) (assignment <|> emit <|> goto <|> invoke)
      (assignment <|> emit <|> goto <|> invoke) :=
    .orElse (assignment_mirrors abreast_enclosed readings_enclosed inBlock_enclosed) <|
      .orElse (emit_mirrors abreast_enclosed readings_enclosed inBlock_enclosed) <|
        .orElse (goto_mirrors abreast_enclosed readings_enclosed)
          (invoke_mirrors abreast_enclosed readings_enclosed inBlock_enclosed)
  have hsame : Leaf.reword .same = id := funext Leaf.reword_same
  rw [hsame] at hmirrors
  exact .orElse comment_unless hmirrors.unless

theorem chainLink_unless : EnclosesUnless (·.2.isComment = true) more d b chainLink :=
  .attempt abreast_enclosed <| .after (skipSpaces_mirrors abreast_enclosed readings_enclosed) fun _ =>
    .after (chainOperator_mirrors abreast_enclosed readings_enclosed) fun _ => .after skipBlanks_enclosed fun _ =>
      .after (skipSymbol_mirrors abreast_enclosed readings_enclosed (by decide)) fun _ =>
        .bind leaf_unless (fun _ => (Mirrors.pure (F := id) _).unless) fun _ h => .pure h

theorem chain_unless : EnclosesUnless (·.isEnclosable = false) more d b chain := by
  have hlink : ∀ (left : Statement) (x : ChainOperator × Leaf), x.2.isComment = true →
      (Statement.chain left x.1 (.leaf x.2)).isEnclosable = false := by
    intro left x hx
    simp [Statement.isEnclosable, hx]
  have hkeep : ∀ (left : Statement) (x : ChainOperator × Leaf), left.isEnclosable = false →
      (Statement.chain left x.1 (.leaf x.2)).isEnclosable = false := by
    intro left x hl
    simp [Statement.isEnclosable, hl]
  have hlinks : ∀ left, EnclosesUnless (·.isEnclosable = false) more d b (chainLinks left) := by
    intro left
    refine .foldMany (G := id) abreast_enclosed chainLink_unless ?_ hlink hkeep left
    exact fun _ _ => rfl
  exact .bind leaf_unless (fun first => hlinks (.leaf first)) fun first h =>
    .foldMany hkeep (by simp [Statement.isEnclosable, h])

/-! ## Statements -/

theorem branch_yields_unenclosable (body : Rule (List Statement)) :
    Yields (branch body) (·.isEnclosable = false) :=
  .attempt <| .after fun _ => .after fun _ => .after fun _ => .after fun _ => .after fun _ => .after fun _ => .pure rfl

theorem loop_yields_unenclosable (body : Rule (List Statement)) : Yields (loop body) (·.isEnclosable = false) :=
  .attempt <| .after fun _ => .after fun _ => .after fun _ => .after fun _ => .after fun _ => .after fun _ =>
    .after fun _ => .after fun _ => .after fun _ => .after fun _ => .after fun _ => .after fun _ => .after fun _ =>
    .after fun _ => .after fun _ => .after fun _ => .after fun _ => .pure rfl

theorem label_enclosed : Encloses more d b id label label :=
  .attempt abreast_enclosed <| .bind (symbol_mirrors abreast_enclosed readings_enclosed (by decide)) fun _ =>
    .bind (identifier_mirrors abreast_enclosed readings_enclosed) fun _ => .pure (F := id) _

/-- Where a chain is read, there is neither a branch nor a loop in either text. -/
theorem choice_enclosed {a : Statement} (hs : s.Enclosed more d b t) (ha : a.isEnclosable = true)
    (e : (label <|> branch (body limit (statement limit)) <|> loop (body limit (statement limit)) <|> chain) s =
      (.matched a, u)) :
    ∃ v, (label <|> branch (body limit (statement limit)) <|> loop (body limit (statement limit)) <|> chain) t =
      (.matched a, v) ∧ u.Enclosed more d b v := by
  have hnot : ¬ a.isEnclosable = false := by simp [ha]
  obtain e | ⟨s₁, h₁, e⟩ := orElse_matched e
  · obtain ⟨v, hv, k⟩ := label_enclosed.of_matched hs e
    exact ⟨v, orElse_of_matched hv _, k⟩
  obtain ⟨t₁, k₁, hs⟩ := label_enclosed.of_unmatched hs h₁
  obtain e | ⟨s₂, h₂, e⟩ := orElse_matched e
  · exact absurd (branch_yields_unenclosable _ trivial e) hnot
  obtain e | ⟨s₃, h₃, e⟩ := orElse_matched e
  · exact absurd (loop_yields_unenclosable _ trivial e) hnot
  have hc₂ := (attempt_unmatched h₂).1
  have hc₃ := (attempt_unmatched h₃).1
  have hkeyword : ∀ {w x : State} (k : Keyword), w.Enclosed more d b x → s₃.cursor = w.cursor →
      k ∉ leafKeywords → beginsWithWord k.text.toList x.cursor.rest = false := by
    intro w x k hw hc hk
    rw [hw.cursor.rest, beginsWithWord_append_cons (x := ')') (by cases k <;> decide), ← hc]
    exact Bool.eq_false_iff.mpr fun hb => not_chain hb hk e
  obtain ⟨t₂, k₂, hs⟩ :=
    hs.of_runs hc₂ (branch_unmatched _ (hkeyword .ifWord hs (hc₃.trans hc₂) (by decide)))
  obtain ⟨t₃, k₃, hs⟩ := hs.of_runs hc₃ (loop_unmatched _ (hkeyword .forWord hs hc₃ (by decide)))
  obtain ⟨v, hv, k⟩ := chain_unless.of_matched hs e hnot
  exact ⟨v, by rw [orElse_of_unmatched k₁, orElse_of_unmatched k₂, orElse_of_unmatched k₃, hv]; rfl, k⟩

/-- Inside a block a statement is read as in the text of the block. -/
theorem statement_enclosed {a : Statement} (hs : s.Enclosed more d b t) (ha : a.isEnclosable = true)
    (e : statement limit s = (.matched a, u)) :
    ∃ v, statement limit t = (.matched a, v) ∧ u.Enclosed more d b v := by
  rw [statement_eq] at e ⊢
  obtain ⟨⟨⟩, s₁, h₁, e⟩ := bind_matched (attempt_matched.mp e)
  have hat : Encloses more d b id (skipSymbol '@') (skipSymbol '@') :=
    skipSymbol_mirrors abreast_enclosed readings_enclosed (by decide)
  obtain ⟨t₁, k₁, hs⟩ := hat.of_matched hs h₁
  obtain ⟨v, hv, k⟩ := choice_enclosed hs ha e
  exact ⟨v, attempt_matched.mpr ((bind_of_matched k₁ _).trans hv), k⟩

end Grammar

end BatchScript
