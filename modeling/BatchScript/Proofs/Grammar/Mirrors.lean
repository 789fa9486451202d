import BatchScript.Proofs.Grammar.Nesting
import BatchScript.Proofs.Rule.Mirrors
import BatchScript.Proofs.Tree.Basic

/-!
# Labels and leaves that mirror each other

Two runs of the rules for labels and leaves mirror each other if their scans do (`Readings`). The
second run may be inside a block where the first is not, and its texts may be worded anew.

* `label_mirrors`, `assignment_mirrors`, `emit_mirrors`, `goto_mirrors`, `invoke_mirrors`,
  `chainOperator_mirrors`: the rules that need nothing but such scans;
* `statement_mirrors`: an induction for statements inside one another.
-/

namespace BatchScript.Grammar

open Cursor Rule Text

/-- What the scans of labels and leaves find from cursors related by `C`: texts that are worded anew
by `w`, where `B` says whether the second run is inside a block. -/
structure Readings (C : Cursor → Cursor → Prop) (w : Rewording) (B : Bool → Bool) : Prop where
  keyword (k : Keyword) : StepMirrors C (·.eatKeyword? k.text) (·.eatKeyword? k.text)
  symbol {x : Char} : x ∈ [':', '.', '@', '='] → StepMirrors C (·.eat? x) (·.eat? x)
  spaces : Cursor.Mirrors C w.line (·.word? isSpace) (·.word? isSpace)
  skipSpaces ⦃c d : Cursor⦄ : C c d → C (c.skipWhile isSpace) (d.skipWhile isSpace)
  identifier : Cursor.Mirrors C w.line identifier? identifier?
  quoted : Cursor.Mirrors C w.token quoted? quoted?
  word (b : Bool) : Cursor.Mirrors C w.token (·.word? (isTokenChar b)) (·.word? (isTokenChar (B b)))
  freeText (b : Bool) ⦃c d : Cursor⦄ : C c d →
    (d.span fun x => !isLineBreak x && !closesBlock (B b) x).1 =
        w.line (c.span fun x => !isLineBreak x && !closesBlock b x).1 ∧
      C (c.span fun x => !isLineBreak x && !closesBlock b x).2
        (d.span fun x => !isLineBreak x && !closesBlock (B b) x).2
  message (b : Bool) ⦃c d : Cursor⦄ : C c d →
    (d.upTo (endsMessage (B b))).1 = w.line (c.upTo (endsMessage b)).1 ∧
      C (c.upTo (endsMessage b)).2 (d.upTo (endsMessage (B b))).2
  handle ⦃c d : Cursor⦄ : C c d →
    (Grammar.handle d).1 = w.line (Grammar.handle c).1 ∧ C (Grammar.handle c).2 (Grammar.handle d).2
  mode : Cursor.Mirrors C w.line (·.eatFirst? id modes) (·.eatFirst? id modes)
  stream (b : Bool) : Cursor.Mirrors C w.token (stream? b) (stream? (B b))
  operator : Cursor.Mirrors C id (·.eatFirst? ChainOperator.text ChainOperator.all)
    (·.eatFirst? ChainOperator.text ChainOperator.all)
  line_append (a b : String) : w.line (a ++ b) = w.line a ++ w.line b

variable {P : Position → Position → Prop} {R : State → State → Prop} {C : Cursor → Cursor → Prop}
  {w : Rewording} {B : Bool → Bool} (hR : Abreast C R) (hC : Readings C w B)

include hR hC

/-! ## Words -/

theorem keyword_mirrors (k : Keyword) : Mirrors P R id (keyword k) (keyword k) :=
  .orElse (.step? hR (hC.keyword k)) (.fail hR _)

theorem symbol_mirrors {x : Char} (hx : x ∈ [':', '.', '@', '=']) : Mirrors P R id (symbol x) (symbol x) :=
  .orElse (.step? hR (hC.symbol hx)) (.fail hR _)

theorem spaces_mirrors : Mirrors P R id spaces spaces :=
  .bind (F := w.line) (.orElse (.scan? hR hC.spaces) (.fail hR _)) fun _ => .pure ()

theorem identifier_mirrors : Mirrors P R w.line identifier identifier :=
  .orElse (.scan? hR hC.identifier) (.fail hR _)

theorem skipSpaces_mirrors : Mirrors P R id skipSpaces skipSpaces :=
  .move hR hC.skipSpaces

theorem skipSymbol_mirrors {x : Char} (hx : x ∈ [':', '.', '@', '=']) :
    Mirrors P R id (skipSymbol x) (skipSymbol x) :=
  .move hR fun _ _ h => (hC.symbol hx).getD h

theorem token_mirrors (b : Bool) : Mirrors P R w.token (token b) (token (B b)) :=
  .orElse (.scan? hR hC.quoted) (.scan? hR (hC.word b))

/-! ## Labels and leaves -/

theorem label_mirrors : Mirrors P R (Statement.reword w) label label :=
  .attempt hR <| .bind (symbol_mirrors hR hC (by decide)) fun _ => .bind (identifier_mirrors hR hC) fun _ => .pure _

theorem goto_mirrors : Mirrors P R (Leaf.reword w) goto goto :=
  .attempt hR <| .bind (keyword_mirrors hR hC _) fun _ => .bind (spaces_mirrors hR hC) fun _ =>
    .bind (skipSymbol_mirrors hR hC (by decide)) fun _ => .bind (identifier_mirrors hR hC) fun _ => .pure _

theorem escapeMode_mirrors : Mirrors P R id escapeMode escapeMode :=
  .orElse (.bind (.step? hR (hC.symbol (by decide))) fun _ => .pure _) <|
    .orElse (.bind (.step? hR (hC.symbol (by decide))) fun _ => .pure _)
      (.bind (spaces_mirrors hR hC) fun _ => .pure _)

theorem chainOperator_mirrors : Mirrors P R id chainOperator chainOperator :=
  .orElse (.scan? hR hC.operator) (.failAll hR _)

section Blocks

variable (hB : Mirrors P R B Rule.inBlock Rule.inBlock)

include hB

theorem freeText_mirrors : Mirrors P R w.line freeText freeText :=
  .bind hB fun b => .scan hR (hC.freeText b)

theorem assignment_mirrors : Mirrors P R (Leaf.reword w) assignment assignment :=
  .attempt hR <| .bind (keyword_mirrors hR hC _) fun _ => .bind (spaces_mirrors hR hC) fun _ =>
    .bind (identifier_mirrors hR hC) fun _ => .bind (symbol_mirrors hR hC (by decide)) fun _ =>
      .bind (freeText_mirrors hR hC hB) fun _ => .pure _

theorem invoke_mirrors : Mirrors P R (Leaf.reword w) invoke invoke :=
  .attempt hR <| .bind (keyword_mirrors hR hC _) fun _ => .bind (spaces_mirrors hR hC) fun _ => .bind hB fun b =>
    .bind (.orElse (token_mirrors hR hC b) (.fail hR _)) fun _ =>
      .bind (.many hR <| .attempt hR <| .bind (skipSpaces_mirrors hR hC) fun _ => token_mirrors hR hC b) fun _ =>
        .pure _

theorem destination_mirrors : Mirrors P R w.token destination destination :=
  .bind hB fun b => .orElse (.scan? hR (hC.stream b)) <| .orElse (token_mirrors hR hC b) (.fail hR _)

theorem redirection_mirrors : Mirrors P R (Redirection.reword w) redirection redirection :=
  .attempt hR <| .bind (.scan hR hC.handle) fun handle =>
    .bind (.orElse (.scan? hR hC.mode) (.fail hR _)) fun mode => .bind (skipSpaces_mirrors hR hC) fun _ =>
      .bind (destination_mirrors hR hC hB) fun destination => by
        rw [← hC.line_append]
        exact .pure (F := Redirection.reword w) ⟨handle ++ mode, destination⟩

theorem redirections_mirrors : Mirrors P R (List.map (Redirection.reword w)) redirections redirections :=
  .many hR <| .attempt hR <| .bind (skipSpaces_mirrors hR hC) fun _ => redirection_mirrors hR hC hB

theorem message_mirrors : Mirrors P R w.line message message :=
  .bind hB fun b => .scan hR (hC.message b)

theorem emit_mirrors : Mirrors P R (Leaf.reword w) emit emit :=
  .attempt hR <| .bind (keyword_mirrors hR hC _) fun _ => .bind (escapeMode_mirrors hR hC) fun _ =>
    .bind (message_mirrors hR hC hB) fun _ => .bind (redirections_mirrors hR hC hB) fun _ => .pure _

end Blocks

omit hC

/-! ## Nested statements -/

/-- Two runs of the rule for a statement mirror each other if this follows from the same about nested
statements. -/
theorem statement_mirrors {F : Statement → Statement} {limit : Nat}
    (h : ∀ n n' : Rule Statement, Mirrors P R F n n' →
      Mirrors P R F (statementWith limit n) (statementWith limit n')) :
    Mirrors P R F (statement limit) (statement limit) := by
  intro s
  induction hn : s.left using Nat.strongRecOn generalizing s with
  | _ n ih =>
    subst hn
    intro t hs
    rw [statement_eq_statementBelow, statement_eq_statementBelow]
    refine h _ _ (fun u v k => ?_) hs
    have hleft : u.left < s.left ↔ v.left < t.left := hR.left_lt (hR.cursor hs) (hR.cursor k)
    by_cases hlt : u.left < s.left
    · rw [statementBelow_of_lt hlt, statementBelow_of_lt (hleft.mp hlt)]
      exact ih _ hlt rfl k
    · have hge : ¬ v.left < t.left := mt hleft.mpr hlt
      rw [statementBelow_of_le (by omega), statementBelow_of_le (by omega)]
      exact .unmatched k

end BatchScript.Grammar
