import BatchScript.Grammar.Leaf
import BatchScript.Proofs.Grammar.Balanced
import BatchScript.Proofs.Cursor.Fronts
import BatchScript.Proofs.Tree.Basic

/-!
# Well-formed trees

What is true of the texts in every tree that a script has, node by node
(`Statement.WellFormed`): names are names, free texts stay on their line, tokens
and operands end where they have to, and the source of a loop is balanced; and
how leaves stand in a chain (`Statement.WellChained`). All of it is decidable.
-/

namespace BatchScript

open Text Grammar

/-! ## Texts -/

/-- A letter, and behind it letters, numerals and underscores. -/
def IsName (t : String) : Prop :=
  t.toList.head?.any isLetter = true ∧ ∀ x ∈ t.toList, isNameChar x = true

/-- At least one character, and no blank. -/
def IsWord (t : String) : Prop :=
  t ≠ "" ∧ ∀ x ∈ t.toList, isBlank x = false

/-- What may stand between quotes, or else a word without chain operators. -/
def IsToken (t : String) : Prop :=
  '"' ∉ t.toList ∨ IsWord t ∧ ∀ x ∈ t.toList, isChainChar x = false

/-- A relational operator in any ASCII case. -/
def IsRelation (operator : String) : Prop :=
  ∃ k ∈ Keyword.relations, operator.toList.map Char.toLower = k.text.toList.map Char.toLower

/-- A trimmed text on one line, without `==`. -/
def IsLeftSide (t : String) : Prop :=
  t ≠ "" ∧ trim t.toList = t.toList ∧ (∀ x ∈ t.toList, isLineBreak x = false) ∧
    ¬ ['=', '='] <:+: t.toList

/-- A mode of a redirection with at most one handle digit before it. -/
def IsMode (mode : String) : Prop :=
  ∃ handle ∈ ["", "0", "1", "2"], ∃ m ∈ modes, mode = handle ++ m

instance (t : String) : Decidable (IsName t) := inferInstanceAs (Decidable (_ ∧ _))

instance (t : String) : Decidable (IsWord t) := inferInstanceAs (Decidable (_ ∧ _))

instance (t : String) : Decidable (IsToken t) := inferInstanceAs (Decidable (_ ∨ _))

instance (t : String) : Decidable (IsRelation t) := inferInstanceAs (Decidable (∃ k ∈ _, _))

instance (t : String) : Decidable (IsLeftSide t) := inferInstanceAs (Decidable (_ ∧ _))

instance (t : String) : Decidable (IsMode t) := inferInstanceAs (Decidable (∃ k ∈ _, _))

/-! ## Nodes -/

/-- A redirection with a mode and a destination. -/
def Redirection.WellFormed (r : Redirection) : Prop :=
  IsMode r.mode ∧ IsToken r.destination

/-- The texts of a leaf are such as a script can hold at that place. -/
def Leaf.WellFormed : Leaf → Prop
  | .comment text => '\r' ∉ text.toList
  | .assignment name value => IsName name ∧ ∀ x ∈ value.toList, isLineBreak x = false
  | .goto target => IsName target
  | .invoke target arguments => ∀ t ∈ target :: arguments, IsToken t
  | .emit message _ redirections =>
    (∀ x ∈ message.toList, isLineBreak x = false ∧ isRedirectChar x = false ∧ isChainChar x = false) ∧
      (∀ r ∈ redirections, r.WellFormed) ∧
      -- a digit at the end of the message would be read as the missing handle
      ∀ r ∈ redirections.head?, r.mode ∈ modes →
        ∀ x ∈ message.toList.getLast?, isHandleDigit x = false

/-- A condition with `NOT`. -/
def Condition.isNegated : Condition → Bool
  | .negated _ => true
  | _ => false

/-- The operands of a condition fit its operator, and at most one `NOT` stands before it. -/
def Condition.WellFormed : Condition → Prop
  | .comparison left operator right =>
    (IsRelation operator ∧ IsWord left ∧ IsWord right) ∨
      (operator = "==" ∧ IsLeftSide left ∧ IsWord right)
  | .pathExists path => '"' ∉ path.toList ∨ IsWord path
  | .negated inner => inner.WellFormed ∧ inner.isNegated = false

/-- The texts of a statement, not of those inside it, are such as a script can hold. -/
def Statement.WellFormed : Statement → Prop
  | .leaf l => l.WellFormed
  | .label name => IsName name
  | .branch condition _ _ => condition.WellFormed
  | .loop option loopVar source _ =>
    (∀ t ∈ option, '"' ∉ t.toList) ∧ isLetter loopVar = true ∧ Balanced source.toList
  | .chain .. => True

/-! ## Chains -/

/-- A leaf whose text runs to the end of its line. -/
def Leaf.takesLine : Leaf → Bool
  | .comment _ => true
  | .assignment .. => true
  | _ => false

/-- A statement that is a chain. -/
def Statement.isChain : Statement → Bool
  | .chain .. => true
  | _ => false

/-- A statement that is such a leaf. -/
def Statement.takesLine : Statement → Bool
  | .leaf l => l.takesLine
  | _ => false

/-- Nothing in a statement takes the rest of its line. -/
def Statement.LeavesLine (s : Statement) : Prop :=
  ∀ n ∈ s.nodes, n.takesLine = false

/-- A chain leans to the left and joins leaves, of which only the last one may take
the rest of its line. -/
def Statement.WellChained : Statement → Prop
  | .chain left _ right =>
    right.isLeaf = true ∧ (left.isLeaf = true ∨ left.isChain = true) ∧ left.LeavesLine
  | _ => True

/-! ## Decisions -/

instance (r : Redirection) : Decidable r.WellFormed := inferInstanceAs (Decidable (_ ∧ _))

instance : (l : Leaf) → Decidable l.WellFormed
  | .comment _ => inferInstanceAs (Decidable (_ ∉ _))
  | .assignment .. => inferInstanceAs (Decidable (_ ∧ _))
  | .goto _ => inferInstanceAs (Decidable (IsName _))
  | .invoke .. => inferInstanceAs (Decidable (∀ t ∈ _, _))
  | .emit .. => inferInstanceAs (Decidable (_ ∧ _ ∧ _))

instance Condition.decidableWellFormed : (c : Condition) → Decidable c.WellFormed
  | .comparison .. => inferInstanceAs (Decidable (_ ∨ _))
  | .pathExists _ => inferInstanceAs (Decidable (_ ∨ _))
  | .negated inner =>
    have := inner.decidableWellFormed
    inferInstanceAs (Decidable (_ ∧ _))

instance : (s : Statement) → Decidable s.WellFormed
  | .leaf l => inferInstanceAs (Decidable l.WellFormed)
  | .label _ => inferInstanceAs (Decidable (IsName _))
  | .branch c _ _ => inferInstanceAs (Decidable c.WellFormed)
  | .loop .. => inferInstanceAs (Decidable (_ ∧ _ ∧ _))
  | .chain .. => inferInstanceAs (Decidable True)

instance (s : Statement) : Decidable s.LeavesLine := inferInstanceAs (Decidable (∀ n ∈ _, _))

instance : (s : Statement) → Decidable s.WellChained
  | .leaf _ => inferInstanceAs (Decidable True)
  | .label _ => inferInstanceAs (Decidable True)
  | .branch .. => inferInstanceAs (Decidable True)
  | .loop .. => inferInstanceAs (Decidable True)
  | .chain .. => inferInstanceAs (Decidable (_ ∧ _ ∧ _))

end BatchScript
