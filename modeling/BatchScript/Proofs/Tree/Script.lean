import BatchScript.Proofs.Tree.WellFormed

/-!
# Trees as scripts

Every tree written out as a script in one fixed way (`Document.script`): keywords
in lower case, one blank where one is needed, destinations and arguments in quotes, every
body in parentheses, and two line feeds behind every statement.

Not every tree is read back from its script. A tree is canonical if its texts and
its chains are such as a script can hold, and nothing in it would be read as
something else where it is written so (`Document.Canonical`): a text in quotes holds no
quote, no text ends the block that it is in, and a condition is not read as one of
another kind.
-/

namespace BatchScript

open Text

/-! ## Scripts -/

/-- A text in double quotes. -/
def quoted (t : String) : String :=
  "\"" ++ t ++ "\""

/-- A redirection as it is written. -/
def Redirection.script (r : Redirection) : String :=
  r.mode ++ quoted r.destination

/-- A condition as it is written. -/
def Condition.script : Condition → String
  | .comparison left operator right =>
    if operator = "==" then left ++ "==" ++ right else left ++ " " ++ operator ++ " " ++ right
  | .pathExists path => "exist " ++ quoted path
  | .negated inner => "not " ++ inner.script

/-- A leaf as it is written; a comment with one line for each line of its text. -/
def Leaf.script : Leaf → String
  | .comment text =>
    "\n".intercalate ((text.toList.splitOn '\n').map fun line => "rem " ++ String.ofList line)
  | .assignment name value => "set " ++ name ++ "=" ++ value
  | .goto target => "goto " ++ target
  | .invoke target arguments => "call " ++ " ".intercalate ((target :: arguments).map quoted)
  | .emit message escapeMode redirections =>
    (if escapeMode then "echo:" else "echo.") ++ message ++
      " ".intercalate (redirections.map Redirection.script)

/-- The option of a loop as it is written, with a blank behind it. -/
def optionScript : Option String → String
  | none => ""
  | some option => quoted option ++ " "

mutual

/-- A statement as it is written. -/
def Statement.script : Statement → String
  | .leaf l => l.script
  | .label name => ":" ++ name
  | .branch condition thenBody elseBody =>
    "if " ++ condition.script ++ " (\n" ++ bodyScript thenBody ++ ")" ++ elseScript elseBody
  | .loop option loopVar source body =>
    "for /f " ++ optionScript option ++ "%%" ++ String.singleton loopVar ++ " in (" ++ source ++
      ") do (\n" ++ bodyScript body ++ ")"
  | .chain left operator right => left.script ++ operator.text ++ right.script

/-- Statements as they are written, each with two line feeds behind it. -/
def bodyScript : List Statement → String
  | [] => ""
  | statement :: others => statement.script ++ "\n\n" ++ bodyScript others

/-- The alternative of a branch as it is written. -/
def elseScript : Option (List Statement) → String
  | none => ""
  | some body => " else (\n" ++ bodyScript body ++ ")"

end

/-- A document as it is written. -/
def Document.script (d : Document) : String :=
  bodyScript d.statements

/-! ## Conditions that are read back -/

/-- A word that is a keyword in any ASCII case. -/
def IsKeyword (k : Keyword) (word : List Char) : Prop :=
  word.map Char.toLower = k.text.toList.map Char.toLower

/-- Whether a text begins with a keyword and a blank behind it. -/
def beginsWithKeyword (k : Keyword) (text : List Char) : Bool :=
  beginsWithWord k.text.toList text && (text[k.text.toList.length]?).any isBlank

/-- Whether a relational keyword follows the first word of a text. -/
def beginsWithRelation (text : List Char) : Bool :=
  Keyword.relations.any fun k =>
    beginsWithKeyword k ((text.dropWhile fun x => !isBlank x).dropWhile isBlank)

/-- No condition of another kind is read where this one is written. -/
def Condition.Plain : Condition → Prop
  | .comparison left operator _ =>
    if operator = "==" then
      left.toList.getLast? ≠ some '=' ∧ beginsWithKeyword .exist left.toList = false ∧
        beginsWithRelation left.toList = false
    else ¬ IsKeyword .exist left.toList
  | .pathExists path => '"' ∉ path.toList
  | .negated inner => inner.Plain

/-- A condition without `NOT` that is read as one with `NOT` where it is written. -/
def Condition.LooksNegated : Condition → Prop
  | .comparison left operator right =>
    if operator = "==" then beginsWithKeyword .notWord left.toList = true
    else IsKeyword .notWord left.toList ∧ (IsRelation right ∨ ['=', '='] <:+: right.toList)
  | .pathExists _ => False
  | .negated _ => False

/-! ## Canonical trees -/

/-- The texts of a leaf do not end early where they are written. -/
def Leaf.Plain (inBlock : Bool) : Leaf → Prop
  | .comment _ => True
  | .assignment _ value => ∀ x ∈ value.toList, Grammar.closesBlock inBlock x = false
  | .goto _ => True
  | .invoke target arguments => ∀ t ∈ target :: arguments, '"' ∉ t.toList
  | .emit message _ redirections =>
    (∀ x ∈ message.toList, Grammar.closesBlock inBlock x = false) ∧
      ∀ r ∈ redirections, '"' ∉ r.destination.toList

mutual

/-- Nothing in a statement is read as something else where it is written. -/
def Statement.Plain (inBlock : Bool) : Statement → Prop
  | .leaf l => l.Plain inBlock
  | .label _ => True
  | .branch condition thenBody elseBody =>
    condition.Plain ∧ ¬ condition.LooksNegated ∧ BodyPlain true thenBody ∧ ElsePlain elseBody
  | .loop _ _ _ body => BodyPlain true body
  | .chain left _ right => left.Plain inBlock ∧ right.Plain inBlock

/-- Nothing in the statements of a body is read as something else. -/
def BodyPlain (inBlock : Bool) : List Statement → Prop
  | [] => True
  | statement :: others => statement.Plain inBlock ∧ BodyPlain inBlock others

/-- Nothing in the alternative of a branch is read as something else. -/
def ElsePlain : Option (List Statement) → Prop
  | none => True
  | some body => BodyPlain true body

end

/-- A document that is read back from its script. -/
structure Document.Canonical (d : Document) : Prop where
  /-- Every text is such as a script can hold. -/
  wellFormed : ∀ n ∈ d.nodes, n.WellFormed
  /-- Every chain leans to the left, and only its last leaf takes its line. -/
  wellChained : ∀ n ∈ d.nodes, n.WellChained
  /-- Nothing is read as something else. -/
  plain : BodyPlain false d.statements

/-! ## Decisions -/

instance (k : Keyword) (word : List Char) : Decidable (IsKeyword k word) := inferInstanceAs (Decidable (_ = _))

instance Condition.decidablePlain : (c : Condition) → Decidable c.Plain
  | .comparison .. => (inferInstance : Decidable (ite _ _ _))
  | .pathExists _ => inferInstanceAs (Decidable (_ ∉ _))
  | .negated inner => inner.decidablePlain

instance : (c : Condition) → Decidable c.LooksNegated
  | .comparison .. => (inferInstance : Decidable (ite _ _ _))
  | .pathExists _ => inferInstanceAs (Decidable False)
  | .negated _ => inferInstanceAs (Decidable False)

instance (inBlock : Bool) : (l : Leaf) → Decidable (l.Plain inBlock)
  | .comment _ => inferInstanceAs (Decidable True)
  | .assignment .. => inferInstanceAs (Decidable (∀ x ∈ _, _))
  | .goto _ => inferInstanceAs (Decidable True)
  | .invoke .. => inferInstanceAs (Decidable (∀ t ∈ _, _))
  | .emit .. => inferInstanceAs (Decidable ((∀ x ∈ _, _) ∧ ∀ r ∈ _, _))

mutual

instance Statement.decidablePlain (inBlock : Bool) : (s : Statement) → Decidable (s.Plain inBlock)
  | .leaf l => inferInstanceAs (Decidable (l.Plain inBlock))
  | .label _ => inferInstanceAs (Decidable True)
  | .branch _ thenBody elseBody =>
    have := decidableBodyPlain true thenBody
    have := decidableElsePlain elseBody
    inferInstanceAs (Decidable (_ ∧ _ ∧ _ ∧ _))
  | .loop _ _ _ body => decidableBodyPlain true body
  | .chain left _ right =>
    have := left.decidablePlain inBlock
    have := right.decidablePlain inBlock
    inferInstanceAs (Decidable (_ ∧ _))

instance decidableBodyPlain (inBlock : Bool) : (body : List Statement) → Decidable (BodyPlain inBlock body)
  | [] => inferInstanceAs (Decidable True)
  | statement :: others =>
    have := statement.decidablePlain inBlock
    have := decidableBodyPlain inBlock others
    inferInstanceAs (Decidable (_ ∧ _))

instance decidableElsePlain : (elseBody : Option (List Statement)) → Decidable (ElsePlain elseBody)
  | none => inferInstanceAs (Decidable True)
  | some body => decidableBodyPlain true body

end

instance (d : Document) : Decidable d.Canonical :=
  decidable_of_iff ((∀ n ∈ d.nodes, n.WellFormed) ∧ (∀ n ∈ d.nodes, n.WellChained) ∧ BodyPlain false d.statements)
    ⟨fun h => ⟨h.1, h.2.1, h.2.2⟩, fun h => ⟨h.wellFormed, h.wellChained, h.plain⟩⟩

end BatchScript
