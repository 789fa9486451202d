import BatchScript.Failure
import BatchScript.Statement

/-!
# Trees

A document as the list of all its statements at any depth (`Document.nodes`),
which is where facts about every node are stated; the largest number of bodies
that enclose one another in it (`Document.nest`); the equality of trees, which is
decided along their constructors; and trees whose texts change while they keep
their shape (`Rewording`).
-/

namespace BatchScript

/-! ## Nodes -/

mutual

/-- A statement, and every statement inside it. -/
def Statement.nodes : Statement → List Statement
  | .leaf leaf => [.leaf leaf]
  | .label name => [.label name]
  | .branch condition thenBody elseBody =>
    .branch condition thenBody elseBody :: (bodyNodes thenBody ++ elseNodes elseBody)
  | .loop option loopVar source body => .loop option loopVar source body :: bodyNodes body
  | .chain left operator right => .chain left operator right :: (left.nodes ++ right.nodes)

/-- The statements of a body, and every statement inside them. -/
def bodyNodes : List Statement → List Statement
  | [] => []
  | statement :: others => statement.nodes ++ bodyNodes others

/-- The nodes of the alternative of a branch. -/
def elseNodes : Option (List Statement) → List Statement
  | none => []
  | some body => bodyNodes body

end

/-- Every statement of a document. -/
def Document.nodes (d : Document) : List Statement :=
  bodyNodes d.statements

mutual

/-- How many bodies enclose one another in a statement, empty ones included. -/
def Statement.nest : Statement → Nat
  | .leaf _ => 0
  | .label _ => 0
  | .branch _ thenBody elseBody => max (bodyNest thenBody) (elseNest elseBody) + 1
  | .loop _ _ _ body => bodyNest body + 1
  | .chain left _ right => max left.nest right.nest

/-- How many bodies enclose one another in the statements of a body. -/
def bodyNest : List Statement → Nat
  | [] => 0
  | statement :: others => max statement.nest (bodyNest others)

/-- How many bodies enclose one another in the alternative of a branch. -/
def elseNest : Option (List Statement) → Nat
  | none => 0
  | some body => bodyNest body

end

/-- How many bodies enclose one another in a document. -/
def Document.nest (d : Document) : Nat :=
  bodyNest d.statements

theorem mem_bodyNodes {n : Statement} {body : List Statement} :
    n ∈ bodyNodes body ↔ ∃ s ∈ body, n ∈ s.nodes := by
  induction body with
  | nil => simp [bodyNodes]
  | cons s others ih => simp [bodyNodes, ih]

theorem Statement.self_mem_nodes (s : Statement) : s ∈ s.nodes := by
  cases s <;> simp [Statement.nodes]

theorem nest_le_bodyNest {s : Statement} {body : List Statement} (h : s ∈ body) :
    s.nest ≤ bodyNest body := by
  induction body with
  | nil => cases h
  | cons t others ih =>
    simp only [bodyNest]
    rcases List.mem_cons.mp h with rfl | h
    · omega
    · have := ih h; omega

theorem bodyNest_le {m : Nat} {body : List Statement} (h : ∀ s ∈ body, s.nest ≤ m) :
    bodyNest body ≤ m := by
  induction body with
  | nil => exact Nat.zero_le m
  | cons s others ih =>
    have hs := h s List.mem_cons_self
    have ho := ih fun t ht => h t (List.mem_cons_of_mem _ ht)
    simp only [bodyNest]; omega

/-! ## Equality -/

mutual

/-- Whether two statements are equal. -/
def Statement.decEq : (s t : Statement) → Decidable (s = t)
  | .leaf l, t =>
    match t with
    | .leaf m => decidable_of_iff (l = m) (by simp)
    | .label _ | .branch .. | .loop .. | .chain .. => isFalse nofun
  | .label name, t =>
    match t with
    | .label other => decidable_of_iff (name = other) (by simp)
    | .leaf _ | .branch .. | .loop .. | .chain .. => isFalse nofun
  | .branch c thenBody elseBody, t =>
    match t with
    | .branch c' thenBody' elseBody' =>
      have := bodyDecEq thenBody thenBody'
      have := elseDecEq elseBody elseBody'
      decidable_of_iff (c = c' ∧ thenBody = thenBody' ∧ elseBody = elseBody') (by simp)
    | .leaf _ | .label _ | .loop .. | .chain .. => isFalse nofun
  | .loop option loopVar source body, t =>
    match t with
    | .loop option' loopVar' source' body' =>
      have := bodyDecEq body body'
      decidable_of_iff (option = option' ∧ loopVar = loopVar' ∧ source = source' ∧ body = body') (by simp)
    | .leaf _ | .label _ | .branch .. | .chain .. => isFalse nofun
  | .chain left op right, t =>
    match t with
    | .chain left' op' right' =>
      have := left.decEq left'
      have := right.decEq right'
      decidable_of_iff (left = left' ∧ op = op' ∧ right = right') (by simp)
    | .leaf _ | .label _ | .branch .. | .loop .. => isFalse nofun

/-- Whether two bodies are equal. -/
def bodyDecEq : (body other : List Statement) → Decidable (body = other)
  | [], [] => isTrue rfl
  | [], _ :: _ | _ :: _, [] => isFalse nofun
  | s :: body, t :: other =>
    have := s.decEq t
    have := bodyDecEq body other
    decidable_of_iff (s = t ∧ body = other) (by simp)

/-- Whether two alternatives of a branch are equal. -/
def elseDecEq : (body other : Option (List Statement)) → Decidable (body = other)
  | none, none => isTrue rfl
  | none, some _ | some _, none => isFalse nofun
  | some body, some other =>
    have := bodyDecEq body other
    decidable_of_iff (body = other) (by simp)

end

instance : DecidableEq Statement := Statement.decEq

instance : DecidableEq Document := fun d e =>
  decidable_of_iff (d.statements = e.statements) (by cases d; cases e; simp)

/-- What two scripts are read as can be compared. -/
instance decidableEqAnswer : DecidableEq (Except Failure Document)
  | .ok d, .ok e => decidable_of_iff (d = e) (by simp)
  | .error f, .error g => decidable_of_iff (f = g) (by simp)
  | .ok _, .error _ | .error _, .ok _ => isFalse nofun

/-! ## Rewordings

Texts that end with their line, texts that may go on over several lines and the variable of a
loop change in ways of their own. -/

/-- How the texts of a tree change. -/
structure Rewording where
  /-- A text that ends with its line, and a comment, whose lines each do. -/
  line : String → String
  /-- A text that may go on over several lines: a token or a quoted text, or the source of a loop. -/
  token : String → String
  letter : Char → Char

/-- Every text stays as it is. -/
def Rewording.same : Rewording :=
  ⟨id, id, id⟩

/-- A redirection with its texts worded anew. -/
def Redirection.reword (w : Rewording) (r : Redirection) : Redirection :=
  ⟨w.line r.mode, w.token r.destination⟩

/-- A leaf with its texts worded anew. -/
def Leaf.reword (w : Rewording) : Leaf → Leaf
  | .comment text => .comment (w.line text)
  | .assignment name value => .assignment (w.line name) (w.line value)
  | .goto target => .goto (w.line target)
  | .invoke target arguments => .invoke (w.token target) (arguments.map w.token)
  | .emit message escapeMode redirections =>
    .emit (w.line message) escapeMode (redirections.map (·.reword w))

/-- A condition with its texts worded anew. -/
def Condition.reword (w : Rewording) : Condition → Condition
  | .comparison left operator right => .comparison (w.line left) (w.line operator) (w.line right)
  | .pathExists path => .pathExists (w.token path)
  | .negated inner => .negated (inner.reword w)

mutual

/-- A statement with its texts worded anew. -/
def Statement.reword (w : Rewording) : Statement → Statement
  | .leaf leaf => .leaf (leaf.reword w)
  | .label name => .label (w.line name)
  | .branch condition thenBody elseBody =>
    .branch (condition.reword w) (bodyReword w thenBody) (elseReword w elseBody)
  | .loop option loopVar source body =>
    .loop (option.map w.token) (w.letter loopVar) (w.token source) (bodyReword w body)
  | .chain left operator right => .chain (left.reword w) operator (right.reword w)

/-- The statements of a body with their texts worded anew. -/
def bodyReword (w : Rewording) : List Statement → List Statement
  | [] => []
  | statement :: others => statement.reword w :: bodyReword w others

/-- The alternative of a branch with its texts worded anew. -/
def elseReword (w : Rewording) : Option (List Statement) → Option (List Statement)
  | none => none
  | some body => some (bodyReword w body)

end

/-- A script with the texts of its tree worded anew. -/
def Document.reword (w : Rewording) (d : Document) : Document :=
  ⟨d.statements.map (·.reword w)⟩

theorem bodyReword_eq_map (w : Rewording) (statements : List Statement) :
    bodyReword w statements = statements.map (·.reword w) := by
  induction statements with
  | nil => rfl
  | cons statement others ih => rw [bodyReword, ih, List.map_cons]

theorem elseReword_eq_map (w : Rewording) (elseBody : Option (List Statement)) :
    elseReword w elseBody = elseBody.map (List.map (·.reword w)) := by
  cases elseBody with
  | none => rfl
  | some body => rw [elseReword, bodyReword_eq_map, Option.map_some]

@[simp] theorem Leaf.reword_same (l : Leaf) : l.reword .same = l := by
  cases l with
  | invoke target arguments => exact congrArg (Leaf.invoke target) (List.map_id arguments)
  | emit message escapeMode redirections =>
    exact congrArg (Leaf.emit message escapeMode) (List.map_id redirections)
  | _ => rfl

end BatchScript
