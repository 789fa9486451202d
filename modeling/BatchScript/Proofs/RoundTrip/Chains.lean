import BatchScript.Proofs.RoundTrip.Leaves

/-!
# Chains that are read back

A chain leans to the left, and so does the way it is read: the rule for chains reads the
first leaf and goes on with the links behind it. On the script of a chain it comes to
the place behind it with that chain in hand (`chain_runs_of_links`), whatever follows there.
-/

namespace BatchScript

open Text

namespace Grammar

open Cursor Rule

variable {d b : Nat} {rest : List Char}

/-! ## Links -/

theorem eatFirst?_chainOperator (op : ChainOperator) {c : Cursor} (hc : c.rest = op.text.toList ++ rest)
    (hr : Stops isChainChar rest) :
    c.eatFirst? ChainOperator.text ChainOperator.all = some (op, c.skip op.text.toList.length) := by
  have hnext : ∀ {x : Char}, isChainChar x = true → ¬ [x] <+: rest := by
    rintro x hx ⟨k, rfl⟩
    rw [List.singleton_append, stops_cons, hx] at hr
    cases hr
  have hand : ¬ ['&'] <+: rest := hnext rfl
  have hbar : ¬ ['|'] <+: rest := hnext rfl
  rw [eatFirst?, ChainOperator.all]
  simp only [List.findSome?_cons, eatText?, startsWith, hc]
  cases op <;> simp [ChainOperator.text, hand, hbar]

theorem chainOperator_runs (op : ChainOperator) (hr : Stops isChainChar rest) :
    Runs chainOperator d b (op.text.toList ++ rest) (.matched op) rest := by
  refine .orElse_matched (.scan? fun c hc => ⟨_, eatFirst?_chainOperator op hc hr, ?_⟩) _
  rw [rest_skip, hc, List.drop_left]

/-- An operator and what may stand around it. -/
def linkHead : Rule ChainOperator := do
  skipSpaces
  let operator ← chainOperator
  skipBlanks
  skipSymbol '@'
  return operator

theorem chainLink_eq : chainLink = .attempt (do
    let operator ← linkHead
    let right ← leaf
    return (operator, right)) := by
  simp only [chainLink, linkHead, bind_assoc, pure_bind]

/-- Nothing of a text belongs to the operator in front of it, to the blanks behind that or, unless there is one already,
to an `@`. -/
def BehindOperator (marked : Bool) (text : List Char) : Prop :=
  ∀ x ∈ text.head?, isChainChar x = false ∧ isBlank x = false ∧ (marked = false → x ≠ '@')

theorem behindOperator_of_begins {k : Keyword} {i : List Char} (h : k.Begins i) (marked : Bool) :
    BehindOperator marked i := fun x hx =>
  ⟨h.stops_isChainChar x hx, Keyword.stops_isBlank_of_begins h x hx, fun _ => by simpa using h.stops_at x hx⟩

theorem linkHead_runs {spaces blanks i : List Char} {marked : Bool} (hs : ∀ x ∈ spaces, isSpace x = true)
    (op : ChainOperator) (hb : ∀ x ∈ blanks, isBlank x = true) (hi : BehindOperator marked i) :
    Runs linkHead d b (spaces ++ (op.text.toList ++ (blanks ++ ((atSign marked).toList ++ i)))) (.matched op) i := by
  have hspace : Stops isSpace (op.text.toList ++ (blanks ++ ((atSign marked).toList ++ i))) := by
    cases op <;> exact stops_cons.mpr rfl
  have hchain : Stops isChainChar (blanks ++ ((atSign marked).toList ++ i)) :=
    stops_append (fun x hx => not_of_isBlank (by decide) (hb x hx)) (stops_atSign marked rfl fun x hx => (hi x hx).1)
  have hblank : Stops isBlank ((atSign marked).toList ++ i) := stops_atSign marked rfl fun x hx => (hi x hx).2.1
  have hat : marked = false → Stops (· == '@') i := fun hm x hx => beq_eq_false_iff_ne.mpr ((hi x hx).2.2 hm)
  refine .bind (skipSpaces_runs_append hs hspace) (.bind (chainOperator_runs op hchain) ?_)
  exact .bind (skipBlanks_runs hb hblank) (.bind (skipAtSign_runs marked hat) (.pure _))

/-- A link with any spaces before its operator, and any blanks and perhaps an `@` behind it. -/
theorem chainLink_runs_of_leaf {spaces blanks i : List Char} {k : Keyword} {l : Leaf}
    (hs : ∀ x ∈ spaces, isSpace x = true) (op : ChainOperator) (hb : ∀ x ∈ blanks, isBlank x = true) (marked : Bool)
    (hk : k.Begins i) (h : Runs leaf d b i (.matched l) rest) :
    Runs chainLink d b (spaces ++ (op.text.toList ++ (blanks ++ ((atSign marked).toList ++ i)))) (.matched (op, l))
      rest := by
  rw [chainLink_eq]
  exact .attempt (.bind (linkHead_runs hs op hb (behindOperator_of_begins hk marked)) (.bind h (.pure _)))

theorem chainLink_runs (op : ChainOperator) {l : Leaf} (hw : l.WellFormed) (hp : l.Plain (decide (0 < b)))
    (hr : EndsLeaf rest) (hl : l.takesLine = true → ∃ k, rest = '\n' :: '\n' :: k) :
    Runs chainLink d b (op.text.toList ++ (l.script.toList ++ rest)) (.matched (op, l)) rest := by
  have hnone : ∀ p : Char → Bool, ∀ x ∈ ([] : List Char), p x = true := by simp
  exact chainLink_runs_of_leaf (hnone _) op (hnone _) false (l.begins_script rest) (leaf_runs hw hp (hr.ends hl))

/-! ## Chains -/

theorem endsLeaf_operator (op : ChainOperator) : EndsLeaf (op.text.toList ++ rest) := by
  cases op <;> exact ⟨_, _, rfl, by decide⟩

/-- The links behind a leaf or a chain, which is read already. -/
def chainLinks (left : Statement) : Rule Statement :=
  Rule.foldMany (fun left (operator, right) => .chain left operator (.leaf right)) chainLink left

/-- A leaf or a chain begins with the keyword of a leaf. -/
theorem exists_begins_script (rest : List Char) : (s : Statement) → s.isLeaf = true ∨ s.isChain = true →
    (∀ n ∈ s.nodes, n.WellChained) → ∃ k ∈ leafKeywords, k.Begins (s.script.toList ++ rest)
  | .leaf l, _, _ => ⟨l.keyword, l.keyword_mem, l.begins_script rest⟩
  | .chain left op right, _, hc => by
    obtain ⟨-, hleft, -⟩ := hc _ (Statement.self_mem_nodes _)
    rw [Statement.script, String.toList_append, String.toList_append, List.append_assoc, List.append_assoc]
    exact exists_begins_script _ left hleft fun n hn => hc n (by simp [Statement.nodes, hn])
  | .label _, hs, _ => by simp [Statement.isLeaf, Statement.isChain] at hs
  | .branch .., hs, _ => by simp [Statement.isLeaf, Statement.isChain] at hs
  | .loop .., hs, _ => by simp [Statement.isLeaf, Statement.isChain] at hs

theorem takesLine_of_leavesLine {l : Leaf} {i : List Char}
    (h : (Statement.leaf l).LeavesLine ∨ ∃ k, i = '\n' :: '\n' :: k) (ht : l.takesLine = true) :
    ∃ k, i = '\n' :: '\n' :: k := by
  refine h.resolve_left fun hl => ?_
  have hl : l.takesLine = false := hl (.leaf l) (Statement.self_mem_nodes _)
  rw [ht] at hl
  cases hl

/-- A leaf or a chain is read up to its end, if what it holds may end there, and then
the links behind it are read. -/
theorem chain_runs_of_links {t : Statement} {i : List Char} : (s : Statement) →
    s.isLeaf = true ∨ s.isChain = true → (∀ n ∈ s.nodes, n.WellFormed) → (∀ n ∈ s.nodes, n.WellChained) →
    s.Plain (decide (0 < b)) → (s.LeavesLine ∨ ∃ k, i = '\n' :: '\n' :: k) → EndsLeaf i →
    Runs (chainLinks s) d b i (.matched t) rest →
    Runs chain d b (s.script.toList ++ i) (.matched t) rest
  | .leaf l, _, hw, _, hp, hl, hi, hlinks => by
    have hw := hw (.leaf l) (Statement.self_mem_nodes _)
    exact .bind (leaf_runs hw hp (hi.ends (takesLine_of_leavesLine hl))) hlinks
  | .chain left op right, _, hw, hc, hp, hl, hi, hlinks => by
    obtain ⟨hright, hleft, hline⟩ := hc _ (Statement.self_mem_nodes _)
    simp only [Statement.nodes, List.forall_mem_cons, List.forall_mem_append] at hw hc
    have hl : right.LeavesLine ∨ ∃ k, i = '\n' :: '\n' :: k :=
      hl.imp_left fun h n hn => h n (by simp [Statement.nodes, hn])
    cases right with
    | leaf r =>
      have hwr := hw.2.2 (.leaf r) (Statement.self_mem_nodes _)
      have hlink := chainLink_runs (d := d) op hwr hp.2 hi (takesLine_of_leavesLine hl)
      rw [Statement.script, String.toList_append, String.toList_append, List.append_assoc, List.append_assoc]
      refine chain_runs_of_links left hleft hw.2.1 hc.2.1 hp.1 (.inl hline) (endsLeaf_operator op) ?_
      refine .foldMany hlink ?_ hlinks
      have : 0 < op.text.toList.length := by cases op <;> decide
      simp only [List.length_append]; omega
    | _ => cases hright
  | .label _, hs, _, _, _, _, _, _ => by simp [Statement.isLeaf, Statement.isChain] at hs
  | .branch .., hs, _, _, _, _, _, _ => by simp [Statement.isLeaf, Statement.isChain] at hs
  | .loop .., hs, _, _, _, _, _, _ => by simp [Statement.isLeaf, Statement.isChain] at hs

theorem chain_runs {s : Statement} (hs : s.isLeaf = true ∨ s.isChain = true)
    (hw : ∀ n ∈ s.nodes, n.WellFormed) (hc : ∀ n ∈ s.nodes, n.WellChained) (hp : s.Plain (decide (0 < b))) :
    Runs chain d b (s.script.toList ++ '\n' :: '\n' :: rest) (.matched s) ('\n' :: '\n' :: rest) :=
  chain_runs_of_links s hs hw hc hp (.inr ⟨rest, rfl⟩) ⟨'\n', _, rfl, by decide⟩
    (.foldMany_unmatched (chainLink_unmatched (stops_cons.mpr (by decide))) _ _)

end Grammar

end BatchScript
