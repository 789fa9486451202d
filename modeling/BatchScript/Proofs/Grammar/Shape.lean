import BatchScript.Proofs.Grammar.Nodes

/-!
# The shape of what is read

Every node of every document that is read is well formed
(`wellFormed_of_read`), and every chain in it joins leaves, of which only the
last one may be a comment or an assignment (`wellChained_of_read`).

Nothing in the grammar forbids such a leaf in the middle of a chain. But a
comment or an assignment ends at a line break, at a closing parenthesis or at the
end of the script, and there no operator follows (`EndsChain`).
-/

namespace BatchScript

namespace Grammar

open Text Cursor Rule

theorem chainLink_yields : Yields chainLink fun x => x.2.WellFormed :=
  .attempt <| .after fun _ => .after fun _ => .after fun _ => .after fun _ =>
    .bind leaf_yields fun _ h => .pure h

theorem admits_wellFormed : Admits Statement.WellFormed where
  label h := h
  branch _ _ h := h
  loop _ ho hv hs := ⟨ho, hv, hs⟩
  chain := by
    refine .bind leaf_yields fun first hf => .foldMany chainLink_yields ?_ ?_
    · rintro left ⟨operator, right⟩ hl hr n hn
      simp only [Statement.nodes, List.mem_cons, List.mem_append, List.not_mem_nil, or_false] at hn
      rcases hn with rfl | hn | rfl
      · trivial
      · exact hl n hn
      · exact hr
    · intro n hn
      obtain rfl := List.mem_singleton.mp hn
      exact hf

/-! ## Where a chain ends -/

/-- No chain operator comes next, on the same line. -/
def EndsChain (rest : List Char) : Prop :=
  Stops isChainChar (rest.dropWhile isSpace)

theorem endsChain_of_stops {rest : List Char} (hs : Stops isSpace rest) (hc : Stops isChainChar rest) :
    EndsChain rest := by
  rw [EndsChain, dropWhile_eq_self_of_stops hs]
  exact hc

/-- Free text runs to a place where no operator follows. -/
theorem endsChain_dropWhile (inBlock : Bool) (text : List Char) :
    EndsChain (text.dropWhile fun x => !isLineBreak x && !closesBlock inBlock x) := by
  have hs := stops_dropWhile (fun x => !isLineBreak x && !closesBlock inBlock x) text
  cases hr : text.dropWhile fun x => !isLineBreak x && !closesBlock inBlock x with
  | nil => exact endsChain_of_stops stops_nil stops_nil
  | cons x rest =>
    have hx : isLineBreak x = true ∨ x = ')' := by
      rw [hr, stops_cons] at hs
      simp only [closesBlock] at hs
      grind
    have hd : ∀ y ∈ ['\r', '\n', ')'], isSpace y = false ∧ isChainChar y = false := by decide
    have hy := hd x (by simpa [isLineBreak, or_assoc] using hx)
    exact endsChain_of_stops (stops_cons.mpr hy.1) (stops_cons.mpr hy.2)

theorem commentLine_ensures : Ensures (fun _ => True) commentLine fun _ => EndsChain := by
  refine .attempt <| .bind (Yields.any _) fun _ => .orElse (.scan? fun c t d _ h => ?_) (.fail _)
  unfold commentText? at h
  split at h
  · rename_i hl
    cases h
    have hd : ∀ y ∈ ['\r', '\n'], isSpace y = false ∧ isChainChar y = false := by decide
    cases hr : c.rest with
    | nil => exact endsChain_of_stops stops_nil stops_nil
    | cons x rest =>
      have hx : isLineBreak x = true := by simpa [atLineEnd, current, hr] using hl
      have hy := hd x (by simpa [isLineBreak] using hx)
      exact endsChain_of_stops (stops_cons.mpr hy.1) (stops_cons.mpr hy.2)
  · split at h
    · cases h
      rw [rest_skipWhile]
      simpa [closesBlock] using endsChain_dropWhile false c.next.rest
    · cases h

theorem comment_ensures : Ensures (fun _ => True) comment fun _ => EndsChain := by
  refine .bind commentLine_ensures fun first => .bind (Q := fun _ => EndsChain) ?_ fun _ => .pure fun _ h => h
  refine .bind (Q := fun _ => EndsChain) (Ensures.foldMany (J := fun _ => EndsChain) (fun _ => ?_) [])
    fun _ => .pure fun _ h => h
  refine .attempt <| .bind (Q := fun _ _ => True) (fun _ _ _ _ _ => trivial) fun _ => ?_
  exact .bind (Yields.any _) fun _ => .bind (Yields.any _) fun _ => commentLine_ensures

theorem assignment_ensures : Ensures (fun _ => True) assignment fun _ => EndsChain := by
  refine .attempt <| .bind (Yields.any _) fun _ => .bind (Yields.any _) fun _ =>
    .bind (Yields.any _) fun _ => .bind (Yields.any _) fun _ =>
    .bind (Q := fun _ => EndsChain) ?_ fun _ => .pure fun _ h => h
  refine .bind (Yields.any _) fun inBlock => .scan fun c _ => ?_
  rw [snd_span, rest_skipWhile]
  exact endsChain_dropWhile inBlock c.rest

/-- Behind a leaf that takes its line no operator follows. -/
theorem leaf_ensures : Ensures (fun _ => True) leaf fun l rest => l.takesLine = true → EndsChain rest := by
  have hn : ∀ {r : Rule Leaf}, (Yields r fun l => l.takesLine = false) →
      Ensures (fun _ => True) r fun l rest => l.takesLine = true → EndsChain rest := by
    intro r hr
    refine hr.mono (fun _ h => h) fun l rest h ht => ?_
    rw [h] at ht; cases ht
  refine .orElse (comment_ensures.mono (fun _ h => h) fun _ _ h _ => h) <|
    .orElse (assignment_ensures.mono (fun _ h => h) fun _ _ h _ => h) <|
    .orElse (hn ?_) <| .orElse (hn ?_) (hn ?_)
  · exact .attempt <| .after fun _ => .after fun _ => .after fun _ => .after fun _ => .pure rfl
  · exact .attempt <| .after fun _ => .after fun _ => .after fun _ => .after fun _ => .pure rfl
  · exact .attempt <| .after fun _ => .after fun _ => .after fun _ => .after fun _ => .after fun _ => .pure rfl

theorem chainLink_ensures :
    Ensures (fun _ => True) chainLink fun x rest => x.2.takesLine = true → EndsChain rest :=
  .attempt <| .bind (Yields.any _) fun _ => .bind (Yields.any _) fun _ => .bind (Yields.any _) fun _ =>
    .bind (Yields.any _) fun _ => .bind leaf_ensures fun _ => .pure fun _ h => h

theorem head_of_chainOperator (op : ChainOperator) : op.text.toList.head?.any isChainChar = true := by
  cases op <;> rfl

/-- Where a chain ends there is no link. -/
theorem not_chainLink : Ensures EndsChain chainLink fun _ _ => False := by
  refine .attempt <| .bind (Q := fun _ => Stops isChainChar) (.move fun c hc => ?_) fun _ =>
    .bind (Q := fun _ _ => False) (.orElse (.scan? fun c op d hc e => ?_) (.failAll _)) fun _ _ _ _ h => h.elim
  · rw [rest_skipWhile]; exact hc
  · obtain ⟨-, he⟩ := mem_of_eatFirst? e
    have hp := (eatText?_eq_some_iff.mp he).1
    rw [startsWith, List.isPrefixOf_iff_prefix] at hp
    have hs := hc.of_front hp
    have hh := head_of_chainOperator op
    cases hl : op.text.toList with
    | nil => simp [hl] at hh
    | cons x y =>
      rw [hl, stops_cons] at hs
      simp [hl, hs] at hh

/-! ## Chains -/

/-- What is known of a chain while it grows. -/
structure Growing (s : Statement) (rest : List Char) : Prop where
  nodes : ∀ n ∈ s.nodes, n.WellChained
  operand : s.isLeaf = true ∨ s.isChain = true
  line : s.LeavesLine ∨ EndsChain rest

theorem growing_leaf {l : Leaf} {rest : List Char} (h : l.takesLine = true → EndsChain rest) :
    Growing (.leaf l) rest := by
  refine ⟨?_, .inl rfl, ?_⟩
  · intro n hn
    obtain rfl := List.mem_singleton.mp hn
    trivial
  · cases hl : l.takesLine with
    | true => exact .inr (h hl)
    | false =>
      refine .inl fun n hn => ?_
      obtain rfl := List.mem_singleton.mp hn
      exact hl

theorem growing_chain {left : Statement} {operator : ChainOperator} {right : Leaf} {rest rest' : List Char}
    (hg : Growing left rest) (hl : left.LeavesLine) (h : right.takesLine = true → EndsChain rest') :
    Growing (.chain left operator (.leaf right)) rest' := by
  have hr := growing_leaf h
  refine ⟨?_, .inr rfl, ?_⟩
  · intro n hn
    simp only [Statement.nodes, List.mem_cons, List.mem_append, List.not_mem_nil, or_false] at hn
    rcases hn with rfl | hn | rfl
    · exact ⟨rfl, hg.operand, hl⟩
    · exact hg.nodes n hn
    · trivial
  · refine hr.line.imp_left fun hr n hn => ?_
    simp only [Statement.nodes, List.mem_cons, List.mem_append, List.not_mem_nil, or_false] at hn
    rcases hn with rfl | hn | rfl
    · rfl
    · exact hl n hn
    · exact hr _ List.mem_cons_self

theorem chain_ensures : Ensures (fun _ => True) chain Growing := by
  refine .bind leaf_ensures fun first => ?_
  refine (Ensures.foldMany (J := Growing) (fun left => ?_) (.leaf first)).mono (fun _ h => growing_leaf h)
    fun _ _ h => h
  -- a link was read, so the chain had not ended before it
  rintro s t ⟨operator, right⟩ hg e
  have hl : left.LeavesLine := hg.line.resolve_right fun hc => not_chainLink hc e
  exact growing_chain hg hl (chainLink_ensures trivial e)

theorem admits_wellChained : Admits Statement.WellChained where
  label _ := trivial
  branch _ _ _ := trivial
  loop _ _ _ _ := trivial
  chain := chain_ensures.mono (fun _ h => h) fun _ _ h => h.nodes

end Grammar

open Grammar

/-- Every node of a document that is read is well formed. -/
theorem wellFormed_of_read {limits : Limits} {script : String} {d : Document}
    (h : Document.read limits script = .ok d) : ∀ n ∈ d.nodes, n.WellFormed :=
  nodes_of_read admits_wellFormed h

/-- A branch that is read, with an equation and a redirected output in it. -/
theorem wellFormed_of_read_branch : ∃ d, Document.read {} "if not a==b echo.x 2>\"y\"" = .ok d ∧
    ∀ n ∈ d.nodes, n.WellFormed := by
  have h : Document.read {} "if not a==b echo.x 2>\"y\"" = .ok ⟨[.branch
      (.negated (.comparison "a" "==" "b")) [.leaf (.emit "x " false [⟨"2>", "y"⟩])] none]⟩ := by decide +kernel
  exact ⟨_, h, wellFormed_of_read h⟩

/-- Every chain of a document that is read leans to the left and joins leaves, and
only its last leaf may be a comment or an assignment. -/
theorem wellChained_of_read {limits : Limits} {script : String} {d : Document}
    (h : Document.read limits script = .ok d) : ∀ n ∈ d.nodes, n.WellChained :=
  nodes_of_read admits_wellChained h

/-- A chain that is read, with an assignment at its end. -/
theorem wellChained_of_read_chain : ∃ d, Document.read {} "goto a&echo.b&set c=d" = .ok d ∧
    ∀ n ∈ d.nodes, n.WellChained := by
  have h : Document.read {} "goto a&echo.b&set c=d" = .ok ⟨[.chain (.chain (.leaf (.goto "a")) .sequence
      (.leaf (.emit "b" false []))) .sequence (.leaf (.assignment "c" "d"))]⟩ := by decide +kernel
  exact ⟨_, h, wellChained_of_read h⟩

end BatchScript
