import BatchScript.Proofs.Grammar.Nesting
import BatchScript.Proofs.Grammar.Texts
import BatchScript.Session

/-!
# Every node that is read

A fact about nodes that labels, chains, and the heads of branches and loops have
is a fact about every node of every document that is read
(`nodes_of_read`); the bodies bring nothing new. With it,
every tree that a script has is well formed (`wellFormed_of_read`).
-/

namespace BatchScript

namespace Grammar

open Text Cursor Rule

variable {limit : Nat}

/-- Whatever the rule for a statement yields if its nested statements yield the same. -/
theorem statement_yields {A : Statement → Prop}
    (h : ∀ n : Rule Statement, Yields n A → Yields (statementWith limit n) A) :
    Yields (statement limit) A := by
  intro s t a _ e
  refine statement_induction (P := fun _ o _ => ∀ a, o = .matched a → A a) nofun (fun n hn s t o e => ?_) e a rfl
  rintro a rfl
  exact h n (fun _ _ a _ e => hn e a rfl) trivial e

/-! ## The head of a loop -/

theorem loopOption_yields : Yields loopOption fun t => '"' ∉ t.toList :=
  .attempt <| .bind (.scan? of_quoted?) fun _ h => .after fun _ => .pure h

theorem letter_yields : Yields (.scan? letter?) fun x => isLetter x = true := by
  refine .scan? fun {c x d} h => ?_
  simp only [letter?, Option.map_eq_some_iff, Option.filter_eq_some_iff, Prod.mk.injEq] at h
  obtain ⟨y, ⟨-, hy⟩, rfl, -⟩ := h
  exact hy

theorem loopSource_yields : Yields loopSource fun t => Balanced t.toList := by
  refine .orElse (.scan? fun {c t d} h => ?_) (.after fun _ => .fail _)
  simp only [source?, Option.map_eq_some_iff, Prod.mk.injEq] at h
  obtain ⟨n, hn, rfl, -⟩ := h
  rw [String.toList_ofList]
  exact (balanced_of_sourceLength? hn).1

/-! ## Statements -/

/-- A fact about nodes that whatever is read without bodies has. -/
structure Admits (p : Statement → Prop) : Prop where
  label {name : String} : IsName name → p (.label name)
  branch {condition : Condition} (thenBody : List Statement) (elseBody : Option (List Statement)) :
    condition.WellFormed → p (.branch condition thenBody elseBody)
  loop {option : Option String} {loopVar : Char} {source : String} (body : List Statement) :
    (∀ t ∈ option, '"' ∉ t.toList) → isLetter loopVar = true → Balanced source.toList →
      p (.loop option loopVar source body)
  chain : Yields chain fun s => ∀ n ∈ s.nodes, p n

section Nodes

variable {p : Statement → Prop}

theorem nodes_label (hp : Admits p) : Yields label fun s => ∀ n ∈ s.nodes, p n := by
  refine .attempt <| .after fun _ => .bind identifier_yields fun name hn => .pure ?_
  intro n h
  obtain rfl := List.mem_singleton.mp h
  exact hp.label hn

theorem nodes_body {n : Rule Statement} (h : Yields n fun s => ∀ n ∈ s.nodes, p n) :
    Yields (body limit n) fun b => ∀ n ∈ bodyNodes b, p n := by
  refine Ensures.insideBody (Yields.orElse (.bind h fun s hs => .pure ?_) ?_)
  · intro n hn
    simp only [bodyNodes, List.append_nil] at hn
    exact hs n hn
  · refine .attempt <| .after fun _ => Ensures.insideBlock ?_
    refine Yields.bind (.many <| .after fun _ => .after fun _ => h) fun statements hs =>
      .after fun _ => .pure ?_
    intro n hn
    obtain ⟨t, ht, hn⟩ := mem_bodyNodes.mp hn
    exact hs t ht n hn

theorem nodes_alternative {b : Rule (List Statement)} (h : Yields b fun b => ∀ n ∈ bodyNodes b, p n) :
    Yields (alternative b) fun b => ∀ n ∈ bodyNodes b, p n :=
  .attempt <| .after fun _ => .after fun _ => .after fun _ => .after fun _ => h

theorem nodes_branch (hp : Admits p) {b : Rule (List Statement)}
    (h : Yields b fun b => ∀ n ∈ bodyNodes b, p n) : Yields (branch b) fun s => ∀ n ∈ s.nodes, p n := by
  refine .attempt <| .after fun _ => .after fun _ => .bind condition_yields fun condition hc =>
    .after fun _ => .bind h fun thenBody ht => .bind (.optional (nodes_alternative h)) fun elseBody he =>
    .pure ?_
  intro n hn
  simp only [Statement.nodes, List.mem_cons, List.mem_append] at hn
  rcases hn with rfl | hn | hn
  · exact hp.branch thenBody elseBody hc
  · exact ht n hn
  · cases elseBody with
    | none => cases hn
    | some b => exact he b rfl n hn

theorem nodes_loop (hp : Admits p) {b : Rule (List Statement)}
    (h : Yields b fun b => ∀ n ∈ bodyNodes b, p n) : Yields (loop b) fun s => ∀ n ∈ s.nodes, p n := by
  refine .attempt <| .after fun _ => .after fun _ => .after fun _ => .after fun _ =>
    .bind (.optional loopOption_yields) fun option ho => .after fun _ =>
    .bind (.orElse letter_yields (.fail _)) fun loopVar hv => .after fun _ => .after fun _ =>
    .after fun _ => .after fun _ => .bind loopSource_yields fun source hs => .after fun _ =>
    .after fun _ => .after fun _ => .after fun _ => .bind h fun body hb => .pure ?_
  intro n hn
  simp only [Statement.nodes, List.mem_cons] at hn
  rcases hn with rfl | hn
  · exact hp.loop body ho hv hs
  · exact hb n hn

theorem nodes_statement (hp : Admits p) : Yields (statement limit) fun s => ∀ n ∈ s.nodes, p n := by
  refine statement_yields fun n hn => .attempt <| .after fun _ => .orElse (nodes_label hp) <|
    .orElse (nodes_branch hp (nodes_body hn)) <| .orElse (nodes_loop hp (nodes_body hn)) hp.chain

theorem nodes_document (hp : Admits p) : Yields (document limit) fun d => ∀ n ∈ d.nodes, p n := by
  refine .bind (.many <| .after fun _ => .after fun _ => nodes_statement hp) fun statements hs =>
    .after fun _ => .pure ?_
  intro n hn
  obtain ⟨s, hs', hn⟩ := mem_bodyNodes.mp hn
  exact hs s hs' n hn

end Nodes

end Grammar

open Grammar

theorem nodes_of_read {p : Statement → Prop} (hp : Admits p) {limits : Limits} {script : String}
    {d : Document} (h : Document.read limits script = .ok d) : ∀ n ∈ d.nodes, p n := by
  obtain ⟨t, ht⟩ := document_of_read h
  exact nodes_document hp trivial ht

end BatchScript
