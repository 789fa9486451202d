import BatchScript.Proofs.Grammar.Alike

/-!
# Nested statements

Branches, loops and blocks are in lockstep if their bodies and statements are
(`statementWith_lockstep`, `block_lockstep`); a body stands behind a keyword, and
it is enough that its runs are in lockstep under a relation that holds there.

The rule for a statement refers to itself under a guard: a nested statement
begins with less to read. The guard always lets a nested statement pass, since
a body stands behind a keyword (`statement_eq`); and an induction on what is
left to read lifts a fact about one run or about two from nested statements to all
(`statement_induction`, `statement_lockstep`).
-/

namespace BatchScript.Grammar

open Rule

variable {loose : Prop} {R Q : State → State → Prop}

/-- A block, inside which the states are related by `Q`. -/
theorem block_lockstep {n n' : Rule Statement} (hR : Twin Eq R) (hQ : Twin Eq Q) (hn : Lockstep loose Q n n')
    (enter : ∀ {s t}, R s t →
      Q { s with blockDepth := s.blockDepth + 1 } { t with blockDepth := t.blockDepth + 1 })
    (leave : ∀ {s t}, Q s t →
      R { s with blockDepth := s.blockDepth - 1 } { t with blockDepth := t.blockDepth - 1 }) :
    Lockstep loose R (block n) (block n') := by
  have hs : Lockstep loose Q (blockStatements n) (blockStatements n') := blockStatements_alike.lockstep hQ hn
  exact .attempt hR.companion <| .bind (Flat.lockstep (symbol_alike (by decide)) hR) fun _ =>
    .insideBlock hs enter leave

/-! ## Behind a keyword -/

/-- States that are related by `R` are related by `Q` once a keyword is read. -/
structure Narrows (R Q : State → State → Prop) : Prop where
  le {s t : State} : Q s t → R s t
  keyword {s t u v : State} (k : Keyword) : keyword k s = (.matched (), u) →
    keyword k t = (.matched (), v) → R u v → R s t → Q u v

theorem Narrows.refl (R : State → State → Prop) : Narrows R R :=
  ⟨id, fun _ _ _ h _ => h⟩

section Behind

variable (hR : Twin Eq R) (hQ : Twin Eq Q) (narrow : Narrows R Q)
include hR narrow

theorem bind_keyword_lockstep {α : Type} (k : Keyword) {r q : Unit → Rule α}
    (h : Lockstep loose Q (r ()) (q ())) : Lockstep loose R (keyword k >>= r) (keyword k >>= q) :=
  .bind_of_imp (Flat.lockstep (keyword_alike k) hR) narrow.le
    (fun hs hu hv huv => narrow.keyword k hu hv huv hs) fun _ => h

include hQ

theorem branch_lockstep {b b' : Rule (List Statement)} (hb : Lockstep loose Q b b') :
    Lockstep loose R (branch b) (branch b') := by
  rw [branch_eq, branch_eq]
  refine .attempt hR.companion <| bind_keyword_lockstep hR narrow _ ?_
  exact .bind (Flat.lockstep branchHead_alike hQ) fun _ => (branchBodies_alike _).lockstep hQ hb

theorem loop_lockstep {b b' : Rule (List Statement)} (hb : Lockstep loose Q b b') :
    Lockstep loose R (loop b) (loop b') := by
  rw [loop_eq, loop_eq]
  refine .attempt hR.companion <| bind_keyword_lockstep hR narrow _ ?_
  exact .bind (Flat.lockstep loopHead_alike hQ) fun _ => .bind hb fun _ => .pure _

theorem statementWith_lockstep {n n' : Rule Statement} {limit limit' : Nat}
    (hb : Lockstep loose Q (body limit n) (body limit' n')) :
    Lockstep loose R (statementWith limit n) (statementWith limit' n') :=
  .attempt hR.companion <| .bind (Flat.lockstep (skipSymbol_alike (by decide)) hR) fun _ =>
    .orElse (Flat.lockstep label_alike hR) <| .orElse (branch_lockstep hR hQ narrow hb) <|
      .orElse (loop_lockstep hR hQ narrow hb) (Flat.lockstep chain_alike hR)

end Behind

/-! ## Induction on what is left to read -/

/-- The rule for a statement that begins with less than `n` characters to read. -/
def statementBelow (limit n : Nat) : Rule Statement := fun s =>
  if s.left < n then statement limit s else (.unmatched, s)

theorem statement_eq_statementBelow (limit : Nat) (s : State) :
    statement limit s = statementWith limit (statementBelow limit s.left) s :=
  statement_apply limit s

theorem statementBelow_of_lt {limit n : Nat} {s : State} (h : s.left < n) :
    statementBelow limit n s = statement limit s :=
  if_pos h

theorem statementBelow_of_le {limit n : Nat} {s : State} (h : n ≤ s.left) :
    statementBelow limit n s = (.unmatched, s) :=
  if_neg (by omega)

/-- Two runs of the rule for a statement are in lockstep, under each relation of a
family, if this follows from the same about nested statements. -/
theorem statement_lockstep {ι : Type} {R : ι → State → State → Prop} (hR : ∀ i, Twin Eq (R i))
    {limit limit' : Nat}
    (h : ∀ n n' : Rule Statement, (∀ i, Lockstep loose (R i) n n') →
      ∀ i, Lockstep loose (R i) (statementWith limit n) (statementWith limit' n')) (i : ι) :
    Lockstep loose (R i) (statement limit) (statement limit') := by
  have below : ∀ left i, Lockstep loose (R i) (statementBelow limit left) (statementBelow limit' left) := by
    intro left
    induction left using Nat.strongRecOn with
    | _ left ih =>
      intro i s t hs o u e
      have ht : t.left = s.left := (hR i).left hs
      by_cases hl : s.left < left
      · rw [statementBelow_of_lt hl, statement_eq_statementBelow] at e
        rw [statementBelow_of_lt (by omega), statement_eq_statementBelow, ht]
        exact h _ _ (ih _ hl) i hs e
      · rw [statementBelow_of_le (by omega)] at e ⊢
        cases e; exact .inr ⟨t, rfl, hs⟩
  intro s t hs o u e
  have ht : t.left = s.left := (hR i).left hs
  rw [← statementBelow_of_lt (Nat.lt_succ_self s.left)] at e
  rw [← statementBelow_of_lt (n := s.left + 1) (by omega)]
  exact below _ i hs e

/-- What is true of every run of the rule for a statement: it has to be true of a run that does
not match, and of every other one if it is true of the runs of nested statements. -/
theorem statement_induction {limit : Nat} {P : State → Outcome Statement → State → Prop}
    (guard : ∀ s, P s .unmatched s)
    (step : ∀ n : Rule Statement, (∀ {s t o}, n s = (o, t) → P s o t) →
      ∀ {s t o}, statementWith limit n s = (o, t) → P s o t)
    {s t : State} {o : Outcome Statement} (e : statement limit s = (o, t)) : P s o t := by
  have below : ∀ left {s t o}, statementBelow limit left s = (o, t) → P s o t := by
    intro left
    induction left using Nat.strongRecOn with
    | _ left ih =>
      intro s t o e
      by_cases hl : s.left < left
      · rw [statementBelow_of_lt hl, statement_eq_statementBelow] at e
        exact step _ (ih _ hl) e
      · rw [statementBelow_of_le (by omega)] at e
        cases e; exact guard s
  rw [← statementBelow_of_lt (Nat.lt_succ_self s.left)] at e
  exact below _ e

/-! ## The guard -/

/-- The same state, at a cursor with the property `P`. -/
def Keeping (P : Cursor → Prop) (s t : State) : Prop :=
  t = s ∧ P s.cursor

section Keeping

variable {P : Cursor → Prop} (hP : ∀ c n, P c → P (c.skip n))

include hP

theorem Keeping.twin : Twin Eq (Keeping P) where
  rest h := by rw [h.1]
  blockDepth h := by rw [h.1]
  move _ h := by
    obtain ⟨rfl, h⟩ := h
    exact ⟨rfl, hP _ _ h⟩
  rewind h k := by
    obtain ⟨rfl, h⟩ := h
    obtain ⟨rfl, -⟩ := k
    exact ⟨rfl, h⟩
  note e h := by
    obtain ⟨rfl, h⟩ := h
    exact ⟨rfl, h⟩

theorem Keeping.body_lockstep (limit : Nat) {n n' : Rule Statement} (hn : Lockstep loose (Keeping P) n n') :
    Lockstep loose (Keeping P) (body limit n) (body limit n') := by
  have hR := Keeping.twin hP
  refine .insideBody_of_depth_eq (.orElse (.bind hn fun _ => .pure _) ?_) (fun h => by rw [h.1])
    (fun h => by rw [h.1]) fun d h => ⟨by rw [h.1], h.2⟩
  exact block_lockstep hR hR hn (fun h => ⟨by rw [h.1], h.2⟩) fun h => ⟨by rw [h.1], h.2⟩

end Keeping

/-- The same state, with less than `left` characters to read. -/
def Within (left : Nat) (s t : State) : Prop :=
  t = s ∧ s.left < left

theorem left_skip_lt {left : Nat} (c : Cursor) (n : Nat) (h : c.left < left) : (c.skip n).left < left :=
  Nat.lt_of_le_of_lt (Cursor.reaches_skip c n).left_le h

theorem Within.twin (left : Nat) : Twin Eq (Within left) :=
  Keeping.twin left_skip_lt

theorem Within.body_lockstep {left : Nat} (limit : Nat) {n n' : Rule Statement}
    (hn : Lockstep loose (Within left) n n') :
    Lockstep loose (Within left) (body limit n) (body limit n') :=
  Keeping.body_lockstep left_skip_lt limit hn

/-- Behind a keyword there is less to read. -/
theorem left_lt_of_keyword {k : Keyword} {s t : State} (h : keyword k s = (.matched (), t)) :
    t.left < s.left := by
  rw [keyword, orElse_apply] at h
  unfold step? scan? at h
  cases he : s.cursor.eatKeyword? k.text with
  | none => simp [he, fail] at h
  | some c =>
    simp only [he, Option.map_some, Prod.mk.injEq, true_and] at h
    rw [← h]
    exact Cursor.left_lt_of_eatKeyword? (by cases k <;> decide) he

theorem Within.narrows (left : Nat) : Narrows (Within (left + 1)) (Within left) where
  le h := ⟨h.1, Nat.lt_succ_of_lt h.2⟩
  keyword k hu _ huv hst := by
    have := left_lt_of_keyword hu
    exact ⟨huv.1, by have := hst.2; omega⟩

theorem Within.statement_lockstep (limit left : Nat) :
    Lockstep False (Within left) (statement limit) (statement limit) := by
  refine Grammar.statement_lockstep Within.twin (fun n n' hn left => ?_) left
  exact statementWith_lockstep (Within.twin left) (Within.twin left) (.refl _)
    (Within.body_lockstep limit (hn left))

/-- A statement, whose nested statements are read by the same rule. -/
theorem statement_eq (limit : Nat) : statement limit = statementWith limit (statement limit) := by
  funext s
  have hn : Lockstep False (Within s.left) (statementBelow limit s.left) (statement limit) := by
    intro u v huv o w e
    rw [statementBelow_of_lt huv.2] at e
    exact Within.statement_lockstep limit s.left huv e
  have hs := statementWith_lockstep (Within.twin (s.left + 1)) (Within.twin s.left)
    (Within.narrows s.left) (Within.body_lockstep limit hn)
  obtain ⟨hf, -⟩ | ⟨v, hv, rfl, -⟩ := hs ⟨rfl, Nat.lt_succ_self _⟩ (statement_eq_statementBelow limit s).symm
  · exact hf.elim
  · exact hv.symm

end BatchScript.Grammar
