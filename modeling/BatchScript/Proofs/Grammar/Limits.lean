import BatchScript.Proofs.Grammar.Nesting
import BatchScript.Proofs.Rule.Measures

/-!
# One script under two limits

A limit on nested bodies is met earlier or later, and plays no other part; nor does the place
where the text stands. Two runs on the same text, of which the first has no more bodies left to open, make
the same steps until the first one ends because of its limit (`Aligned`).

* `statement_aligned`: the rule for a statement, at any two depths;
* `document_agrees`: under a smaller limit the rule for a document does the same, or ends because of
  the limit.
-/

namespace BatchScript.Grammar

open Rule

variable {α : Type} {same : Prop} {left d d' b m m' : Nat}

/-- Two states before the same text, inside `b` blocks and inside `d` and `d'` bodies, with
less than `left` characters to read; if `same`, at the same place and with the same attempts too. -/
structure Aligned (same : Prop) (left d d' b : Nat) (s t : State) : Prop where
  rest : t.cursor.rest = s.cursor.rest
  blockDepth : s.blockDepth = b
  blockDepth' : t.blockDepth = b
  depth : s.depth = d
  depth' : t.depth = d'
  left_lt : s.left < left
  eq_of_same : same → t.cursor = s.cursor ∧ t.attempts = s.attempts

theorem Aligned.twin (same : Prop) (left d d' b : Nat) : Twin Eq (Aligned same left d d' b) where
  rest h := h.rest
  blockDepth h := h.blockDepth'.trans h.blockDepth.symm
  move _ h := by
    refine ⟨?_, h.blockDepth, h.blockDepth', h.depth, h.depth', ?_, fun hs => ⟨?_, (h.eq_of_same hs).2⟩⟩
    · rw [Cursor.rest_skip, Cursor.rest_skip, h.rest]
    · exact Nat.lt_of_le_of_lt (Cursor.reaches_skip _ _).left_le h.left_lt
    · rw [(h.eq_of_same hs).1]
  rewind h k := ⟨h.rest, k.blockDepth, k.blockDepth', k.depth, k.depth', h.left_lt,
    fun hs => ⟨(h.eq_of_same hs).1, (k.eq_of_same hs).2⟩⟩
  note e h := by
    refine ⟨h.rest, h.blockDepth, h.blockDepth', h.depth, h.depth', h.left_lt, fun hs => ⟨(h.eq_of_same hs).1, ?_⟩⟩
    show Attempts.note _ _ _ = Attempts.note _ _ _
    rw [(h.eq_of_same hs).1, (h.eq_of_same hs).2]

theorem Aligned.refl {s : State} (h : s.left < left) :
    Aligned same left s.depth s.depth s.blockDepth s s :=
  ⟨rfl, rfl, rfl, rfl, rfl, h, fun _ => ⟨rfl, rfl⟩⟩

theorem Aligned.eq {s t : State} (h : Aligned True left d d b s t) : t = s := by
  have hd : t.depth = s.depth := h.depth'.trans h.depth.symm
  have hb : t.blockDepth = s.blockDepth := h.blockDepth'.trans h.blockDepth.symm
  obtain ⟨hc, ha⟩ := h.eq_of_same trivial
  cases s; cases t
  simp_all only

/-- How a rule without bodies runs on a text is seen of any state. -/
theorem runs_of_flat {r : Rule α} (h : Flat Eq r) {s t : State} {o : Outcome α} (e : r s = (o, t)) :
    Runs r d s.blockDepth s.cursor.rest o t.cursor.rest := by
  intro u hu
  have hs : Aligned False (s.left + 1) s.depth u.depth s.blockDepth s u :=
    ⟨hu.rest, rfl, hu.blockDepth, rfl, rfl, Nat.lt_succ_self _, False.elim⟩
  have hr : Lockstep False (Aligned False (s.left + 1) s.depth u.depth s.blockDepth) r r :=
    h.lockstep (Aligned.twin ..)
  obtain ⟨hf, -⟩ | ⟨v, hv, k⟩ := hr hs e
  · cases hf
  · exact ⟨v, hv, k.rest, k.depth'.trans hu.depth, k.blockDepth'⟩

/-! ## Bodies and statements -/

theorem body_aligned {n n' : Rule Statement} (hm : m + d' ≤ m' + d)
    (h : ∀ b, Lockstep True (Aligned same left (d + 1) (d' + 1) b) n n') :
    Lockstep True (Aligned same left d d' b) (body m n) (body m' n') := by
  have hR := Aligned.twin same left (d + 1) (d' + 1)
  have hb : Lockstep True (Aligned same left (d + 1) (d' + 1) b) (block n) (block n') := by
    refine block_lockstep (hR b) (hR (b + 1)) (h (b + 1)) (fun h => ?_) fun h => ?_
    · exact ⟨h.rest, congrArg (· + 1) h.blockDepth, congrArg (· + 1) h.blockDepth', h.depth, h.depth',
        h.left_lt, h.eq_of_same⟩
    · exact ⟨h.rest, congrArg (· - 1) h.blockDepth, congrArg (· - 1) h.blockDepth', h.depth, h.depth',
        h.left_lt, h.eq_of_same⟩
  refine .insideBody (.orElse (.bind (h b) fun _ => .pure _) hb) (fun h => ?_) (fun h => ?_) (fun h hlt => ?_)
  · exact ⟨h.rest, h.blockDepth, h.blockDepth', congrArg (· + 1) h.depth, congrArg (· + 1) h.depth',
      h.left_lt, h.eq_of_same⟩
  · exact ⟨h.rest, h.blockDepth, h.blockDepth', congrArg (· - 1) h.depth, congrArg (· - 1) h.depth',
      h.left_lt, h.eq_of_same⟩
  · rw [h.depth'] at hlt
    rw [h.depth]; omega

/-- Two runs of the rule for a statement, of which the first has no more bodies left to open. -/
theorem statement_aligned (hm : m + d' ≤ m' + d) :
    Lockstep True (Aligned same left d d' b) (statement m) (statement m') := by
  let R : { i : Nat × Nat // m + i.2 ≤ m' + i.1 } × Nat → State → State → Prop :=
    fun i => Aligned same left i.1.1.1 i.1.1.2 i.2
  have hR : ∀ i, Twin Eq (R i) := fun i => Aligned.twin same left _ _ _
  refine statement_lockstep hR (fun n n' hn i => ?_) (⟨(d, d'), hm⟩, b)
  obtain ⟨⟨⟨d, d'⟩, hd⟩, b⟩ := i
  refine statementWith_lockstep (hR (⟨(d, d'), hd⟩, b)) (hR (⟨(d, d'), hd⟩, b)) (.refl _)
    (body_aligned hd fun b => ?_)
  exact hn (⟨(d + 1, d' + 1), by simp only at hd ⊢; omega⟩, b)

/-! ## Agreement -/

theorem agrees_of_lockstep {r r' : Rule α}
    (h : ∀ left d b, Lockstep True (Aligned True left d d b) r r') : Agrees r r' := by
  intro s
  obtain ⟨-, p, hp⟩ | ⟨t, ht, hst⟩ := h (s.left + 1) s.depth s.blockDepth (.refl (Nat.lt_succ_self _)) rfl
  · exact .inr ⟨p, (r s).2, by rw [← hp]⟩
  · rw [hst.eq] at ht
    exact .inl ht.symm

theorem document_agrees (hm : m ≤ m') : Agrees (document m) (document m') :=
  agrees_of_lockstep fun _ _ _ => document_alike.lockstep (Aligned.twin ..) (statement_aligned (by omega))

end BatchScript.Grammar
