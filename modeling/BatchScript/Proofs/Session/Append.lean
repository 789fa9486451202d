import BatchScript.Proofs.Grammar.Append
import BatchScript.Proofs.Session.GivingUp
import BatchScript.Proofs.Tree.Basic

/-!
# Scripts one behind another

Two scripts with an empty line between them are read as the statements of the first one and
then the statements of the second one (`read_append`). No statement of the first script, which has no double
quotes, takes in text of the second one; and how the second one is read does not depend on where it stands.
-/

namespace BatchScript

open Grammar Rule Cursor Text

variable {limits : Limits} {limit : Nat}

namespace Grammar

/-- A script that is read does not begin with `ELSE`. -/
theorem not_begins_else_of_document {s t : State} {d : Document} (e : document limit s = (.matched d, t)) :
    ¬ Keyword.elseWord.Begins (s.cursor.rest.dropWhile isBlank) := by
  intro h
  have hne := Keyword.ne_nil_of_begins h
  have hitem : Runs (documentItem limit) s.depth s.blockDepth s.cursor.rest .unmatched
      (s.cursor.rest.dropWhile isBlank) := by
    refine .bind skipBlanks_runs_dropWhile (.bind (.holds fun c hc => ?_) (statement_unmatched_of_else limit h))
    simpa [atEnd, hc] using hne
  have hdocument : Runs (document limit) s.depth s.blockDepth s.cursor.rest .unmatched
      (s.cursor.rest.dropWhile isBlank) := by
    refine .bind (Runs.Rounds.nil hitem).many (.bind_unmatched (.holds_unmatched fun c hc => ?_) _)
    simpa [atEnd, hc] using hne
  have hs : s.At s.depth s.blockDepth s.cursor.rest := ⟨rfl, rfl, rfl⟩
  cases (hs.outcome e hdocument).1

end Grammar

/-! ## The same text at another place -/

/-- Two states before the same text, once blanks are skipped, inside as many bodies and blocks. -/
structure State.Alongside (s t : State) : Prop where
  rest : t.cursor.rest.dropWhile isBlank = s.cursor.rest.dropWhile isBlank
  depth : t.depth = s.depth
  blockDepth : t.blockDepth = s.blockDepth

namespace Grammar

theorem documentItem_alongside : Lockstep True State.Alongside (documentItem limit) (documentItem limit) := by
  intro s t hs o u e
  have hR : Twin Eq (Aligned False (s.left + 1) s.depth s.depth s.blockDepth) := Aligned.twin ..
  have hnext : Lockstep True (Aligned False (s.left + 1) s.depth s.depth s.blockDepth)
      (do .holds fun c => !c.atEnd; statement limit) (do .holds fun c => !c.atEnd; statement limit) :=
    .bind (.holds hR localTest_atEnd) fun _ => statement_aligned (Nat.le_refl _)
  have hk : Aligned False (s.left + 1) s.depth s.depth s.blockDepth { s with cursor := s.cursor.skipWhile isBlank }
      { t with cursor := t.cursor.skipWhile isBlank } := by
    refine ⟨?_, rfl, hs.blockDepth, rfl, hs.depth, ?_, False.elim⟩
    · rw [rest_skipWhile, rest_skipWhile, hs.rest]
    · exact Nat.lt_succ_of_le (reaches_skip _ _).left_le
  refine (hnext hk e).imp_right fun ⟨v, hv, k⟩ => ⟨v, hv, by rw [k.rest], ?_, ?_⟩
  · exact k.depth'.trans k.depth.symm
  · exact k.blockDepth'.trans k.blockDepth.symm

/-! ## Two documents -/

theorem document_append {A B : String} {d₁ d₂ : Document} {t₁ t₂ : State} (hq : '"' ∉ A.toList)
    (h₁ : document limit (.begin A) = (.matched d₁, t₁)) (h₂ : document limit (.begin B) = (.matched d₂, t₂)) :
    ∃ t, document limit (.begin (A ++ "\n\n" ++ B)) = (.matched ⟨d₁.statements ++ d₂.statements⟩, t) := by
  obtain ⟨u, hA, hu, hendA⟩ := document_matched h₁
  obtain ⟨w, hB, hw, hendB⟩ := document_matched h₂
  -- behind the statements of the first script there are only blanks, so the reader is not jammed there
  have hblank : u.cursor.rest.dropWhile isBlank = [] := by
    rw [← rest_skipWhile, ← (documentItem_unmatched hu).1, List.isEmpty_iff.mp hendA]
  have hs : (State.begin A).Continued B.toList (A.toList.length + 1) (.begin (A ++ "\n\n" ++ B)) := by
    refine ⟨⟨?_, hq⟩, rfl, rfl, Nat.lt_succ_self _⟩
    simp [String.toList_append]
  obtain ⟨v, hv, k⟩ | hj := items_carry (statement_carries (not_begins_else_of_document h₂) _) localTest_atEnd
    (fun hc _ => by simp [atEnd, hc.1]) hs hA
  · have hal : State.Alongside (.begin B) v := by
      refine ⟨?_, ?_, ?_⟩
      · rcases k.rest.dropWhile isBlank with ⟨-, hne⟩ | ⟨-, he⟩
        · exact absurd hblank hne
        · rw [he]; rfl
      · have hdepth : u.depth = 0 := hA.depth_eq documentItem_orderly
        exact k.depth.trans hdepth
      · have hblocks : u.blockDepth = 0 := (hA.follows documentItem_orderly).blockDepth
        exact k.blockDepth.trans hblocks
    obtain ⟨y, hy, k⟩ := hB.lockstep documentItem_alongside hal
    obtain ⟨z, hz, -⟩ := documentItem_alongside.unmatched k hw
    have hrest : z.cursor.rest = t₂.cursor.rest := by
      rw [(documentItem_unmatched hz).1, (documentItem_unmatched hw).1, rest_skipWhile, rest_skipWhile, k.rest]
    exact ⟨z, document_of_repeats (hv.append hy) hz (by rw [atEnd, hrest]; exact hendB)⟩
  · exact absurd hblank hj.obstructed.1

end Grammar

/-- A script without double quotes and another one, with an empty line between them, are read as the
statements of the one and then the statements of the other. -/
theorem read_append {A B : String} {d₁ d₂ : Document} (hq : '"' ∉ A.toList)
    (h₁ : Document.read limits A = .ok d₁) (h₂ : Document.read limits B = .ok d₂)
    (hsize : (A ++ "\n\n" ++ B).utf8ByteSize ≤ limits.inputSize) :
    Document.read limits (A ++ "\n\n" ++ B) = .ok ⟨d₁.statements ++ d₂.statements⟩ := by
  obtain ⟨t₁, h₁⟩ := document_of_read h₁
  obtain ⟨t₂, h₂⟩ := document_of_read h₂
  obtain ⟨t, ht⟩ := document_append hq h₁ h₂
  rw [read_eq hsize, ht]

theorem read_append_comments :
    Document.read {} ("if a==b goto c\nrem d" ++ "\n\n" ++ "rem e") = .ok ⟨[
      .branch (.comparison "a" "==" "b") [.leaf (.goto "c")] none,
      .leaf (.comment "d"), .leaf (.comment "e")]⟩ := by
  have h₁ : Document.read {} "if a==b goto c\nrem d" =
      .ok ⟨[.branch (.comparison "a" "==" "b") [.leaf (.goto "c")] none, .leaf (.comment "d")]⟩ := by decide +kernel
  have h₂ : Document.read {} "rem e" = .ok ⟨[.leaf (.comment "e")]⟩ := by decide +kernel
  exact read_append (by decide) h₁ h₂ (by decide +kernel)

end BatchScript
