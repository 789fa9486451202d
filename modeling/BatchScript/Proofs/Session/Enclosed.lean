import BatchScript.Proofs.Grammar.Enclosed
import BatchScript.Proofs.Session.GivingUp
import BatchScript.Proofs.Session.RoundTrip

/-!
# Scripts in a block

A script of labels, leaves and chains, without parentheses and double quotes, is the same inside a
block: a branch or a loop around it has its statements for a body (`read_enclosed`). The
parenthesis that closes the block ends the last statement where the end of the script did, even if it stands
on the same line.
-/

namespace BatchScript

open Grammar Rule Cursor Text

variable {limits : Limits} {limit d b : Nat}

namespace Grammar

/-! ## Statements of a block -/

/-- The statements of a script inside a block around it. -/
theorem item_enclosed {more : List Char} {s t u : State} {a : Statement} (hs : s.Enclosed more d b t)
    (ha : a.isEnclosable = true) (e : documentItem limit s = (.matched a, u)) :
    ∃ v, blockItem (statement limit) t = (.matched a, v) ∧ u.Enclosed more d b v := by
  have hskip := hs.cursor.skipWhile (bounded_self (p := isBlank) (by decide))
  have e := (skipBlanks_holds_apply _ _ s).symm.trans e
  split at e
  · rename_i hp
    have hne : (s.cursor.skipWhile isBlank).rest ≠ [] := fun e => by rw [atEnd, e] at hp; cases hp
    have hcur : ((t.cursor.skipWhile isBlank).current != some ')') = true := by
      rw [bne_iff_ne, hskip.current_eq hne]
      exact fun h => hskip.unclosed (List.mem_of_head? h)
    have hk : State.Enclosed more d b { s with cursor := s.cursor.skipWhile isBlank }
        { t with cursor := t.cursor.skipWhile isBlank } := ⟨hskip, hs.depth, hs.blockDepth⟩
    obtain ⟨v, hv, k⟩ := statement_enclosed hk ha e
    exact ⟨v, (skipBlanks_holds_apply _ _ t).trans ((if_pos hcur).trans hv), k⟩
  · cases e

theorem items_enclosed {more : List Char} {s t u : State} {statements : List Statement}
    (h : Repeats (documentItem limit) s statements u) (hs : s.Enclosed more d b t)
    (ha : ∀ a ∈ statements, a.isEnclosable = true) :
    ∃ v, Repeats (blockItem (statement limit)) t statements v ∧ u.Enclosed more d b v := by
  induction h generalizing t with
  | nil => exact ⟨t, .nil, hs⟩
  | cons e _ ih =>
    obtain ⟨ha, hothers⟩ := List.forall_mem_cons.mp ha
    obtain ⟨w, hw, k⟩ := item_enclosed hs ha e
    obtain ⟨v, hv, k⟩ := ih k hothers
    exact ⟨v, .cons hw hv, k⟩

/-- A block around a script has the statements of the script in it. -/
theorem body_runs_of_document {script : String} {D : Document} {t : State} {more : List Char}
    (hclose : ')' ∉ script.toList) (hquote : '"' ∉ script.toList) (hd : d < limit)
    (ha : ∀ a ∈ D.statements, a.isEnclosable = true) (e : document limit (.begin script) = (.matched D, t)) :
    Runs (body limit (statement limit)) d b ('(' :: (script.toList ++ ')' :: more)) (.matched D.statements) more := by
  refine body_runs_of_items hd fun v hv => ?_
  obtain ⟨u, hitems, hu, hend⟩ := document_matched e
  obtain ⟨w, hw, k⟩ := items_enclosed hitems ⟨⟨hv.rest, hclose, hquote⟩, hv.depth, hv.blockDepth⟩ ha
  have hskip := k.cursor.skipWhile (bounded_self (p := isBlank) (by decide))
  -- only blanks stand behind the last statement of the script, and the parenthesis behind them
  have hrest : (w.cursor.skipWhile isBlank).rest = ')' :: more := by
    rw [hskip.rest, ← (documentItem_unmatched hu).1, List.isEmpty_iff.mp hend]; rfl
  have hstop : blockItem (statement limit) w = (.unmatched, { w with cursor := w.cursor.skipWhile isBlank }) :=
    blockItem_unmatched (rest_skipWhile _ _ ▸ hrest)
  exact ⟨_, hw.many (item_gains (localTest_current_ne (by decide))) hstop, hrest, k.depth, k.blockDepth⟩

/-! ## Scripts of one statement -/

theorem ne_nil_of_statement_runs {a : Statement} {i j : List Char} (h : Runs (statement limit) d b i (.matched a) j) :
    i ≠ [] :=
  List.length_pos_iff.mp (Nat.zero_lt_of_lt (statement_gains.length_lt h))

/-- A statement of a script, behind blanks. -/
theorem documentItem_runs {a : Statement} {blanks i j : List Char} (hb : ∀ x ∈ blanks, isBlank x = true)
    (hi : Stops isBlank i) (h : Runs (statement limit) d b i (.matched a) j) :
    Runs (documentItem limit) d b (blanks ++ i) (.matched a) j :=
  .bind (skipBlanks_runs hb hi) (.bind (.holds fun c hc => by simpa [atEnd, hc] using ne_nil_of_statement_runs h) h)

/-- Behind the last statement there are blanks only. -/
theorem documentItem_unmatched_of_blanks {blanks : List Char} (hb : ∀ x ∈ blanks, isBlank x = true) :
    Runs (documentItem limit) d b blanks .unmatched [] := by
  have hskip := skipBlanks_runs (d := d) (b := b) hb stops_nil
  rw [List.append_nil] at hskip
  exact .bind hskip (.bind_unmatched (.holds_unmatched fun c hc => by rw [atEnd, hc]; rfl) _)

theorem document_runs_of_rounds {i : List Char} {statements : List Statement}
    (h : Runs.Rounds (documentItem limit) 0 0 i statements []) :
    Runs (document limit) 0 0 i (.matched ⟨statements⟩) [] :=
  .bind h.many (.bind (.holds fun c hc => by rw [atEnd, hc]; rfl) (.pure _))

theorem document_runs_of_statement {a : Statement} {i : List Char} (hi : Stops isBlank i)
    (h : Runs (statement limit) 0 0 i (.matched a) []) : Runs (document limit) 0 0 i (.matched ⟨[a]⟩) [] := by
  have hnone : ∀ x ∈ ([] : List Char), isBlank x = true := by simp
  refine document_runs_of_rounds (.cons (documentItem_runs hnone hi h) (statement_gains.length_lt h) (.nil ?_))
  exact documentItem_unmatched_of_blanks hnone

theorem document_unmatched_of_rounds {i j : List Char} {statements : List Statement}
    (h : Runs.Rounds (documentItem limit) 0 0 i statements j) (hj : j ≠ []) :
    Runs (document limit) 0 0 i .unmatched j :=
  .bind h.many (.bind_unmatched (.holds_unmatched fun c hc => by simpa [atEnd, hc] using hj) _)

/-- Behind blanks there is more, but no statement. -/
theorem documentItem_unmatched_of_statement {i : List Char} (hi : i.dropWhile isBlank ≠ [])
    (h : Runs (statement limit) d b (i.dropWhile isBlank) .unmatched (i.dropWhile isBlank)) :
    Runs (documentItem limit) d b i .unmatched (i.dropWhile isBlank) :=
  .bind skipBlanks_runs_dropWhile (.bind (.holds fun c hc => by simpa [atEnd, hc] using hi) h)

/-- Behind the first statement there is more, but no other statement. -/
theorem document_unmatched_of_statement {a : Statement} {i j : List Char} (hi : Stops isBlank i)
    (h : Runs (statement limit) 0 0 i (.matched a) j) (hj : j.dropWhile isBlank ≠ [])
    (hu : Runs (statement limit) 0 0 (j.dropWhile isBlank) .unmatched (j.dropWhile isBlank)) :
    Runs (document limit) 0 0 i .unmatched (j.dropWhile isBlank) := by
  have hnone : ∀ x ∈ ([] : List Char), isBlank x = true := by simp
  have hitem : Runs (documentItem limit) 0 0 i (.matched a) j := documentItem_runs hnone hi h
  refine document_unmatched_of_rounds (.cons hitem (statement_gains.length_lt h) (.nil ?_)) hj
  exact documentItem_unmatched_of_statement hj hu

end Grammar

/-- A script that is one branch or one loop. -/
theorem read_of_choice {k : Keyword} {script : String} {a : Statement} (hk : k.Begins script.toList)
    (hs : script.utf8ByteSize ≤ limits.inputSize)
    (h : Runs (branch (body limits.depth (statement limits.depth)) <|>
      loop (body limits.depth (statement limits.depth)) <|> chain) 0 0 script.toList (.matched a) []) :
    Document.read limits script = .ok ⟨[a]⟩ :=
  read_of_runs hs (document_runs_of_statement (Keyword.stops_isBlank_of_begins hk) (statement_runs_of_begins hk h))

/-! ## The text of a block -/

/-- A block does not change the meaning of the text in it. -/
theorem read_enclosed {s t : String} {D₁ D₂ : Document} (hdepth : 1 ≤ limits.depth)
    (hs : ')' ∉ s.toList ∧ '"' ∉ s.toList) (ht : ')' ∉ t.toList ∧ '"' ∉ t.toList)
    (h₁ : Document.read limits s = .ok D₁) (h₂ : Document.read limits t = .ok D₂)
    (ha₁ : ∀ a ∈ D₁.statements, a.isEnclosable = true) (ha₂ : ∀ a ∈ D₂.statements, a.isEnclosable = true) :
    (("if a==b (" ++ s ++ ") else (" ++ t ++ ")").utf8ByteSize ≤ limits.inputSize →
      Document.read limits ("if a==b (" ++ s ++ ") else (" ++ t ++ ")") =
        .ok ⟨[.branch (.comparison "a" "==" "b") D₁.statements (some D₂.statements)]⟩) ∧
    (("for /f %%i in (x) do (" ++ s ++ ")").utf8ByteSize ≤ limits.inputSize →
      Document.read limits ("for /f %%i in (x) do (" ++ s ++ ")") = .ok ⟨[.loop none 'i' "x" D₁.statements]⟩) := by
  obtain ⟨t₁, h₁⟩ := document_of_read h₁
  obtain ⟨t₂, h₂⟩ := document_of_read h₂
  have hbody : ∀ more, Runs (body limits.depth (statement limits.depth)) 0 0 ('(' :: (s.toList ++ ')' :: more))
      (.matched D₁.statements) more := fun _ => body_runs_of_document hs.1 hs.2 hdepth ha₁ h₁
  have helse : Runs (body limits.depth (statement limits.depth)) 0 0 ('(' :: (t.toList ++ [')']))
      (.matched D₂.statements) [] := body_runs_of_document ht.1 ht.2 hdepth ha₂ h₂
  constructor
  · intro hsize
    have htext : ("if a==b (" ++ s ++ ") else (" ++ t ++ ")").toList = ['i', 'f'] ++ ' ' ::
        ((Condition.comparison "a" "==" "b").script.toList ++ ' ' :: '(' :: (s.toList ++ ')' ::
          ' ' :: (['e', 'l', 's', 'e'] ++ ' ' :: '(' :: (t.toList ++ [')'])))) := by
      simp [Condition.script]
    have hif : IsKeyword .ifWord ['i', 'f'] := rfl
    refine read_of_choice (htext ▸ hif.begins _) hsize ?_
    rw [htext]
    refine .orElse_matched (branch_runs_of_condition ?_ ?_ (hbody _) (.optional (alternative_runs helse))) _
    · exact stops_cons.mpr (by decide)
    · exact condition_runs_of_equation (by decide) (by decide) (by decide)
  · intro hsize
    have htext : ("for /f %%i in (x) do (" ++ s ++ ")").toList = ['f', 'o', 'r'] ++ ' ' ::
        (['/', 'f'] ++ ' ' :: ((optionScript none).toList ++ '%' :: '%' :: 'i' :: ' ' :: (['i', 'n'] ++ ' ' :: '(' ::
          ("x".toList ++ ')' :: ' ' :: (['d', 'o'] ++ ' ' :: '(' :: (s.toList ++ [')'])))))) := by
      simp [optionScript]
    have hfor : IsKeyword .forWord ['f', 'o', 'r'] := rfl
    refine read_of_choice (htext ▸ hfor.begins _) hsize ?_
    rw [htext]
    refine .orElse (branch_unmatched _ ((hfor.begins _).beginsWithWord_of_ne (by decide))) (.orElse_matched ?_ _)
    exact loop_runs (fun _ h => by cases h) (by decide +kernel) (.plain rfl (by decide) (by decide) .nil) (hbody [])

theorem read_enclosed_one_line :
    Document.read {} "if a==b (:l\nset v=1) else (@echo.hi>nul&call x y)" = .ok ⟨[
      .branch (.comparison "a" "==" "b") [.label "l", .leaf (.assignment "v" "1")] (some [
        .chain (.leaf (.emit "hi" false [⟨">", "nul"⟩])) .sequence (.leaf (.invoke "x" ["y"]))])]⟩ ∧
    Document.read {} "for /f %%i in (x) do (:l\nset v=1)" = .ok ⟨[
      .loop none 'i' "x" [.label "l", .leaf (.assignment "v" "1")]]⟩ := by
  have h₁ : Document.read {} ":l\nset v=1" = .ok ⟨[.label "l", .leaf (.assignment "v" "1")]⟩ := by decide +kernel
  have h₂ : Document.read {} "@echo.hi>nul&call x y" = .ok ⟨[
      .chain (.leaf (.emit "hi" false [⟨">", "nul"⟩])) .sequence (.leaf (.invoke "x" ["y"]))]⟩ := by decide +kernel
  have h := read_enclosed (by decide) (by decide) (by decide) h₁ h₂ (by decide) (by decide)
  exact ⟨h.1 (by decide +kernel), h.2 (by decide +kernel)⟩

end BatchScript
