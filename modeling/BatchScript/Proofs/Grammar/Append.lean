import BatchScript.Proofs.Grammar.Continued
import BatchScript.Proofs.Grammar.Jammed

/-!
# Statements on a text that goes on

A statement that is read on a text without double quotes is read alike if the text goes on behind an
empty line (`statement_carries`). Where a part of it looks further than the end of the text, the
first run does not match there: a leaf behind an operator, a body, the source of a loop, an
alternative. It may still go on with something else, but then it is jammed: before the operator, before the
`ELSE`, or in front of a parenthesis that does not close the block.
-/

namespace BatchScript.Grammar

open Cursor Rule Text State

variable {more : List Char} {left limit : Nat} {Jam : State → Prop}

/-! ## Words -/

/-- Behind a keyword there is less to read. -/
theorem keyword_carries {α : Type} (k : Keyword) {f : Unit → Rule α} (h : Carries more left Jam (f ())) :
    Carries more (left + 1) Jam (keyword k >>= f) := by
  intro s t u a hs e
  obtain ⟨⟨⟩, w, hw, e⟩ := bind_matched e
  obtain ⟨x, hx, hwx⟩ := (flat_continued (keyword_alike k)).matched hs hw
  have hlt := left_lt_of_keyword hw
  have hsl := hs.left_lt
  rw [bind_of_matched hx]
  refine (h ⟨hwx.rest, hwx.depth, hwx.blockDepth, by omega⟩ e).imp_left fun ⟨v, hv, k⟩ => ?_
  exact ⟨v, hv, k.mono (Nat.le_succ _)⟩

/-- Behind blanks that are not the end of the first text. -/
theorem skipBlanks_continued {s t : State} (hs : s.Continued more left t) (hne : s.cursor.rest.dropWhile isBlank ≠ []) :
    Continued more left { s with cursor := s.cursor.skipWhile isBlank }
      { t with cursor := t.cursor.skipWhile isBlank } := by
  refine ⟨?_, hs.depth, hs.blockDepth, Nat.lt_of_le_of_lt (reaches_skip _ _).left_le hs.left_lt⟩
  rw [rest_skipWhile, rest_skipWhile]
  exact ⟨((hs.rest.dropWhile isBlank).resolve_right fun hr => hne hr.1).1,
    fun hm => hs.rest.2 ((List.dropWhile_suffix _).mem hm)⟩

/-- What is read behind blanks does not stand at the end of the first text. -/
theorem skipBlanks_carries {α : Type} {f : Unit → Rule α} (hf : NeedsText (f ())) (h : Carries more left Jam (f ())) :
    Carries more left Jam (skipBlanks >>= f) := by
  intro s t u a hs e
  obtain ⟨⟨⟩, w, hw, e⟩ := bind_matched e
  cases hw
  have hne : s.cursor.rest.dropWhile isBlank ≠ [] := fun hnil => hf ((rest_skipWhile s.cursor isBlank).trans hnil) e
  exact h (skipBlanks_continued hs hne) e

theorem bodyFollows_carries : Carries more left Jam bodyFollows := by
  refine .orElse_of_ne_matched (.holds fun {c d} h hc => ?_) nofun
  cases hr : c.rest with
  | nil => simp [current, hr] at hc
  | cons x rest => rwa [current, h.1, hr, List.cons_append, List.head?_cons, ← List.head?_cons (l := rest), ← hr]

/-- A source that is closed in the first text. -/
theorem loopSource_carries : Carries more left Jam loopSource := by
  refine .orElse_of_ne_matched (fun s t u a hs e => ?_) nofun
  match hn : sourceLength? 0 0 none s.cursor.rest with
  | none => rw [scan?_of_none (by rw [source?, hn]; rfl)] at e; cases e
  | some n =>
    have hlen := lt_length_of_sourceLength? hn
    have hn' : sourceLength? 0 0 none t.cursor.rest = some n := by
      rw [hs.rest.1]; exact sourceLength?_append_right hn _
    have htake : t.cursor.rest.take n = s.cursor.rest.take n := by
      rw [hs.rest.1, List.take_append_of_le_length (Nat.le_of_lt hlen)]
    have hsource : source? s.cursor = some (String.ofList (s.cursor.rest.take n), s.cursor.skip (n + 1)) := by
      rw [source?, hn]; rfl
    have hsource' : source? t.cursor = some (String.ofList (s.cursor.rest.take n), t.cursor.skip (n + 1)) := by
      rw [source?, hn', ← htake]; rfl
    rw [scan?_of_some hsource] at e; cases e
    exact .inl ⟨_, scan?_of_some hsource', (Continued.twin more left).move hlen hs⟩

/-! ## Chains -/

theorem chainLink_gains : Gains chainLink :=
  .attempt <| .after skipSpaces_alike fun _ => .after chainOperator_alike fun _ => .after skipBlanks_alike fun _ =>
    .after (skipSymbol_alike (by decide)) fun _ => .bind leaf_gains fun _ => Flat.orderly (.pure _) 0

theorem chainLink_carries : Carries more left Jam chainLink := by
  refine .attempt <| .after (flat_continued skipSpaces_alike) fun _ =>
    .after (flat_continued chainOperator_alike) fun _ => skipBlanks_carries (Gains.needsText ?_) ?_
  · exact .after (skipSymbol_alike (by decide)) fun _ => .bind leaf_gains fun _ => Flat.orderly (.pure _) 0
  · exact .after (flat_continued (skipSymbol_alike (by decide))) fun _ => .after leaf_continued fun _ => .pure _

/-- Where no other link is read, there is none in the second text either, or an operator is left over. -/
theorem chainLink_ends {s t u : State} (hs : s.Continued more left t) (e : chainLink s = (.unmatched, u)) :
    (∃ v, chainLink t = (.unmatched, v) ∧ u.Continued more left v) ∨ Jammed limit u := by
  have hc := (attempt_unmatched e).1
  by_cases h : Stops isChainChar (s.cursor.rest.dropWhile isSpace)
  · exact .inl (hs.of_runs (Flat.orderly chainLink_alike 0) e hc
      (chainLink_unmatched (hs.rest.stops_dropWhile rfl rfl h)))
  · rw [← hc] at h
    exact .inr (jammed_of_operator h)

theorem chain_carries : Carries more left (Jammed limit) chain := by
  refine .after leaf_continued fun first s t u a hs e => ?_
  obtain ⟨links, w, hr, rfl, hw⟩ := chainLink_gains.repeats_of_foldMany e
  have hlink : Carries more left (fun _ => False) chainLink := chainLink_carries
  obtain ⟨v, hv, k⟩ := (hlink.repeats False.elim hs hr).resolve_right id
  exact (chainLink_ends k hw).imp_left fun ⟨x, hx, k⟩ => ⟨x, hv.foldMany chainLink_gains hx _ _, k⟩

/-! ## Bodies -/

theorem body_needsText : NeedsText (body limit (statement limit)) := by
  have hgains : Gains (bodyStatements (statement limit)) := by
    refine .orElse (.bind statement_orderly fun _ => .pure _) ?_ ?_
    · exact .bind statement_gains fun _ => Flat.orderly (.pure _) 0
    · exact .attempt <| .bind (symbol_gains '(') fun _ => .insideBlock (blockStatements_orderly statement_orderly)
  exact body_eq limit _ ▸ .insideBody hgains.needsText

section Bodies

variable (h : Carries more left (Jammed limit) (statement limit))
include h

/-- A statement behind blanks, if the place is such that one may begin. -/
theorem item_carries {p : Cursor → Bool} (hlocal : LocalTest Eq p)
    (hp : ∀ {c d : Cursor}, Continues more d.rest c.rest → p c = true → p d = true) :
    Carries more left (Jammed limit) (do skipBlanks; .holds p; statement limit) := by
  refine skipBlanks_carries (Gains.needsText ?_) (.followedBy (.holds hp) fun _ => h)
  exact .after (.holds hlocal) fun _ => statement_gains

/-- Rounds of statements behind blanks. -/
theorem items_carry {p : Cursor → Bool} (hlocal : LocalTest Eq p)
    (hp : ∀ {c d : Cursor}, Continues more d.rest c.rest → p c = true → p d = true)
    {s t u : State} {statements : List Statement} (hs : s.Continued more left t)
    (hr : Repeats (do skipBlanks; .holds p; statement limit) s statements u) :
    (∃ v, Repeats (do skipBlanks; .holds p; statement limit) t statements v ∧ u.Continued more left v) ∨
      Jammed limit u := by
  refine (item_carries h hlocal hp).repeats (fun {w a x} hj e => ?_) hs hr
  obtain ⟨y, hy, -⟩ := hj.item_unmatched p
  rw [hy] at e; cases e

omit h in
/-- Before the parenthesis that closes a block there is no other statement. -/
theorem blockItem_unmatched {s : State} {rest : List Char} (hclose : s.cursor.rest.dropWhile isBlank = ')' :: rest) :
    blockItem (statement limit) s = (.unmatched, { s with cursor := s.cursor.skipWhile isBlank }) := by
  refine (skipBlanks_holds_apply _ _ s).trans (if_neg ?_)
  simp [current, hclose]

/-- The statements of a block end at its parenthesis, which is not the end of the first text. -/
theorem blockStatements_carries : Carries more left Jam (blockStatements (statement limit)) := by
  intro s t u a hs e
  obtain ⟨statements, w, hm, e⟩ := bind_matched e
  obtain ⟨⟨⟩, x, hx, e⟩ := bind_matched e
  cases e
  obtain ⟨rest, hw⟩ := exists_cons_of_symbol hx
  have hgains : Gains (blockItem (statement limit)) := item_gains (localTest_current_ne (by decide))
  obtain ⟨y, hr, hy⟩ := hgains.repeats_of_many hm
  have hclose : y.cursor.rest.dropWhile isBlank = ')' :: rest := by
    rw [← rest_skipWhile, ← (item_unmatched hy).1, hw]
  obtain ⟨v, hv, k⟩ | hj := items_carry h (localTest_current_ne (by decide))
    (fun hc hp => (localTest_current_ne (by decide) hc).trans hp) hs hr
  · cases (blockItem_unmatched hclose).symm.trans hy
    have k := skipBlanks_continued k (by rw [hclose]; exact List.cons_ne_nil _ _)
    have hclose' : v.cursor.rest.dropWhile isBlank = ')' :: (rest ++ '\n' :: '\n' :: more) := by
      rw [← rest_skipWhile, k.rest.1, rest_skipWhile, hclose]; rfl
    obtain ⟨z, hz, kz⟩ := (flat_continued (symbol_alike (by decide))).matched k hx
    have hmany := hv.many hgains (blockItem_unmatched hclose')
    exact .inl ⟨z, (bind_of_matched hmany _).trans (bind_of_matched hz _), kz⟩
  · -- where the reader is jammed no block is closed
    have hob := hj.obstructed
    rw [Obstructed, hclose] at hob
    exact absurd (hob.2 ')' rfl) (by decide)

theorem single_carries : Carries more left (Jammed limit) (do return [← statement limit]) :=
  h.bind (fun _ => .pure _) fun e hj => by cases e; exact hj

theorem block_carries : Carries more left Jam (block (statement limit)) :=
  .attempt <| .after (flat_continued (symbol_alike (by decide))) fun _ =>
    (Carries.insideBlock (blockStatements_carries h)).mono False.elim

/-- Where a block is read in the first run no single statement is read in the second one. -/
theorem bodyStatements_carries : Carries more left (Jammed limit) (bodyStatements (statement limit)) := by
  refine .orElse (single_carries h) (block_carries h) fun {s t w u a} hs e e' => ?_
  have hc : w.cursor = s.cursor := by
    obtain e | ⟨_, _, -, e⟩ := bind_unmatched e
    · rw [statement_eq] at e
      exact (attempt_unmatched e).1
    · cases e
  obtain ⟨⟨⟩, x, hx, -⟩ := bind_matched (attempt_matched.mp e')
  obtain ⟨rest, hopen⟩ := exists_cons_of_symbol hx
  refine hs.of_runs (.bind statement_orderly fun _ => .pure _) e hc ?_
  rw [hs.rest.1, ← hc, hopen]
  exact .bind_unmatched (statement_unmatched_of_open limit) _

theorem body_carries : Carries more left (Jammed limit) (body limit (statement limit)) :=
  body_eq limit _ ▸ .insideBody (bodyStatements_carries h) fun hj => hj.of_cursor_eq rfl rfl

theorem alternative_carries : Carries more left (Jammed limit) (alternative (body limit (statement limit))) := by
  refine .attempt <| skipBlanks_carries (NeedsText.bind (keyword_gains _).needsText _) ?_
  refine .after (flat_continued (keyword_alike _)) fun _ => .followedBy bodyFollows_carries fun _ => ?_
  exact skipBlanks_carries body_needsText (body_carries h)

/-- Where no alternative is read, there is none in the second text either, or an `ELSE` is left over. -/
theorem optional_carries (hmore : ¬ Keyword.elseWord.Begins (more.dropWhile isBlank)) :
    Carries more left (Jammed limit) (Rule.optional (alternative (body limit (statement limit)))) := by
  intro s t u o hs e
  obtain ⟨b, rfl, ha⟩ | ⟨rfl, ha⟩ := optional_matched e
  · exact (alternative_carries h hs ha).imp_left fun ⟨v, hv, k⟩ => ⟨v, optional_of_matched hv, k⟩
  · by_cases hb : Keyword.elseWord.Begins (s.cursor.rest.dropWhile isBlank)
    · exact .inr (jammed_of_refused ha hb)
    · have hno := hs.rest.not_beginsWithWord (by decide) (Bool.eq_false_iff.mpr hb) (Bool.eq_false_iff.mpr hmore)
      obtain ⟨v, hv, k⟩ := hs.of_runs alternative_orderly ha (attempt_unmatched ha).1
        (alternative_unmatched _ (Bool.eq_false_iff.mp hno))
      exact .inl ⟨v, optional_of_unmatched hv, k⟩

theorem branchBodies_carries (hmore : ¬ Keyword.elseWord.Begins (more.dropWhile isBlank)) (condition : Condition) :
    Carries more left (Jammed limit) (branchBodies (body limit (statement limit)) condition) := by
  refine (body_carries h).bind (fun _ => ?_) fun e hj => ?_
  · exact (optional_carries h hmore).bind (fun _ => .pure _) fun e hj => by cases e; exact hj
  · obtain ⟨o, x, ho, e⟩ := bind_matched e
    cases e
    exact (hj.optional ho).2

/-! ## Statements -/

theorem branch_carries (hmore : ¬ Keyword.elseWord.Begins (more.dropWhile isBlank)) :
    Carries more (left + 1) (Jammed limit) (branch (body limit (statement limit))) := by
  refine .attempt <| keyword_carries _ <| .after (flat_continued spaces_alike) fun _ =>
    .after condition_continued fun condition => skipBlanks_carries (.bind body_needsText _) ?_
  exact branchBodies_carries h hmore condition

theorem loop_carries : Carries more (left + 1) (Jammed limit) (loop (body limit (statement limit))) := by
  have hpercent : Flat (Continues more) (.step? (·.eatText? "%%") <|> .fail (.symbol "%%") : Rule Unit) :=
    .orElse (.step? (localStep_eatText?_of_notMem (by decide))) (.fail nofun)
  refine .attempt <| keyword_carries _ <| .after (flat_continued spaces_alike) fun _ =>
    .after (flat_continued (keyword_alike _)) fun _ => .after (flat_continued spaces_alike) fun _ =>
    .after (flat_continued (.optional loopOption_alike)) fun _ => .after (flat_continued hpercent) fun _ =>
    .after (flat_continued (.orElse (.scan? localScan_letter?) (.fail nofun))) fun _ =>
    .after (flat_continued spaces_alike) fun _ => .after (flat_continued (keyword_alike _)) fun _ =>
    .after (flat_continued skipSpaces_alike) fun _ => .after (flat_continued (symbol_alike (by decide))) fun _ =>
    .followedBy loopSource_carries fun _ => ?_
  refine .after (flat_continued skipSpaces_alike) fun _ => .after (flat_continued (keyword_alike _)) fun _ =>
    .followedBy bodyFollows_carries fun _ => skipBlanks_carries (.bind body_needsText _) ?_
  exact (body_carries h).bind (fun _ => .pure _) fun e hj => by cases e; exact hj

/-- Where a later choice is taken in the first run, none of the earlier ones is taken in the second one. -/
theorem choice_carries (hmore : ¬ Keyword.elseWord.Begins (more.dropWhile isBlank)) :
    Carries more (left + 1) (Jammed limit) (label <|> branch (body limit (statement limit)) <|>
      loop (body limit (statement limit)) <|> chain) := by
  have hkeyword : ∀ {s t : State} (k : Keyword), s.Continued more (left + 1) t → ¬ k.Begins s.cursor.rest →
      beginsWithWord k.text.toList t.cursor.rest = false := by
    intro s t k hs hk
    rw [Prolongs.beginsWithWord hs.rest (by cases k <;> decide)]
    exact Bool.eq_false_iff.mpr hk
  have hlabel : Lockstep False (Continued more (left + 1)) label label := flat_continued label_alike
  refine .orElse (.of_lockstep hlabel) (.orElse (branch_carries h hmore) (.orElse (loop_carries h) chain_carries ?_) ?_)
    fun hs e _ => hlabel.unmatched hs e
  · intro s t w u a hs e e'
    have hc := (attempt_unmatched e).1
    have hk := hkeyword .forWord hs fun hk => not_chain (hc ▸ hk) (by decide) e'
    exact hs.of_runs loop_orderly e hc (loop_unmatched _ hk)
  · intro s t w u a hs e e'
    have hc := (attempt_unmatched e).1
    have hk := hkeyword .ifWord hs fun hk => not_loop_or_chain (hc ▸ hk) (by decide) (by decide) e'
    exact hs.of_runs branch_orderly e hc (branch_unmatched _ hk)

end Bodies

/-- A statement is read alike if the text goes on, unless the reader is jammed behind it. -/
theorem statement_carries (hmore : ¬ Keyword.elseWord.Begins (more.dropWhile isBlank)) (left : Nat) :
    Carries more left (Jammed limit) (statement limit) := by
  -- a body stands behind a keyword, so there is less to read for the statements in it
  induction left with
  | zero => exact fun s t u a hs => absurd hs.left_lt (Nat.not_lt_zero _)
  | succ left ih =>
    have hw : Carries more (left + 1) (Jammed limit) (statementWith limit (statement limit)) :=
      .attempt <| .after (flat_continued (skipSymbol_alike (by decide))) fun _ => choice_carries ih hmore
    rwa [← statement_eq] at hw

end BatchScript.Grammar
