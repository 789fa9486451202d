import BatchScript.Proofs.RoundTrip.Bodies
import BatchScript.Proofs.RoundTrip.Chains
import BatchScript.Proofs.RoundTrip.Conditions

/-!
# Statements that are read back

Every statement that can be written at its place is read back there
(`Statement.readsBack`), by an induction on its tree: each kind of statement is read back if
the statements inside it are.
-/

namespace BatchScript

open Text

namespace Grammar

open Cursor Rule

variable {d b limit : Nat} {rest : List Char} {statements : List Statement}

/-! ## Branches -/

/-- A branch with any condition that is read in front of its body. -/
theorem branch_runs_of_body {r : Rule (List Statement)} {c : Condition} {text i j : List Char}
    {o : Option (List Statement)} (hs : Stops isSpace text)
    (hcondition : Runs condition d b text (.matched c) (' ' :: i)) (hi : Stops isBlank i)
    (hthen : Runs r d b i (.matched statements) j)
    (helse : Runs (Rule.optional (alternative r)) d b j (.matched o) rest) :
    Runs (branch r) d b (['i', 'f'] ++ ' ' :: text) (.matched (.branch c statements o)) rest := by
  refine .attempt (.bind (keyword_runs rfl) (.bind (spaces_runs hs) (.bind hcondition ?_)))
  exact .bind (skipBlank_runs hi) (.bind hthen (.bind helse (.pure _)))

/-- A branch with any condition that is read in front of a block. -/
theorem branch_runs_of_condition {r : Rule (List Statement)} {c : Condition} {text i j : List Char}
    {o : Option (List Statement)} (hs : Stops isSpace text)
    (hcondition : Runs condition d b text (.matched c) (' ' :: '(' :: i))
    (hthen : Runs r d b ('(' :: i) (.matched statements) j)
    (helse : Runs (Rule.optional (alternative r)) d b j (.matched o) rest) :
    Runs (branch r) d b (['i', 'f'] ++ ' ' :: text) (.matched (.branch c statements o)) rest :=
  branch_runs_of_body hs hcondition (stops_cons.mpr (by decide)) hthen helse

theorem branch_runs {r : Rule (List Statement)} {c : Condition} {i : List Char} {o : Option (List Statement)}
    (hw : c.WellFormed) (hp : c.Plain) (hl : ¬ c.LooksNegated) {j : List Char}
    (hthen : Runs r d b ('(' :: '\n' :: i) (.matched statements) j)
    (helse : Runs (Rule.optional (alternative r)) d b j (.matched o) rest) :
    Runs (branch r) d b (['i', 'f'] ++ ' ' :: (c.script.toList ++ ' ' :: '(' :: '\n' :: i))
      (.matched (.branch c statements o)) rest := by
  refine branch_runs_of_condition (fun x hx => ?_) (condition_runs hw hp hl) hthen helse
  exact not_isSpace_of_not_isBlank (stops_isBlank_script hw x hx)

/-! ## Loops -/

theorem optionalLoopOption_runs {option : Option String} (h : ∀ t ∈ option, '"' ∉ t.toList) :
    Runs (Rule.optional loopOption) d b ((optionScript option).toList ++ '%' :: rest) (.matched option)
      ('%' :: rest) := by
  cases option with
  | none =>
    refine .optional_unmatched (.attempt_unmatched (.bind_unmatched (.scan?_unmatched fun c hc => ?_) _))
    refine quoted?_eq_none fun k hk => ?_
    have hc : c.rest = '%' :: rest := hc
    rw [hc] at hk
    cases hk
  | some t =>
    have ht : (optionScript (some t)).toList ++ '%' :: rest = '"' :: (t.toList ++ '"' :: ' ' :: '%' :: rest) := by
      simp [optionScript, quoted]
    rw [ht]
    exact .optional (.attempt (.bind (quoted_runs (h t rfl)) (.bind (spaces_runs (stops_cons.mpr (by decide))) (.pure t))))

theorem loopSource_runs {source : String} (h : Balanced source.toList) :
    Runs loopSource d b (source.toList ++ ')' :: rest) (.matched source) rest := by
  refine .orElse_matched (.scan? fun c hc => ⟨c.skip (source.toList.length + 1), ?_, ?_⟩) _
  · rw [source?, hc, sourceLength?_of_balanced h, Option.map_some, List.take_left, String.ofList_toList]
  · rw [rest_skip, hc, ← List.drop_drop, List.drop_left]; rfl

theorem stops_isSpace_optionScript (option : Option String) :
    Stops isSpace ((optionScript option).toList ++ '%' :: rest) := by
  cases option with
  | none => exact stops_cons.mpr (by decide)
  | some t => simp only [optionScript, quoted, String.toList_append]; exact stops_cons.mpr (by decide)

theorem percents_runs : Runs (.step? (·.eatText? "%%")) d b ('%' :: '%' :: rest) (.matched ()) rest := by
  refine .step? fun c hc => ?_
  have hc : c.rest = "%%".toList ++ rest := hc
  exact eatText?_append hc

theorem letter_runs {x : Char} (hx : isLetter x = true) :
    Runs (.scan? letter?) d b (x :: rest) (.matched x) rest := by
  refine .scan? fun c hc => ⟨c.next, ?_, by rw [rest_next, hc]; rfl⟩
  rw [letter?, current, hc, List.head?_cons, Option.filter_some, if_pos hx, Option.map_some]

theorem loop_runs {r : Rule (List Statement)} {option : Option String} {loopVar : Char} {source : String}
    {i : List Char} (ho : ∀ t ∈ option, '"' ∉ t.toList) (hv : isLetter loopVar = true)
    (hs : Balanced source.toList) (hbody : Runs r d b ('(' :: i) (.matched statements) rest) :
    Runs (loop r) d b (['f', 'o', 'r'] ++ ' ' :: (['/', 'f'] ++ ' ' :: ((optionScript option).toList ++
      '%' :: '%' :: loopVar :: ' ' :: (['i', 'n'] ++ ' ' :: '(' :: (source.toList ++ ')' :: ' ' ::
        (['d', 'o'] ++ ' ' :: '(' :: i))))))
      (.matched (.loop option loopVar source statements)) rest := by
  refine .attempt (.bind (keyword_runs rfl) (.bind (spaces_runs (stops_cons.mpr (by decide))) ?_))
  refine .bind (keyword_runs rfl) (.bind (spaces_runs (stops_isSpace_optionScript option)) ?_)
  refine .bind (optionalLoopOption_runs ho) (.bind (.orElse_matched percents_runs _) ?_)
  refine .bind (.orElse_matched (letter_runs hv) _) ?_
  refine .bind (spaces_runs (stops_cons.mpr (by decide))) (.bind (keyword_runs rfl) ?_)
  refine .bind (skipSpaces_runs (stops_cons.mpr (by decide))) (.bind (symbol_runs '(') ?_)
  refine .bind (loopSource_runs hs) (.bind (skipSpaces_runs (stops_cons.mpr (by decide))) ?_)
  refine .bind (keyword_runs rfl) (.bind bodyFollows_runs ?_)
  exact .bind (skipBlank_runs (stops_cons.mpr (by decide))) (.bind hbody (.pure _))

/-! ## Statements -/

/-- A statement that begins with a keyword is no label. -/
theorem statement_runs_of_keyword {k : Keyword} {s : Statement} {i : List Char} (hk : k.Begins i) (marked : Bool)
    (h : Runs (branch (body limit (statement limit)) <|> loop (body limit (statement limit)) <|> chain) d b i
      (.matched s) rest) : Runs (statement limit) d b ((atSign marked).toList ++ i) (.matched s) rest := by
  have hcolon : Stops (· == ':') i := Keyword.stops_of_begins hk (by simp) (by cases k <;> decide)
  rw [statement_eq]
  exact .attempt (.bind (skipAtSign_runs marked fun _ => hk.stops_at) (.orElse (label_unmatched hcolon) h))

theorem statement_runs_of_begins {k : Keyword} {s : Statement} {i : List Char} (hk : k.Begins i)
    (h : Runs (branch (body limit (statement limit)) <|> loop (body limit (statement limit)) <|> chain) d b i
      (.matched s) rest) : Runs (statement limit) d b i (.matched s) rest :=
  statement_runs_of_keyword hk false h

/-- A statement that begins with the keyword of a leaf is a chain. -/
theorem statement_runs_of_chain {k : Keyword} {s : Statement} {i : List Char} (hk : k ∈ leafKeywords)
    (hb : k.Begins i) (marked : Bool) (h : Runs chain d b i (.matched s) rest) :
    Runs (statement limit) d b ((atSign marked).toList ++ i) (.matched s) rest := by
  obtain ⟨hbranch, hloop⟩ := branch_and_loop_unmatched (d := d) (b := b) hk hb (body limit (statement limit))
  exact statement_runs_of_keyword hb marked (.orElse hbranch (.orElse hloop h))

end Grammar

namespace Statement

open Grammar Rule

variable {limit : Nat}

theorem readsBack_label (name : String) : (label name).ReadsBack limit := by
  intro d b rest hc _ _
  have hw : IsName name := hc.wellFormed _ (self_mem_nodes _)
  have ht : (label name).script.toList ++ '\n' :: '\n' :: rest =
      ':' :: (name.toList ++ '\n' :: '\n' :: rest) := by
    simp [Statement.script]
  have hlabel : Runs Grammar.label d b (':' :: (name.toList ++ '\n' :: '\n' :: rest)) (.matched (.label name))
      ('\n' :: '\n' :: rest) :=
    .attempt (.bind (symbol_runs ':') (.bind (identifier_runs hw (stops_cons.mpr (by decide +kernel))) (.pure _)))
  rw [ht, statement_eq]
  exact .attempt (.bind (skipSymbol_of_stops (stops_cons.mpr (by decide))) (.orElse_matched hlabel _))

theorem readsBack_of_isLeaf_or_isChain {s : Statement} (hs : s.isLeaf = true ∨ s.isChain = true) :
    s.ReadsBack limit := by
  intro d b rest hc _ _
  obtain ⟨k, hk, hb⟩ := exists_begins_script ('\n' :: '\n' :: rest) s hs hc.wellChained
  exact statement_runs_of_chain hk hb false (chain_runs hs hc.wellFormed hc.wellChained hc.plain)

theorem optionalAlternative_runs {elseBody : Option (List Statement)} {d b : Nat} {rest : List Char}
    (hs : ∀ o ∈ elseBody, ∀ s ∈ o, s.ReadsBack limit) (hc : ∀ o ∈ elseBody, ∀ s ∈ o, s.Canonical true)
    (hd : d + 1 + elseNest elseBody ≤ limit) (hr : Separated rest) :
    Runs (Rule.optional (alternative (body limit (statement limit)))) d b
      ((elseScript elseBody).toList ++ '\n' :: '\n' :: rest) (.matched elseBody) ('\n' :: '\n' :: rest) := by
  cases elseBody with
  | none => exact .optional_unmatched (alternative_unmatched_of_separated _ hr)
  | some statements =>
    rw [toList_elseScript]
    exact .optional (alternative_runs (body_runs (hs statements rfl) (hc statements rfl) hd))

theorem toList_script_branch {c : Condition} {thenBody : List Statement} {elseBody : Option (List Statement)}
    {rest : List Char} : (branch c thenBody elseBody).script.toList ++ rest =
      ['i', 'f'] ++ ' ' :: (c.script.toList ++ ' ' :: '(' :: '\n' :: ((bodyScript thenBody).toList ++
        ')' :: ((elseScript elseBody).toList ++ rest))) := by
  simp [Statement.script]

theorem readsBack_branch {c : Condition} {thenBody : List Statement} {elseBody : Option (List Statement)}
    (hthen : ∀ s ∈ thenBody, s.ReadsBack limit) (helse : ∀ o ∈ elseBody, ∀ s ∈ o, s.ReadsBack limit) :
    (branch c thenBody elseBody).ReadsBack limit := by
  intro d b rest hc hd hsep
  obtain ⟨hp, hl, hpt, hpe⟩ := hc.plain
  have hw := hc.wellFormed
  have hch := hc.wellChained
  simp only [nodes, List.forall_mem_cons, List.forall_mem_append] at hw hch
  simp only [nest] at hd
  have hcanon : ∀ o ∈ elseBody, ∀ s ∈ o, s.Canonical true := by
    cases elseBody with
    | none => simp
    | some statements => simpa using canonical_of_body hw.2.2 hch.2.2 hpe
  have hbody := optionalAlternative_runs (d := d) (b := b) helse hcanon (by omega) hsep
  have hif : IsKeyword .ifWord ['i', 'f'] := rfl
  rw [toList_script_branch]
  refine statement_runs_of_begins (hif.begins _) (.orElse_matched ?_ _)
  exact branch_runs hw.1 hp hl (body_runs hthen (canonical_of_body hw.2.1 hch.2.1 hpt) (by omega)) hbody

theorem toList_script_loop {option : Option String} {loopVar : Char} {source : String}
    {statements : List Statement} {rest : List Char} :
    (loop option loopVar source statements).script.toList ++ rest =
      ['f', 'o', 'r'] ++ ' ' :: (['/', 'f'] ++ ' ' :: ((optionScript option).toList ++
        '%' :: '%' :: loopVar :: ' ' :: (['i', 'n'] ++ ' ' :: '(' :: (source.toList ++ ')' :: ' ' ::
          (['d', 'o'] ++ ' ' :: '(' :: '\n' :: ((bodyScript statements).toList ++ ')' :: rest)))))) := by
  simp [Statement.script]

theorem readsBack_loop {option : Option String} {loopVar : Char} {source : String} {statements : List Statement}
    (hbody : ∀ s ∈ statements, s.ReadsBack limit) :
    (loop option loopVar source statements).ReadsBack limit := by
  intro d b rest hc hd hsep
  obtain ⟨ho, hv, hs⟩ : (loop option loopVar source statements).WellFormed := hc.wellFormed _ (self_mem_nodes _)
  have hw := hc.wellFormed
  have hch := hc.wellChained
  simp only [nodes, List.forall_mem_cons] at hw hch
  simp only [nest] at hd
  have hfor : IsKeyword .forWord ['f', 'o', 'r'] := rfl
  rw [toList_script_loop]
  refine statement_runs_of_begins (hfor.begins _) (.orElse (branch_unmatched _ ?_) ?_)
  · exact (hfor.begins _).beginsWithWord_of_ne (by decide)
  refine .orElse_matched (loop_runs ho hv hs ?_) _
  exact body_runs hbody (canonical_of_body hw.2 hch.2 hc.plain) (by omega)

mutual

theorem readsBack : (s : Statement) → s.ReadsBack limit
  | .leaf _ => readsBack_of_isLeaf_or_isChain (.inl rfl)
  | .label name => readsBack_label name
  | .branch _ thenBody elseBody => readsBack_branch (bodyReadsBack thenBody) (elseReadsBack elseBody)
  | .loop _ _ _ statements => readsBack_loop (bodyReadsBack statements)
  | .chain _ _ _ => readsBack_of_isLeaf_or_isChain (.inr rfl)

theorem bodyReadsBack : (statements : List Statement) → ∀ s ∈ statements, s.ReadsBack limit
  | [] => by simp
  | statement :: others => List.forall_mem_cons.mpr ⟨statement.readsBack, bodyReadsBack others⟩

theorem elseReadsBack : (elseBody : Option (List Statement)) → ∀ o ∈ elseBody, ∀ s ∈ o, s.ReadsBack limit
  | none => by simp
  | some statements => by simpa using bodyReadsBack statements

end

end Statement

end BatchScript
