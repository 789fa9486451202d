import BatchScript.Proofs.Grammar.Jammed
import BatchScript.Proofs.Grammar.Shape
import BatchScript.Proofs.Necessity.Conditions
import BatchScript.Proofs.RoundTrip.Statements

/-!
# Statements that have to be plain

A statement that is what its own script is read as is plain (`Statement.plainWhereRead`), by
an induction on its tree. Its parts are read from the left to the right; each of them is plain, so that it
is read back, and the next one stands where it ends.
-/

namespace BatchScript

open Text Grammar Rule

/-- A statement that is plain wherever it is what its own script is read as. -/
def Statement.PlainWhereRead (limit : Nat) (s : Statement) : Prop :=
  ∀ {d b : Nat} {rest : List Char} {st t : State}, (∀ n ∈ s.nodes, n.WellFormed) →
    (∀ n ∈ s.nodes, n.WellChained) → d + s.nest ≤ limit →
    st.At d b (s.script.toList ++ '\n' :: '\n' :: rest) → statement limit st = (.matched s, t) →
    s.Plain (decide (0 < b))

namespace Grammar

variable {d b limit : Nat} {rest : List Char} {statements : List Statement} {st t : State}

/-! ## Chains -/

/-- The links of a chain as they are written. -/
def linksScript (links : List (ChainOperator × Leaf)) : List Char :=
  links.flatMap fun (op, l) => op.text.toList ++ l.script.toList

theorem toList_script_foldl (links : List (ChainOperator × Leaf)) (left : Statement) :
    (links.foldl (fun left (op, l) => Statement.chain left op (.leaf l)) left).script.toList =
      left.script.toList ++ linksScript links := by
  induction links generalizing left with
  | nil => simp [linksScript]
  | cons link links ih =>
    rw [List.foldl_cons, ih]
    simp [linksScript, Statement.script]

theorem plain_foldl {inBlock : Bool} {links : List (ChainOperator × Leaf)} {left : Statement}
    (hl : left.Plain inBlock) (h : ∀ x ∈ links, x.2.Plain inBlock) :
    (links.foldl (fun left (op, l) => Statement.chain left op (.leaf l)) left).Plain inBlock := by
  induction links generalizing left with
  | nil => exact hl
  | cons link links ih =>
    obtain ⟨hx, h⟩ := List.forall_mem_cons.mp h
    exact ih ⟨hl, hx⟩ h

/-- A leaf and the links behind it, each of which ends with a leaf. -/
theorem links_plain {links : List (ChainOperator × Leaf)} {l : Leaf}
    (hs : st.At d b (l.script.toList ++ (linksScript links ++ '\n' :: '\n' :: rest)))
    (e : leaf st = (.matched l, t)) {u : State} (h : Repeats chainLink t links u) :
    l.Plain (decide (0 < b)) ∧ ∀ x ∈ links, x.2.Plain (decide (0 < b)) := by
  have hw : l.WellFormed := leaf_yields trivial e
  have hp := leaf_plain hw hs e
  induction links generalizing l st t with
  | nil => exact ⟨hp, by simp⟩
  | cons link links ih =>
    obtain ⟨op, r⟩ := link
    refine ⟨hp, ?_⟩
    cases h with
    | cons elink h =>
      have hline : l.takesLine = true → ∃ k, op.text.toList ++ (r.script.toList ++
          (linksScript links ++ '\n' :: '\n' :: rest)) = '\n' :: '\n' :: k :=
        fun ht => (not_chainLink (leaf_ensures trivial e ht) elink).elim
      have ht : l.script.toList ++ (linksScript ((op, r) :: links) ++ '\n' :: '\n' :: rest) =
          l.script.toList ++ (op.text.toList ++ (r.script.toList ++ (linksScript links ++ '\n' :: '\n' :: rest))) := by
        simp [linksScript]
      rw [ht] at hs
      have hs := (hs.outcome e (leaf_runs hw hp ((endsLeaf_operator op).ends hline))).2
      have hspace : Stops isSpace (op.text.toList ++ (r.script.toList ++
          (linksScript links ++ '\n' :: '\n' :: rest))) := by
        cases op <;> exact stops_cons.mpr (by decide)
      have hb := r.begins_script (linksScript links ++ '\n' :: '\n' :: rest)
      obtain ⟨_, hs, elink⟩ := hs.behind (attempt_matched.mp elink) (skipSpaces_of_stops hspace)
      obtain ⟨_, hs, elink⟩ := hs.behind elink (chainOperator_runs op hb.stops_isChainChar)
      obtain ⟨_, hs, elink⟩ := hs.behind elink (skipBlanks_of_stops (Keyword.stops_isBlank_of_begins hb))
      obtain ⟨_, hs, elink⟩ := hs.behind elink (skipSymbol_of_stops hb.stops_at)
      obtain ⟨_, _, eleaf, elink⟩ := bind_matched elink
      cases elink
      have hwr : r.WellFormed := leaf_yields trivial eleaf
      obtain ⟨hpr, hlinks⟩ := ih hs eleaf h hwr (leaf_plain hwr hs eleaf)
      exact List.forall_mem_cons.mpr ⟨hpr, hlinks⟩

theorem chain_plain {s : Statement} (hs : st.At d b (s.script.toList ++ '\n' :: '\n' :: rest))
    (e : chain st = (.matched s, t)) : s.Plain (decide (0 < b)) := by
  obtain ⟨first, _, eleaf, e⟩ := bind_matched e
  obtain ⟨links, _, h, rfl, -⟩ := repeats_of_foldMany e
  rw [toList_script_foldl, List.append_assoc] at hs
  obtain ⟨hp, hlinks⟩ := links_plain hs eleaf h
  exact plain_foldl hp hlinks

/-! ## Bodies -/

theorem items_plain {inBlock : Bool} {p : Cursor → Bool} {r : Rule Statement} {stop : List Char}
    (hstop : Separated stop) (hopen : ∀ c, OpensStatement c.rest → p c = true)
    (hp : ∀ s ∈ statements, ∀ {k st t}, st.At d b (s.script.toList ++ '\n' :: '\n' :: k) →
      r st = (.matched s, t) → s.Plain inBlock)
    (hr : ∀ s ∈ statements, s.Plain inBlock → ∀ k, Separated k →
      Runs r d b (s.script.toList ++ '\n' :: '\n' :: k) (.matched s) ('\n' :: '\n' :: k))
    {u : State} (h : Repeats (do skipBlanks; .holds p; r) st statements u) (blanks : List Char)
    (hb : ∀ x ∈ blanks, isBlank x = true)
    (hs : st.At d b (blanks ++ ((bodyScript statements).toList ++ stop))) : BodyPlain inBlock statements := by
  induction statements generalizing st blanks with
  | nil => trivial
  | cons s others ih =>
    cases h with
    | cons e h =>
      have hopens := s.opens_script ('\n' :: '\n' :: ((bodyScript others).toList ++ stop))
      rw [toList_bodyScript_cons] at hs
      obtain ⟨_, hs, e⟩ := hs.behind e (skipBlanks_runs hb hopens.stops_isBlank)
      obtain ⟨_, hs, e⟩ := hs.behind e (.holds fun c hc => hopen c (hc ▸ hopens))
      have hps := hp s List.mem_cons_self hs e
      have hs := (hs.outcome e (hr s List.mem_cons_self hps _ (separated_bodyScript hstop others))).2
      exact ⟨hps, ih (fun q hq => hp q (List.mem_cons_of_mem _ hq)) (fun q hq => hr q (List.mem_cons_of_mem _ hq))
        h ['\n', '\n'] (by decide) hs⟩

theorem body_plain (hs : ∀ s ∈ statements, s.PlainWhereRead limit) (hw : ∀ n ∈ bodyNodes statements, n.WellFormed)
    (hc : ∀ n ∈ bodyNodes statements, n.WellChained) (hd : d + 1 + bodyNest statements ≤ limit)
    (hst : st.At d b ('(' :: '\n' :: ((bodyScript statements).toList ++ ')' :: rest)))
    (e : body limit (statement limit) st = (.matched statements, t)) : BodyPlain true statements := by
  have hin : decide (0 < b + 1) = true := decide_eq_true (Nat.succ_pos b)
  obtain ⟨-, _, e, -⟩ := insideBody_matched e
  have hst : State.At { st with depth := st.depth + 1 } (d + 1) b _ := ⟨hst.rest, by rw [hst.depth], hst.blockDepth⟩
  obtain ⟨_, hst, e⟩ := hst.otherwise e (.bind_unmatched (statement_unmatched_of_open limit) _)
  obtain ⟨u, hst, e⟩ := hst.behind (attempt_matched.mp e) (symbol_runs '(')
  obtain ⟨_, e, -⟩ := insideBlock_cases e
  have hst : State.At { u with blockDepth := u.blockDepth + 1 } (d + 1) (b + 1) _ :=
    ⟨hst.rest, hst.depth, by rw [hst.blockDepth]⟩
  obtain ⟨_, _, hitems, e⟩ := bind_matched e
  obtain ⟨_, _, -, e⟩ := bind_matched e
  cases e
  have hstop : Separated (')' :: rest) := ⟨stops_cons.mpr (by decide), fun h => by cases h⟩
  have hwell : ∀ s ∈ statements, (∀ n ∈ s.nodes, n.WellFormed) ∧ ∀ n ∈ s.nodes, n.WellChained := fun s hm =>
    ⟨fun n hn => hw n (mem_bodyNodes.mpr ⟨s, hm, hn⟩), fun n hn => hc n (mem_bodyNodes.mpr ⟨s, hm, hn⟩)⟩
  obtain ⟨_, hrepeats, -⟩ := repeats_of_many hitems
  refine items_plain hstop notCloses_of_opens (fun s hm k st t hst e => ?_) (fun s hm hp k hk => ?_)
    hrepeats ['\n'] (by decide) hst
  · have := nest_le_bodyNest hm
    exact hin ▸ hs s hm (hwell s hm).1 (hwell s hm).2 (by omega) hst e
  · have := nest_le_bodyNest hm
    exact s.readsBack ⟨(hwell s hm).1, (hwell s hm).2, hin ▸ hp⟩ (by omega) hk

/-! ## Branches and loops -/

/-- Where a keyword begins, what is read as a statement is no label. -/
theorem statement_behind_label {k : Keyword} {s : Statement} {i : List Char} (hk : k.Begins i) (hst : st.At d b i)
    (e : statement limit st = (.matched s, t)) : ∃ u, u.At d b i ∧
      (branch (body limit (statement limit)) <|> loop (body limit (statement limit)) <|> chain) u =
        (.matched s, t) := by
  have hcolon : Stops (· == ':') i := Keyword.stops_of_begins hk (by simp) (by cases k <;> decide)
  rw [statement_eq] at e
  obtain ⟨_, hst, e⟩ := hst.behind (attempt_matched.mp e) (skipSymbol_of_stops hk.stops_at)
  exact hst.otherwise e (label_unmatched hcolon)

theorem alternative_plain {elseBody : List Statement} (hs : ∀ s ∈ elseBody, s.PlainWhereRead limit)
    (hw : ∀ n ∈ bodyNodes elseBody, n.WellFormed) (hc : ∀ n ∈ bodyNodes elseBody, n.WellChained)
    (hd : d + 1 + bodyNest elseBody ≤ limit)
    (hst : st.At d b ((elseScript (some elseBody)).toList ++ rest))
    (e : alternative (body limit (statement limit)) st = (.matched elseBody, t)) : BodyPlain true elseBody := by
  rw [toList_elseScript] at hst
  obtain ⟨_, hst, e⟩ := hst.behind (attempt_matched.mp e) (skipBlank_runs (stops_cons.mpr (by decide)))
  obtain ⟨_, hst, e⟩ := hst.behind e (keyword_runs rfl)
  obtain ⟨_, hst, e⟩ := hst.behind e bodyFollows_runs
  obtain ⟨_, hst, e⟩ := hst.behind e (skipBlank_runs (stops_cons.mpr (by decide)))
  exact body_plain hs hw hc hd hst e

end Grammar

namespace Statement

variable {limit : Nat}

theorem plainWhereRead_of_isLeaf_or_isChain {s : Statement} (hs : s.isLeaf = true ∨ s.isChain = true) :
    s.PlainWhereRead limit := by
  intro d b rest st t _ hc _ hst e
  obtain ⟨k, hk, hb⟩ := exists_begins_script ('\n' :: '\n' :: rest) s hs hc
  obtain ⟨hbranch, hloop⟩ := branch_and_loop_unmatched (d := d) (b := b) hk hb (body limit (statement limit))
  obtain ⟨_, hst, e⟩ := statement_behind_label hb hst e
  obtain ⟨_, hst, e⟩ := hst.otherwise e hbranch
  obtain ⟨_, hst, e⟩ := hst.otherwise e hloop
  exact chain_plain hst e

theorem plainWhereRead_branch {c : Condition} {thenBody : List Statement} {elseBody : Option (List Statement)}
    (hthen : ∀ s ∈ thenBody, s.PlainWhereRead limit) (helse : ∀ o ∈ elseBody, ∀ s ∈ o, s.PlainWhereRead limit) :
    (branch c thenBody elseBody).PlainWhereRead limit := by
  intro d b rest st t hw hc hd hst e
  have hif : IsKeyword .ifWord ['i', 'f'] := rfl
  simp only [nodes, List.forall_mem_cons, List.forall_mem_append] at hw hc
  simp only [nest] at hd
  rw [toList_script_branch] at hst
  obtain ⟨_, hst, e⟩ := statement_behind_label (hif.begins _) hst e
  obtain e | ⟨u, hu, e⟩ := orElse_matched e
  · have hspace : Stops isSpace (c.script.toList ++ ' ' :: '(' :: '\n' :: ((bodyScript thenBody).toList ++
        ')' :: ((elseScript elseBody).toList ++ '\n' :: '\n' :: rest))) := fun x hx =>
      not_isSpace_of_not_isBlank (stops_isBlank_script hw.1 x hx)
    obtain ⟨_, hst, e⟩ := hst.behind (attempt_matched.mp e) (keyword_runs rfl)
    obtain ⟨_, hst, e⟩ := hst.behind e (spaces_runs hspace)
    obtain ⟨_, _, econdition, e⟩ := bind_matched e
    obtain ⟨_, _, eblank, e⟩ := bind_matched e
    obtain ⟨_, _, ethen, e⟩ := bind_matched e
    obtain ⟨_, _, eelse, e⟩ := bind_matched e
    cases e
    obtain ⟨hp, hl⟩ := condition_plain hw.1 hst econdition
    have hst := (hst.outcome econdition (condition_runs hw.1 hp hl)).2
    have hst := (hst.outcome eblank (skipBlank_runs (stops_cons.mpr (by decide)))).2
    have hpthen := body_plain hthen hw.2.1 hc.2.1 (by omega) hst ethen
    have hcanon := canonical_of_body hw.2.1 hc.2.1 hpthen
    have hst := (hst.outcome ethen (body_runs (bodyReadsBack thenBody) hcanon (by omega))).2
    refine ⟨hp, hl, hpthen, ?_⟩
    cases elseBody with
    | none => trivial
    | some elseBody =>
      simp only [elseNest] at hd
      obtain ⟨_, ho, eelse⟩ | ⟨ho, -⟩ := optional_matched eelse
      · cases ho
        exact alternative_plain (helse elseBody rfl) hw.2.2 hc.2.2 (by omega) hst eelse
      · cases ho
  · have hu := (attempt_unmatched hu).1
    have hb : Keyword.ifWord.Begins u.cursor.rest := by rw [hu, hst.rest]; exact hif.begins _
    exact absurd e (not_loop_or_chain hb (by decide) (by decide))

theorem plainWhereRead_loop {option : Option String} {loopVar : Char} {source : String}
    {statements : List Statement} (hbody : ∀ s ∈ statements, s.PlainWhereRead limit) :
    (loop option loopVar source statements).PlainWhereRead limit := by
  intro d b rest st t hw hc hd hst e
  have hfor : IsKeyword .forWord ['f', 'o', 'r'] := rfl
  simp only [nodes, List.forall_mem_cons] at hw hc
  simp only [nest] at hd
  obtain ⟨⟨ho, hv, hsource⟩, hw⟩ := hw
  rw [toList_script_loop] at hst
  obtain ⟨_, hst, e⟩ := statement_behind_label (hfor.begins _) hst e
  obtain ⟨_, hst, e⟩ := hst.otherwise e (branch_unmatched _ ((hfor.begins _).beginsWithWord_of_ne (by decide)))
  obtain e | ⟨u, hu, e⟩ := orElse_matched e
  · obtain ⟨_, hst, e⟩ := hst.behind (attempt_matched.mp e) (keyword_runs rfl)
    obtain ⟨_, hst, e⟩ := hst.behind e (spaces_runs (stops_cons.mpr (by decide)))
    obtain ⟨_, hst, e⟩ := hst.behind e (keyword_runs rfl)
    obtain ⟨_, hst, e⟩ := hst.behind e (spaces_runs (stops_isSpace_optionScript option))
    obtain ⟨_, hst, e⟩ := hst.behind e (optionalLoopOption_runs ho)
    obtain ⟨_, hst, e⟩ := hst.behind e (.orElse_matched percents_runs _)
    obtain ⟨_, hst, e⟩ := hst.behind e (.orElse_matched (letter_runs hv) _)
    obtain ⟨_, hst, e⟩ := hst.behind e (spaces_runs (stops_cons.mpr (by decide)))
    obtain ⟨_, hst, e⟩ := hst.behind e (keyword_runs rfl)
    obtain ⟨_, hst, e⟩ := hst.behind e (skipSpaces_runs (stops_cons.mpr (by decide)))
    obtain ⟨_, hst, e⟩ := hst.behind e (symbol_runs '(')
    obtain ⟨_, hst, e⟩ := hst.behind e (loopSource_runs hsource)
    obtain ⟨_, hst, e⟩ := hst.behind e (skipSpaces_runs (stops_cons.mpr (by decide)))
    obtain ⟨_, hst, e⟩ := hst.behind e (keyword_runs rfl)
    obtain ⟨_, hst, e⟩ := hst.behind e bodyFollows_runs
    obtain ⟨_, hst, e⟩ := hst.behind e (skipBlank_runs (stops_cons.mpr (by decide)))
    obtain ⟨_, _, ebody, e⟩ := bind_matched e
    cases e
    exact body_plain hbody hw hc.2 (by omega) hst ebody
  · have hu := (attempt_unmatched hu).1
    have hb : Keyword.forWord.Begins u.cursor.rest := by rw [hu, hst.rest]; exact hfor.begins _
    exact absurd e (not_chain hb (by decide))

mutual

theorem plainWhereRead : (s : Statement) → s.PlainWhereRead limit
  | .leaf _ => plainWhereRead_of_isLeaf_or_isChain (.inl rfl)
  | .label _ => fun _ _ _ _ _ => trivial
  | .branch _ thenBody elseBody => plainWhereRead_branch (bodyPlainWhereRead thenBody) (elsePlainWhereRead elseBody)
  | .loop _ _ _ statements => plainWhereRead_loop (bodyPlainWhereRead statements)
  | .chain _ _ _ => plainWhereRead_of_isLeaf_or_isChain (.inr rfl)

theorem bodyPlainWhereRead : (statements : List Statement) → ∀ s ∈ statements, s.PlainWhereRead limit
  | [] => by simp
  | statement :: others => List.forall_mem_cons.mpr ⟨statement.plainWhereRead, bodyPlainWhereRead others⟩

theorem elsePlainWhereRead :
    (elseBody : Option (List Statement)) → ∀ o ∈ elseBody, ∀ s ∈ o, s.PlainWhereRead limit
  | none => by simp
  | some statements => by simpa using bodyPlainWhereRead statements

end

end Statement

end BatchScript
