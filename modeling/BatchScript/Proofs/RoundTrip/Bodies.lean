import BatchScript.Proofs.RoundTrip.Openings

/-!
# Bodies that are read back

Statements one behind the other, each with two line feeds behind it, are read one by
one (`items_rounds`), if each of them is read back in front of two line feeds
(`Statement.ReadsBack`); and so is the block around them (`body_runs`).
-/

namespace BatchScript

open Text Grammar

/-- A statement whose texts can be written at their places, inside a block or not. -/
structure Statement.Canonical (inBlock : Bool) (s : Statement) : Prop where
  wellFormed : ∀ n ∈ s.nodes, n.WellFormed
  wellChained : ∀ n ∈ s.nodes, n.WellChained
  plain : s.Plain inBlock

theorem plain_of_bodyPlain {inBlock : Bool} {statements : List Statement} (h : BodyPlain inBlock statements) :
    ∀ s ∈ statements, s.Plain inBlock := by
  induction statements with
  | nil => simp
  | cons s others ih => exact List.forall_mem_cons.mpr ⟨h.1, ih h.2⟩

theorem canonical_of_body {inBlock : Bool} {statements : List Statement}
    (hw : ∀ n ∈ bodyNodes statements, n.WellFormed) (hc : ∀ n ∈ bodyNodes statements, n.WellChained)
    (hp : BodyPlain inBlock statements) : ∀ s ∈ statements, s.Canonical inBlock := fun s hs =>
  { wellFormed n hn := hw n (mem_bodyNodes.mpr ⟨s, hs, hn⟩)
    wellChained n hn := hc n (mem_bodyNodes.mpr ⟨s, hs, hn⟩)
    plain := plain_of_bodyPlain hp s hs }

/-- A statement that is read back from its script, wherever it may stand. -/
def Statement.ReadsBack (limit : Nat) (s : Statement) : Prop :=
  ∀ {d b : Nat} {rest : List Char}, s.Canonical (decide (0 < b)) → d + s.nest ≤ limit → Separated rest →
    Rule.Runs (statement limit) d b (s.script.toList ++ '\n' :: '\n' :: rest) (.matched s) ('\n' :: '\n' :: rest)

namespace Grammar

open Cursor Rule

variable {d b limit : Nat} {rest : List Char} {statements : List Statement}

/-! ## Statements one behind the other -/

theorem items_rounds {p : Cursor → Bool} {r : Rule Statement} {stop : List Char} (hstop : Separated stop)
    (hend : ∀ c, c.rest = stop → p c = false) (hopen : ∀ c, OpensStatement c.rest → p c = true)
    (hr : ∀ s ∈ statements, ∀ k, Separated k →
      Runs r d b (s.script.toList ++ '\n' :: '\n' :: k) (.matched s) ('\n' :: '\n' :: k))
    (blanks : List Char) (hb : ∀ x ∈ blanks, isBlank x = true) :
    Runs.Rounds (do skipBlanks; .holds p; r) d b (blanks ++ ((bodyScript statements).toList ++ stop)) statements
      stop := by
  induction statements generalizing blanks with
  | nil => exact .nil (.bind (skipBlanks_runs hb hstop.1) (.bind_unmatched (.holds_unmatched hend) _))
  | cons s others ih =>
    have hs := hr s List.mem_cons_self _ (separated_bodyScript hstop others)
    have hopens := s.opens_script ('\n' :: '\n' :: ((bodyScript others).toList ++ stop))
    have hrounds := ih (fun q hq => hr q (List.mem_cons_of_mem _ hq)) ['\n', '\n'] (by decide)
    rw [toList_bodyScript_cons]
    refine .cons (.bind (skipBlanks_runs hb hopens.stops_isBlank) (.bind (.holds fun c hc => ?_) hs)) ?_ hrounds
    · exact hopen c (hc ▸ hopens)
    · have := List.length_pos_iff.mpr (s.opens_script []).ne_nil
      simp only [List.length_append, List.length_cons, List.length_nil] at this ⊢
      omega

/-! ## Blocks -/

theorem notCloses_of_stops (c : Cursor) (h : Stops (· == ')') c.rest) : (c.current != some ')') = true := by
  cases hx : c.current with
  | none => rfl
  | some x => simpa using h x hx

theorem notCloses_of_opens (c : Cursor) (h : OpensStatement c.rest) : (c.current != some ')') = true :=
  notCloses_of_stops c (h.stops (by decide) (by simp) (by decide))

theorem notAtEnd_of_opens (c : Cursor) (h : OpensStatement c.rest) : (!c.atEnd) = true := by
  simpa [atEnd] using h.ne_nil

/-- One statement without parentheses is a body. -/
theorem body_runs_of_statement {r : Rule Statement} {a : Statement} {i : List Char} (hd : d < limit)
    (h : Runs r (d + 1) b i (.matched a) rest) : Runs (body limit r) d b i (.matched [a]) rest :=
  .insideBody (.orElse_matched (.bind h (.pure [a])) _) hd

/-- Statements in parentheses, and nothing else, are the body of a branch or a loop. -/
theorem body_runs_of_items {i : List Char} (hd : d < limit)
    (hitems : Runs (.many (blockItem (statement limit))) (d + 1) (b + 1) i (.matched statements) (')' :: rest)) :
    Runs (body limit (statement limit)) d b ('(' :: i) (.matched statements) rest := by
  have hblock : Runs (block (statement limit)) (d + 1) b ('(' :: i) (.matched statements) rest :=
    .attempt (.bind (symbol_runs '(') (.insideBlock (.bind hitems (.bind (symbol_runs ')') (.pure _)))))
  exact .insideBody (.orElse (.bind_unmatched (statement_unmatched_of_open limit) _) hblock) hd

/-- Statements behind a parenthesis are no body, if something else than a parenthesis stands behind them. -/
theorem body_unmatched_of_items {i : List Char} (hd : d < limit)
    (hitems : Runs (.many (blockItem (statement limit))) (d + 1) (b + 1) i (.matched statements) rest)
    (hr : Stops (· == ')') rest) : Runs (body limit (statement limit)) d b ('(' :: i) .unmatched ('(' :: i) := by
  have hblock : Runs (block (statement limit)) (d + 1) b ('(' :: i) .unmatched ('(' :: i) :=
    .attempt_unmatched (.bind (symbol_runs '(') (.insideBlock (.bind hitems (.bind_unmatched (symbol_unmatched hr) _))))
  exact .insideBody_of_ne nofun (.orElse (.bind_unmatched (statement_unmatched_of_open limit) _) hblock) hd

theorem body_runs (hs : ∀ s ∈ statements, s.ReadsBack limit) (hc : ∀ s ∈ statements, s.Canonical true)
    (hd : d + 1 + bodyNest statements ≤ limit) :
    Runs (body limit (statement limit)) d b ('(' :: '\n' :: ((bodyScript statements).toList ++ ')' :: rest))
      (.matched statements) rest := by
  have hstop : Separated (')' :: rest) := ⟨stops_cons.mpr (by decide), fun h => by cases h⟩
  have hin : decide (0 < b + 1) = true := decide_eq_true (Nat.succ_pos b)
  have hitems : Runs.Rounds (blockItem (statement limit)) (d + 1) (b + 1)
      ('\n' :: ((bodyScript statements).toList ++ ')' :: rest)) statements (')' :: rest) := by
    refine items_rounds hstop (fun c h => ?_) notCloses_of_opens (fun s hm k hk => ?_) ['\n'] (by decide)
    · rw [current, h]; rfl
    · have := nest_le_bodyNest hm
      exact hs s hm (hin ▸ hc s hm) (by omega) hk
  exact body_runs_of_items (by omega) hitems.many

/-! ## Alternatives -/

theorem bodyFollows_runs_of_isBlank {x : Char} (hx : isBlank x = true) :
    Runs bodyFollows d b (x :: rest) (.matched ()) (x :: rest) := by
  refine .orElse_matched (.holds fun c hc => ?_) _
  simp [current, hc, hx]

theorem bodyFollows_runs : Runs bodyFollows d b (' ' :: rest) (.matched ()) (' ' :: rest) :=
  bodyFollows_runs_of_isBlank (by decide)

theorem skipBlank_runs (hr : Stops isBlank rest) : Runs skipBlanks d b (' ' :: rest) (.matched ()) rest := by
  have : Runs skipBlanks d b ([' '] ++ rest) (.matched ()) rest := skipBlanks_runs (by decide) hr
  exact this

/-- An alternative with any blanks before `ELSE` and behind it. -/
theorem alternative_runs_of_body {r : Rule (List Statement)} {before word behind i : List Char}
    (hbefore : ∀ x ∈ before, isBlank x = true) (hw : IsKeyword .elseWord word) (hne : behind ≠ [])
    (hbehind : ∀ x ∈ behind, isBlank x = true) (hi : Stops isBlank i)
    (hr : Runs r d b i (.matched statements) rest) :
    Runs (alternative r) d b (before ++ (word ++ (behind ++ i))) (.matched statements) rest := by
  have hword : Stops isBlank (word ++ (behind ++ i)) := Keyword.stops_isBlank_of_begins (hw.begins _)
  have hfollows : Runs bodyFollows d b (behind ++ i) (.matched ()) (behind ++ i) := by
    cases behind with
    | nil => exact absurd rfl hne
    | cons x behind => exact bodyFollows_runs_of_isBlank (hbehind x List.mem_cons_self)
  refine .attempt (.bind (skipBlanks_runs hbefore hword) (.bind (keyword_runs hw) (.bind hfollows ?_)))
  exact .bind (skipBlanks_runs hbehind hi) hr

theorem alternative_runs {r : Rule (List Statement)} {i : List Char}
    (hr : Runs r d b ('(' :: i) (.matched statements) rest) :
    Runs (alternative r) d b (' ' :: (['e', 'l', 's', 'e'] ++ ' ' :: '(' :: i)) (.matched statements) rest := by
  have hword : IsKeyword .elseWord ['e', 'l', 's', 'e'] := rfl
  have hblank : ∀ x ∈ [' '], isBlank x = true := by decide
  exact alternative_runs_of_body hblank hword (by decide) hblank (stops_cons.mpr (by decide)) hr

theorem alternative_unmatched_of_separated (r : Rule (List Statement)) (hr : Separated rest) :
    Runs (alternative r) d b ('\n' :: '\n' :: rest) .unmatched ('\n' :: '\n' :: rest) := by
  have hblanks : (['\n', '\n'] ++ rest).dropWhile isBlank = rest := dropWhile_append_of_stops (by decide) hr.1
  exact alternative_unmatched r (by rw [show '\n' :: '\n' :: rest = ['\n', '\n'] ++ rest from rfl, hblanks]; exact hr.2)

end Grammar

end BatchScript
