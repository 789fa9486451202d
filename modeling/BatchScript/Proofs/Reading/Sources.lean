import BatchScript.Proofs.Grammar.Balanced
import BatchScript.Proofs.Rule.Runs

/-!
# Sources of loops

The rule for the source of a loop takes a balanced text in front of a parenthesis, of which there is at most one at
the front of a text (`IsSource.unique`). Where there is none it reads to the end of the script. On its way it
counts the parentheses that are open (`nesting`), and the count is never negative (`loopSource_reads`).
-/

namespace BatchScript

namespace Text

open Grammar

/-- A balanced text, the parenthesis that closes it, and what stands behind them. -/
def IsSource (source rest text : List Char) : Prop :=
  Balanced source ∧ text = source ++ ')' :: rest

/-- What is open in a source: the opening parentheses less the closing ones, and perhaps a quote. -/
structure Nesting where
  depth : Int := 0
  quote : Option Char := none
deriving DecidableEq

/-- What is open behind one more character. Parentheses inside quotes do not count. -/
def Nesting.after (n : Nesting) (x : Char) : Nesting where
  depth := if n.quote.isNone && x == '(' then n.depth + 1
    else if n.quote.isNone && x == ')' then n.depth - 1 else n.depth
  quote := quoteAfter n.quote x

/-- What is open behind the front of a source. -/
def nesting (front : List Char) : Nesting :=
  front.foldl Nesting.after {}

variable {source source' rest rest' text : List Char} {x : Char}

/-- A text begins with at most one source. -/
theorem IsSource.unique (h : IsSource source rest text) (h' : IsSource source' rest' text) :
    source' = source ∧ rest' = rest := by
  have hlen : source'.length = source.length := by
    have hs : Grammar.sourceLength? 0 0 none (source ++ ')' :: rest) = some source.length :=
      sourceLength?_of_balanced h.1
    rw [← h.2, h'.2, sourceLength?_of_balanced h'.1] at hs
    exact Option.some.inj hs
  obtain ⟨hsource, hrest⟩ := List.append_inj (h'.2.symm.trans h.2) hlen
  exact ⟨hsource, List.tail_eq_of_cons_eq hrest⟩

/-! ## What is open on the way -/

theorem Nesting.after_open (depth : Int) : Nesting.after ⟨depth, none⟩ '(' = ⟨depth + 1, none⟩ := rfl

theorem Nesting.after_close (depth : Int) : Nesting.after ⟨depth, none⟩ ')' = ⟨depth - 1, none⟩ := rfl

theorem Nesting.after_other (depth : Int) (ho : x ≠ '(') (hc : x ≠ ')') :
    Nesting.after ⟨depth, none⟩ x = ⟨depth, quoteAfter none x⟩ := by
  simp [Nesting.after, ho, hc]

theorem Nesting.after_inside (depth : Int) (q : Char) :
    Nesting.after ⟨depth, some q⟩ x = ⟨depth, quoteAfter (some q) x⟩ := rfl

end Text

namespace Grammar

open Text Cursor Rule

variable {n depth : Nat} {quote : Option Char} {source rest front behind : List Char}

/-- As long as the search for the end of a source has not ended, the depth it has counted is that of the
integers. -/
theorem exists_nesting (h : ∀ m, sourceLength? n depth quote (front ++ behind) = some m → n + front.length ≤ m) :
    ∃ (depth' : Nat) (quote' : Option Char), front.foldl Nesting.after ⟨depth, quote⟩ = ⟨depth', quote'⟩ ∧
      sourceLength? n depth quote (front ++ behind) = sourceLength? (n + front.length) depth' quote' behind := by
  induction front generalizing n depth quote with
  | nil => exact ⟨depth, quote, rfl, rfl⟩
  | cons x front ih =>
    have step : ∀ {d : Nat} {q : Option Char},
        sourceLength? n depth quote (x :: (front ++ behind)) = sourceLength? (n + 1) d q (front ++ behind) →
        Nesting.after ⟨depth, quote⟩ x = ⟨d, q⟩ →
        ∃ (depth' : Nat) (quote' : Option Char), (x :: front).foldl Nesting.after ⟨depth, quote⟩ = ⟨depth', quote'⟩ ∧
          sourceLength? n depth quote (x :: (front ++ behind)) =
            sourceLength? (n + (x :: front).length) depth' quote' behind := by
      intro d q hs hx
      have hlen : n + (x :: front).length = n + 1 + front.length := by rw [List.length_cons]; omega
      rw [List.cons_append, hs, hlen] at h
      rw [List.foldl_cons, hx, hs, hlen]
      exact ih h
    rw [List.cons_append] at h ⊢
    cases quote with
    | some q => exact step (sourceLength?_inside q) (Nesting.after_inside depth q)
    | none =>
      by_cases hc : x = ')'
      · subst hc
        cases depth with
        | zero =>
          -- the search ends here, before the end of the front
          have := h n sourceLength?_close_zero
          rw [List.length_cons] at this; omega
        | succ depth =>
          refine step sourceLength?_close_succ ?_
          rw [Nesting.after_close, Int.natCast_succ, Int.add_sub_cancel]
      · by_cases ho : x = '('
        · subst ho
          exact step sourceLength?_open (Nesting.after_open depth)
        · exact step (sourceLength?_other ho hc) (Nesting.after_other depth ho hc)

/-- A search that ends ends behind a source. -/
theorem isSource_of_sourceLength? {text : List Char} {m : Nat} (h : sourceLength? 0 0 none text = some m) :
    IsSource (text.take m) (text.drop (m + 1)) text := by
  obtain ⟨hb, hclose⟩ := balanced_of_sourceLength? h
  refine ⟨hb, ?_⟩
  rw [List.head?_drop] at hclose
  have hdrop : text.drop m = ')' :: text.drop (m + 1) := by
    obtain ⟨hm, hx⟩ := List.getElem?_eq_some_iff.mp hclose
    rw [List.drop_eq_getElem_cons hm, hx]
  rw [← hdrop, List.take_append_drop]

theorem sourceLength?_eq_none {text : List Char} (h : ∀ source rest, ¬ IsSource source rest text) :
    sourceLength? 0 0 none text = none := by
  cases hs : sourceLength? 0 0 none text with
  | none => rfl
  | some m => exact absurd (isSource_of_sourceLength? hs) (h _ _)

/-- At a source the rule takes it, and stops behind its parenthesis. -/
theorem loopSource_of_isSource {s : State} (h : IsSource source rest s.cursor.rest) :
    loopSource s = (.matched (.ofList source), { s with cursor := s.cursor.skip (source.length + 1) }) := by
  have hsource : source? s.cursor = some (.ofList source, s.cursor.skip (source.length + 1)) := by
    rw [source?, h.2, sourceLength?_of_balanced h.1, Option.map_some, List.take_left]
  exact orElse_of_matched (scan?_of_some hsource) _

/-- Where there is none, the script ends before the parenthesis. -/
theorem loopSource_of_not_isSource {s : State} (h : ∀ source rest, ¬ IsSource source rest s.cursor.rest) :
    loopSource s = (.unmatched, { s with
      cursor := s.cursor.skip s.cursor.left
      attempts := s.attempts.note (s.cursor.skip s.cursor.left).position (.symbol ")") }) := by
  have hnone : source? s.cursor = none := by
    rw [source?, sourceLength?_eq_none h]; rfl
  exact orElse_of_unmatched (scan?_of_none hnone) _

/-- The source of a loop is the balanced text in front of a parenthesis, of which there is one at most. Where
there is none, the reader goes on to the end of the script and wants a parenthesis there. All the way the depth
that is counted is that of the integers, so it is never below zero. -/
theorem loopSource_reads (s : State) :
    (∀ source rest, IsSource source rest s.cursor.rest →
      (∀ source' rest', IsSource source' rest' s.cursor.rest → source' = source ∧ rest' = rest) ∧
      loopSource s = (.matched (.ofList source), { s with cursor := s.cursor.skip (source.length + 1) }) ∧
      (s.cursor.skip (source.length + 1)).rest = rest) ∧
    ((∀ source rest, ¬ IsSource source rest s.cursor.rest) →
      loopSource s = (.unmatched, { s with
        cursor := s.cursor.skip s.cursor.left
        attempts := s.attempts.note (s.cursor.skip s.cursor.left).position (.symbol ")") }) ∧
      (s.cursor.skip s.cursor.left).rest = []) ∧
    ∀ front behind, s.cursor.rest = front ++ behind →
      (∀ source rest, IsSource source rest s.cursor.rest → front.length ≤ source.length) →
      0 ≤ (nesting front).depth ∧ sourceLength? 0 0 none s.cursor.rest =
        sourceLength? front.length (nesting front).depth.toNat (nesting front).quote behind := by
  refine ⟨fun source rest h => ⟨fun _ _ => h.unique, loopSource_of_isSource h, ?_⟩, fun h =>
    ⟨loopSource_of_not_isSource h, ?_⟩, fun front behind hs hf => ?_⟩
  · rw [rest_skip, h.2, ← List.drop_drop, List.drop_left]; rfl
  · rw [rest_skip, left_eq, List.drop_length]
  · have hend : ∀ m, sourceLength? 0 0 none (front ++ behind) = some m → 0 + front.length ≤ m := by
      intro m hm
      have hsource := isSource_of_sourceLength? (hs ▸ hm)
      have := hf _ _ hsource
      rw [List.length_take] at this; omega
    obtain ⟨depth, quote, hnesting, hlen⟩ := exists_nesting hend
    have hnesting : nesting front = ⟨depth, quote⟩ := hnesting
    rw [hs, hlen, hnesting, Nat.zero_add]
    exact ⟨Int.natCast_nonneg depth, rfl⟩

/-- A double quote inside single quotes opens nothing, and a quote that is left open closes with its line. -/
example : (source? (.ofText "'a)\"' (b) \"(\n) do".toList)).map (·.1) = some "'a)\"' (b) \"(\n" := by decide

end Grammar

end BatchScript
