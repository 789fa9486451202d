import BatchScript.Proofs.RoundTrip.Words
import BatchScript.Proofs.Text.Joined

/-!
# Where statements begin and end

A statement that is written out begins with a colon or with one of the keywords for
statements (`Statement.opens_script`), and so does what follows behind it and two line feeds,
unless the body ends there; in no case is it an `ELSE` (`Separated`).
-/

namespace BatchScript

open Text Grammar

/-! ## Where a statement begins -/

/-- A statement begins here. -/
def OpensStatement (text : List Char) : Prop :=
  text.head? = some ':' ∨ ∃ k ∈ statementKeywords, k.Begins text

namespace OpensStatement

variable {text : List Char}

theorem stops {p : Char → Bool} (h : OpensStatement text) (hc : p ':' = false)
    (hu : ∀ x, p x = true → x.isUpper = false)
    (hk : ∀ k ∈ statementKeywords, k.text.toList.head?.any (p ·.toLower) = false) : Stops p text := by
  rcases h with h | ⟨k, hm, hb⟩
  · intro x hx
    rw [h] at hx
    cases hx
    exact hc
  · exact Keyword.stops_of_begins hb hu (hk k hm)

theorem stops_isBlank (h : OpensStatement text) : Stops isBlank text :=
  h.stops (by decide) (fun _ => not_isUpper_of_isBlank) (by decide)

theorem ne_nil (h : OpensStatement text) : text ≠ [] := by
  rintro rfl
  rcases h with h | ⟨k, -, hb⟩
  · cases h
  · exact Keyword.ne_nil_of_begins hb rfl

theorem not_begins_else (h : OpensStatement text) : ¬ Keyword.elseWord.Begins text := by
  intro he
  rcases h with h | ⟨k, hm, hb⟩
  · have hs : Stops (· == ':') text := Keyword.stops_of_begins he (by simp) (by decide)
    exact absurd (hs ':' h) (by decide)
  · have hf := he.beginsWithWord_of_ne (j := k) (by rintro rfl; revert hm; decide)
    rw [Keyword.Begins, hf] at hb
    cases hb

end OpensStatement

/-- The keyword with which a leaf begins. -/
def Leaf.keyword : Leaf → Keyword
  | .comment _ => .rem
  | .assignment .. => .set
  | .goto _ => .goto
  | .invoke .. => .call
  | .emit .. => .echo

theorem Leaf.begins_script (l : Leaf) (rest : List Char) : l.keyword.Begins (l.script.toList ++ rest) := by
  apply Keyword.begins_append
  cases l with
  | comment text =>
    cases hs : text.toList.splitOn '\n' with
    | nil => exact absurd hs (List.splitOn_ne_nil _ _)
    | cons first others =>
      rw [Leaf.script, hs, List.map_cons, toList_intercalate_cons (c := '\n') rfl, String.toList_append,
        List.append_assoc]
      exact Keyword.begins_append (k := .rem) (by decide) _
  | assignment name value =>
    simp only [Leaf.script, String.toList_append, List.append_assoc]
    exact Keyword.begins_append (k := .set) (by decide) _
  | goto target =>
    simp only [Leaf.script, String.toList_append]
    exact Keyword.begins_append (k := .goto) (by decide) _
  | invoke target arguments =>
    simp only [Leaf.script, String.toList_append]
    exact Keyword.begins_append (k := .call) (by decide) _
  | emit message escapeMode redirections =>
    simp only [Leaf.script, String.toList_append, List.append_assoc]
    cases escapeMode <;> exact Keyword.begins_append (k := .echo) (by decide) _

theorem Leaf.keyword_mem (l : Leaf) : l.keyword ∈ leafKeywords := by
  cases l <;> simp [Leaf.keyword, leafKeywords]

theorem Statement.opens_script (rest : List Char) : (s : Statement) → OpensStatement (s.script.toList ++ rest)
  | .leaf l => .inr ⟨_, List.mem_cons_of_mem _ (List.mem_cons_of_mem _ l.keyword_mem), l.begins_script rest⟩
  | .label name => .inl (by simp [Statement.script])
  | .branch .. => by
    refine .inr ⟨.ifWord, by decide, ?_⟩
    simp only [Statement.script, String.toList_append, List.append_assoc]
    exact Keyword.begins_append (by decide) _
  | .loop .. => by
    refine .inr ⟨.forWord, by decide, ?_⟩
    simp only [Statement.script, String.toList_append, List.append_assoc]
    exact Keyword.begins_append (by decide) _
  | .chain left op right => by
    rw [Statement.script, String.toList_append, String.toList_append, List.append_assoc, List.append_assoc]
    exact left.opens_script _

/-! ## Where a statement ends -/

/-- A text behind a statement and two line feeds: another statement, or the end of the body. -/
def Separated (rest : List Char) : Prop :=
  Stops isBlank rest ∧ ¬ Keyword.elseWord.Begins rest

theorem OpensStatement.separated {text : List Char} (h : OpensStatement text) : Separated text :=
  ⟨h.stops_isBlank, h.not_begins_else⟩

theorem toList_bodyScript_cons (s : Statement) (others : List Statement) (rest : List Char) :
    (bodyScript (s :: others)).toList ++ rest =
      s.script.toList ++ '\n' :: '\n' :: ((bodyScript others).toList ++ rest) := by
  simp [bodyScript]

theorem toList_elseScript (statements : List Statement) (rest : List Char) :
    (elseScript (some statements)).toList ++ rest = ' ' :: (['e', 'l', 's', 'e'] ++ ' ' :: '(' :: '\n' ::
      ((bodyScript statements).toList ++ ')' :: rest)) := by
  simp [elseScript]

theorem separated_bodyScript {rest : List Char} (h : Separated rest) (statements : List Statement) :
    Separated ((bodyScript statements).toList ++ rest) := by
  cases statements with
  | nil => exact h
  | cons s others =>
    rw [toList_bodyScript_cons]
    exact (s.opens_script _).separated

end BatchScript
