import BatchScript.Proofs.Grammar.Alike
import BatchScript.Proofs.Reading.Words
import BatchScript.Proofs.Tree.Basic
import BatchScript.Session

/-!
# What conditions read

A condition is a question for a path, or else a relation, or else an equation, and each kind is described by the
texts that it may be written as (`Reading.simpleCondition`). A `NOT` before it negates it, unless no condition
follows the `NOT`; then the `NOT` is part of the condition (`Reading.condition`). The rules of the grammar, which
find this out by trying, read just so (`conditions_read`).
-/

namespace BatchScript

open Text

variable {α β : Type}

namespace Reading

/-- A keyword, spaces, and what the reading says. -/
def behind (k : Keyword) (p : Reading α) (f : α → β) : Reading β := fun front b rest =>
  ∃ (keyword spaces target : List Char) (a : α), IsKeyword k keyword ∧ IsSpacing spaces (target ++ rest) ∧
    p target a rest ∧ front = keyword ++ (spaces ++ target) ∧ b = f a

/-- `EXIST`, spaces, and a path: a text in quotes, or else a word. -/
def existence : Reading Condition :=
  behind .exist (quotation.otherwise word) .pathExists

/-- A word, spaces, a relational keyword, spaces, and a word. -/
def relation : Reading Condition := fun front c rest =>
  ∃ (left operator right : String) (before behind : List Char), IsWord left ∧
    IsSpacing before (operator.toList ++ (behind ++ (right.toList ++ rest))) ∧ IsRelation operator ∧
    IsSpacing behind (right.toList ++ rest) ∧ word right.toList right rest ∧
    front = left.toList ++ (before ++ (operator.toList ++ (behind ++ right.toList))) ∧
    c = .comparison left operator right

/-- A text on one line that is not blank, the first `==` of the line, perhaps spaces, and a word. -/
def equation : Reading Condition := fun front c rest =>
  ∃ (left spaces : List Char) (right : String), (∀ x ∈ left, isLineBreak x = false) ∧
    -- no `==` begins further left
    ¬ ['=', '='] <:+: left ++ ['='] ∧ trim left ≠ [] ∧ (∀ x ∈ spaces, isSpace x = true) ∧
    word right.toList right rest ∧ front = left ++ '=' :: '=' :: (spaces ++ right.toList) ∧
    c = .comparison (.ofList (trim left)) "==" right

/-- The kinds of conditions, in their order. -/
def simpleCondition : Reading Condition :=
  existence.otherwise (relation.otherwise equation)

/-- `NOT`, spaces, and a condition without `NOT`. -/
def negation : Reading Condition :=
  behind .notWord simpleCondition .negated

/-- A condition with `NOT`, or else one without. -/
def condition : Reading Condition :=
  negation.otherwise simpleCondition

end Reading

namespace Grammar

open Cursor Rule

/-! ## Behind a keyword -/

theorem behind_reads {r : Rule α} {p : Reading α} (h : Reads r p) (k : Keyword) (f : α → β) :
    Reads (.attempt do keyword k; spaces; let a ← r; return f a) (.behind k p f) := by
  have hparts := ((keyword_reads k).takes.bind fun _ => spaces_reads.takes.bind fun _ => (h.map f).takes).attempt
  refine hparts.congr fun front c rest => ⟨?_, ?_⟩
  · rintro ⟨word, _, _, rfl, hk, gap, target, _, rfl, hg, a, rfl, ha⟩
    exact ⟨word, gap, target, a, hk, hg, ha, rfl, rfl⟩
  · rintro ⟨word, gap, target, a, hk, hg, ha, rfl, rfl⟩
    exact ⟨word, _, (), rfl, hk, gap, target, (), rfl, hg, a, rfl, ha⟩

theorem existence_reads : Reads existence .existence :=
  behind_reads (quotation_reads.orElse ((run_reads _).orElse_nothing (.fail _))) _ _

/-! ## Relations -/

theorem relationKeyword_reads : Reads (.scan? relationKeyword? <|> .failAll (Keyword.relations.map .keyword))
    fun front operator rest => front = operator.toList ∧ IsRelation operator ∧ ¬ Stops isBlank rest := by
  refine .orElse_nothing (.scan? (fun {c front operator rest} hc ⟨hf, ho, hr⟩ => ?_) fun {c d t} h => ?_) (.failAll _)
  · cases rest with
    | nil => exact absurd stops_nil hr
    | cons x rest =>
      rw [hf] at hc ⊢
      exact relationKeyword?_append ho (by simpa using hr) hc
  · have ho := isRelation_of_relationKeyword? h
    rw [relationKeyword?_eq] at h
    obtain ⟨k, hk, h⟩ := Option.map_eq_some_iff.mp h
    have hat : beginsWithKeyword k c.rest = true := by simpa using List.find?_some hk
    obtain ⟨x, hx, hblank⟩ := (Option.any_eq_true _ _).mp (beginsWithKeyword_iff.mp hat).2
    cases h
    refine ⟨_, _, c.rest.drop k.text.toList.length, (List.take_append_drop _ _).symm, String.toList_ofList.symm, ho, ?_⟩
    intro hstop
    rw [hstop x (by rw [List.head?_drop]; exact hx)] at hblank
    cases hblank

theorem relation_reads : Reads relation .relation := by
  have hparts := (operand_reads.takes.bind fun left => spaces_reads.takes.bind fun _ =>
    relationKeyword_reads.takes.bind fun operator => spaces_reads.takes.bind fun _ =>
      (operand_reads.map fun right => Condition.comparison left operator right).takes).attempt
  refine hparts.congr fun front c rest => ⟨?_, ?_⟩
  · rintro ⟨_, _, left, rfl, hl, before, _, _, rfl, hbefore, _, _, operator, rfl, ⟨rfl, ho, -⟩, behind, _, _, rfl,
      hbehind, right, rfl, hr⟩
    obtain ⟨rfl, -⟩ := id hl
    obtain ⟨rfl, -⟩ := id hr
    rw [List.append_assoc, List.append_assoc] at hbefore
    exact ⟨left, operator, right, before, behind, isWord_of_run hl, hbefore, ho, hbehind, hr, rfl, rfl⟩
  · rintro ⟨left, operator, right, before, behind, hl, hbefore, ho, hbehind, hr, rfl, rfl⟩
    refine ⟨_, _, left, rfl, ?_, before, _, (), rfl, ?_, _, _, operator, rfl, ⟨rfl, ho, ?_⟩, behind, _, (), rfl,
      hbehind, right, rfl, hr⟩
    · simp only [List.append_assoc]
      exact hl.word hbefore.stops_word
    · simpa only [List.append_assoc] using hbefore
    · rw [List.append_assoc]
      exact hbehind.not_stops_isBlank

/-! ## Equations -/

/-- Where the first `==` begins: behind a text that holds no `==` and does not end with `=`. -/
theorem first_equals_iff {left : List Char} :
    ¬ ['=', '='] <:+: left ++ ['='] ↔ ¬ ['=', '='] <:+: left ∧ left.getLast? ≠ some '=' := by
  rw [List.infix_concat_iff, not_or, and_comm]
  refine and_congr_right fun _ => not_congr ?_
  rw [show ['=', '='] = ['='] ++ ['='] from rfl, List.suffix_append_inj_of_length_eq rfl, List.getLast?_eq_some_iff]
  exact ⟨fun h => h.1.imp fun _ => Eq.symm, fun h => ⟨h.imp fun _ => Eq.symm, rfl⟩⟩

/-- A left side that a search found is followed by the first `==`. -/
theorem first_equals_upTo {c : Cursor} (h : (c.upTo endsLeftSide).2.startsWith "==" = true) :
    ¬ ['=', '='] <:+: (c.upTo endsLeftSide).1.toList ++ ['='] := by
  refine first_equals_iff.mpr ⟨(upTo_endsLeftSide c).2, fun hlast => ?_⟩
  obtain ⟨rest, hrest⟩ := List.isPrefixOf_iff_prefix.mp h
  have hstop := not_stop_of_getLast_upTo hlast
  rw [← hrest] at hstop
  simp [endsLeftSide] at hstop

theorem equation_reads : Reads equation .equation := by
  refine .of_matched equation_alike (fun {d b front rest c} h => ?_) (fun {s t c} e => ?_)
    fun e => (attempt_unmatched e).1
  · obtain ⟨left, spaces, right, hline, hfirst, htrim, hs, hr, rfl, rfl⟩ := h
    obtain ⟨hin, hlast⟩ := first_equals_iff.mp hfirst
    have h := equation_runs_of_word (d := d) (b := b) hline hin hlast htrim hs (isWord_of_run hr) hr.2.2.2
    simpa using h
  · obtain ⟨before, u, hu, e⟩ := bind_matched (attempt_matched.mp e)
    obtain ⟨_, v, hv, e⟩ := bind_matched e
    obtain ⟨_, w, hw, e⟩ := bind_matched e
    obtain ⟨_, x, hx, e⟩ := bind_matched e
    obtain ⟨_, y, hy, e⟩ := bind_matched e
    obtain ⟨right, z, hz, e⟩ := bind_matched e
    cases e
    obtain ⟨rfl, hbefore⟩ : (s.cursor.upTo endsLeftSide).1 = before ∧ u.cursor = (s.cursor.upTo endsLeftSide).2 := by
      cases hu; exact ⟨rfl, rfl⟩
    obtain ⟨hequals, rfl⟩ := holds_orElse_fail_matched hv
    obtain ⟨hne, rfl⟩ := holds_orElse_fail_matched hw
    have hhead := toList_upTo_append s.cursor endsLeftSide
    have hx := eatText_matched hx
    rw [hbefore] at hequals hx
    obtain ⟨spaces, hy, hspaces, -⟩ := skipSpaces_matched hy
    obtain ⟨_, hz, rfl, hr⟩ := operand_reads.exists_front hz
    rw [hx, hy, hz] at hhead
    refine ⟨_ ++ '=' :: '=' :: (spaces ++ right.toList), ?_, _, spaces, right, (upTo_endsLeftSide _).1,
      first_equals_upTo hequals, ?_, hspaces, ⟨rfl, hr⟩, rfl, rfl⟩
    · rw [← hhead]; simp
    · simpa using hne

theorem simpleCondition_reads : Reads simpleCondition .simpleCondition :=
  existence_reads.orElse (relation_reads.orElse equation_reads)

/-! ## Negations -/

theorem negation_reads : Reads negation .negation :=
  behind_reads simpleCondition_reads _ _

/-- Conditions, with a `NOT` and without one, are read in their order and as they are described, and where nothing
of the description applies the rules stay where they are. -/
theorem conditions_read : Reads simpleCondition .simpleCondition ∧ Reads condition .condition :=
  ⟨simpleCondition_reads, negation_reads.orElse simpleCondition_reads⟩

/-- No condition follows this `NOT`. -/
example : Document.read {} "if not == x goto a" =
    .ok ⟨[.branch (.comparison "not" "==" "x") [.leaf (.goto "a")] none]⟩ := by decide +kernel

end Grammar

end BatchScript
