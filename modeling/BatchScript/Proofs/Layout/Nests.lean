import BatchScript.Proofs.Session.Depth
import BatchScript.Proofs.Session.Enclosed

/-!
# Alternatives of nested branches

Branches without parentheses, one inside the other, and as many `ELSE` behind them as one likes. An `ELSE`
belongs to the nearest branch that has none yet (`read_nest`), so that one more than there are branches
belongs to none.
-/

namespace BatchScript

open Text Grammar Rule

/-! ## The text -/

/-- An equation of two words, of which the left one is not cut short by an `==` of its own. -/
structure Equation where
  left : String
  right : String
  isWord_left : IsWord left
  isWord_right : IsWord right
  unequal : ¬ ['=', '='] <:+: left.toList
  last_ne : left.toList.getLast? ≠ some '='

/-- `IF` and an equation, in front of a body. -/
def Equation.script (e : Equation) : String :=
  "if " ++ e.left ++ "==" ++ e.right ++ " "

/-- At least one blank. -/
def IsGap (t : String) : Prop :=
  t ≠ "" ∧ ∀ x ∈ t.toList, isBlank x = true

instance (t : String) : Decidable (IsGap t) := inferInstanceAs (Decidable (_ ∧ _))

/-- A jump behind an `ELSE`, which any blanks may stand around. -/
structure ElseJump where
  before : String
  behind : String
  target : String
  isGap_before : IsGap before
  isGap_behind : IsGap behind
  isName_target : IsName target

/-- The alternative as it is written. -/
def ElseJump.script (j : ElseJump) : String :=
  j.before ++ "else" ++ j.behind ++ "goto " ++ j.target

/-- Branches one inside the other, a jump inside them all, and the alternatives behind it. -/
def nestScript (equations : List Equation) (target : String) (jumps : List ElseJump) : String :=
  String.join (equations.map Equation.script) ++ "goto " ++ target ++ String.join (jumps.map ElseJump.script)

/-- The branches around a jump; the innermost one has the first alternative, the one around it the second,
and so on as far as they go. -/
def nest (target : String) (jumps : List ElseJump) : List Equation → Statement
  | [] => .leaf (.goto target)
  | e :: inner => .branch (.comparison e.left "==" e.right) [nest target jumps inner]
      (jumps[inner.length]?.map fun j => [.leaf (.goto j.target)])

/-! ## How it is read -/

theorem IsGap.exists_cons {t : String} (h : IsGap t) : ∃ x rest, t.toList = x :: rest ∧ isBlank x = true := by
  cases ht : t.toList with
  | nil => exact absurd (String.toList_eq_nil_iff.mp ht) h.1
  | cons x rest => exact ⟨x, rest, rfl, h.2 x (by rw [ht]; exact List.mem_cons_self)⟩

namespace Grammar

variable {d b limit : Nat} {target : String} {jumps : List ElseJump}

/-- The characters of some alternatives. -/
def elseText (jumps : List ElseJump) : List Char :=
  jumps.flatMap (·.script.toList)

theorem elseText_cons (j : ElseJump) (jumps : List ElseJump) : elseText (j :: jumps) =
    j.before.toList ++ (['e', 'l', 's', 'e'] ++
      (j.behind.toList ++ ((Leaf.goto j.target).script.toList ++ elseText jumps))) := by
  simp [elseText, ElseJump.script, Leaf.script]

theorem stops_isNameChar_elseText (jumps : List ElseJump) : Stops isNameChar (elseText jumps) := by
  cases jumps with
  | nil => exact stops_nil
  | cons j jumps =>
    obtain ⟨x, rest, hx, hb⟩ := j.isGap_before.exists_cons
    rw [elseText_cons, hx]
    exact stops_cons.mpr (not_isNameChar_of_isBlank hb)

theorem dropWhile_elseText_cons (j : ElseJump) (jumps : List ElseJump) : (elseText (j :: jumps)).dropWhile isBlank =
    ['e', 'l', 's', 'e'] ++ (j.behind.toList ++ ((Leaf.goto j.target).script.toList ++ elseText jumps)) := by
  have hword : IsKeyword .elseWord ['e', 'l', 's', 'e'] := rfl
  rw [elseText_cons, dropWhile_append_of_stops j.isGap_before.2 (Keyword.stops_isBlank_of_begins (hword.begins _))]

theorem begins_else (j : ElseJump) (jumps : List ElseJump) :
    Keyword.elseWord.Begins ((elseText (j :: jumps)).dropWhile isBlank) := by
  have hword : IsKeyword .elseWord ['e', 'l', 's', 'e'] := rfl
  rw [dropWhile_elseText_cons]
  exact hword.begins _

theorem stops_isChainChar_elseText (jumps : List ElseJump) :
    Stops isChainChar ((elseText jumps).dropWhile isSpace) := by
  refine stops_of_stops_dropWhile (q := isBlank) (fun _ => not_of_isBlank (by decide)) ?_
  rw [dropWhile_dropWhile_of_imp fun _ => isBlank_of_isSpace]
  cases jumps with
  | nil => exact stops_nil
  | cons j jumps => exact (begins_else j jumps).stops_isChainChar

/-- The jump inside the branches, or one of the alternatives. -/
theorem jump_runs (ht : IsName target) (jumps : List ElseJump) :
    Runs (statement limit) d b ((Leaf.goto target).script.toList ++ elseText jumps) (.matched (.leaf (.goto target)))
      (elseText jumps) := by
  have hleaf : Runs leaf d b ((Leaf.goto target).script.toList ++ elseText jumps) (.matched (.goto target))
      (elseText jumps) := leaf_runs ht trivial (stops_isNameChar_elseText jumps)
  have hlink := chainLink_unmatched (d := d) (b := b) (stops_isChainChar_elseText jumps)
  exact statement_runs_of_chain (k := .goto) (by decide) ((Leaf.goto target).begins_script _) false
    (.bind hleaf (.foldMany_unmatched hlink _ _))

/-- An alternative behind a branch is its own. -/
theorem elseJump_runs (hd : d < limit) (j : ElseJump) (jumps : List ElseJump) :
    Runs (alternative (body limit (statement limit))) d b (elseText (j :: jumps))
      (.matched [.leaf (.goto j.target)]) (elseText jumps) := by
  have hbody : Runs (body limit (statement limit)) d b ((Leaf.goto j.target).script.toList ++ elseText jumps)
      (.matched [.leaf (.goto j.target)]) (elseText jumps) :=
    body_runs_of_statement hd (jump_runs j.isName_target jumps)
  have hstops : Stops isBlank ((Leaf.goto j.target).script.toList ++ elseText jumps) :=
    Keyword.stops_isBlank_of_begins ((Leaf.goto j.target).begins_script _)
  have hword : IsKeyword .elseWord ['e', 'l', 's', 'e'] := rfl
  rw [elseText_cons]
  exact alternative_runs_of_body j.isGap_before.2 hword (fun h => j.isGap_behind.1 (String.toList_eq_nil_iff.mp h))
    j.isGap_behind.2 hstops hbody

/-- Of the alternatives behind a branch it takes the first one. -/
theorem optional_elseJump_runs (hd : d < limit) (jumps : List ElseJump) :
    Runs (Rule.optional (alternative (body limit (statement limit)))) d b (elseText jumps)
      (.matched (jumps.head?.map fun j => [.leaf (.goto j.target)])) (elseText jumps.tail) := by
  cases jumps with
  | nil => exact .optional_unmatched (alternative_unmatched _ Bool.false_ne_true)
  | cons j jumps => exact .optional (elseJump_runs hd j jumps)

/-- The branches around a jump, as they are written. -/
def nestText (equations : List Equation) (target : String) : List Char :=
  equations.flatMap (·.script.toList) ++ (Leaf.goto target).script.toList

theorem nestText_cons (e : Equation) (inner : List Equation) (rest : List Char) :
    nestText (e :: inner) target ++ rest = ['i', 'f'] ++ ' ' ::
      (e.left.toList ++ '=' :: '=' :: (e.right.toList ++ ' ' :: (nestText inner target ++ rest))) := by
  simp [nestText, Equation.script]

theorem exists_begins_nestText (equations : List Equation) (rest : List Char) :
    ∃ k ∈ [Keyword.ifWord, .goto], k.Begins (nestText equations target ++ rest) := by
  cases equations with
  | nil => exact ⟨.goto, by decide, (Leaf.goto target).begins_script rest⟩
  | cons e inner =>
    have hif : IsKeyword .ifWord ['i', 'f'] := rfl
    rw [nestText_cons]
    exact ⟨.ifWord, by decide, hif.begins _⟩

/-- Each branch takes the first alternative that those inside it have left. -/
theorem nest_runs (ht : IsName target) (equations : List Equation) (hd : d + equations.length ≤ limit) :
    Runs (statement limit) d b (nestText equations target ++ elseText jumps) (.matched (nest target jumps equations))
      (elseText (jumps.drop equations.length)) := by
  -- from the inside out: what is left of the alternatives behind the inner branches begins with the one of this branch
  induction equations generalizing d with
  | nil => exact jump_runs ht jumps
  | cons e inner ih =>
    rw [List.length_cons] at hd
    obtain ⟨k, hk, hbegins⟩ : ∃ k ∈ [Keyword.ifWord, .goto],
        k.Begins (nestText inner target ++ elseText jumps) := exists_begins_nestText inner (elseText jumps)
    have hrelations : ∀ k ∈ [Keyword.ifWord, .goto], ∀ r ∈ Keyword.relations, k ≠ r := by decide
    have hcondition := condition_runs_of_isWord (d := d) (b := b) e.isWord_left e.isWord_right e.unequal e.last_ne
      (Keyword.stops_isBlank_of_begins hbegins) fun r hr => hbegins.beginsWithWord_of_ne (hrelations k hk r hr)
    have hthen : Runs (body limit (statement limit)) d b (nestText inner target ++ elseText jumps)
        (.matched [nest target jumps inner]) (elseText (jumps.drop inner.length)) :=
      body_runs_of_statement (by omega) (ih (by omega))
    have helse : Runs (Rule.optional (alternative (body limit (statement limit)))) d b
        (elseText (jumps.drop inner.length)) (.matched (jumps[inner.length]?.map fun j => [.leaf (.goto j.target)]))
        (elseText (jumps.drop (inner.length + 1))) := by
      rw [← List.head?_drop, ← List.tail_drop]
      exact optional_elseJump_runs (by omega) _
    have hif : IsKeyword .ifWord ['i', 'f'] := rfl
    rw [nestText_cons]
    refine statement_runs_of_begins (hif.begins _) (.orElse_matched ?_ _)
    have hblank := Keyword.stops_isBlank_of_begins hbegins
    exact branch_runs_of_body e.isWord_left.stops_isSpace hcondition hblank hthen helse

/-- An alternative that no branch takes is no statement. -/
theorem document_runs_nest (ht : IsName target) (equations : List Equation) (hd : equations.length ≤ limit) :
    Runs (document limit) 0 0 (nestText equations target ++ elseText jumps)
      (if jumps.length ≤ equations.length then .matched ⟨[nest target jumps equations]⟩ else .unmatched)
      ((elseText (jumps.drop equations.length)).dropWhile isBlank) := by
  obtain ⟨k, -, hbegins⟩ : ∃ k ∈ [Keyword.ifWord, .goto],
      k.Begins (nestText equations target ++ elseText jumps) := exists_begins_nestText equations (elseText jumps)
  have hnest : Runs (statement limit) 0 0 (nestText equations target ++ elseText jumps)
      (.matched (nest target jumps equations)) (elseText (jumps.drop equations.length)) :=
    nest_runs ht equations (by omega)
  have hblank : Stops isBlank (nestText equations target ++ elseText jumps) := Keyword.stops_isBlank_of_begins hbegins
  split
  · rename_i hlength
    rw [List.drop_eq_nil_of_le hlength] at hnest ⊢
    exact document_runs_of_statement hblank hnest
  · rename_i hlength
    cases hj : jumps.drop equations.length with
    | nil => exact absurd (List.drop_eq_nil_iff.mp hj) hlength
    | cons j others =>
      rw [hj] at hnest
      have helse := begins_else j others
      exact document_unmatched_of_statement hblank hnest (Keyword.ne_nil_of_begins helse)
        (statement_unmatched_of_else limit helse)

end Grammar

/-! ## What it is read as -/

theorem toList_nestScript (equations : List Equation) (target : String) (jumps : List ElseJump) :
    (nestScript equations target jumps).toList = nestText equations target ++ elseText jumps := by
  simp [nestScript, nestText, elseText, Leaf.script, List.flatMap_map]

/-- An `ELSE` belongs to the nearest branch that is still open. With no more of them than branches the script is
one nest of branches, of which as many have an alternative, the innermost first; with more it is not read. -/
theorem read_nest {limits : Limits} {target : String} (ht : IsName target) (equations : List Equation)
    (jumps : List ElseJump) :
    (jumps.length ≤ equations.length → equations.length ≤ limits.depth →
      (nestScript equations target jumps).utf8ByteSize ≤ limits.inputSize →
      Document.read limits (nestScript equations target jumps) = .ok ⟨[nest target jumps equations]⟩) ∧
    (equations.length < jumps.length →
      ∃ f, Document.read limits (nestScript equations target jumps) = .error f) := by
  constructor
  · intro hj hd hs
    have h := @document_runs_nest limits.depth target jumps ht equations hd
    rw [if_pos hj, ← toList_nestScript] at h
    exact read_of_runs hs h
  · intro hj
    -- under a limit that the nest does not reach, an alternative is left over; a smaller limit is no help
    have h := @document_runs_nest _ target jumps ht equations (Nat.le_max_right limits.depth equations.length)
    rw [if_neg (Nat.not_le.mpr hj), ← toList_nestScript] at h
    exact exists_error_of_runs (Nat.le_max_left ..) h

theorem read_nest_inner :
    Document.read {} "if a==b if c!=d==e goto x\r\n else\tgoto y" = .ok ⟨[.branch (.comparison "a" "==" "b") [
      .branch (.comparison "c!=d" "==" "e") [.leaf (.goto "x")] (some [.leaf (.goto "y")])] none]⟩ ∧
    ∃ f, Document.read {} "if a==b goto x else goto y\nelse goto z" = .error f := by
  have hx : IsName "x" := by decide +kernel
  let e : Equation := ⟨"a", "b", by decide, by decide, by decide, by decide⟩
  let i : Equation := ⟨"c!=d", "e", by decide, by decide, by decide, by decide⟩
  let y : ElseJump := ⟨"\r\n ", "\t", "y", by decide, by decide, by decide +kernel⟩
  let y' : ElseJump := ⟨" ", " ", "y", by decide, by decide, by decide +kernel⟩
  let z : ElseJump := ⟨"\n", " ", "z", by decide, by decide, by decide +kernel⟩
  constructor
  · exact (read_nest hx [e, i] [y]).1 (by decide) (by decide) (by decide +kernel)
  · exact (read_nest hx [e] [y', z]).2 (by decide)

end BatchScript
