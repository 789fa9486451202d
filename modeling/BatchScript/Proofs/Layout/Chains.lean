import BatchScript.Proofs.Grammar.Append
import BatchScript.Proofs.Session.Enclosed

/-!
# Chains in any layout

Leaves joined by chain operators, with spaces before an operator and any blanks and perhaps an `@` behind it, are
one chain that leans to the left (`read_chain`). The spaces before an operator belong to the message of an output
without redirections in front of it; otherwise the layout changes nothing.
-/

namespace BatchScript

open Text Grammar Rule

/-! ## The text -/

/-- A chain operator, the spaces before it, and the blanks and perhaps the `@` behind it. -/
structure Joint where
  before : String
  operator : ChainOperator
  behind : String
  marked : Bool
  isSpace_before : ∀ x ∈ before.toList, isSpace x = true
  isBlank_behind : ∀ x ∈ behind.toList, isBlank x = true

/-- The joint as it is written. -/
def Joint.script (k : Joint) : String :=
  k.before ++ k.operator.text ++ k.behind ++ atSign k.marked

/-- A joint and the leaf behind it. -/
structure Link extends Joint where
  leaf : Leaf

/-- The link as it is written. -/
def Link.script (k : Link) : String :=
  k.toJoint.script ++ k.leaf.script

/-- A leaf and the links behind it, as they are written. -/
def chainScript (first : Leaf) (links : List Link) : String :=
  first.script ++ String.join (links.map Link.script)

/-- A leaf as it is read in front of spaces: a message takes them, unless redirections stand between. -/
def Leaf.padded (spaces : String) : Leaf → Leaf
  | .emit message escapeMode [] => .emit (message ++ spaces) escapeMode []
  | l => l

/-- The spaces behind the leaf in front of some links; behind the last leaf of all they are `after`. -/
def spacesBehind (after : String) : List Link → String
  | [] => after
  | k :: _ => k.before

/-- The operators of some links and the leaves they join. -/
def linkValues (after : String) : List Link → List (ChainOperator × Leaf)
  | [] => []
  | k :: others => (k.operator, k.leaf.padded (spacesBehind after others)) :: linkValues after others

/-- The chain of a leaf and the links behind it. -/
def chainOf (after : String) (first : Leaf) (links : List Link) : Statement :=
  (linkValues after links).foldl (fun left (operator, right) => .chain left operator (.leaf right))
    (.leaf (first.padded (spacesBehind after links)))

/-! ## Leaves in front of spaces -/

/-- The spaces that a leaf in front of them does not take. -/
def Leaf.spacesLeft (spaces : String) : Leaf → String
  | .emit _ _ [] => ""
  | _ => spaces

namespace Grammar

variable {d b limit : Nat} {inBlock : Bool} {rest : List Char} {l : Leaf} {spaces after : String}

theorem script_padded (l : Leaf) (spaces : String) :
    (l.padded spaces).script.toList ++ (l.spacesLeft spaces).toList = l.script.toList ++ spaces.toList := by
  cases l with
  | emit message escapeMode redirections => cases redirections <;> simp [Leaf.padded, Leaf.spacesLeft, Leaf.script]
  | _ => rfl

theorem spacesLeft_cases (l : Leaf) (spaces : String) : l.spacesLeft spaces = "" ∨ l.spacesLeft spaces = spaces := by
  cases l with
  | emit message escapeMode redirections =>
    cases redirections with
    | nil => exact .inl rfl
    | cons r others => exact .inr rfl
  | _ => exact .inr rfl

theorem wellFormed_padded (hs : ∀ x ∈ spaces.toList, isSpace x = true) (hw : l.WellFormed) :
    (l.padded spaces).WellFormed := by
  cases l with
  | emit message escapeMode redirections =>
    cases redirections with
    | nil =>
      refine ⟨fun x hx => ?_, by simp, by simp⟩
      obtain hx | hx := List.mem_append.mp (String.toList_append ▸ hx)
      · exact hw.1 x hx
      · have hb := isBlank_of_isSpace (hs x hx)
        have hl : isLineBreak x = false := by simpa [isSpace, hb] using hs x hx
        exact ⟨hl, not_of_isBlank (by decide) hb, not_of_isBlank (by decide) hb⟩
    | cons r others => exact hw
  | _ => exact hw

theorem plain_padded (hs : ∀ x ∈ spaces.toList, isSpace x = true) (hp : l.Plain inBlock) :
    (l.padded spaces).Plain inBlock := by
  cases l with
  | emit message escapeMode redirections =>
    cases redirections with
    | nil =>
      refine ⟨fun x hx => ?_, by simp⟩
      obtain hx | hx := List.mem_append.mp (String.toList_append ▸ hx)
      · exact hp.1 x hx
      · have hb := isBlank_of_isSpace (hs x hx)
        have hparen : (x == ')') = false := not_of_isBlank (p := (· == ')')) (by decide) hb
        rw [closesBlock, hparen, Bool.and_false]
    | cons r others => exact hp
  | _ => exact hp

/-- In front of spaces and an operator a leaf ends at the operator or before the spaces. -/
theorem ends_padded (hl : l.takesLine = false) (hs : ∀ x ∈ spaces.toList, isSpace x = true) (hr : EndsLeaf rest) :
    (l.padded spaces).Ends inBlock ((l.spacesLeft spaces).toList ++ rest) := by
  have hspace : Stops isSpace rest := hr.stops (by decide)
  have hdrop : (spaces.toList ++ rest).dropWhile isSpace = rest := dropWhile_append_of_stops hs hspace
  cases l with
  | comment text => cases hl
  | assignment name value => cases hl
  | goto target =>
    apply stops_append
    · exact fun x hx => not_isNameChar_of_isBlank (isBlank_of_isSpace (hs x hx))
    · exact hr.stops (by decide +kernel)
  | invoke target arguments =>
    show Stops _ ((spaces.toList ++ rest).dropWhile isSpace)
    rw [hdrop]
    cases inBlock <;> exact hr.stops (by decide)
  | emit message escapeMode redirections =>
    cases redirections with
    | nil => exact hr.ends nofun
    | cons r others =>
      refine ⟨?_, nofun⟩
      show Stops _ ((spaces.toList ++ rest).dropWhile isSpace)
      rw [hdrop]
      exact hr.stops (by decide)

/-! ## Links one behind another -/

/-- A leaf in front of spaces, if it ends there. -/
theorem leaf_runs_padded (hs : ∀ x ∈ spaces.toList, isSpace x = true) (hw : l.WellFormed)
    (hp : l.Plain (decide (0 < b)))
    (hr : (l.padded spaces).Ends (decide (0 < b)) ((l.spacesLeft spaces).toList ++ rest)) :
    Runs leaf d b (l.script.toList ++ (spaces.toList ++ rest)) (.matched (l.padded spaces))
      ((l.spacesLeft spaces).toList ++ rest) := by
  rw [← List.append_assoc, ← script_padded, List.append_assoc]
  exact leaf_runs (wellFormed_padded hs hw) (plain_padded hs hp) hr

/-- The characters of some links. -/
def linksText (links : List Link) : List Char :=
  links.flatMap (·.script.toList)

theorem linksText_cons (k : Link) (others : List Link) : linksText (k :: others) = k.before.toList ++
    (k.operator.text.toList ++ (k.behind.toList ++ ((atSign k.marked).toList ++ (k.leaf.script.toList ++
      linksText others)))) := by
  simp [linksText, Link.script, Joint.script]

/-- A leaf and the links behind it, if the last leaf ends in front of the spaces `after` and there is no other
link there. -/
theorem links_rounds (first : Leaf) (links : List Link) (ha : ∀ x ∈ after.toList, isSpace x = true)
    (hw : ∀ l ∈ first :: links.map Link.leaf, l.WellFormed ∧ l.Plain (decide (0 < b)))
    (hline : ∀ l ∈ (first :: links.map Link.leaf).dropLast, l.takesLine = false)
    (hlast : ∀ l ∈ (first :: links.map Link.leaf).getLast?,
      (l.padded after).Ends (decide (0 < b)) ((l.spacesLeft after).toList ++ rest))
    (hnone : ∀ spaces : List Char, (∀ x ∈ spaces, isSpace x = true) →
      Runs chainLink d b (spaces ++ rest) .unmatched (spaces ++ rest)) :
    ∃ i spaces, (spaces = "" ∨ spaces = after) ∧
      Runs leaf d b (first.script.toList ++ (linksText links ++ (after.toList ++ rest)))
        (.matched (first.padded (spacesBehind after links))) i ∧
      Runs.Rounds chainLink d b i (linkValues after links) (spaces.toList ++ rest) := by
  -- the leaf of a link is the first one of the links behind it, so the induction is for any first leaf
  induction links generalizing first with
  | nil =>
    obtain ⟨hwf, hp⟩ := hw first List.mem_cons_self
    refine ⟨_, _, spacesLeft_cases first after, leaf_runs_padded ha hwf hp (hlast first rfl), .nil (hnone _ ?_)⟩
    obtain h | h := spacesLeft_cases first after <;> rw [h]
    · simp
    · exact ha
  | cons k others ih =>
    obtain ⟨⟨hwf, hp⟩, hw⟩ := List.forall_mem_cons.mp hw
    rw [List.map_cons, List.dropLast_cons_cons, List.forall_mem_cons] at hline
    rw [List.map_cons, List.getLast?_cons_cons] at hlast
    obtain ⟨i, spaces, hspaces, hleaf, hrounds⟩ := ih k.leaf hw hline.2 hlast
    have hend : EndsLeaf (k.operator.text.toList ++ (k.behind.toList ++ ((atSign k.marked).toList ++
        (k.leaf.script.toList ++ (linksText others ++ (after.toList ++ rest)))))) := endsLeaf_operator k.operator
    have hfirst := leaf_runs_padded (d := d) k.isSpace_before hwf hp (ends_padded hline.1 k.isSpace_before hend)
    have hleft : ∀ x ∈ (first.spacesLeft k.before).toList, isSpace x = true := by
      obtain h | h := spacesLeft_cases first k.before <;> rw [h]
      · simp
      · exact k.isSpace_before
    have hlink := chainLink_runs_of_leaf hleft k.operator k.isBlank_behind k.marked
      (k.leaf.begins_script (linksText others ++ (after.toList ++ rest))) hleaf
    refine ⟨_, spaces, hspaces, ?_, .cons hlink (chainLink_gains.length_lt hlink) hrounds⟩
    rw [linksText_cons]
    simp only [List.append_assoc]
    exact hfirst

end Grammar

/-! ## What it is read as -/

theorem toList_chainScript (first : Leaf) (links : List Link) :
    (chainScript first links).toList = first.script.toList ++ linksText links := by
  simp [chainScript, linksText, List.flatMap_map]

/-- Leaves joined by operators are one chain that leans to the left, in any layout. Only the last leaf may take the
rest of its line. -/
theorem read_chain {limits : Limits} (first : Leaf) (links : List Link)
    (hw : ∀ l ∈ first :: links.map Link.leaf, l.WellFormed ∧ l.Plain false)
    (hline : ∀ l ∈ (first :: links.map Link.leaf).dropLast, l.takesLine = false)
    (hs : (chainScript first links).utf8ByteSize ≤ limits.inputSize) :
    Document.read limits (chainScript first links) = .ok ⟨[chainOf "" first links]⟩ := by
  have hnone : ∀ spaces : List Char, (∀ x ∈ spaces, isSpace x = true) →
      Runs chainLink 0 0 (spaces ++ []) .unmatched (spaces ++ []) := by
    intro spaces hspaces
    apply chainLink_unmatched
    rw [dropWhile_append_of_stops hspaces stops_nil]
    exact stops_nil
  have hlast : ∀ l ∈ (first :: links.map Link.leaf).getLast?,
      (l.padded "").Ends false ((l.spacesLeft "").toList ++ []) := by
    intro l _
    obtain h | h := spacesLeft_cases l "" <;> rw [h] <;> exact ends_nil _
  have hempty : ∀ x ∈ "".toList, isSpace x = true := by simp
  obtain ⟨i, spaces, hspaces, hleaf, hrounds⟩ := links_rounds (d := 0) (b := 0) first links hempty hw hline hlast hnone
  obtain rfl : spaces = "" := hspaces.elim id id
  have hchain : Runs chain 0 0 _ (.matched (chainOf "" first links)) [] := .bind hleaf (hrounds.foldMany _ _)
  have hscript : (chainScript first links).toList = first.script.toList ++ (linksText links ++ ("".toList ++ [])) := by
    simp [toList_chainScript]
  have hbegins := first.begins_script (linksText links ++ ("".toList ++ []))
  have hblank := Keyword.stops_isBlank_of_begins hbegins
  apply read_of_runs hs
  rw [hscript]
  refine document_runs_of_statement hblank ?_
  exact statement_runs_of_chain first.keyword_mem hbegins false hchain

/-- The message in front of two spaces takes them; the call and the redirections do not. -/
theorem read_chain_spaces :
    Document.read {} "echo.a  &&\n@goto t |call \"x\" \"y\"\t||  echo:b1 >\"f\" & rem c\nrem d" =
      .ok ⟨[.chain (.chain (.chain (.chain (.leaf (.emit "a  " false [])) .onSuccess (.leaf (.goto "t")))
        .pipe (.leaf (.invoke "x" ["y"]))) .onFailure (.leaf (.emit "b1 " true [⟨">", "f"⟩]))) .sequence
        (.leaf (.comment "c\nd"))]⟩ := by
  let links : List Link := [⟨⟨"  ", .onSuccess, "\n", true, by decide, by decide⟩, .goto "t"⟩,
    ⟨⟨" ", .pipe, "", false, by decide, by decide⟩, .invoke "x" ["y"]⟩,
    ⟨⟨"\t", .onFailure, "  ", false, by decide, by decide⟩, .emit "b1 " true [⟨">", "f"⟩]⟩,
    ⟨⟨" ", .sequence, " ", false, by decide, by decide⟩, .comment "c\nd"⟩]
  have hread : Document.read {} (chainScript (.emit "a" false []) links) = _ :=
    read_chain (.emit "a" false []) links (by decide +kernel) (by decide) (by decide +kernel)
  have hscript : chainScript (.emit "a" false []) links =
      "echo.a  &&\n@goto t |call \"x\" \"y\"\t||  echo:b1 >\"f\" & rem c\nrem d" := by decide +kernel
  rw [← hscript, hread]
  decide +kernel

end BatchScript
