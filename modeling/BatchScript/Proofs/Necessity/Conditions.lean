import BatchScript.Proofs.Grammar.Texts
import BatchScript.Proofs.Necessity.Leaves
import BatchScript.Proofs.RoundTrip.Conditions

/-!
# Conditions that have to be plain

A condition that is what its own script is read as is plain and does not look negated
(`condition_plain`). Otherwise a kind of condition that is tried earlier would match: a
question for a path (`existence_ne_unmatched`), a relation (`relation_matches`), or, behind a
`NOT`, an equation (`equation_matches`).
-/

namespace BatchScript.Grammar

open Text Cursor Rule

variable {d b : Nat} {line rest : List Char} {x : Char} {s t : State}

/-! ## Blanks on a line -/

theorem isSpace_of_isBlank {y : Char} (hl : isLineBreak y = false) (hb : isBlank y = true) : isSpace y = true := by
  rw [isSpace, hb, hl]; rfl

theorem dropWhile_isSpace (hline : ∀ y ∈ line, isLineBreak y = false) :
    line.dropWhile isSpace = line.dropWhile isBlank := by
  induction line with
  | nil => rfl
  | cons y line ih =>
    obtain ⟨hy, hline⟩ := List.forall_mem_cons.mp hline
    have : isSpace y = isBlank y := by rw [isSpace, hy, Bool.not_false, Bool.and_true]
    rw [List.dropWhile_cons, List.dropWhile_cons, this, ih hline]

/-- Where a text does not end with a blank, nothing at its end is only spaces. -/
theorem dropWhile_isSpace_ne_nil {text tail : List Char} (h : Stops isBlank text.reverse) (ht : tail <:+ text)
    (hne : tail ≠ []) : tail.dropWhile isSpace ≠ [] := by
  intro e
  have hs : tail.takeWhile isSpace = tail := by
    simpa [e] using List.takeWhile_append_dropWhile (p := isSpace) (l := tail)
  obtain ⟨y, ys, hy⟩ := List.exists_cons_of_ne_nil (List.reverse_ne_nil_iff.mpr hne)
  have hb := h.of_front (List.reverse_prefix.mpr ht)
  rw [hy, stops_cons] at hb
  have hm : isSpace y = true := of_mem_takeWhile (hs ▸ List.mem_reverse.mp (hy ▸ List.mem_cons_self))
  rw [isSpace, hb] at hm
  cases hm

/-- In front of a character that is no blank, spaces on a line end at a character that is none. -/
theorem not_stops_dropWhile_isSpace (hline : ∀ y ∈ line, isLineBreak y = false) (hx : isBlank x = false) :
    ¬ Stops (fun y => !isBlank y) ((line ++ x :: rest).dropWhile isSpace) := by
  induction line with
  | nil =>
    rw [List.nil_append, List.dropWhile_cons_of_neg (by simp [not_isSpace_of_not_isBlank hx]), stops_cons, hx]
    decide
  | cons y line ih =>
    obtain ⟨hy, hline⟩ := List.forall_mem_cons.mp hline
    rw [List.cons_append, List.dropWhile_cons]
    split
    · exact ih hline
    · rename_i hs
      rw [stops_cons]
      intro hb
      exact hs (isSpace_of_isBlank hy (by simpa using hb))

/-- Behind a keyword with a blank behind it there are spaces. -/
theorem spaces_runs_of_beginsWithKeyword {k : Keyword} (hline : ∀ y ∈ line, isLineBreak y = false)
    (h : beginsWithKeyword k line = true) :
    (line ++ rest).drop k.text.toList.length = line.drop k.text.toList.length ++ rest ∧
      Runs spaces d b (line.drop k.text.toList.length ++ rest) (.matched ())
        ((line.drop k.text.toList.length ++ rest).dropWhile isSpace) := by
  obtain ⟨hb, hn⟩ := beginsWithKeyword_iff.mp h
  obtain ⟨y, hy, hblank⟩ := (Option.any_eq_true _ _).mp hn
  have hs : isSpace y = true := isSpace_of_isBlank (hline y (List.mem_of_getElem? hy)) hblank
  refine ⟨List.drop_append_of_le_length (length_le_of_beginsWithWord hb), spaces_runs_of_not_stops fun hstop => ?_⟩
  have := hstop y (by rw [List.head?_append, List.head?_drop, hy]; rfl)
  rw [hs] at this
  cases this

theorem beginsWithKeyword_front {k : Keyword} {text : List Char} (h : beginsWithKeyword k text = true)
    (rest : List Char) : beginsWithKeyword k (text ++ rest) = true := by
  rw [beginsWithKeyword_iff] at h ⊢
  obtain ⟨y, hy, hblank⟩ := (Option.any_eq_true _ _).mp h.2
  obtain ⟨hl, -⟩ := List.getElem?_eq_some_iff.mp hy
  exact ⟨Keyword.begins_append h.1 rest, by rw [List.getElem?_append_left hl]; exact h.2⟩

theorem beginsWithKeyword_of_isKeyword {k : Keyword} {word : List Char} (h : IsKeyword k word)
    (rest : List Char) : beginsWithKeyword k (word ++ ' ' :: rest) = true := by
  rw [beginsWithKeyword_iff]
  refine ⟨h.begins _, ?_⟩
  rw [← h.length_eq, List.getElem?_append_right (Nat.le_refl _), Nat.sub_self]
  rfl

/-! ## Conditions that match -/

/-- At `EXIST` and spaces a question for a path is read. -/
theorem existence_ne_unmatched (hline : ∀ y ∈ line, isLineBreak y = false)
    (h : beginsWithKeyword .exist line = true) (hx : isBlank x = false) (hs : s.At d b (line ++ x :: rest)) :
    existence s ≠ (.unmatched, t) := by
  intro e
  obtain ⟨-, _, e⟩ := attempt_unmatched e
  have hb : Keyword.exist.Begins (line ++ x :: rest) := Keyword.begins_append (beginsWithKeyword_iff.mp h).1 _
  obtain ⟨hdrop, hspaces⟩ := spaces_runs_of_beginsWithKeyword (d := d) (b := b) hline h
  obtain ⟨_, hs, e⟩ := hs.behind e (keyword_runs_of_begins hb)
  rw [hdrop] at hs
  obtain ⟨_, hs, e⟩ := hs.behind e hspaces
  obtain e | ⟨_, _, _, e⟩ := bind_unmatched e
  · obtain ⟨_, hq, e⟩ := orElse_unmatched e
    cases scan?_unmatched hq
    obtain ⟨_, hl, -⟩ := orElse_unmatched e
    have htail : ∀ y ∈ line.drop Keyword.exist.text.toList.length, isLineBreak y = false :=
      fun y hy => hline y (List.mem_of_mem_drop hy)
    cases (hs.outcome hl (word_runs (not_stops_dropWhile_isSpace htail hx))).1
  · cases e

theorem relationKeyword_runs {k : Keyword} {i : List Char} (hk : k ∈ Keyword.relations)
    (h : beginsWithKeyword k i = true) :
    ∃ operator, Runs (.scan? relationKeyword?) d b i (.matched operator) (i.drop k.text.toList.length) := by
  have hlen : ∀ j ∈ Keyword.relations, ∀ k ∈ Keyword.relations, j.text.toList.length = k.text.toList.length := by
    decide
  cases hf : Keyword.relations.find? fun k => beginsWithKeyword k i with
  | none => exact absurd h (List.find?_eq_none.mp hf k hk)
  | some j =>
    refine ⟨.ofList (i.take j.text.toList.length), .scan? fun c hc => ⟨c.skip j.text.toList.length, ?_, ?_⟩⟩
    · rw [relationKeyword?_eq, hc, hf, Option.map_some]
    · rw [rest_skip, hc, hlen j (List.mem_of_find?_eq_some hf) k hk]

/-- A relational keyword behind the first word of a line makes a relation. -/
theorem relation_matches (hline : ∀ y ∈ line, isLineBreak y = false) (hfirst : Stops isBlank line)
    (h : beginsWithRelation line = true) (hx : isBlank x = false) :
    ∃ c j, Runs relation d b (line ++ x :: rest) (.matched c) j := by
  obtain ⟨k, hk, hrel⟩ := List.any_eq_true.mp h
  -- behind the first word stands `u`, which is spaces and `m`, and `m` begins with the keyword
  generalize hu : line.dropWhile (fun y => !isBlank y) = u at hrel
  generalize hm : u.dropWhile isBlank = m at hrel
  have hm' : m ≠ [] := Keyword.ne_nil_of_begins (beginsWithKeyword_iff.mp hrel).1
  have hu' : u ≠ [] := by
    rintro rfl
    exact hm' hm.symm
  have huline : ∀ y ∈ u, isLineBreak y = false := fun y hy => hline y ((hu ▸ List.dropWhile_suffix _).mem hy)
  have hmline : ∀ y ∈ m, isLineBreak y = false := fun y hy => huline y ((hm ▸ List.dropWhile_suffix _).mem hy)
  have hword : ¬ Stops (fun y => !isBlank y) (line ++ x :: rest) := by
    cases line with
    | nil => exact absurd hu.symm hu'
    | cons y line => rw [List.cons_append, stops_cons, stops_cons.mp hfirst]; decide
  have hspaces : ¬ Stops isSpace (u ++ x :: rest) := by
    cases u with
    | nil => exact absurd rfl hu'
    | cons y u =>
      have hy : (!isBlank y) = false := stops_cons.mp (hu ▸ stops_dropWhile (fun y => !isBlank y) line)
      rw [List.cons_append, stops_cons, isSpace_of_isBlank (huline y List.mem_cons_self) (by simpa using hy)]
      decide
  have hleft := operand_runs_of_not_stops (d := d) (b := b) hword
  rw [dropWhile_append_of_ne_nil (hu ▸ hu'), hu] at hleft
  have hbefore := spaces_runs_of_not_stops (d := d) (b := b) hspaces
  rw [dropWhile_append_of_ne_nil (by rwa [dropWhile_isSpace huline, hm]), dropWhile_isSpace huline, hm] at hbefore
  obtain ⟨operator, hoperator⟩ := relationKeyword_runs (d := d) (b := b) hk (beginsWithKeyword_front hrel (x :: rest))
  obtain ⟨hdrop, hbehind⟩ := @spaces_runs_of_beginsWithKeyword d b m (x :: rest) k hmline hrel
  rw [hdrop] at hoperator
  have htail : ∀ y ∈ m.drop k.text.toList.length, isLineBreak y = false := fun y hy =>
    hmline y (List.mem_of_mem_drop hy)
  have hright := operand_runs_of_not_stops (d := d) (b := b) (@not_stops_dropWhile_isSpace _ rest _ htail hx)
  exact ⟨_, _, .attempt (.bind hleft (.bind hbefore (.bind (.orElse_matched hoperator _)
    (.bind hbehind (.bind hright (.pure _))))))⟩

/-- On a line with `==` the search for the end of a left side ends at `==`. -/
theorem exists_front_of_infix (hline : ∀ y ∈ line, isLineBreak y = false) (hin : ['=', '='] <:+: line) (i : List Char) :
    ∃ front tail, line = front ++ '=' :: '=' :: tail ∧ lengthBefore endsLeftSide 0 (line ++ i) = front.length := by
  obtain ⟨u, v, huv⟩ := hin
  have hl : u.length + 2 ≤ line.length := by simp [← huv]
  have hn : lengthBefore endsLeftSide 0 (line ++ i) ≤ u.length :=
    lengthBefore_le (by simp [← huv, endsLeftSide]) (by rw [List.length_append]; omega)
  have hstop := @stop_drop_lengthBefore endsLeftSide (line ++ i)
  generalize lengthBefore endsLeftSide 0 (line ++ i) = n at hn hstop
  have hdrop : (line ++ i).drop n = line.drop n ++ i := List.drop_append_of_le_length (by omega)
  have hlen : (line.take n).length = n := List.length_take_of_le (by omega)
  rcases hd : line.drop n with _ | ⟨y, _ | ⟨z, tail⟩⟩
  · exact absurd (congrArg List.length hd) (by rw [List.length_drop, List.length_nil]; omega)
  · exact absurd (congrArg List.length hd) (by rw [List.length_drop, List.length_singleton]; omega)
  · have hy : isLineBreak y = false := hline y (List.mem_of_mem_drop (by rw [hd]; exact List.mem_cons_self))
    rw [hdrop, hd, List.cons_append, endsLeftSide, List.head?_cons, Option.any_some, hy, Bool.or_false,
      List.isPrefixOf_iff_prefix] at hstop
    obtain ⟨rfl, hz⟩ := List.cons_prefix_cons.mp (hstop (List.cons_ne_nil _ _))
    rw [List.cons_append, List.cons_prefix_cons] at hz
    obtain ⟨rfl, -⟩ := hz
    exact ⟨line.take n, tail, by rw [← hd, List.take_append_drop], hlen.symm⟩

/-- On a line with `==` that does not begin with it there is an equation. -/
theorem equation_matches (hline : ∀ y ∈ line, isLineBreak y = false) (hfirst : Stops isBlank line)
    (hfront : ¬ ['=', '='] <+: line) (hin : ['=', '='] <:+: line) (hx : isBlank x = false) :
    ∃ c j, Runs equation d b (line ++ x :: rest) (.matched c) j := by
  obtain ⟨front, tail, rfl, hlen⟩ := exists_front_of_infix hline hin (x :: rest)
  rw [List.append_assoc, List.cons_append, List.cons_append] at hlen ⊢
  have hbefore : Runs (.scan (·.upTo endsLeftSide)) d b (front ++ '=' :: '=' :: (tail ++ x :: rest))
      (.matched (.ofList front)) ('=' :: '=' :: (tail ++ x :: rest)) := by
    refine .scan fun c hc => ⟨?_, ?_⟩
    · rw [upTo, hc, hlen, List.take_left]
    · rw [upTo, rest_skip, hc, hlen, List.drop_left]
  have htrim : trim front ≠ [] :=
    trim_ne_nil (hfirst.of_front (List.prefix_append _ _)) fun h => hfront ⟨tail, by rw [h]; rfl⟩
  have htail : ∀ y ∈ tail, isLineBreak y = false := fun y hy => hline y (by simp [hy])
  exact ⟨_, _, equation_runs_of_leftSide hbefore htrim (@not_stops_dropWhile_isSpace _ rest _ htail hx)⟩

/-! ## Simple conditions -/

theorem existence_yields_pathExists : Yields existence fun c => ∃ path, c = .pathExists path :=
  .attempt <| .after fun _ => .after fun _ => .after fun path => .pure ⟨path, rfl⟩

theorem relation_yields_isRelation : Yields relation fun c => ∃ l o r, c = .comparison l o r ∧ IsRelation o :=
  .attempt <| .after fun l => .after fun _ =>
    .bind (A := IsRelation) (.orElse (.scan? isRelation_of_relationKeyword?) (.failAll _)) fun o ho =>
      .after fun _ => .after fun r => .pure ⟨l, o, r, rfl, ho⟩

theorem equation_yields_comparison : Yields equation fun c => ∃ l r, c = .comparison l "==" r :=
  .attempt <| .after fun _ => .after fun _ => .after fun _ => .after fun _ => .after fun _ =>
    .after fun r => .pure ⟨_, r, rfl⟩

/-- The left side of an equation is at most what stands before any `==` of the line. -/
theorem length_le_of_equation {left right front : String} (hs : s.At d b (front.toList ++ '=' :: '=' :: rest))
    (e : equation s = (.matched (.comparison left "==" right), t)) : left.toList.length ≤ front.toList.length := by
  obtain ⟨before, _, hbefore, e⟩ := bind_matched (attempt_matched.mp e)
  obtain ⟨_, _, -, e⟩ := bind_matched e
  obtain ⟨_, _, -, e⟩ := bind_matched e
  obtain ⟨_, _, -, e⟩ := bind_matched e
  obtain ⟨_, _, -, e⟩ := bind_matched e
  obtain ⟨_, _, -, e⟩ := bind_matched e
  cases e
  cases hbefore
  have hn : lengthBefore endsLeftSide 0 (front.toList ++ '=' :: '=' :: rest) ≤ front.toList.length :=
    lengthBefore_le (by simp [endsLeftSide]) (by simp)
  have ht := List.IsInfix.length_le <| trim_infix (s.cursor.upTo endsLeftSide).1.toList
  simp only [upTo, hs.rest, String.toList_ofList, List.length_take] at ht ⊢
  omega

theorem pathExists_plain {path : String} (hs : s.At d b ((Condition.pathExists path).script.toList ++ rest))
    (e : simpleCondition s = (.matched (.pathExists path), t)) : (Condition.pathExists path).Plain := by
  obtain e | ⟨_, -, e⟩ := orElse_matched e
  · rw [toList_script_pathExists] at hs
    obtain ⟨_, hs, e⟩ := hs.behind (attempt_matched.mp e) (keyword_runs rfl)
    obtain ⟨_, hs, e⟩ := hs.behind e (spaces_runs (stops_cons.mpr (by decide)))
    obtain ⟨_, _, hpath, e⟩ := bind_matched e
    cases e
    exact not_mem_of_quoted hs hpath
  · obtain e | ⟨_, -, e⟩ := orElse_matched e
    · obtain ⟨_, _, _, h, -⟩ := relation_yields_isRelation trivial e
      cases h
    · obtain ⟨_, _, h⟩ := equation_yields_comparison trivial e
      cases h

/-- A comparison is read where there is no question for a path. -/
theorem existence_unmatched_of_comparison {left operator right : String}
    (e : simpleCondition s = (.matched (.comparison left operator right), t)) :
    ∃ u, existence s = (.unmatched, u) ∧ u.cursor = s.cursor ∧
      (relation <|> equation) u = (.matched (.comparison left operator right), t) := by
  obtain e | ⟨u, hu, e⟩ := orElse_matched e
  · obtain ⟨_, h⟩ := existence_yields_pathExists trivial e
    cases h
  · exact ⟨u, hu, (attempt_unmatched hu).1, e⟩

theorem relational_plain {left operator right : String} (ho : operator ≠ "==") (hrel : IsRelation operator)
    (hl : IsWord left) (hs : s.At d b ((Condition.comparison left operator right).script.toList ++ ' ' :: rest))
    (e : simpleCondition s = (.matched (.comparison left operator right), t)) :
    (Condition.comparison left operator right).Plain := by
  obtain ⟨u, hu, -, -⟩ := existence_unmatched_of_comparison e
  rw [Condition.Plain, if_neg ho]
  intro hk
  obtain ⟨x, word, hx, hb⟩ := hrel.isWord.exists_cons
  have hline : ∀ y ∈ left.toList ++ [' '], isLineBreak y = false :=
    List.forall_mem_append.mpr ⟨fun y hy => not_isLineBreak_of_not_isBlank (hl.2 y hy), by decide⟩
  have hs : s.At d b (left.toList ++ [' '] ++ x :: (word ++ ' ' :: (right.toList ++ ' ' :: rest))) := by
    rw [toList_script_relation ho, hx] at hs
    simpa using hs
  exact existence_ne_unmatched hline (beginsWithKeyword_of_isKeyword hk []) hb hs hu

theorem equation_plain {left right : String} (hl : IsLeftSide left)
    (hs : s.At d b ((Condition.comparison left "==" right).script.toList ++ ' ' :: rest))
    (e : simpleCondition s = (.matched (.comparison left "==" right), t)) :
    (Condition.comparison left "==" right).Plain := by
  obtain ⟨u, hexist, hu, e⟩ := existence_unmatched_of_comparison e
  obtain ⟨v, hrelation, e⟩ : ∃ v, relation u = (.unmatched, v) ∧
      equation v = (.matched (.comparison left "==" right), t) := by
    obtain e | hv := orElse_matched e
    · obtain ⟨_, _, _, h, ho⟩ := relation_yields_isRelation trivial e
      cases h
      exact absurd ho (by decide)
    · exact hv
  have hv := (attempt_unmatched hrelation).1
  rw [toList_script_equation] at hs
  have hsu : u.At u.depth u.blockDepth (left.toList ++ '=' :: ('=' :: right.toList ++ ' ' :: rest)) :=
    ⟨by rw [hu, hs.rest], rfl, rfl⟩
  have hstart : Stops isBlank left.toList := hl.2.1 ▸ stops_trim _
  rw [Condition.Plain, if_pos rfl]
  refine ⟨fun hlast => ?_, ?_, ?_⟩
  · obtain ⟨front, hfront⟩ := List.getLast?_eq_some_iff.mp hlast
    have hsv : v.At v.depth v.blockDepth ((String.ofList front).toList ++ '=' :: '=' ::
        ('=' :: right.toList ++ ' ' :: rest)) := ⟨by rw [hv, hsu.rest, hfront]; simp, rfl, rfl⟩
    have := length_le_of_equation hsv e
    rw [hfront, String.toList_ofList, List.length_append, List.length_singleton] at this
    omega
  · rw [← Bool.not_eq_true]
    exact fun hk => existence_ne_unmatched hl.2.2.1 hk (by decide) hs hexist
  · rw [← Bool.not_eq_true]
    intro hk
    obtain ⟨c, j, hruns⟩ := relation_matches hl.2.2.1 hstart hk (x := '=') (by decide)
    cases (hsu.outcome hrelation hruns).1

theorem simpleCondition_plain {c : Condition} (hw : c.WellFormed) (hn : c.isNegated = false)
    (hs : s.At d b (c.script.toList ++ ' ' :: rest)) (e : simpleCondition s = (.matched c, t)) : c.Plain := by
  cases c with
  | negated _ => cases hn
  | pathExists path => exact pathExists_plain hs e
  | comparison left operator right =>
    rcases hw with ⟨ho, hl, -⟩ | ⟨rfl, hl, -⟩
    · have hne : operator ≠ "==" := by
        rintro rfl
        exact absurd ho (by decide)
      exact relational_plain hne ho hl hs e
    · exact equation_plain hl hs e

/-! ## Negations -/

theorem simpleCondition_ne_unmatched {i : List Char} (hs : s.At d b i)
    (h : (∀ d b, ∃ c j, Runs relation d b i (.matched c) j) ∨ ∀ d b, ∃ c j, Runs equation d b i (.matched c) j) :
    simpleCondition s ≠ (.unmatched, t) := by
  intro e
  obtain ⟨u, hu, e⟩ := orElse_unmatched e
  obtain ⟨v, hv, e⟩ := orElse_unmatched e
  have hu := (attempt_unmatched hu).1
  have hsu : u.At u.depth u.blockDepth i := ⟨by rw [hu, hs.rest], rfl, rfl⟩
  rcases h with h | h
  · obtain ⟨c, j, hruns⟩ := h u.depth u.blockDepth
    cases (hsu.outcome hv hruns).1
  · have hv := (attempt_unmatched hv).1
    have hsv : v.At v.depth v.blockDepth i := ⟨by rw [hv, hsu.rest], rfl, rfl⟩
    obtain ⟨c, j, hruns⟩ := h v.depth v.blockDepth
    cases (hsv.outcome e hruns).1

/-- Behind a keyword and spaces there is more of the left side of an equation. -/
theorem dropWhile_isSpace_of_isLeftSide {k : Keyword} {left : String} (hl : IsLeftSide left)
    (hk : beginsWithKeyword k left.toList = true) {v : List Char}
    (hv : (left.toList.drop k.text.toList.length).dropWhile isSpace = v) :
    v ≠ [] ∧ v <:+ left.toList ∧ Stops isBlank v := by
  obtain ⟨-, htrim, hline, -⟩ := hl
  have hsuffix := List.drop_suffix k.text.toList.length left.toList
  have hne : left.toList.drop k.text.toList.length ≠ [] := by
    intro h
    have hn := (beginsWithKeyword_iff.mp hk).2
    rw [List.getElem?_eq_none (List.drop_eq_nil_iff.mp h)] at hn
    cases hn
  have hvl : v <:+ left.toList := (hv ▸ List.dropWhile_suffix _).trans hsuffix
  refine ⟨hv ▸ dropWhile_isSpace_ne_nil (htrim ▸ stops_reverse_trim _) hsuffix hne, hvl, fun y hy => ?_⟩
  have hs : isSpace y = false := (hv ▸ stops_dropWhile isSpace _) y hy
  rw [← Bool.not_eq_true]
  intro hb
  rw [isSpace_of_isBlank (hline y (hvl.mem (List.mem_of_mem_head? hy))) hb] at hs
  cases hs

/-- Before the `==` of an equation there is none on its left side, and none that begins on it. -/
theorem not_begins_equals {left : String} {v : List Char} (hl : IsLeftSide left) (hp : left.toList.getLast? ≠ some '=')
    (hvl : v <:+ left.toList) (hne : v ≠ []) (tail : List Char) : ¬ ['=', '='] <+: v ++ '=' :: '=' :: tail := by
  obtain ⟨-, -, hline, hin⟩ := hl
  intro hfront
  have hlast : v.getLast? ≠ some '=' := by
    obtain ⟨u, hu⟩ := hvl
    intro hlast
    rw [← hu, List.getLast?_append, hlast] at hp
    exact hp rfl
  have hstop : endsLeftSide (v ++ '=' :: '=' :: tail) = false :=
    not_endsLeftSide hne (fun y hy => hline y (hvl.mem hy)) (fun h => hin (h.trans hvl.isInfix)) (.inl hlast)
  rw [endsLeftSide, List.isPrefixOf_iff_prefix.mpr hfront] at hstop
  cases hstop

/-- Behind `NOT` and spaces on the left side of an equation there is another equation. -/
theorem negation_ne_unmatched_of_equation {left right : String} (hl : IsLeftSide left) (hr : IsWord right)
    (hp : left.toList.getLast? ≠ some '=') (hk : beginsWithKeyword .notWord left.toList = true)
    (hs : s.At d b ((Condition.comparison left "==" right).script.toList ++ ' ' :: '(' :: rest)) :
    negation s ≠ (.unmatched, t) := by
  intro e
  obtain ⟨-, _, e⟩ := attempt_unmatched e
  rw [toList_script_equation] at hs
  obtain ⟨hdrop, hspaces⟩ := @spaces_runs_of_beginsWithKeyword d b left.toList
    ('=' :: ('=' :: right.toList ++ ' ' :: '(' :: rest)) _ hl.2.2.1 hk
  obtain ⟨_, hs, e⟩ := hs.behind e (keyword_runs_of_begins (Keyword.begins_append (beginsWithKeyword_iff.mp hk).1 _))
  rw [hdrop] at hs
  obtain ⟨_, hs, e⟩ := hs.behind e hspaces
  generalize hv : (left.toList.drop Keyword.notWord.text.toList.length).dropWhile isSpace = v at hs
  obtain ⟨hne, hvl, hfirst⟩ := dropWhile_isSpace_of_isLeftSide hl hk hv
  rw [dropWhile_append_of_ne_nil (hv ▸ hne), hv] at hs
  obtain e | ⟨_, _, _, e⟩ := bind_unmatched e
  · have ht : v ++ '=' :: ('=' :: right.toList ++ ' ' :: '(' :: rest) =
        v ++ '=' :: '=' :: (right.toList ++ [' ']) ++ '(' :: rest := by
      simp
    rw [ht] at hs
    refine simpleCondition_ne_unmatched hs (.inr fun d b => ?_) e
    refine equation_matches ?_ ((stops_append_of_ne_nil hne).mpr hfirst) (not_begins_equals hl hp hvl hne _) ?_ (by decide)
    · simp only [List.mem_append, List.mem_cons, List.not_mem_nil, or_false]
      rintro y (hy | rfl | rfl | hy | rfl)
      · exact hl.2.2.1 y (hvl.mem hy)
      · rfl
      · rfl
      · exact not_isLineBreak_of_not_isBlank (hr.2 y hy)
      · rfl
    · exact ⟨v, right.toList ++ [' '], by simp⟩
  · cases e

/-- A `NOT` on the left side of a relation is read as one, if there is a condition behind it. -/
theorem negation_ne_unmatched_of_relation {left operator right : String} (ho : operator ≠ "==")
    (hrel : IsRelation operator) (hr : IsWord right) (hk : IsKeyword .notWord left.toList)
    (h : IsRelation right ∨ ['=', '='] <:+: right.toList)
    (hs : s.At d b ((Condition.comparison left operator right).script.toList ++ ' ' :: '(' :: rest)) :
    negation s ≠ (.unmatched, t) := by
  intro e
  obtain ⟨-, _, e⟩ := attempt_unmatched e
  rw [toList_script_relation ho] at hs
  obtain ⟨_, hs, e⟩ := hs.behind e (keyword_runs hk)
  obtain ⟨_, hs, e⟩ := hs.behind e (spaces_runs hrel.isWord.stops_isSpace)
  obtain e | ⟨_, _, _, e⟩ := bind_unmatched e
  · have ht : operator.toList ++ ' ' :: (right.toList ++ ' ' :: '(' :: rest) =
        operator.toList ++ ' ' :: (right.toList ++ [' ']) ++ '(' :: rest := by
      simp
    have hline : ∀ y ∈ operator.toList ++ ' ' :: (right.toList ++ [' ']), isLineBreak y = false := by
      simp only [List.mem_append, List.mem_cons, List.not_mem_nil, or_false]
      rintro y (hy | rfl | hy | rfl)
      · exact not_isLineBreak_of_not_isBlank (hrel.isWord.2 y hy)
      · rfl
      · exact not_isLineBreak_of_not_isBlank (hr.2 y hy)
      · rfl
    have hfirst : Stops isBlank (operator.toList ++ ' ' :: (right.toList ++ [' '])) := hrel.isWord.stops_isBlank
    have hright : Stops isBlank (right.toList ++ [' ']) := IsWord.stops_isBlank hr
    rw [ht] at hs
    refine simpleCondition_ne_unmatched hs (h.imp (fun hr d b => ?_) fun hin d b => ?_) e
    · obtain ⟨k, hk, hword⟩ := hr
      refine relation_matches hline hfirst ?_ (by decide)
      rw [beginsWithRelation_word hrel.isWord.2 (by decide) hright]
      exact List.any_eq_true.mpr ⟨k, hk, beginsWithKeyword_of_isKeyword hword []⟩
    · refine equation_matches hline hfirst ?_ ?_ (by decide)
      · obtain ⟨y, ys, hy, -⟩ := hrel.isWord.exists_cons
        rw [hy, List.cons_append, List.cons_prefix_cons]
        rintro ⟨rfl, -⟩
        exact (hrel.not_isBlank '=' (hy ▸ List.mem_cons_self)).2 rfl
      · obtain ⟨u, v, huv⟩ := hin
        exact ⟨operator.toList ++ ' ' :: u, v ++ [' '], by simp [← huv]⟩
  · cases e

theorem negation_ne_unmatched {c : Condition} (hw : c.WellFormed) (hp : c.Plain) (hl : c.LooksNegated)
    (hs : s.At d b (c.script.toList ++ ' ' :: '(' :: rest)) : negation s ≠ (.unmatched, t) := by
  cases c with
  | negated _ => cases hl
  | pathExists _ => cases hl
  | comparison left operator right =>
    by_cases ho : operator = "=="
    · subst ho
      have hw : IsLeftSide left ∧ IsWord right := hw.elim (fun h => absurd h.1 (by decide)) (·.2)
      exact negation_ne_unmatched_of_equation hw.1 hw.2 hp.1 hl hs
    · have hw : IsRelation operator ∧ IsWord left ∧ IsWord right := hw.elim id fun h => absurd h.1 ho
      rw [Condition.LooksNegated, if_neg ho] at hl
      exact negation_ne_unmatched_of_relation ho hw.1 hw.2.2 hl.1 hl.2 hs

/-- A condition that is what its own script is read as is plain and does not look negated. -/
theorem condition_plain {c : Condition} (hw : c.WellFormed) (hs : s.At d b (c.script.toList ++ ' ' :: '(' :: rest))
    (e : condition s = (.matched c, t)) : c.Plain ∧ ¬ c.LooksNegated := by
  obtain e | ⟨u, hu, e⟩ := orElse_matched e
  · obtain ⟨_, _, hkeyword, e⟩ := bind_matched (attempt_matched.mp e)
    obtain ⟨_, _, hspaces, e⟩ := bind_matched e
    obtain ⟨inner, _, hinner, e⟩ := bind_matched e
    cases e
    rw [toList_script_negated] at hs
    have hblank : Stops isSpace (inner.script.toList ++ ' ' :: '(' :: rest) := fun x hx =>
      not_isSpace_of_not_isBlank (stops_isBlank_script hw.1 x hx)
    have hs := (hs.outcome hkeyword (keyword_runs rfl)).2
    have hs := (hs.outcome hspaces (spaces_runs hblank)).2
    have hp : inner.Plain := simpleCondition_plain hw.1 hw.2 hs hinner
    exact ⟨hp, id⟩
  · have hcursor := (attempt_unmatched hu).1
    have hsu : u.At u.depth u.blockDepth (c.script.toList ++ ' ' :: '(' :: rest) :=
      ⟨by rw [hcursor, hs.rest], rfl, rfl⟩
    have hp := simpleCondition_plain hw (simpleCondition_yields trivial e).2 hsu e
    exact ⟨hp, fun hl => negation_ne_unmatched hw hp hl hs hu⟩

end BatchScript.Grammar
