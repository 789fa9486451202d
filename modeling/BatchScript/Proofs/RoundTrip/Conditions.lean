import BatchScript.Proofs.RoundTrip.Words
import Mathlib.Data.List.TakeWhile

/-!
# Conditions that are read back

A condition on its own script, with the block of its branch behind it. A simple
condition is not taken for one of a kind that is tried earlier, since it is plain; nor is one
without `NOT` for one with it, unless it looks so (`condition_runs`).
-/

namespace BatchScript

open Text

/-! ## Keywords at the front of a text -/

section Keyword

variable {k : Keyword} {text rest : List Char}

theorem beginsWithKeyword_iff :
    beginsWithKeyword k text = true ↔ k.Begins text ∧ (text[k.text.toList.length]?).any isBlank = true := by
  rw [beginsWithKeyword, Bool.and_eq_true, Keyword.Begins]

/-- No character of a keyword is a blank, nor an equals sign. -/
theorem Keyword.not_mem_text (k : Keyword) {x : Char} (hx : isBlank x = true ∨ x = '=') :
    x.toLower ∉ k.text.toList.map Char.toLower := by
  have hk : ∀ y ∈ k.text.toList.map Char.toLower, isBlank y = false ∧ y ≠ '=' := by
    cases k <;> decide
  intro h
  rcases hx with hx | rfl
  · rw [toLower_of_not_isUpper (not_isUpper_of_isBlank hx)] at h
    rw [(hk x h).1] at hx
    cases hx
  · exact (hk _ h).2 (by decide)

/-- A word in front of a blank is the keyword that begins there. -/
theorem isKeyword_of_beginsWithKeyword {word : List Char} (hw : ∀ x ∈ word, isBlank x = false) {x : Char}
    (hx : isBlank x = true) (h : beginsWithKeyword k (word ++ x :: rest) = true) : IsKeyword k word := by
  obtain ⟨hb, hn⟩ := beginsWithKeyword_iff.mp h
  have hb := beginsWithWord_of_append (k.not_mem_text (.inl hx)) hb
  have hl : word.length = k.text.toList.length := by
    refine Nat.le_antisymm (Nat.le_of_not_lt fun hlt => ?_) (length_le_of_beginsWithWord hb)
    rw [List.getElem?_append_left hlt, List.getElem?_eq_getElem hlt, Option.any_some,
      hw _ (List.getElem_mem hlt)] at hn
    cases hn
  rwa [beginsWithWord_iff, ← hl, List.take_length] at hb

/-- Where no keyword begins, none begins if an equals sign is put behind the text. -/
theorem beginsWithKeyword_append (h : beginsWithKeyword k text = false) :
    beginsWithKeyword k (text ++ '=' :: rest) = false := by
  rw [← Bool.not_eq_true, beginsWithKeyword_iff] at h ⊢
  rintro ⟨hb, hn⟩
  have hb := beginsWithWord_of_append (k.not_mem_text (.inr rfl)) hb
  rcases Nat.lt_or_eq_of_le (length_le_of_beginsWithWord hb) with hl | hl
  · rw [List.getElem?_append_left hl] at hn
    exact h ⟨hb, hn⟩
  · rw [List.getElem?_append_right (Nat.le_of_eq hl.symm), hl, Nat.sub_self] at hn
    cases hn

/-- The first word of a text is gone over before a relational keyword is looked for. -/
theorem beginsWithRelation_word {word : List Char} (hw : ∀ y ∈ word, isBlank y = false) {x : Char}
    (hx : isBlank x = true) (hr : Stops isBlank rest) :
    beginsWithRelation (word ++ x :: rest) = Keyword.relations.any fun k => beginsWithKeyword k rest := by
  have hword : (word ++ x :: rest).dropWhile (fun y => !isBlank y) = x :: rest :=
    dropWhile_append_of_stops (fun y hy => by rw [hw y hy]; rfl) (stops_cons.mpr (by rw [hx]; rfl))
  rw [beginsWithRelation, hword, List.dropWhile_cons_of_pos hx, dropWhile_eq_self_of_stops hr]

theorem not_beginsWithRelation_word {word : List Char} (hw : ∀ y ∈ word, isBlank y = false) {x : Char}
    (hx : isBlank x = true) (hr : Stops isBlank rest)
    (h : ∀ k ∈ Keyword.relations, beginsWithWord k.text.toList rest = false) :
    beginsWithRelation (word ++ x :: rest) = false := by
  rw [beginsWithRelation_word hw hx hr, List.any_eq_false]
  intro k hk
  rw [beginsWithKeyword, h k hk, Bool.false_and]
  exact Bool.false_ne_true

/-- A relational keyword behind the first word of an equation is one of its left side. -/
theorem beginsWithRelation_append {right : List Char} (hr : ∀ y ∈ right, isBlank y = false)
    (h : beginsWithRelation text = false) :
    beginsWithRelation (text ++ '=' :: (right ++ ' ' :: '(' :: rest)) = false := by
  by_cases ht : (text.dropWhile fun x => !isBlank x) = []
  · -- the text is one word, and the right side goes on with it
    have hw : ∀ y ∈ text ++ '=' :: right, isBlank y = false := by
      intro y hy
      rcases List.mem_append.mp hy with hy | hy
      · simpa using List.dropWhile_eq_nil_iff.mp ht y hy
      · rcases List.mem_cons.mp hy with rfl | hy
        · decide
        · exact hr y hy
    have hp : ∀ k ∈ Keyword.relations, beginsWithWord k.text.toList ('(' :: rest) = false := by
      simp only [Keyword.relations, List.forall_mem_cons]
      exact ⟨rfl, rfl, rfl, rfl, rfl, rfl, List.forall_mem_nil _⟩
    rw [← List.cons_append, ← List.append_assoc]
    exact not_beginsWithRelation_word hw (by decide) (stops_cons.mpr (by decide)) hp
  · simp only [beginsWithRelation, List.any_eq_false, Bool.not_eq_true] at h ⊢
    intro k hk
    have h := h k hk
    rw [dropWhile_append_of_ne_nil ht, List.dropWhile_append]
    split
    · rename_i hu
      rw [List.isEmpty_iff.mp hu] at h
      rw [dropWhile_eq_self_of_stops (stops_cons.mpr (by decide))]
      exact beginsWithKeyword_append h
    · exact beginsWithKeyword_append h

end Keyword

theorem IsWord.isLeftSide {t : String} (h : IsWord t) (hin : ¬ ['=', '='] <:+: t.toList) : IsLeftSide t := by
  refine ⟨h.1, trim_eq_self ?_ ?_, fun x hx => not_isLineBreak_of_not_isBlank (h.2 x hx), hin⟩
  · exact fun x hx => h.2 x (List.mem_of_head? hx)
  · exact fun x hx => h.2 x (List.mem_reverse.mp (List.mem_of_head? hx))

theorem IsRelation.not_isBlank {operator : String} (h : IsRelation operator) :
    ∀ x ∈ operator.toList, isBlank x = false ∧ x ≠ '=' := by
  obtain ⟨k, -, hk⟩ := h
  intro x hx
  have hm : x.toLower ∈ k.text.toList.map Char.toLower := hk ▸ List.mem_map_of_mem hx
  refine ⟨?_, fun e => k.not_mem_text (.inr e) hm⟩
  rw [← Bool.not_eq_true]
  exact fun hb => k.not_mem_text (.inl hb) hm

theorem IsRelation.isWord {operator : String} (h : IsRelation operator) : IsWord operator := by
  refine ⟨?_, fun x hx => (h.not_isBlank x hx).1⟩
  rintro rfl
  revert h
  decide

/-- No relational keyword is `EXIST`. -/
theorem IsRelation.not_beginsWithKeyword_exist {operator : String} (h : IsRelation operator) {x : Char}
    (hx : isBlank x = true) : beginsWithKeyword .exist (operator.toList ++ x :: rest) = false := by
  have hne : ∀ k ∈ Keyword.relations,
      k.text.toList.map Char.toLower ≠ (Keyword.exist).text.toList.map Char.toLower := by
    decide
  have hword := h.isWord.2
  obtain ⟨k, hk, hkw⟩ := h
  rw [← Bool.not_eq_true]
  exact fun he => hne k hk (hkw.symm.trans (isKeyword_of_beginsWithKeyword hword hx he))

namespace Grammar

open Cursor Rule

variable {d b : Nat} {i rest : List Char}

/-! ## Conditions of another kind -/

/-- A rule that has to begin with a keyword and a blank. -/
theorem attempt_keyword_spaces_unmatched {α : Type} {k : Keyword} (f : Unit → Rule α)
    (h : beginsWithKeyword k i = false) :
    Runs (attempt (keyword k >>= fun _ => spaces >>= f)) d b i .unmatched i := by
  cases hb : beginsWithWord k.text.toList i with
  | false => exact attempt_keyword_unmatched _ hb
  | true =>
    have hs : Stops isSpace (i.drop k.text.toList.length) := by
      intro x hx
      rw [List.head?_drop, Option.mem_def] at hx
      rw [beginsWithKeyword, hb, hx, Bool.true_and] at h
      exact not_isSpace_of_not_isBlank h
    exact .attempt_unmatched (.bind (keyword_runs_of_begins hb) (.bind_unmatched (spaces_unmatched hs) _))

theorem relationKeyword?_eq (c : Cursor) :
    relationKeyword? c = (Keyword.relations.find? fun k => beginsWithKeyword k c.rest).map fun k =>
      (String.ofList (c.rest.take k.text.toList.length), c.skip k.text.toList.length) := by
  simp only [relationKeyword?, beginsWithKeyword, atKeyword, peek, String.length_toList]

theorem relationKeyword?_eq_none {c : Cursor} (h : ∀ k ∈ Keyword.relations, beginsWithKeyword k c.rest = false) :
    relationKeyword? c = none := by
  rw [relationKeyword?_eq, Option.map_eq_none_iff, List.find?_eq_none]
  intro k hk
  rw [h k hk]
  exact Bool.false_ne_true

/-- Where the second word is no relational keyword, there is no relation. -/
theorem relation_unmatched (h : beginsWithRelation i = false) : Runs relation d b i .unmatched i := by
  simp only [beginsWithRelation, List.any_eq_false, Bool.not_eq_true] at h
  by_cases hw : Stops (fun x => !isBlank x) i
  · exact .attempt_unmatched (.bind_unmatched (.orElse (word_unmatched hw) (.fail _)) _)
  have hleft := Runs.orElse_matched (word_runs (d := d) (b := b) hw) (.fail .operand)
  generalize i.dropWhile (fun x => !isBlank x) = j at h hleft
  by_cases hs : Stops isSpace j
  · exact .attempt_unmatched (.bind hleft (.bind_unmatched (spaces_unmatched hs) _))
  have hnone : ∀ k ∈ Keyword.relations, beginsWithKeyword k (j.dropWhile isSpace) = false := by
    intro k hk
    by_cases hb : Stops isBlank (j.dropWhile isSpace)
    · have hd : (j.takeWhile isSpace ++ j.dropWhile isSpace).dropWhile isBlank = j.dropWhile isSpace :=
        dropWhile_append_of_stops (fun x hx => (Bool.and_eq_true_iff.mp (of_mem_takeWhile hx)).1) hb
      rw [List.takeWhile_append_dropWhile] at hd
      rw [← hd]
      exact h k hk
    · -- no keyword begins with a blank
      rw [← Bool.not_eq_true, beginsWithKeyword_iff]
      exact fun hk => hb (Keyword.stops_isBlank_of_begins hk.1)
  have hoperator : Runs (.scan? relationKeyword?) d b (j.dropWhile isSpace) .unmatched (j.dropWhile isSpace) :=
    .scan?_unmatched fun c hc => relationKeyword?_eq_none (by rw [hc]; exact hnone)
  have hend := Runs.orElse hoperator (.failAll (Keyword.relations.map .keyword))
  exact .attempt_unmatched (.bind hleft (.bind (spaces_runs_of_not_stops hs) (.bind_unmatched hend _)))

/-! ## Simple conditions -/

theorem toList_script_pathExists {path : String} : (Condition.pathExists path).script.toList ++ rest =
    ['e', 'x', 'i', 's', 't'] ++ ' ' :: '"' :: (path.toList ++ '"' :: rest) := by
  simp [Condition.script, quoted]

theorem existence_runs {path : String} (hp : '"' ∉ path.toList) :
    Runs existence d b ((Condition.pathExists path).script.toList ++ rest) (.matched (.pathExists path)) rest := by
  rw [toList_script_pathExists]
  refine .attempt (.bind (keyword_runs rfl) (.bind (spaces_runs (stops_cons.mpr (by decide))) ?_))
  exact .bind (.orElse_matched (quoted_runs hp) _) (.pure _)

theorem relationKeyword?_append {c : Cursor} {operator : String} {x : Char} (ho : IsRelation operator)
    (hx : isBlank x = true) (hc : c.rest = operator.toList ++ x :: rest) :
    relationKeyword? c = some (operator, c.skip operator.toList.length) := by
  have hb : ∀ x ∈ operator.toList, isBlank x = false := ho.isWord.2
  obtain ⟨k, hk, hkw⟩ := ho
  have hkw : IsKeyword k operator.toList := hkw
  have hat : beginsWithKeyword k c.rest = true := by
    rw [hc, beginsWithKeyword_iff]
    refine ⟨hkw.begins _, ?_⟩
    rw [← hkw.length_eq, List.getElem?_append_right (Nat.le_refl _), Nat.sub_self]
    exact hx
  rw [relationKeyword?_eq]
  cases hf : Keyword.relations.find? fun k => beginsWithKeyword k c.rest with
  | none => exact absurd hat (List.find?_eq_none.mp hf k hk)
  | some j =>
    have hj := List.find?_some hf
    simp only [hc] at hj ⊢
    have hl : operator.toList.length = j.text.toList.length :=
      (isKeyword_of_beginsWithKeyword hb hx hj).length_eq
    rw [Option.map_some, ← hl, List.take_left, String.ofList_toList]

theorem relationKeyword_runs_of_isRelation {operator : String} {x : Char} (ho : IsRelation operator)
    (hx : isBlank x = true) :
    Runs (.scan? relationKeyword?) d b (operator.toList ++ x :: rest) (.matched operator) (x :: rest) :=
  .scan? fun _ hc => ⟨_, relationKeyword?_append ho hx hc, by rw [rest_skip, hc, List.drop_left]⟩

theorem relation_runs {left operator right : String} (ho : IsRelation operator) (hl : IsWord left)
    (hr : IsWord right) :
    Runs relation d b (left.toList ++ ' ' :: (operator.toList ++ ' ' :: (right.toList ++ ' ' :: rest)))
      (.matched (.comparison left operator right)) (' ' :: rest) := by
  refine .attempt (.bind (operand_runs hl (stops_cons.mpr (by decide))) ?_)
  refine .bind (spaces_runs ho.isWord.stops_isSpace) ?_
  refine .bind (.orElse_matched (relationKeyword_runs_of_isRelation ho (by decide)) _) ?_
  refine .bind (spaces_runs (IsWord.stops_isSpace hr)) ?_
  exact .bind (operand_runs hr (stops_cons.mpr (by decide))) (.pure _)

/-- The search for `==` does not end inside a line without it, nor with its last character. -/
theorem not_endsLeftSide {v : List Char} (hne : v ≠ []) (hline : ∀ x ∈ v, isLineBreak x = false)
    (hin : ¬ ['=', '='] <:+: v) (hlast : v.getLast? ≠ some '=' ∨ Stops (· == '=') rest) :
    endsLeftSide (v ++ rest) = false := by
  cases v with
  | nil => exact absurd rfl hne
  | cons x v =>
    have hx : isLineBreak x = false := hline x List.mem_cons_self
    rw [endsLeftSide, List.cons_append, List.head?_cons, Option.any_some, hx, Bool.or_false, ← Bool.not_eq_true,
      List.isPrefixOf_iff_prefix, List.cons_prefix_cons]
    rintro ⟨rfl, hv⟩
    cases v with
    | nil =>
      rcases hlast with hlast | hlast
      · exact hlast rfl
      · cases rest with
        | nil => simp at hv
        | cons y rest =>
          rw [List.nil_append, List.cons_prefix_cons] at hv
          obtain ⟨rfl, -⟩ := hv
          simp at hlast
    | cons y v =>
      rw [List.cons_append, List.cons_prefix_cons] at hv
      obtain ⟨rfl, -⟩ := hv
      exact hin (List.prefix_append ['=', '='] v).isInfix

/-- The left side of an equation ends at the first `==`, at which it does not end itself. -/
theorem leftSide_runs {left : List Char} (hline : ∀ x ∈ left, isLineBreak x = false) (hin : ¬ ['=', '='] <:+: left)
    (hlast : left.getLast? ≠ some '=') :
    Runs (.scan (·.upTo endsLeftSide)) d b (left ++ '=' :: '=' :: rest) (.matched (.ofList left))
      ('=' :: '=' :: rest) := by
  refine .scan fun c hc => upTo_append hc (fun v hv hv' => ?_) fun _ => rfl
  refine not_endsLeftSide hv' (fun x hx => hline x (hv.mem hx)) (fun h => hin (h.trans hv.isInfix)) (.inl ?_)
  obtain ⟨u, hu⟩ := hv
  intro hv
  rw [← hu, List.getLast?_append, hv] at hlast
  exact hlast rfl

/-- An equation, from where its left side ends. -/
theorem equation_runs_of_leftSide {left : List Char}
    (hleft : Runs (.scan (·.upTo endsLeftSide)) d b i (.matched (.ofList left)) ('=' :: '=' :: rest))
    (htrim : trim left ≠ []) (hr : ¬ Stops (fun x => !isBlank x) (rest.dropWhile isSpace)) :
    Runs equation d b i
      (.matched (.comparison (.ofList (trim left)) "=="
        (.ofList ((rest.dropWhile isSpace).takeWhile fun x => !isBlank x))))
      ((rest.dropWhile isSpace).dropWhile fun x => !isBlank x) := by
  have hequals : Runs (.step? (·.eatText? "==")) d b ('=' :: '=' :: rest) (.matched ()) rest :=
    .step? fun c hc => eatText?_append (show c.rest = "==".toList ++ rest from hc)
  refine .attempt (.bind hleft (.bind (.orElse_matched (.holds fun c hc => ?_) _) ?_))
  · rw [startsWith, hc]; rfl
  rw [String.toList_ofList]
  refine .bind (.orElse_matched (.holds fun c hc => ?_) _) ?_
  · simpa using htrim
  exact .bind hequals (.bind skipSpaces_runs_dropWhile (.bind (operand_runs_of_not_stops hr) (.pure _)))

/-- An equation of a left side, perhaps spaces, and a word. -/
theorem equation_runs_of_word {left spaces : List Char} {right : String} (hline : ∀ x ∈ left, isLineBreak x = false)
    (hin : ¬ ['=', '='] <:+: left) (hlast : left.getLast? ≠ some '=') (htrim : trim left ≠ [])
    (hs : ∀ x ∈ spaces, isSpace x = true) (hr : IsWord right) (hrest : Stops (fun x => !isBlank x) rest) :
    Runs equation d b (left ++ '=' :: '=' :: (spaces ++ (right.toList ++ rest)))
      (.matched (.comparison (.ofList (trim left)) "==" right)) rest := by
  have hb : ∀ x ∈ right.toList, (!isBlank x) = true := fun x hx => by rw [hr.2 x hx]; rfl
  have hdrop : (spaces ++ (right.toList ++ rest)).dropWhile isSpace = right.toList ++ rest :=
    dropWhile_append_of_stops hs (IsWord.stops_isSpace hr)
  have hword : ¬ Stops (fun x => !isBlank x) ((spaces ++ (right.toList ++ rest)).dropWhile isSpace) := by
    obtain ⟨x, xs, hx, hblank⟩ := IsWord.exists_cons hr
    rw [hdrop, hx, List.cons_append, stops_cons, hblank]
    decide
  have h := equation_runs_of_leftSide (leftSide_runs (d := d) (b := b) hline hin hlast) htrim hword
  rwa [hdrop, takeWhile_append_of_stops hb hrest, dropWhile_append_of_stops hb hrest, String.ofList_toList] at h

theorem equation_runs {left right : String} (hl : IsLeftSide left) (hr : IsWord right)
    (hp : left.toList.getLast? ≠ some '=') :
    Runs equation d b (left.toList ++ '=' :: '=' :: (right.toList ++ ' ' :: rest))
      (.matched (.comparison left "==" right)) (' ' :: rest) := by
  obtain ⟨hne, htrim, hline, hin⟩ := hl
  have hspaces : ∀ x ∈ ([] : List Char), isSpace x = true := by simp
  have htrim' : trim left.toList ≠ [] := by simpa [htrim] using hne
  have h := equation_runs_of_word (d := d) (b := b) hline hin hp htrim' hspaces hr
    (stops_cons.mpr (by decide) : Stops (fun x => !isBlank x) (' ' :: rest))
  rwa [htrim, String.ofList_toList] at h

theorem stops_isBlank_script {c : Condition} (hw : c.WellFormed) : Stops isBlank (c.script.toList ++ rest) := by
  cases c with
  | negated inner =>
    rw [Condition.script, String.toList_append, List.append_assoc]
    exact stops_cons.mpr (by decide)
  | pathExists path =>
    rw [Condition.script, String.toList_append, List.append_assoc]
    exact stops_cons.mpr (by decide)
  | comparison left operator right =>
    have hleft : left ≠ "" ∧ Stops isBlank left.toList := by
      rcases hw with ⟨-, hl, -⟩ | ⟨-, hl, -⟩
      · obtain ⟨x, xs, hx, hb⟩ := IsWord.exists_cons hl
        exact ⟨hl.1, by rw [hx]; exact stops_cons.mpr hb⟩
      · exact ⟨hl.1, by rw [← hl.2.1]; exact stops_trim _⟩
    have hne : left.toList ≠ [] := fun h => hleft.1 (String.toList_eq_nil_iff.mp h)
    rw [Condition.script]
    split <;> simp only [String.toList_append, List.append_assoc] <;>
      exact (stops_append_of_ne_nil hne).mpr hleft.2

theorem toList_script_equation (left right : String) :
    (Condition.comparison left "==" right).script.toList ++ ' ' :: rest =
      left.toList ++ '=' :: ('=' :: right.toList ++ ' ' :: rest) := by
  simp [Condition.script]

theorem toList_script_relation {left operator right : String} (ho : operator ≠ "==") :
    (Condition.comparison left operator right).script.toList ++ ' ' :: rest =
      left.toList ++ ' ' :: (operator.toList ++ ' ' :: (right.toList ++ ' ' :: rest)) := by
  simp [Condition.script, ho]

theorem simpleCondition_runs {c : Condition} (hw : c.WellFormed) (hn : c.isNegated = false) (hp : c.Plain) :
    Runs simpleCondition d b (c.script.toList ++ ' ' :: '(' :: rest) (.matched c) (' ' :: '(' :: rest) := by
  cases c with
  | negated inner => cases hn
  | pathExists path => exact .orElse_matched (existence_runs hp) _
  | comparison left operator right =>
    by_cases ho : operator = "=="
    · subst ho
      have hw : IsLeftSide left ∧ IsWord right := hw.elim (fun h => absurd h.1 (by decide)) (·.2)
      obtain ⟨hlast, he, hrel⟩ := hp
      have hright : ∀ y ∈ '=' :: right.toList, isBlank y = false :=
        List.forall_mem_cons.mpr ⟨by decide, hw.2.2⟩
      rw [toList_script_equation]
      refine .orElse (attempt_keyword_spaces_unmatched _ (beginsWithKeyword_append he)) ?_
      exact .orElse (relation_unmatched (beginsWithRelation_append hright hrel)) (equation_runs hw.1 hw.2 hlast)
    · have hw : IsRelation operator ∧ IsWord left ∧ IsWord right := hw.elim id fun h => absurd h.1 ho
      have he : ¬ IsKeyword .exist left.toList := by rwa [Condition.Plain, if_neg ho] at hp
      rw [toList_script_relation ho]
      refine .orElse (attempt_keyword_spaces_unmatched _ ?_) (.orElse_matched (relation_runs hw.1 hw.2.1 hw.2.2) _)
      rw [← Bool.not_eq_true]
      exact fun h => he (isKeyword_of_beginsWithKeyword hw.2.1.2 (by decide) h)

/-! ## Negations -/

theorem equals_infix_append {front rest : List Char} {x : Char} (hx : x ≠ '=')
    (h : ['=', '='] <:+: front ++ x :: rest) : ['=', '='] <:+: front ∨ ['=', '='] <:+: rest := by
  induction front with
  | nil =>
    rcases List.infix_cons_iff.mp h with h | h
    · exact absurd (List.cons_prefix_cons.mp h).1.symm hx
    · exact .inr h
  | cons y front ih =>
    rcases List.infix_cons_iff.mp h with h | h
    · obtain ⟨rfl, hf⟩ := List.cons_prefix_cons.mp h
      cases front with
      | nil => exact absurd (List.cons_prefix_cons.mp hf).1.symm hx
      | cons z front =>
        obtain ⟨rfl, -⟩ := List.cons_prefix_cons.mp hf
        exact .inl (List.prefix_append ['=', '='] front).isInfix
    · exact (ih h).imp_left fun h => h.trans (List.suffix_cons _ _).isInfix

/-- On a line without `==` there is no equation. -/
theorem equation_unmatched {line : List Char} (hline : ∀ x ∈ line, isLineBreak x = false)
    (hin : ¬ ['=', '='] <:+: line) : Runs equation d b (line ++ '\n' :: rest) .unmatched (line ++ '\n' :: rest) := by
  have hbefore : Runs (.scan (·.upTo endsLeftSide)) d b (line ++ '\n' :: rest) (.matched (.ofList line))
      ('\n' :: rest) := by
    refine .scan fun c hc => upTo_append hc (fun v hv hv' => ?_) fun _ => rfl
    exact not_endsLeftSide hv' (fun x hx => hline x (hv.mem hx)) (fun h => hin (h.trans hv.isInfix))
      (.inr (stops_cons.mpr rfl))
  have hequals : Runs (.holds (·.startsWith "==")) d b ('\n' :: rest) .unmatched ('\n' :: rest) := by
    refine .holds_unmatched fun c hc => ?_
    rw [startsWith, hc]; rfl
  exact .attempt_unmatched (.bind hbefore (.bind_unmatched (.orElse hequals (.fail _)) _))

/-- Behind a `NOT` that is the left side of a relation there is no condition. -/
theorem simpleCondition_unmatched {operator right : String} (ho : IsRelation operator) (hr : IsWord right)
    (hrel : ¬ IsRelation right) (hin : ¬ ['=', '='] <:+: right.toList) :
    Runs simpleCondition d b (operator.toList ++ ' ' :: (right.toList ++ ' ' :: '(' :: '\n' :: rest)) .unmatched
      (operator.toList ++ ' ' :: (right.toList ++ ' ' :: '(' :: '\n' :: rest)) := by
  have hrelation : beginsWithRelation (operator.toList ++ ' ' :: (right.toList ++ ' ' :: '(' :: '\n' :: rest)) =
      false := by
    rw [beginsWithRelation_word ho.isWord.2 (by decide) (IsWord.stops_isBlank hr), List.any_eq_false]
    exact fun k hk h => hrel ⟨k, hk, isKeyword_of_beginsWithKeyword hr.2 (by decide) h⟩
  have hline : ∀ x ∈ operator.toList ++ ' ' :: (right.toList ++ [' ', '(']), isLineBreak x = false := by
    intro x hx
    simp only [List.mem_append, List.mem_cons, List.not_mem_nil, or_false] at hx
    rcases hx with hx | rfl | hx | rfl | rfl
    · exact not_isLineBreak_of_not_isBlank (ho.isWord.2 x hx)
    · rfl
    · exact not_isLineBreak_of_not_isBlank (hr.2 x hx)
    · rfl
    · rfl
  have hequals : ¬ ['=', '='] <:+: operator.toList ++ ' ' :: (right.toList ++ [' ', '(']) := by
    intro h
    rcases equals_infix_append (by decide) h with h | h
    · exact (ho.not_isBlank '=' (h.mem List.mem_cons_self)).2 rfl
    · rcases equals_infix_append (by decide) h with h | h
      · exact hin h
      · exact absurd (h.mem List.mem_cons_self) (by decide)
  have hequation := @equation_unmatched d b rest _ hline hequals
  simp only [List.append_assoc, List.cons_append, List.nil_append] at hequation
  exact .orElse (attempt_keyword_spaces_unmatched _ (ho.not_beginsWithKeyword_exist (by decide)))
    (.orElse (relation_unmatched hrelation) hequation)

theorem negation_unmatched_of_equation {left right : String}
    (hl : ¬ (Condition.comparison left "==" right).LooksNegated) :
    Runs negation d b ((Condition.comparison left "==" right).script.toList ++ ' ' :: rest) .unmatched
      ((Condition.comparison left "==" right).script.toList ++ ' ' :: rest) := by
  have hl : beginsWithKeyword .notWord left.toList = false := Bool.not_eq_true _ ▸ hl
  rw [toList_script_equation]
  exact attempt_keyword_spaces_unmatched _ (beginsWithKeyword_append hl)

theorem negation_unmatched {c : Condition} (hw : c.WellFormed) (hn : c.isNegated = false)
    (hl : ¬ c.LooksNegated) :
    Runs negation d b (c.script.toList ++ ' ' :: '(' :: '\n' :: rest) .unmatched
      (c.script.toList ++ ' ' :: '(' :: '\n' :: rest) := by
  cases c with
  | negated inner => cases hn
  | pathExists path =>
    have hb : (Keyword.exist).Begins ((Condition.pathExists path).script.toList ++ ' ' :: '(' :: '\n' :: rest) := by
      rw [Condition.script, String.toList_append, List.append_assoc]
      exact Keyword.begins_append (by decide) _
    exact attempt_keyword_unmatched _ (hb.beginsWithWord_of_ne (by decide))
  | comparison left operator right =>
    by_cases ho : operator = "=="
    · subst ho
      exact negation_unmatched_of_equation hl
    · have hw : IsRelation operator ∧ IsWord left ∧ IsWord right := hw.elim id fun h => absurd h.1 ho
      rw [Condition.LooksNegated, if_neg ho, not_and, not_or] at hl
      rw [toList_script_relation ho]
      by_cases hk : IsKeyword .notWord left.toList
      · obtain ⟨hrel, hin⟩ := hl hk
        have hnone := @simpleCondition_unmatched d b rest _ _ hw.1 hw.2.2 hrel hin
        exact .attempt_unmatched (.bind (keyword_runs hk) (.bind (spaces_runs hw.1.isWord.stops_isSpace)
          (.bind_unmatched hnone _)))
      · refine attempt_keyword_spaces_unmatched _ ?_
        rw [← Bool.not_eq_true]
        exact fun h => hk (isKeyword_of_beginsWithKeyword hw.2.1.2 (by decide) h)

theorem toList_script_negated {inner : Condition} : (Condition.negated inner).script.toList ++ rest =
    ['n', 'o', 't'] ++ ' ' :: (inner.script.toList ++ rest) := by
  simp [Condition.script]

/-- An equation in front of any block; other conditions may need the line to end behind the parenthesis. -/
theorem condition_runs_of_equation {left right : String} (hw : (Condition.comparison left "==" right).WellFormed)
    (hp : (Condition.comparison left "==" right).Plain) (hl : ¬ (Condition.comparison left "==" right).LooksNegated) :
    Runs condition d b ((Condition.comparison left "==" right).script.toList ++ ' ' :: '(' :: rest)
      (.matched (.comparison left "==" right)) (' ' :: '(' :: rest) :=
  .orElse (negation_unmatched_of_equation hl) (simpleCondition_runs hw rfl hp)

/-- An equation of two words in front of a space and anything that does not begin with a relational
keyword. -/
theorem condition_runs_of_isWord {left right : String} (hl : IsWord left) (hr : IsWord right)
    (hin : ¬ ['=', '='] <:+: left.toList) (hlast : left.toList.getLast? ≠ some '=') (hrest : Stops isBlank rest)
    (hrel : ∀ k ∈ Keyword.relations, beginsWithWord k.text.toList rest = false) :
    Runs condition d b (left.toList ++ '=' :: '=' :: (right.toList ++ ' ' :: rest))
      (.matched (.comparison left "==" right)) (' ' :: rest) := by
  have htext : left.toList ++ '=' :: '=' :: (right.toList ++ ' ' :: rest) =
      (left.toList ++ '=' :: '=' :: right.toList) ++ ' ' :: rest := by simp
  have hword : ∀ x ∈ left.toList ++ '=' :: '=' :: right.toList, isBlank x = false := by
    intro x hx
    simp only [List.mem_append, List.mem_cons] at hx
    rcases hx with hx | rfl | rfl | hx
    · exact hl.2 x hx
    · decide
    · decide
    · exact hr.2 x hx
  have hkeyword : ∀ k, beginsWithKeyword k (left.toList ++ '=' :: '=' :: (right.toList ++ ' ' :: rest)) = false := by
    intro k
    rw [← Bool.not_eq_true, htext]
    intro h
    have hk : IsKeyword k _ := isKeyword_of_beginsWithKeyword hword (by decide) h
    refine k.not_mem_text (x := '=') (.inr rfl) ?_
    rw [← hk]
    simp
  have hrelation : beginsWithRelation (left.toList ++ '=' :: '=' :: (right.toList ++ ' ' :: rest)) = false := by
    rw [htext]
    exact not_beginsWithRelation_word hword (by decide) hrest hrel
  refine .orElse (attempt_keyword_spaces_unmatched _ (hkeyword .notWord)) ?_
  refine .orElse (attempt_keyword_spaces_unmatched _ (hkeyword .exist)) (.orElse (relation_unmatched hrelation) ?_)
  exact equation_runs (hl.isLeftSide hin) hr hlast

theorem condition_runs {c : Condition} (hw : c.WellFormed) (hp : c.Plain) (hl : ¬ c.LooksNegated) :
    Runs condition d b (c.script.toList ++ ' ' :: '(' :: '\n' :: rest) (.matched c) (' ' :: '(' :: '\n' :: rest) := by
  cases hn : c.isNegated with
  | false => exact .orElse (negation_unmatched hw hn hl) (simpleCondition_runs hw hn hp)
  | true =>
    cases c with
    | comparison left operator right => cases hn
    | pathExists path => cases hn
    | negated inner =>
      have hinner := @simpleCondition_runs d b ('\n' :: rest) _ hw.1 hw.2 hp
      have hs : Stops isSpace (inner.script.toList ++ ' ' :: '(' :: '\n' :: rest) := fun x hx =>
        not_isSpace_of_not_isBlank (stops_isBlank_script hw.1 x hx)
      rw [toList_script_negated]
      refine .orElse_matched (.attempt ?_) _
      exact .bind (keyword_runs rfl) (.bind (spaces_runs hs) (.bind hinner (.pure _)))

end Grammar

end BatchScript
