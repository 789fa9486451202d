import BatchScript.Proofs.Grammar.Nesting
import BatchScript.Proofs.Rule.Runs
import BatchScript.Proofs.Text.Fronts
import BatchScript.Proofs.Cursor.Fronts

/-!
# Rules that do not match

Different keywords cannot begin the same text (`beginsWithWord_of_ne`), so
the keyword at which the reader stands says which kinds of statement it is not:
a leaf begins with one of five keywords (`leaf_unmatched`), a branch with `IF`
and a loop with `FOR`; at `ELSE`, at a chain operator and at a parenthesis there is no statement at all
(`statement_unmatched_of_else`, `statement_unmatched_of_operator`, `statement_unmatched_of_open`).
-/

namespace BatchScript

namespace Text

/-- Two words that differ before one of them ends. -/
def clash : List Char → List Char → Bool
  | c :: word, d :: other => !sameLetter c d || clash word other
  | _, _ => false

theorem beginsWithWord_of_clash {word other text : List Char} (h : beginsWithWord word text = true)
    (hc : clash word other = true) : beginsWithWord other text = false := by
  induction word generalizing other text with
  | nil => simp [clash] at hc
  | cons c word ih =>
    cases other with
    | nil => simp [clash] at hc
    | cons d other =>
      cases text with
      | nil => rfl
      | cons x text =>
        simp only [beginsWithWord, sameLetter, Bool.and_eq_true, beq_iff_eq] at h
        simp only [clash, sameLetter, ← h.1, Bool.or_eq_true, Bool.not_eq_true',
          beq_eq_false_iff_ne] at hc
        simp only [beginsWithWord, sameLetter, Bool.and_eq_false_iff, beq_eq_false_iff_ne]
        rcases hc with hc | hc
        · exact .inl hc
        · exact .inr (ih h.2 hc)

theorem not_isUpper_of_isBlank {c : Char} (h : isBlank c = true) : c.isUpper = false := by
  apply decide_eq_false
  rintro ⟨hl, hu⟩
  have hl : 65 ≤ c.toNat := hl
  have hu : c.toNat ≤ 90 := hu
  simp [isBlank, blanks] at h
  omega

theorem isBlank_of_isSpace {c : Char} (h : isSpace c = true) : isBlank c = true :=
  (Bool.and_eq_true_iff.mp h).1

theorem eq_of_isChainChar {c : Char} (h : isChainChar c = true) : c = '&' ∨ c = '|' := by
  simpa [isChainChar] using h

end Text

open Text

namespace Keyword

/-- What remains begins with a keyword. -/
def Begins (k : Keyword) (text : List Char) : Prop :=
  beginsWithWord k.text.toList text = true

theorem begins_append {k : Keyword} {text : List Char} (h : beginsWithWord k.text.toList text = true)
    (rest : List Char) : k.Begins (text ++ rest) :=
  beginsWithWord_append h rest

theorem clash_of_ne {j k : Keyword} (h : k ≠ j) : clash k.text.toList j.text.toList = true := by
  revert h
  cases k <;> cases j <;> decide

theorem Begins.beginsWithWord_of_ne {j k : Keyword} {text : List Char} (h : k.Begins text) (hn : k ≠ j) :
    beginsWithWord j.text.toList text = false :=
  beginsWithWord_of_clash h (clash_of_ne hn)

theorem stops_of_begins {k : Keyword} {text : List Char} {p : Char → Bool} (h : k.Begins text)
    (hu : ∀ x, p x = true → x.isUpper = false) (hk : k.text.toList.head?.any (p ·.toLower) = false) :
    Stops p text := by
  cases text with
  | nil => exact stops_nil
  | cons x rest =>
    cases hw : k.text.toList with
    | nil => cases k <;> cases hw
    | cons c word =>
      simp only [Begins, hw, beginsWithWord, sameLetter, Bool.and_eq_true, beq_iff_eq] at h
      simp only [hw, List.head?_cons, Option.any_some, ← h.1] at hk
      rw [stops_cons]
      cases hp : p x with
      | false => rfl
      | true =>
        rw [toLower_of_not_isUpper (hu x hp), hp] at hk
        cases hk

theorem stops_isBlank_of_begins {k : Keyword} {text : List Char} (h : k.Begins text) :
    Stops isBlank text :=
  stops_of_begins h (fun _ => not_isUpper_of_isBlank) (by cases k <;> decide)

theorem Begins.stops_isChainChar {k : Keyword} {text : List Char} (h : k.Begins text) :
    Stops isChainChar text := by
  refine stops_of_begins h (fun x hx => ?_) (by cases k <;> decide)
  obtain rfl | rfl := eq_of_isChainChar hx <;> decide

/-- No keyword begins with an operator. -/
theorem beginsWithWord_of_operator {text : List Char} (h : ¬ Stops isChainChar text) (k : Keyword) :
    beginsWithWord k.text.toList text = false :=
  Bool.eq_false_iff.mpr fun hk => h (Begins.stops_isChainChar hk)

theorem Begins.stops_at {k : Keyword} {text : List Char} (h : k.Begins text) : Stops (· == '@') text :=
  stops_of_begins h (by simp) (by cases k <;> decide)

theorem ne_nil_of_begins {k : Keyword} {text : List Char} (h : k.Begins text) : text ≠ [] := by
  rintro rfl
  cases k <;> cases h

end Keyword

namespace Grammar

open Cursor Rule

variable {α : Type} {d b : Nat} {i : List Char}

/-! ## Words -/

theorem keyword_unmatched {k : Keyword} (h : beginsWithWord k.text.toList i = false) :
    Runs (keyword k) d b i .unmatched i := by
  refine .orElse (.step?_unmatched fun c hc => ?_) (.fail _)
  have ha : ¬ c.atKeyword k.text = true := by rw [atKeyword, hc, h]; exact Bool.false_ne_true
  exact if_neg ha

theorem symbol_unmatched {x : Char} (h : Stops (· == x) i) : Runs (symbol x) d b i .unmatched i :=
  .orElse (.step?_unmatched fun c hc => eat?_eq_none (by rw [hc]; exact h)) (.fail _)

theorem exists_cons_of_symbol {x : Char} {s t : State} {a : Unit} (e : symbol x s = (.matched a, t)) :
    ∃ rest, s.cursor.rest = x :: rest := by
  have hstop : ¬ Stops (· == x) s.cursor.rest := by
    intro hstop
    obtain ⟨u, hu, -⟩ := symbol_unmatched (d := s.depth) (b := s.blockDepth) hstop s ⟨rfl, rfl, rfl⟩
    rw [hu] at e; cases e
  cases hr : s.cursor.rest with
  | nil => exact absurd stops_nil (hr ▸ hstop)
  | cons y rest => exact ⟨rest, by simpa [hr] using hstop⟩

/-- A rule that has to begin with a keyword. -/
theorem attempt_keyword_unmatched {k : Keyword} (f : Unit → Rule α)
    (h : beginsWithWord k.text.toList i = false) :
    Runs (attempt (keyword k >>= f)) d b i .unmatched i :=
  .attempt_unmatched (.bind_unmatched (keyword_unmatched h) f)

/-- Such a rule ends because of a limit only behind its keyword. -/
theorem begins_of_tooDeep {k : Keyword} {f : Unit → Rule α} {s t : State} {p : Position}
    (h : (keyword k >>= f) s = (.tooDeep p, t)) : k.Begins s.cursor.rest := by
  cases hb : beginsWithWord k.text.toList s.cursor.rest with
  | true => exact hb
  | false =>
    obtain ⟨u, hu, -⟩ := keyword_unmatched (d := s.depth) (b := s.blockDepth) hb s ⟨rfl, rfl, rfl⟩
    rw [bind_apply, hu] at h; cases h

theorem skipSymbol_of_stops {x : Char} (h : Stops (· == x) i) :
    Runs (skipSymbol x) d b i (.matched ()) i :=
  .move fun c hc => by rw [eat?_eq_none (by rw [hc]; exact h), Option.getD_none, hc]

theorem word_unmatched {p : Char → Bool} (h : Stops p i) :
    Runs (.scan? (·.word? p)) d b i .unmatched i :=
  .scan?_unmatched fun c hc => word?_eq_none_of_stops (by rw [hc]; exact h)

theorem spaces_unmatched (hr : Stops isSpace i) : Runs spaces d b i .unmatched i :=
  .bind_unmatched (.orElse (word_unmatched hr) (.fail _)) _

theorem skipSpaces_runs_dropWhile : Runs skipSpaces d b i (.matched ()) (i.dropWhile isSpace) :=
  .move fun c hc => by rw [rest_skipWhile, hc]

theorem skipBlanks_runs_dropWhile : Runs skipBlanks d b i (.matched ()) (i.dropWhile isBlank) :=
  .move fun c hc => by rw [rest_skipWhile, hc]

/-! ## Statements -/

theorem label_unmatched (h : Stops (· == ':') i) : Runs label d b i .unmatched i :=
  .attempt_unmatched (.bind_unmatched (symbol_unmatched h) _)

/-- The keywords that begin a leaf. -/
def leafKeywords : List Keyword :=
  [.rem, .set, .echo, .goto, .call]

theorem comment_unmatched (h : beginsWithWord (Keyword.rem).text.toList i = false) :
    Runs comment d b i .unmatched i :=
  .bind_unmatched (attempt_keyword_unmatched _ h) _

theorem lineBreak_runs {j : List Char} (l : LineBreak) (hj : l = .cr → Stops (· == '\n') j) :
    Runs (.step? (·.eatLineBreak?)) d b (l.chars ++ j) (.matched ()) j :=
  .step? fun _ hc => eatLineBreak?_append l hc hj

/-- Where no line break comes next there is no other comment line. -/
theorem nextCommentLine_unmatched_of_stops (h : Stops isLineBreak i) :
    Runs nextCommentLine d b i .unmatched i :=
  .attempt_unmatched (.bind_unmatched (.step?_unmatched fun _ hc => eatLineBreak?_eq_none (hc ▸ h)) _)

/-- Behind a line break and an empty line there is none either. -/
theorem nextCommentLine_unmatched {j : List Char} (l : LineBreak) (hj : l = .cr → Stops (· == '\n') j)
    (hempty : Stops (fun x => !isLineBreak x) (j.dropWhile isSpace)) :
    Runs nextCommentLine d b (l.chars ++ j) .unmatched (l.chars ++ j) := by
  have hrem : Stops (· == '@') (j.dropWhile isSpace) ∧
      beginsWithWord (Keyword.rem).text.toList (j.dropWhile isSpace) = false := by
    obtain h | ⟨rest, h | h⟩ := lineEnd_cases hempty <;> rw [h]
    · exact ⟨stops_nil, rfl⟩
    · exact ⟨stops_cons.mpr rfl, rfl⟩
    · exact ⟨stops_cons.mpr rfl, rfl⟩
  refine .attempt_unmatched (j := j.dropWhile isSpace) (.bind (lineBreak_runs l hj) ?_)
  exact .bind skipSpaces_runs_dropWhile (.bind (skipSymbol_of_stops hrem.1) (attempt_keyword_unmatched _ hrem.2))

theorem leaf_unmatched (h : ∀ k ∈ leafKeywords, beginsWithWord k.text.toList i = false) :
    Runs leaf d b i .unmatched i := by
  have hr : Runs comment d b i .unmatched i := comment_unmatched (h .rem (by decide))
  have hs : Runs assignment d b i .unmatched i := attempt_keyword_unmatched _ (h .set (by decide))
  have he : Runs emit d b i .unmatched i := attempt_keyword_unmatched _ (h .echo (by decide))
  have hg : Runs goto d b i .unmatched i := attempt_keyword_unmatched _ (h .goto (by decide))
  have hc : Runs invoke d b i .unmatched i := attempt_keyword_unmatched _ (h .call (by decide))
  exact .orElse hr (.orElse hs (.orElse he (.orElse hg hc)))

theorem chain_unmatched (h : ∀ k ∈ leafKeywords, beginsWithWord k.text.toList i = false) :
    Runs chain d b i .unmatched i :=
  .bind_unmatched (leaf_unmatched h) _

theorem chain_unmatched_of_begins {k : Keyword} (h : k.Begins i) (hk : k ∉ leafKeywords) :
    Runs chain d b i .unmatched i :=
  chain_unmatched fun _ hj => h.beginsWithWord_of_ne fun e => hk (e ▸ hj)

theorem chainOperator_unmatched (hr : Stops isChainChar i) :
    Runs chainOperator d b i .unmatched i := by
  refine .orElse (.scan?_unmatched fun c hc => ?_) (.failAll _)
  rw [eatFirst?, List.findSome?_eq_none_iff]
  intro op _
  rw [Option.map_eq_none_iff, eatText?, startsWith, hc, if_neg]
  rw [List.isPrefixOf_iff_prefix]
  rintro ⟨k, rfl⟩
  cases op <;> exact absurd (stops_cons.mp hr) (by decide)

/-- Where no operator comes next there is no other link. -/
theorem chainLink_unmatched (h : Stops isChainChar (i.dropWhile isSpace)) : Runs chainLink d b i .unmatched i :=
  .attempt_unmatched (.bind skipSpaces_runs_dropWhile (.bind_unmatched (chainOperator_unmatched h) _))

theorem branch_unmatched (body : Rule (List Statement))
    (h : beginsWithWord (Keyword.ifWord).text.toList i = false) : Runs (branch body) d b i .unmatched i :=
  attempt_keyword_unmatched _ h

theorem loop_unmatched (body : Rule (List Statement))
    (h : beginsWithWord (Keyword.forWord).text.toList i = false) : Runs (loop body) d b i .unmatched i :=
  attempt_keyword_unmatched _ h

/-- At the keyword of a leaf there is neither. -/
theorem branch_and_loop_unmatched {k : Keyword} (hk : k ∈ leafKeywords) (h : k.Begins i)
    (body : Rule (List Statement)) : Runs (branch body) d b i .unmatched i ∧ Runs (loop body) d b i .unmatched i := by
  have hif : k ≠ .ifWord := by rintro rfl; revert hk; decide
  have hfor : k ≠ .forWord := by rintro rfl; revert hk; decide
  exact ⟨branch_unmatched _ (h.beginsWithWord_of_ne hif), loop_unmatched _ (h.beginsWithWord_of_ne hfor)⟩

/-- Where no `ELSE` comes next there is no alternative. -/
theorem alternative_unmatched (body : Rule (List Statement)) (h : ¬ Keyword.elseWord.Begins (i.dropWhile isBlank)) :
    Runs (alternative body) d b i .unmatched i := by
  have hno : beginsWithWord Keyword.elseWord.text.toList (i.dropWhile isBlank) = false := Bool.eq_false_iff.mpr h
  exact .attempt_unmatched (.bind skipBlanks_runs_dropWhile (.bind_unmatched (keyword_unmatched hno) _))

/-- The keywords that begin a statement. -/
def statementKeywords : List Keyword :=
  .ifWord :: .forWord :: leafKeywords

theorem statement_unmatched (limit : Nat) (hat : Stops (· == '@') i) (hcolon : Stops (· == ':') i)
    (h : ∀ k ∈ statementKeywords, beginsWithWord k.text.toList i = false) :
    Runs (statement limit) d b i .unmatched i := by
  rw [statement_eq]
  refine .attempt_unmatched (j := i) (.bind (skipSymbol_of_stops hat) (.orElse (label_unmatched hcolon) ?_))
  refine .orElse (branch_unmatched _ (h .ifWord (by decide))) ?_
  refine .orElse (loop_unmatched _ (h .forWord (by decide))) ?_
  exact chain_unmatched fun k hk => h k (List.mem_cons_of_mem _ (List.mem_cons_of_mem _ hk))

/-- At `ELSE` there is no statement. -/
theorem statement_unmatched_of_else (limit : Nat) (h : Keyword.elseWord.Begins i) :
    Runs (statement limit) d b i .unmatched i :=
  statement_unmatched limit (Keyword.stops_of_begins h (by simp) (by decide))
    (Keyword.stops_of_begins h (by simp) (by decide))
    fun k hk => h.beginsWithWord_of_ne (by rintro rfl; revert hk; decide)

/-- Nor at an operator. -/
theorem statement_unmatched_of_operator (limit : Nat) (h : ¬ Stops isChainChar i) :
    Runs (statement limit) d b i .unmatched i := by
  refine statement_unmatched limit (stops_of_not_stops (fun x hx => ?_) h) (stops_of_not_stops (fun x hx => ?_) h)
    fun k _ => Keyword.beginsWithWord_of_operator h k
  all_goals obtain rfl | rfl := eq_of_isChainChar hx <;> rfl

/-- At a parenthesis there is no statement either. -/
theorem statement_unmatched_of_open (limit : Nat) :
    Runs (statement limit) d b ('(' :: i) .unmatched ('(' :: i) := by
  refine statement_unmatched limit (stops_cons.mpr (by decide)) (stops_cons.mpr (by decide)) fun k _ => ?_
  cases k <;> rfl

end Grammar

end BatchScript
