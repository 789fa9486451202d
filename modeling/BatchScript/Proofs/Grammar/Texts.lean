import BatchScript.Grammar.Statement
import BatchScript.Proofs.Rule.Ensures
import BatchScript.Proofs.Cursor.Fronts
import BatchScript.Proofs.Text.Joined
import BatchScript.Proofs.Tree.WellFormed

/-!
# The texts that are read

What every scan takes, and from it that each leaf and each condition that is
read is well formed (`leaf_yields`, `condition_yields`), and the words before
the body of a loop.

The message of an output takes an argument of its own: a digit at its end is no
handle, since a mode directly behind it would have ended the message before it.
-/

namespace BatchScript

open Text

/-! ## Scans -/

namespace Cursor

variable {c d : Cursor} {t : String}

theorem of_word? {p : Char → Bool} (h : c.word? p = some (t, d)) :
    t ≠ "" ∧ ∀ x ∈ t.toList, p x = true := by
  unfold word? at h
  split at h
  · cases h
  · rename_i hl
    cases h
    have hne : c.rest.takeWhile p ≠ [] := fun e => hl (by rw [runLength, e, List.length_nil])
    refine ⟨fun e => hne ?_, fun x hx => ?_⟩
    · simpa using congrArg String.toList e
    · rw [String.toList_ofList] at hx
      exact of_mem_takeWhile hx

theorem isWord_of_literal? (h : c.literal? = some (t, d)) : IsWord t := by
  obtain ⟨hne, hx⟩ := of_word? h
  exact ⟨hne, fun x hm => by simpa using hx x hm⟩

theorem of_quoted? (h : c.quoted? = some (t, d)) : '"' ∉ t.toList := by
  obtain ⟨_, _, -, hq, rfl, -⟩ := quoted?_eq_some_iff.mp h
  rwa [String.toList_ofList]

theorem isName_of_identifier? (h : c.identifier? = some (t, d)) : IsName t := by
  unfold identifier? at h
  split at h
  · rename_i hl
    cases h
    rw [IsName, String.toList_ofList]
    refine ⟨?_, fun x hx => of_mem_takeWhile hx⟩
    cases hr : c.rest with
    | nil => simp [current, hr] at hl
    | cons x rest =>
      simp only [current, hr, List.head?_cons, Option.any_some] at hl
      have hx : isNameChar x = true := by simp [isNameChar, hl]
      rw [List.takeWhile_cons_of_pos hx]; simpa using hl
  · cases h

theorem mem_of_eatFirst? {α : Type} {a : α} {spelling : α → String} {choices : List α}
    (h : c.eatFirst? spelling choices = some (a, d)) :
    a ∈ choices ∧ c.eatText? (spelling a) = some d := by
  obtain ⟨b, hb, he⟩ := List.exists_of_findSome?_eq_some h
  simp only [Option.map_eq_some_iff, Prod.mk.injEq] at he
  obtain ⟨e, he, rfl, rfl⟩ := he
  exact ⟨hb, he⟩

end Cursor

namespace Grammar

open Cursor Rule

/-! ## Words -/

theorem identifier_yields : Yields identifier IsName :=
  Yields.orElse (.scan? isName_of_identifier?) (.fail _)

theorem token_yields (inBlock : Bool) : Yields (token inBlock) IsToken := by
  refine Yields.orElse (Yields.scan? fun h => .inl (of_quoted? h)) (Yields.scan? fun h => ?_)
  obtain ⟨hne, hx⟩ := of_word? h
  have hx : ∀ x, x ∈ String.toList _ → isBlank x = false ∧ isChainChar x = false :=
    fun x hm => by have := hx x hm; simp [isTokenChar] at this; exact this.1
  exact .inr ⟨⟨hne, fun x hm => (hx x hm).1⟩, fun x hm => (hx x hm).2⟩

theorem operand_yields : Yields operand IsWord :=
  Yields.orElse (.scan? isWord_of_literal?) (.fail _)

/-! ## Conditions -/

/-- A condition that is read without `NOT`. -/
def IsSimple (c : Condition) : Prop :=
  c.WellFormed ∧ c.isNegated = false

theorem existence_yields : Yields existence IsSimple := by
  refine Yields.attempt (Yields.after fun _ => Yields.after fun _ => ?_)
  refine Yields.bind (A := fun t : String => '"' ∉ t.toList ∨ IsWord t) ?_ fun t ht =>
    .pure ⟨ht, rfl⟩
  exact Yields.orElse (Yields.scan? fun h => .inl (of_quoted? h)) <|
    Yields.orElse (Yields.scan? fun h => .inr (isWord_of_literal? h)) (.fail _)

theorem map_toLower_of_beginsWithWord {word text : List Char} (h : beginsWithWord word text = true) :
    (text.take word.length).map Char.toLower = word.map Char.toLower := by
  induction word generalizing text with
  | nil => rfl
  | cons k word ih =>
    cases text with
    | nil => cases h
    | cons x text =>
      simp only [beginsWithWord, sameLetter, Bool.and_eq_true, beq_iff_eq] at h
      rw [List.length_cons, List.take_succ_cons, List.map_cons, List.map_cons, h.1, ih h.2]

theorem isRelation_of_relationKeyword? {c d : Cursor} {t : String}
    (h : relationKeyword? c = some (t, d)) : IsRelation t := by
  simp only [relationKeyword?, Option.map_eq_some_iff, Prod.mk.injEq] at h
  obtain ⟨k, hk, rfl, -⟩ := h
  have hp := List.find?_some hk
  simp only [Bool.and_eq_true, atKeyword] at hp
  refine ⟨k, List.mem_of_find?_eq_some hk, ?_⟩
  rw [String.toList_ofList]
  exact map_toLower_of_beginsWithWord hp.1

theorem relation_yields : Yields relation IsSimple :=
  Yields.attempt <| Yields.bind operand_yields fun _ hl => Yields.after fun _ =>
    Yields.bind (A := IsRelation) (Yields.orElse (.scan? isRelation_of_relationKeyword?) (.failAll _))
      fun _ ho => Yields.after fun _ => Yields.bind operand_yields fun _ hr =>
        .pure ⟨.inl ⟨ho, hl, hr⟩, rfl⟩

/-- There is no `==` before the first `==` of the line, and no line break. -/
theorem upTo_endsLeftSide (c : Cursor) :
    (∀ x ∈ (c.upTo endsLeftSide).1.toList, isLineBreak x = false) ∧
      ¬ ['=', '='] <:+: (c.upTo endsLeftSide).1.toList := by
  constructor
  · intro x hx
    obtain ⟨rest, hs⟩ := exists_not_stop_of_mem_upTo hx
    simp only [endsLeftSide, List.head?_cons, Option.any_some, Bool.or_eq_false_iff] at hs
    exact hs.2
  · rintro ⟨u, v, h⟩
    simp only [upTo, String.toList_ofList] at h
    have hl : u.length < lengthBefore endsLeftSide 0 c.rest := by
      have := congrArg List.length h
      simp only [List.length_append, List.length_cons, List.length_take] at this
      omega
    have hs := not_stop_of_lt_lengthBefore hl
    have hd : ['=', '='].isPrefixOf (c.rest.drop u.length) = true := by
      rw [List.isPrefixOf_iff_prefix]
      have hp : (u ++ ['=', '='] ++ v).drop u.length = ['=', '='] ++ v := by
        rw [List.append_assoc, List.drop_left]
      refine List.IsPrefix.trans ⟨v, rfl⟩ ?_
      rw [← hp, h, List.drop_take]
      exact List.take_prefix _ _
    simp [endsLeftSide, hd] at hs

theorem isLeftSide_of_upTo {c : Cursor} {t : String} (ht : t = (c.upTo endsLeftSide).1)
    (hne : String.ofList (trim t.toList) ≠ "") : IsLeftSide (.ofList (trim t.toList)) := by
  subst ht
  obtain ⟨hl, he⟩ := upTo_endsLeftSide c
  have hi := trim_infix (c.upTo endsLeftSide).1.toList
  refine ⟨hne, ?_, ?_, ?_⟩
  · rw [String.toList_ofList, trim_trim]
  · rw [String.toList_ofList]; exact fun x hx => hl x (hi.subset hx)
  · rw [String.toList_ofList]; exact fun h => he (h.trans hi)

theorem equation_yields : Yields equation IsSimple := by
  refine Yields.attempt ?_
  refine Yields.bind (A := fun t => ∃ c : Cursor, t = (c.upTo endsLeftSide).1)
    (Ensures.scan fun c _ => ⟨c, rfl⟩) fun before ⟨c, hc⟩ => Yields.after fun _ => ?_
  refine Yields.bind (A := fun _ => String.ofList (trim before.toList) ≠ "") ?_ fun _ hne =>
    Yields.after fun _ => Yields.after fun _ => Yields.bind operand_yields fun _ hr =>
      .pure ⟨.inr ⟨rfl, isLeftSide_of_upTo hc hne, hr⟩, rfl⟩
  refine Yields.orElse (Ensures.holds fun _ _ h => ?_) (.fail _)
  rintro e
  rw [e] at h
  exact absurd h (by decide)

theorem simpleCondition_yields : Yields simpleCondition IsSimple :=
  Yields.orElse existence_yields (Yields.orElse relation_yields equation_yields)

theorem condition_yields : Yields condition Condition.WellFormed := by
  refine Yields.orElse (Yields.attempt ?_) (simpleCondition_yields.mono (fun _ h => h) fun _ _ h => h.1)
  exact Yields.after fun _ => Yields.after fun _ => Yields.bind simpleCondition_yields fun _ h => .pure h

/-! ## Leaves -/

theorem commentLine_yields : Yields commentLine fun t => '\r' ∉ t.toList := by
  refine .attempt <| .after fun _ => .orElse (.scan? fun {c t d} h => ?_) (.fail _)
  unfold commentText? at h
  split at h
  · cases h; simp
  · split at h
    · cases h
      rw [String.toList_ofList]
      exact fun hm => absurd (of_mem_takeWhile hm) (by decide)
    · cases h

theorem nextCommentLine_yields : Yields nextCommentLine fun t => '\r' ∉ t.toList :=
  .attempt <| .after fun _ => .after fun _ => .after fun _ => commentLine_yields

theorem comment_yields : Yields comment Leaf.WellFormed := by
  refine .bind commentLine_yields fun first hf => .bind (.many nextCommentLine_yields) fun others ho =>
    .pure ?_
  exact not_mem_intercalate (by decide) (List.forall_mem_cons.mpr ⟨hf, ho⟩)

theorem freeText_yields : Yields freeText fun t => ∀ x ∈ t.toList, isLineBreak x = false := by
  refine .after fun b => Ensures.scan fun c _ x hx => ?_
  rw [toList_span] at hx
  have := of_mem_takeWhile hx
  simp at this
  exact this.1

theorem assignment_yields : Yields assignment Leaf.WellFormed :=
  .attempt <| .after fun _ => .after fun _ => .bind identifier_yields fun _ hn => .after fun _ =>
    .bind freeText_yields fun _ hv => .pure ⟨hn, hv⟩

theorem goto_yields : Yields goto Leaf.WellFormed :=
  .attempt <| .after fun _ => .after fun _ => .after fun _ => .bind identifier_yields fun _ ht => .pure ht

theorem invoke_yields : Yields invoke Leaf.WellFormed :=
  .attempt <| .after fun _ => .after fun _ => .after fun inBlock =>
    .bind (.orElse (token_yields inBlock) (.fail _)) fun _ ht =>
      .bind (.many (.attempt (.after fun _ => token_yields inBlock))) fun _ ha =>
        .pure (List.forall_mem_cons.mpr ⟨ht, ha⟩)

/-! ## Redirections -/

theorem handle_spec (c : Cursor) :
    ((handle c).1 = "" ∧ (handle c).2 = c) ∨ (handle c).1 ∈ ["0", "1", "2"] := by
  unfold handle
  split
  · rename_i h
    match hr : c.rest with
    | [] => simp [hr, beginsWithHandle] at h
    | [x] => simp [hr, beginsWithHandle] at h
    | x :: y :: rest =>
      simp only [hr, beginsWithHandle, Bool.and_eq_true, isHandleDigit, Bool.or_eq_true, beq_iff_eq] at h
      have hd : ∀ z ∈ ['0', '1', '2'], String.ofList [z] ∈ ["0", "1", "2"] := by decide
      exact .inr (hd x (by simpa [or_assoc] using h.1))
  · exact .inl ⟨rfl, rfl⟩

theorem destination_yields : Yields destination IsToken := by
  refine .after fun inBlock => .orElse (.scan? fun {c t d} h => .inl ?_)
    (.orElse (token_yields inBlock) (.fail _))
  simp only [stream?, Option.filter_eq_some_iff] at h
  exact fun hm => absurd ((of_word? h.1).2 _ hm) (by decide)

theorem redirection_yields : Yields redirection Redirection.WellFormed := by
  refine .attempt <| .bind (A := fun h => h ∈ ["", "0", "1", "2"]) (Ensures.scan fun c _ => ?_) fun h hh =>
    .bind (A := fun m => m ∈ modes) (.orElse (.scan? fun e => (mem_of_eatFirst? e).1) (.fail _)) fun m hm =>
      .after fun _ => .bind destination_yields fun _ hd => .pure ⟨⟨h, hh, m, hm, rfl⟩, hd⟩
  rcases handle_spec c with ⟨h, -⟩ | h
  · rw [h]; exact List.mem_cons_self
  · exact List.mem_cons_of_mem _ h

theorem redirections_yields : Yields redirections fun rs => ∀ r ∈ rs, r.WellFormed :=
  .many (.attempt (.after fun _ => redirection_yields))

/-! ## Output -/

/-- Where a message ends, and no redirection without a handle begins. -/
def EndsWithoutMode (rest : List Char) : Prop :=
  (rest ≠ [] → ∃ inBlock, endsMessage inBlock rest = true) ∧ Stops isRedirectChar rest

theorem stops_isSpace_of_endsMessage {inBlock : Bool} {rest : List Char}
    (h : endsMessage inBlock rest = true) : Stops isSpace rest := by
  cases rest with
  | nil => exact stops_nil
  | cons x rest =>
    have hd : ∀ y ∈ ['\r', '\n', '<', '>', '&', '|', ')', '0', '1', '2'], isSpace y = false := by decide
    have hx : x ∈ ['\r', '\n', '<', '>', '&', '|', ')', '0', '1', '2'] := by
      rw [endsMessage, List.head?_cons, Option.any_some] at h
      simp only [isLineBreak, isRedirectChar, isChainChar, closesBlock] at h
      cases rest with
      | nil => simp [beginsWithHandle] at h ⊢; grind
      | cons y rest => simp [beginsWithHandle, isHandleDigit] at h ⊢; grind
    exact stops_cons.mpr (hd x hx)

theorem head_of_mem_modes : ∀ m ∈ modes, m.toList.head?.any isRedirectChar = true := by decide

theorem handle_append_not_mem_modes : ∀ h ∈ ["0", "1", "2"], ∀ m ∈ modes, h ++ m ∉ modes := by decide

theorem not_startsWith_mode {c : Cursor} {m : String} (hm : m ∈ modes) (hc : Stops isRedirectChar c.rest) :
    c.startsWith m = false := by
  have hh := head_of_mem_modes m hm
  rw [← Bool.not_eq_true, startsWith, List.isPrefixOf_iff_prefix]
  intro hp
  have hs := hc.of_front hp
  cases hl : m.toList with
  | nil => simp [hl] at hh
  | cons x y =>
    rw [hl, stops_cons] at hs
    simp [hl, hs] at hh

theorem redirection_ensures : Ensures EndsWithoutMode (do skipSpaces; redirection) fun r _ => r.mode ∉ modes := by
  refine .bind (Q := fun _ => Stops isRedirectChar) (.move fun c hc => ?_) fun _ => .attempt ?_
  · rw [rest_skipWhile, dropWhile_eq_self_of_stops ?_]
    · exact hc.2
    · by_cases he : c.rest = []
      · rw [he]; exact stops_nil
      · obtain ⟨b, hb⟩ := hc.1 he
        exact stops_isSpace_of_endsMessage hb
  · refine .bind (Q := fun h rest => h ∈ ["0", "1", "2"] ∨ h = "" ∧ Stops isRedirectChar rest) (.scan fun c hc => ?_)
      fun h => .bind (Q := fun m _ => h ∈ ["0", "1", "2"] ∧ m ∈ modes) ?_ fun m => ?_
    · rcases handle_spec c with ⟨h, he⟩ | h
      · exact .inr ⟨h, by rw [he]; exact hc⟩
      · exact .inl h
    · refine .orElse (.scan? fun c m d hc e => ?_) (.fail _)
      obtain ⟨hm, he⟩ := mem_of_eatFirst? e
      refine ⟨hc.resolve_right fun ⟨_, hs⟩ => ?_, hm⟩
      have hsw : c.startsWith m = true := (eatText?_eq_some_iff.mp he).1
      rw [not_startsWith_mode hm hs] at hsw
      exact Bool.false_ne_true hsw
    · refine .bind (Q := fun _ _ => h ∈ ["0", "1", "2"] ∧ m ∈ modes) (.move fun _ hc => hc) fun _ =>
        .bind (Q := fun _ _ => h ∈ ["0", "1", "2"] ∧ m ∈ modes) (fun _ _ _ hc _ => hc) fun _ => .pure ?_
      exact fun _ hc => handle_append_not_mem_modes h hc.1 m hc.2

/-- The first redirection directly behind a place without a mode has a handle. -/
theorem redirections_ensures :
    Ensures EndsWithoutMode redirections fun rs _ => ∀ r ∈ rs.head?, r.mode ∉ modes := by
  refine .bind (Q := fun rs _ => ∀ r ∈ rs.getLast?, r.mode ∉ modes) ?_ fun rs => .pure fun _ h => ?_
  · refine (Ensures.foldMany (J := fun rs rest => (rs = [] → EndsWithoutMode rest) ∧
      ∀ r ∈ rs.getLast?, r.mode ∉ modes) (fun rs => ?_) []).mono (fun _ h => ⟨fun _ => h, by simp⟩)
      fun _ _ h => h.2
    cases rs with
    | nil =>
      refine redirection_ensures.attempt.mono (fun _ h => h.1 rfl) fun r _ h => ⟨by simp, ?_⟩
      simpa using h
    | cons first others =>
      exact fun s t r h _ => ⟨by simp, by rw [List.getLast?_cons_cons]; exact h.2⟩
  · rw [List.head?_reverse]; exact h

/-- A message, and where it ends. -/
theorem message_ensures : Ensures (fun _ => True) message fun m rest =>
    (∀ x ∈ m.toList, isLineBreak x = false ∧ isRedirectChar x = false ∧ isChainChar x = false) ∧
      ∀ x ∈ m.toList.getLast?, isHandleDigit x = true → EndsWithoutMode rest := by
  refine .bind (Yields.any _) fun inBlock => .scan fun c _ => ⟨fun x hx => ?_, fun x hx hd => ⟨fun hr => ?_, ?_⟩⟩
  · obtain ⟨rest, hs⟩ := exists_not_stop_of_mem_upTo hx
    simp [endsMessage] at hs
    exact ⟨hs.1.1.1.1, hs.1.1.1.2, hs.1.1.2⟩
  · simp only [upTo, rest_skip] at hr ⊢
    exact ⟨inBlock, stop_drop_lengthBefore hr⟩
  · -- otherwise the message had ended before its last character
    have hs := not_stop_of_getLast_upTo hx
    cases hr : (c.upTo (endsMessage inBlock)).2.rest with
    | nil => exact stops_nil
    | cons y rest =>
      simp only [hr, endsMessage, beginsWithHandle, hd, Bool.true_and, Bool.or_eq_false_iff] at hs
      exact stops_cons.mpr hs.2

theorem emit_yields : Yields emit Leaf.WellFormed := by
  refine .attempt <| .after fun _ => .after fun escapeMode => ?_
  refine Ensures.bind message_ensures fun m => Ensures.bind (Q := fun rs _ => Leaf.WellFormed (.emit m escapeMode rs))
    (fun s t rs ⟨hm, hl⟩ e => ⟨hm, redirections_yields trivial e, fun r hr hb x hx => ?_⟩) fun _ => .pure fun _ h => h
  cases hd : isHandleDigit x with
  | false => rfl
  | true => exact absurd hb (redirections_ensures (hl x hx hd) e r hr)

theorem leaf_yields : Yields leaf Leaf.WellFormed :=
  .orElse comment_yields <| .orElse assignment_yields <| .orElse emit_yields <|
    .orElse goto_yields invoke_yields

end Grammar

end BatchScript
