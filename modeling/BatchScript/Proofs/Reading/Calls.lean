import BatchScript.Proofs.Reading.Words
import BatchScript.Proofs.Tree.Basic
import BatchScript.Session

/-!
# What calls read

A call is `CALL` and its tokens, each a text in quotes or a run of characters. Spaces come before the first token,
and before every other one that follows a run. Behind a text in quotes the next token may follow at once
(`Reading.Arguments`), so that `"a""b"` is two tokens.
-/

namespace BatchScript

open Text

namespace Reading

/-- A text in quotes, as it is written. -/
def IsQuotation (written : List Char) : Prop :=
  ∃ t : String, '"' ∉ t.toList ∧ written = (quoted t).toList

/-- Tokens behind a token `last`, up to where no other one follows, each with the spaces before it. Spaces may be
missing only behind a text in quotes. -/
inductive Arguments (inBlock : Bool) (rest : List Char) : List Char → List Char → List String → Prop
  | nil {last : List Char} : Stops (Grammar.isTokenChar inBlock) (rest.dropWhile isSpace) →
      Arguments inBlock rest last [] []
  | cons {last spaces written others : List Char} {t : String} {tokens : List String} :
      (∀ x ∈ spaces, isSpace x = true) → (spaces = [] → IsQuotation last) → token inBlock written t (others ++ rest) →
      Arguments inBlock rest written others tokens →
      Arguments inBlock rest last (spaces ++ (written ++ others)) (t :: tokens)

/-- `CALL`, spaces, the token of the target and the tokens of the arguments. -/
def call (inBlock : Bool) : Reading (String × List String) := fun front c rest =>
  ∃ keyword spaces written arguments : List Char, IsKeyword .call keyword ∧
    IsSpacing spaces (written ++ (arguments ++ rest)) ∧ token inBlock written c.1 (arguments ++ rest) ∧
    Arguments inBlock rest written arguments c.2 ∧ front = keyword ++ (spaces ++ (written ++ arguments))

variable {inBlock : Bool} {written rest : List Char} {t : String}

/-- Behind a token a further one may only follow at once if this one is written in quotes. -/
theorem isQuotation_or_stops (h : token inBlock written t rest) :
    IsQuotation written ∨ Stops (Grammar.isTokenChar inBlock) rest :=
  h.imp (fun h => ⟨t, h⟩) fun h => h.2.2.2.2

theorem exists_cons_of_token (h : token inBlock written t rest) :
    ∃ x others, written = x :: others ∧ Grammar.isTokenChar inBlock x = true := by
  obtain ⟨-, rfl⟩ | ⟨-, rfl, hne, hp, -⟩ := h
  · exact ⟨'"', _, toList_quoted t, by cases inBlock <;> decide⟩
  · cases ht : t.toList with
    | nil => exact absurd (String.toList_eq_nil_iff.mp ht) hne
    | cons x others => exact ⟨x, others, rfl, hp x (by simp [ht])⟩

end Reading

namespace Grammar

open Cursor Rule

variable {inBlock : Bool} {d b : Nat} {last written rest : List Char} {tokens : List String}

theorem stops_isSpace_of_isTokenChar {x : Char} (h : isTokenChar inBlock x = true) (rest : List Char) :
    Stops isSpace (x :: rest) := by
  rw [isTokenChar, Bool.and_assoc, Bool.and_eq_true, Bool.not_eq_true'] at h
  exact stops_cons.mpr (not_isSpace_of_not_isBlank h.1)

/-- The repetition for arguments takes the tokens in order, and stops behind them. -/
theorem arguments_rounds (h : Reading.Arguments inBlock rest last written tokens) :
    Runs.Rounds (Rule.attempt do skipSpaces; token inBlock) d b (written ++ rest) tokens rest := by
  induction h with
  | nil hend =>
    refine .nil (.attempt_unmatched (.bind skipSpaces_runs_dropWhile (token_unmatched ?_ hend)))
    refine fun x hx => beq_eq_false_iff_ne.mpr ?_
    rintro rfl
    have := hend '"' hx
    cases inBlock <;> cases this
  | cons hs _ ht _ ih =>
    obtain ⟨x, others, hx, htoken⟩ := Reading.exists_cons_of_token ht
    have hstop := stops_isSpace_of_isTokenChar htoken
    rw [List.append_assoc, List.append_assoc]
    refine .cons (.attempt (.bind (skipSpaces_runs_append hs ?_) ((token_reads _).runs (token_alike _) ht))) ?_ ih
    · rw [hx]; exact hstop _
    · rw [hx]; simp; omega

theorem argument_matched {s t : State} {a : String}
    (e : (Rule.attempt do skipSpaces; token inBlock) s = (.matched a, t)) :
    ∃ spaces written, s.cursor.rest = spaces ++ (written ++ t.cursor.rest) ∧ (∀ x ∈ spaces, isSpace x = true) ∧
      Reading.token inBlock written a t.cursor.rest := by
  obtain ⟨_, u, hu, e⟩ := bind_matched (attempt_matched.mp e)
  obtain ⟨spaces, hs, hspaces, -⟩ := skipSpaces_matched hu
  obtain ⟨written, hu, ht⟩ := (token_reads inBlock).exists_front e
  exact ⟨spaces, written, hu ▸ hs, hspaces, ht⟩

theorem argument_unmatched {s t : State} (e : (Rule.attempt do skipSpaces; token inBlock) s = (.unmatched, t)) :
    t.cursor = s.cursor ∧ Stops (isTokenChar inBlock) (s.cursor.rest.dropWhile isSpace) := by
  obtain ⟨hstay, v, e⟩ := attempt_unmatched e
  refine ⟨hstay, ?_⟩
  obtain e | ⟨_, u, hu, e⟩ := bind_unmatched e
  · cases e
  · cases hu
    have hnone := (token_reads inBlock).not_applies e
    have hrest : (s.cursor.skipWhile isSpace).rest = s.cursor.rest.dropWhile isSpace := rest_skipWhile _ _
    rw [← hrest]
    by_contra h
    exact hnone (Reading.applies_otherwise.mpr (.inr (Reading.run_applies h)))

/-- What the repetition took are arguments, whatever stands before the token `last`. -/
theorem arguments_of_repeats {s t u : State} (h : Repeats (Rule.attempt do skipSpaces; token inBlock) s tokens u)
    (hend : (Rule.attempt do skipSpaces; token inBlock) u = (.unmatched, t))
    (hlast : Reading.IsQuotation last ∨ Stops (isTokenChar inBlock) s.cursor.rest) :
    ∃ written, s.cursor.rest = written ++ t.cursor.rest ∧
      Reading.Arguments inBlock t.cursor.rest last written tokens := by
  induction h generalizing last with
  | nil =>
    obtain ⟨hstay, hstop⟩ := argument_unmatched hend
    rw [hstay]
    exact ⟨[], rfl, .nil hstop⟩
  | cons hs _ ih =>
    obtain ⟨spaces, written, hs, hspaces, ht⟩ := argument_matched hs
    obtain ⟨others, hothers, harguments⟩ := ih hend (Reading.isQuotation_or_stops ht)
    refine ⟨spaces ++ (written ++ others), ?_, .cons hspaces (fun hnone => ?_) (hothers ▸ ht) harguments⟩
    · rw [hs, hothers]; simp
    · obtain ⟨x, front, hx, htoken⟩ := Reading.exists_cons_of_token ht
      refine hlast.resolve_right fun hstop => ?_
      rw [hs, hnone, hx, List.nil_append, List.cons_append, stops_cons, htoken] at hstop
      cases hstop

theorem arguments_of_many {s t : State}
    (e : Rule.many (.attempt do skipSpaces; token inBlock) s = (.matched tokens, t))
    (hlast : Reading.IsQuotation last ∨ Stops (isTokenChar inBlock) s.cursor.rest) :
    ∃ written, s.cursor.rest = written ++ t.cursor.rest ∧
      Reading.Arguments inBlock t.cursor.rest last written tokens := by
  obtain ⟨u, h, hend | ⟨w, a, hw, hle⟩⟩ := repeats_of_many e
  · exact arguments_of_repeats h hend hlast
  · -- an argument is not empty
    obtain ⟨spaces, written, hs, -, ht⟩ := argument_matched hw
    obtain ⟨x, front, rfl, -⟩ := Reading.exists_cons_of_token ht
    have := congrArg List.length hs
    simp only [State.left, left_eq, List.length_append, List.length_cons] at hle this
    omega

/-- A call is read as it is described, and no other call is. -/
theorem invoke_reads (s : State) (target : String) (arguments : List String) (rest : List Char) :
    (∃ t, invoke s = (.matched (.invoke target arguments), t) ∧ t.cursor.rest = rest) ↔
      ∃ front, s.cursor.rest = front ++ rest ∧
        Reading.call (decide (0 < s.blockDepth)) front (target, arguments) rest := by
  constructor
  · rintro ⟨t, e, rfl⟩
    obtain ⟨_, u, hu, e⟩ := bind_matched (attempt_matched.mp e)
    obtain ⟨_, v, hv, e⟩ := bind_matched e
    obtain ⟨_, w, hw, e⟩ := bind_matched e
    obtain ⟨name, x, hx, e⟩ := bind_matched e
    obtain ⟨values, y, hy, e⟩ := bind_matched e
    cases e
    cases hw
    have hblock : v.blockDepth = s.blockDepth :=
      (Flat.orderly spaces_alike 0 hv).follows.blockDepth.trans (Flat.orderly (keyword_alike _) 0 hu).follows.blockDepth
    rw [hblock] at hx hy
    obtain ⟨keyword, hs, hk⟩ := (keyword_reads _).exists_front hu
    obtain ⟨spaces, hu, hg⟩ := spaces_reads.exists_front hv
    obtain ⟨written, hv, ht⟩ := ((token_reads _).orElse_nothing (.fail _)).exists_front hx
    obtain ⟨others, hx, ha⟩ := arguments_of_many hy (Reading.isQuotation_or_stops ht)
    rw [hv, hx] at hg
    rw [hx] at ht
    refine ⟨keyword ++ (spaces ++ (written ++ others)), ?_, keyword, spaces, written, others, hk, hg, ht, ha, rfl⟩
    rw [hs, hu, hv, hx]
    simp only [List.append_assoc]
  · rintro ⟨front, hs, keyword, spaces, written, others, hk, hg, ht, ha, rfl⟩
    have hruns : Runs invoke s.depth s.blockDepth
        (keyword ++ (spaces ++ (written ++ (others ++ rest)))) (.matched (.invoke target arguments)) rest := by
      refine .attempt (.bind ((keyword_reads _).runs (a := ()) (keyword_alike _) hk) ?_)
      refine .bind (spaces_reads.runs (a := ()) spaces_alike hg) (.bind .inBlock ?_)
      refine .bind (.orElse_matched ((token_reads _).runs (token_alike _) ht) _) ?_
      exact .bind (arguments_rounds ha).many (.pure _)
    obtain ⟨t, ht, hat⟩ := hruns s ⟨by simpa using hs, rfl, rfl⟩
    exact ⟨t, ht, hat.rest⟩

/-- Two tokens may touch, as here behind a text in quotes. -/
theorem touching_tokens_are_two :
    Document.read {} "call \"a\"\"b\"" = .ok ⟨[.leaf (.invoke "a" ["b"])]⟩ ∧
      "call \"a\"\"b\"".toList.countP isSpace = 1 := by decide +kernel

end Grammar

end BatchScript
