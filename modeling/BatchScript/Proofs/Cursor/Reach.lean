import BatchScript.Grammar.Statement

/-!
# Moving forward

A cursor reaches another one if skipping characters leads there. The position of a cursor is
kept up to date character by character; it is the place that is found by counting the line
breaks before it, and the characters behind the last one.

* `reaches_iff_le`: a cursor is reached by skipping characters that are there;
* `Reaches.left_le`: what is reached has no more characters left;
* `left_lt_of_eatKeyword?`: behind a keyword there are fewer;
* `position_skip`: the position behind `n` characters is the place counted out.
-/

namespace BatchScript

namespace Cursor

theorem skip_skip (m n : Nat) (c : Cursor) : skip m (skip n c) = skip (n + m) c := by
  induction n generalizing c with
  | zero => rw [skip_zero, Nat.zero_add]
  | succ n ih => rw [skip_succ, ih, Nat.succ_add, skip_succ]

theorem skip_of_length_le {n : Nat} {c : Cursor} (h : c.rest.length ≤ n) : c.skip n = c.skip c.rest.length := by
  obtain ⟨m, rfl⟩ := Nat.exists_eq_add_of_le h
  have hend : ∀ m (d : Cursor), d.rest = [] → d.skip m = d := by
    intro m
    induction m with
    | zero => exact fun _ _ => rfl
    | succ m ih => exact fun d hd => by rw [skip_succ, next_eq_self hd, ih d hd]
  rw [← skip_skip, hend m _ (by rw [rest_skip, List.drop_length])]

/-- Skipping characters at `c` leads to `d`. -/
def Reaches (c d : Cursor) : Prop :=
  ∃ n, d = c.skip n

@[simp] theorem Reaches.refl (c : Cursor) : c.Reaches c := ⟨0, rfl⟩

@[simp] theorem reaches_skip (c : Cursor) (n : Nat) : c.Reaches (c.skip n) := ⟨n, rfl⟩

theorem Reaches.trans {c d e : Cursor} (h : c.Reaches d) (k : d.Reaches e) : c.Reaches e := by
  obtain ⟨n, rfl⟩ := h
  obtain ⟨m, rfl⟩ := k
  exact ⟨n + m, skip_skip m n c⟩

theorem Reaches.left_le {c d : Cursor} (h : c.Reaches d) : d.left ≤ c.left := by
  obtain ⟨n, rfl⟩ := h
  rw [left_skip]; omega

/-- What is reached is reached by skipping characters that are there. -/
theorem reaches_iff_le {c d : Cursor} : c.Reaches d ↔ ∃ n ≤ c.rest.length, d = c.skip n := by
  constructor
  · rintro ⟨n, rfl⟩
    rcases Nat.le_total n c.rest.length with h | h
    · exact ⟨n, h, rfl⟩
    · exact ⟨c.rest.length, Nat.le_refl _, skip_of_length_le h⟩
  · rintro ⟨n, -, rfl⟩
    exact reaches_skip c n

/-- What is left behind a front of the text tells how far it is. -/
theorem Reaches.eq_skip {c d : Cursor} {front : List Char} (h : c.Reaches d) (hr : c.rest = front ++ d.rest) :
    d = c.skip front.length := by
  obtain ⟨n, hn, rfl⟩ := reaches_iff_le.mp h
  have hlen := congrArg List.length hr
  rw [List.length_append, rest_skip, List.length_drop] at hlen
  obtain rfl : n = front.length := by omega
  rfl

theorem Reaches.offset_le {c d : Cursor} (h : c.Reaches d) : c.position.offset ≤ d.position.offset := by
  obtain ⟨n, hn, rfl⟩ := reaches_iff_le.mp h
  rw [offset_skip hn]; omega

theorem Reaches.offset_lt {c d : Cursor} (h : c.Reaches d) (hl : d.left < c.left) :
    c.position.offset < d.position.offset := by
  obtain ⟨n, hn, rfl⟩ := reaches_iff_le.mp h
  rw [left_skip] at hl
  rw [offset_skip hn]; omega

/-- Behind a keyword there is less to read. -/
theorem left_lt_of_eatKeyword? {c d : Cursor} {word : String} (hw : word ≠ "")
    (h : c.eatKeyword? word = some d) : d.left < c.left := by
  rw [eatKeyword?_eq_some_iff] at h
  obtain ⟨h, rfl⟩ := h
  have hl : 0 < word.toList.length := by
    rw [List.length_pos_iff]
    exact fun e => hw (String.toList_eq_nil_iff.mp e)
  have hc : 0 < c.rest.length := by
    match hw : word.toList, hr : c.rest with
    | [], _ => simp [hw] at hl
    | _ :: _, [] => simp [atKeyword, hw, hr, Text.beginsWithWord] at h
    | _ :: _, _ :: _ => simp
  rw [left_skip, left_eq]; omega

end Cursor

/-! ## Places counted out -/

namespace Text

/-- Whether a line ends behind the character at `i`, which is `\n`, or `\r` without `\n` behind it. -/
def breaksAt (text : List Char) (i : Nat) : Bool :=
  text[i]? == some '\n' || text[i]? == some '\r' && text[i + 1]? != some '\n'

end Text

open Text

/-- The place behind the first `n` characters of a text. -/
def Position.of (text : List Char) (n : Nat) : Position where
  line := 1 + (List.range n).countP (breaksAt text)
  column := 1 + ((List.range n).reverse.takeWhile fun i => !breaksAt text i).length
  offset := n

theorem Position.of_succ {text : List Char} {n : Nat} {c : Char} (h : text[n]? = some c) :
    Position.of text (n + 1) = (Position.of text n).after c text[n + 1]? := by
  have hc : breaksAt text n = endsLine c text[n + 1]? := by
    simp only [breaksAt, endsLine, h]; rfl
  have hl : (List.range (n + 1)).countP (breaksAt text) =
      (List.range n).countP (breaksAt text) + if breaksAt text n then 1 else 0 := by
    rw [List.range_succ, List.countP_append, List.countP_singleton]
  have hr : (List.range (n + 1)).reverse = n :: (List.range n).reverse := by
    rw [List.range_succ, List.reverse_append]; rfl
  unfold Position.of Position.after
  rw [hl, hr, List.takeWhile_cons, hc]
  cases endsLine c text[n + 1]? with
  | true => rfl
  | false => simp [Nat.add_comm]

namespace Cursor

theorem skip_succ_eq_next (n : Nat) (c : Cursor) : c.skip (n + 1) = (c.skip n).next :=
  (skip_skip 1 n c).symm

/-- The position of a cursor in a text is the place of the character before which it stands. -/
theorem position_skip {text : List Char} {n : Nat} (h : n ≤ text.length) :
    ((ofText text).skip n).position = .of text n := by
  induction n with
  | zero => rfl
  | succ n ih =>
    have hr : ((ofText text).skip n).rest = text[n] :: text.drop (n + 1) := by
      rw [rest_skip, rest_ofText, List.drop_eq_getElem_cons h]
    rw [skip_succ_eq_next, position_next hr, ih (Nat.le_of_succ_le h), List.head?_drop,
      Position.of_succ (List.getElem?_eq_getElem h)]

/-- What is reached in a text is one of its places. -/
theorem position_of_reaches {text : List Char} {c : Cursor} (h : (ofText text).Reaches c) :
    c.position.offset ≤ text.length ∧ c.position = .of text c.position.offset := by
  obtain ⟨n, hn, rfl⟩ := reaches_iff_le.mp h
  rw [rest_ofText] at hn
  rw [position_skip hn]
  exact ⟨hn, rfl⟩

theorem eq_skip_offset {text : List Char} {c : Cursor} (h : (ofText text).Reaches c) :
    c = (ofText text).skip c.position.offset := by
  obtain ⟨n, hn, rfl⟩ := reaches_iff_le.mp h
  rw [rest_ofText] at hn
  rw [position_skip hn]; rfl

theorem eq_skip_of_atEnd {text : List Char} {c : Cursor} (h : (ofText text).Reaches c) (hc : c.atEnd = true) :
    c = (ofText text).skip text.length := by
  obtain ⟨n, hn, rfl⟩ := reaches_iff_le.mp h
  rw [rest_ofText] at hn
  simp only [atEnd, rest_skip, rest_ofText, List.isEmpty_iff, List.drop_eq_nil_iff] at hc
  rw [Nat.le_antisymm hn hc]

end Cursor

end BatchScript
