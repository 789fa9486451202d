import BatchScript.Proofs.Cursor.Reach
import BatchScript.Proofs.Cursor.Fronts

/-!
# Cursors moved at will

A cursor goes over a script by scans, leaves marks, and goes back to the marks it left, in any order
and any number of times (`Tape.run`). Wherever that leads, it stands at one of the places of the script
(`Tape.On`), so that its line and its column are those that the number of characters before it tells
(`Tape.placed_run`). Going over a line break adds one to the line and begins it anew, whether the break
is `\n`, `\r` or `\r\n` (`eatLineBreak?_iff`).
-/

namespace BatchScript

open Text

/-! ## Lines and columns -/

/-- The places before the one at `n` behind which a line ends. -/
def Text.breaksBefore (text : List Char) (n : Nat) : List Nat :=
  (List.range n).filter (breaksAt text)

theorem Text.breaksBefore_succ (text : List Char) (n : Nat) :
    breaksBefore text (n + 1) = breaksBefore text n ++ if breaksAt text n then [n] else [] := by
  rw [breaksBefore, List.range_succ, List.filter_append, List.filter_cons, List.filter_nil]; rfl

theorem Position.line_of (text : List Char) (n : Nat) :
    (Position.of text n).line = 1 + (breaksBefore text n).length := by
  rw [breaksBefore, ← List.countP_eq_length_filter]; rfl

/-- The column counts from the last line break. -/
theorem Position.column_of (text : List Char) (n : Nat) :
    (Position.of text n).column = (breaksBefore text n).getLast?.elim (n + 1) (n - ·) := by
  induction n with
  | zero => rfl
  | succ n ih =>
    have hs : (Position.of text (n + 1)).column = if breaksAt text n then 1 else (Position.of text n).column + 1 := by
      simp only [Position.of, List.range_succ, List.reverse_append, List.reverse_singleton, List.singleton_append,
        List.takeWhile_cons]
      cases breaksAt text n with
      | true => rfl
      | false => exact (Nat.add_assoc 1 _ 1).symm
    rw [hs, ih, breaksBefore_succ]
    cases breaksAt text n with
    | true => simp
    | false =>
      rw [if_neg Bool.false_ne_true, if_neg Bool.false_ne_true, List.append_nil]
      cases hl : (breaksBefore text n).getLast? with
      | none => rfl
      | some i =>
        have hi : i < n := List.mem_range.mp (List.mem_filter.mp (List.mem_of_getLast? hl)).1
        simp only [Option.elim_some]; omega

/-- A cursor stands in a text where its position says. -/
structure Cursor.Placed (text : List Char) (c : Cursor) : Prop where
  offset_le : c.position.offset ≤ text.length
  rest : c.rest = text.drop c.position.offset
  line : c.position.line = 1 + (breaksBefore text c.position.offset).length
  column : c.position.column =
    (breaksBefore text c.position.offset).getLast?.elim (c.position.offset + 1) (c.position.offset - ·)

theorem Cursor.placed_of_reaches {text : List Char} {c : Cursor} (h : (ofText text).Reaches c) : c.Placed text := by
  obtain ⟨hle, hp⟩ := position_of_reaches h
  refine ⟨hle, ?_, ?_, ?_⟩
  · rw [eq_skip_offset h, rest_skip, rest_ofText, ← eq_skip_offset h]
  · rw [hp]; exact Position.line_of _ _
  · rw [hp]; exact Position.column_of _ _

/-- The number of characters before a cursor tells all of it. -/
theorem Cursor.Placed.eq {text : List Char} {c d : Cursor} (hc : c.Placed text) (hd : d.Placed text)
    (h : c.position.offset = d.position.offset) : c = d := by
  have hl : c.position.line = d.position.line := by rw [hc.line, hd.line, h]
  have hk : c.position.column = d.position.column := by rw [hc.column, hd.column, h]
  have hp : c.position = d.position := by
    cases hcp : c.position; cases hdp : d.position
    rw [hcp, hdp] at h hl hk
    simp only at h hl hk
    rw [h, hl, hk]
  exact Cursor.ext (by rw [hc.rest, hd.rest, h]) hp

/-! ## Line breaks -/

namespace Cursor

variable {c d : Cursor}

theorem reaches_of_eatLineBreak? (h : c.eatLineBreak? = some d) : c.Reaches d := by
  rw [eatLineBreak?_eq] at h
  obtain ⟨n, -, rfl⟩ := Option.map_eq_some_iff.mp h
  exact c.reaches_skip n

theorem isSome_eatLineBreak? (c : Cursor) : c.eatLineBreak?.isSome = c.current.any isLineBreak := by
  rw [eatLineBreak?_eq, Option.isSome_map, current]
  cases c.rest with
  | nil => rfl
  | cons x i =>
    simp only [lineBreakLength?, List.head?_cons, Option.any_some]
    split
    · rename_i h; rw [h.1]; rfl
    · split <;> simp_all

theorem reaches_of_word? {p : Char → Bool} (h : (c.word? p).map Prod.snd = some d) : c.Reaches d := by
  obtain ⟨⟨t, d⟩, hw, rfl⟩ := Option.map_eq_some_iff.mp h
  obtain ⟨-, hw⟩ := Option.ite_none_left_eq_some.mp hw
  cases hw; exact c.reaches_skip _

/-- Behind a line break the next line begins. -/
theorem position_skip_lineBreak {l : LineBreak} {rest : List Char} (hc : c.rest = l.chars ++ rest)
    (hr : l = .cr → Stops (· == '\n') rest) :
    (c.skip l.chars.length).position = ⟨c.position.line + 1, 1, c.position.offset + l.chars.length⟩ := by
  cases l with
  | lf => exact position_next hc
  | cr =>
    refine (position_next hc).trans ?_
    cases rest with
    | nil => rfl
    | cons x rest =>
      have hx : x ≠ '\n' := by simpa using hr rfl
      simp [Position.after, Position.endsLine, hx, LineBreak.chars]
  | crlf =>
    have hn : c.next.rest = '\n' :: rest := by rw [rest_next, hc]; rfl
    refine (position_next hn).trans ?_
    rw [position_next hc]; rfl

/-- A line break is gone over where one comes next, and as a whole. -/
theorem eatLineBreak?_iff : c.eatLineBreak? = some d ↔
    ∃ l : LineBreak, c.rest = l.chars ++ d.rest ∧ (l = .cr → Stops (· == '\n') d.rest) ∧
      d.position = ⟨c.position.line + 1, 1, c.position.offset + l.chars.length⟩ := by
  have position : ∀ {e : Cursor} {l : LineBreak}, c.eatLineBreak? = some e → c.rest = l.chars ++ e.rest →
      (l = .cr → Stops (· == '\n') e.rest) →
      e.position = ⟨c.position.line + 1, 1, c.position.offset + l.chars.length⟩ := by
    intro e l he hc hr
    rw [(reaches_of_eatLineBreak? he).eq_skip hc, position_skip_lineBreak hc hr]
  constructor
  · intro h
    have hs : ¬ Stops isLineBreak c.rest := fun hs => by rw [eatLineBreak?_eq_none hs] at h; cases h
    obtain ⟨l, rest, hc, hr⟩ := exists_lineBreak hs
    obtain ⟨e, he, rfl⟩ := eatLineBreak?_append l hc hr
    obtain rfl : e = d := Option.some.inj (he.symm.trans h)
    exact ⟨l, hc, hr, position h hc hr⟩
  · rintro ⟨l, hc, hr, hp⟩
    obtain ⟨e, he, hd⟩ := eatLineBreak?_append l hc hr
    rw [← hd] at hc hr
    rw [he, Cursor.ext hd ((position he hc hr).trans hp.symm)]

end Cursor

/-! ## Moves -/

/-- What a cursor may be asked to go over. -/
inductive Scan where
  | char
  | exactly (x : Char)
  | text (t : String)
  /-- This word in any ASCII case. -/
  | keyword (w : String)
  | lineBreak
  | spaces
  | blanks
  /-- The characters that satisfy `p`, perhaps none. -/
  | span (p : Char → Bool)
  | restOfLine
  /-- At least one character that satisfies `p`. -/
  | word (p : Char → Bool)
  | literal
  | identifier
  | quoted

/-- The cursor behind what is asked for, if it comes next. -/
def Scan.behind? (c : Cursor) : Scan → Option Cursor
  | .char => some c.next
  | .exactly x => c.eat? x
  | .text t => c.eatText? t
  | .keyword w => c.eatKeyword? w
  | .lineBreak => c.eatLineBreak?
  | .spaces => some (c.skipWhile isSpace)
  | .blanks => some (c.skipWhile isBlank)
  | .span p => some (c.span p).2
  | .restOfLine => some c.restOfLine.2
  | .word p => (c.word? p).map Prod.snd
  | .literal => c.literal?.map Prod.snd
  | .identifier => c.identifier?.map Prod.snd
  | .quoted => c.quoted?.map Prod.snd

theorem Scan.reaches_of_behind? {c d : Cursor} {s : Scan} (h : s.behind? c = some d) : c.Reaches d := by
  cases s with
  | char => cases h; exact c.reaches_skip 1
  | exactly x => rw [(Cursor.eat?_eq_some_iff.mp h).2]; exact c.reaches_skip 1
  | text t => rw [(Cursor.eatText?_eq_some_iff.mp h).2]; exact c.reaches_skip _
  | keyword w => rw [(Cursor.eatKeyword?_eq_some_iff.mp h).2]; exact c.reaches_skip _
  | lineBreak => exact Cursor.reaches_of_eatLineBreak? h
  | spaces | blanks | span p | restOfLine => cases h; exact c.reaches_skip _
  | word p => exact Cursor.reaches_of_word? h
  | literal => exact Cursor.reaches_of_word? h
  | identifier =>
    obtain ⟨⟨t, d⟩, hw, rfl⟩ := Option.map_eq_some_iff.mp h
    obtain ⟨-, hw⟩ := Option.ite_none_right_eq_some.mp hw
    cases hw; exact c.reaches_skip _
  | quoted =>
    obtain ⟨⟨t, d⟩, hq, rfl⟩ := Option.map_eq_some_iff.mp h
    obtain ⟨front, rest, -, -, -, rfl⟩ := Cursor.quoted?_eq_some_iff.mp hq
    exact c.reaches_skip _

/-- What a cursor that keeps marks may be asked for. Looking ahead moves nothing. -/
inductive Move where
  /-- To go over something; where it does not come next, the cursor stays. -/
  | scan (scan : Scan)
  | mark
  /-- To go back to a mark, counted from the first one. -/
  | reset (mark : Nat)

/-- A cursor and the marks that it left, in the order in which it left them. -/
structure Tape where
  cursor : Cursor
  marks : List Cursor := []

namespace Tape

/-- The beginning of a text, without marks. -/
def start (text : List Char) : Tape :=
  { cursor := .ofText text }

/-- Makes one move. -/
def move (t : Tape) : Move → Tape
  | .scan s => { t with cursor := (s.behind? t.cursor).getD t.cursor }
  | .mark => { t with marks := t.marks ++ [t.cursor] }
  | .reset mark => { t with cursor := t.marks[mark]?.getD t.cursor }

/-- Makes moves in order. -/
def run (t : Tape) (moves : List Move) : Tape :=
  moves.foldl move t

/-- The cursor and all marks are places of a text. -/
structure On (text : List Char) (t : Tape) : Prop where
  cursor : (Cursor.ofText text).Reaches t.cursor
  marks : ∀ m ∈ t.marks, (Cursor.ofText text).Reaches m

variable {text : List Char} {t : Tape}

theorem on_start (text : List Char) : (start text).On text :=
  ⟨.refl _, fun _ h => nomatch h⟩

theorem On.move (h : t.On text) (m : Move) : (t.move m).On text := by
  cases m with
  | scan s =>
    refine ⟨?_, h.marks⟩
    cases hs : s.behind? t.cursor with
    | none => rw [Tape.move, hs]; exact h.cursor
    | some d => rw [Tape.move, hs]; exact h.cursor.trans (Scan.reaches_of_behind? hs)
  | mark =>
    refine ⟨h.cursor, fun m hm => ?_⟩
    obtain hm | hm := List.mem_append.mp hm
    · exact h.marks m hm
    · rw [List.mem_singleton.mp hm]; exact h.cursor
  | reset mark =>
    refine ⟨?_, h.marks⟩
    cases hm : t.marks[mark]? with
    | none => rw [Tape.move, hm]; exact h.cursor
    | some m => rw [Tape.move, hm]; exact h.marks m (List.mem_of_getElem? hm)

theorem On.run (h : t.On text) (moves : List Move) : (t.run moves).On text := by
  induction moves generalizing t with
  | nil => exact h
  | cons m moves ih => exact ih (h.move m)

theorem On.placed (h : t.On text) : ∀ c ∈ t.cursor :: t.marks, c.Placed text :=
  List.forall_mem_cons.mpr
    ⟨Cursor.placed_of_reaches h.cursor, fun m hm => Cursor.placed_of_reaches (h.marks m hm)⟩

/-- After any moves the cursor and every mark stand where the number of characters before them says, and
those with the same number are the same. From there a line break is gone over exactly where one comes next,
`\r\n` as one, and behind it the next line begins; elsewhere the cursor stays. -/
theorem placed_run (text : List Char) (moves : List Move) :
    let t := (start text).run moves
    (∀ c ∈ t.cursor :: t.marks, c.Placed text ∧
      ∀ d ∈ t.cursor :: t.marks, c.position.offset = d.position.offset → c = d) ∧
    (t.cursor.eatLineBreak?.isSome = t.cursor.current.any isLineBreak) ∧
    (t.cursor.eatLineBreak? = none → (t.move (.scan .lineBreak)).cursor = t.cursor) ∧
    ∀ d, t.cursor.eatLineBreak? = some d → (t.move (.scan .lineBreak)).cursor = d ∧
      ∃ l : Cursor.LineBreak, t.cursor.rest = l.chars ++ d.rest ∧ (l = .cr → d.current ≠ some '\n') ∧
        d.position = ⟨t.cursor.position.line + 1, 1, t.cursor.position.offset + l.chars.length⟩ := by
  intro t
  have placed := ((on_start text).run moves).placed
  refine ⟨fun c hc => ⟨placed c hc, fun d hd => (placed c hc).eq (placed d hd)⟩, ?_, fun h => ?_, fun d h => ?_⟩
  · exact t.cursor.isSome_eatLineBreak?
  · rw [Tape.move, Scan.behind?, h]; rfl
  · refine ⟨by rw [Tape.move, Scan.behind?, h]; rfl, ?_⟩
    obtain ⟨l, hc, hr, hp⟩ := Cursor.eatLineBreak?_iff.mp h
    refine ⟨l, hc, fun hl hn => ?_, hp⟩
    have := hr hl '\n' hn
    cases this

example :
    let moves := [.scan .char, .mark, .scan .lineBreak, .reset 0, .scan .lineBreak, .scan .restOfLine, .scan .lineBreak]
    ((start "a\rb\r\nc".toList).run moves).cursor.position = ⟨3, 1, 5⟩ := by decide

end Tape

end BatchScript
