import Mathlib.Data.List.Nodup
import BatchScript.Proofs.Session.GivingUp
import BatchScript.Proofs.Tree.Basic

/-!
# Reports of failures

A report names a place of the script by its line, its column and its offset, and lists what
was expected there, each thing once (`report_sound`). Unless a limit was met, the place is
not before the statement that is missing, and something more is known than that a statement
was expected.
-/

namespace BatchScript

open Grammar Rule Cursor

/-! ## The texts of expectations -/

namespace Expectation

/-- The expectations other than punctuation. -/
def plain : List Expectation :=
  [.rem, .set, .echo, .goto, .call, .ifWord, .elseWord, .notWord, .exist, .forWord, .fileSwitch, .inWord, .doWord,
    .equ, .neq, .gtr, .lss, .leq, .geq].map .keyword ++
  [.whitespace, .identifier, .callTarget, .redirection, .redirectionTarget, .operand, .path, .loopVariable, .statement]

/-- The expectation other than punctuation that has such a text. -/
def ofText? (text : String) : Option Expectation :=
  plain.find? (·.text == text)

theorem ofText?_text (e : Expectation) : ofText? e.text = some e ∨ ∃ t, e = .symbol t := by
  cases e with
  | symbol t => exact .inr ⟨t, rfl⟩
  | keyword k => left; cases k <;> decide +kernel
  | _ => left; decide +kernel

theorem head?_text_of_ofText? {text : String} {e : Expectation} (h : ofText? text = some e) :
    text.toList.head? ≠ some '\x27' := by
  have hm := List.find?_some h
  have he : ∀ e ∈ plain, e.text.toList.head? ≠ some '\x27' := by decide +kernel
  rw [← eq_of_beq hm]
  exact he e (List.mem_of_find?_eq_some h)

theorem head?_text_symbol (t : String) : (Expectation.symbol t).text.toList.head? = some '\x27' := by
  simp [text]

/-- Different expectations have different texts. -/
theorem text_injective : Function.Injective Expectation.text := by
  intro e f h
  obtain he | ⟨t, rfl⟩ := ofText?_text e
  · obtain hf | ⟨t, rfl⟩ := ofText?_text f
    · rw [h, hf] at he
      cases he; rfl
    · exact absurd (h ▸ head?_text_symbol t) (head?_text_of_ofText? he)
  · obtain hf | ⟨u, rfl⟩ := ofText?_text f
    · exact absurd (h ▸ head?_text_symbol t) (head?_text_of_ofText? hf)
    · have hl := congrArg String.toList h
      simp only [text, String.toList_append, List.append_cancel_left_eq, List.append_cancel_right_eq] at hl
      rw [String.toList_injective hl]

end Expectation

/-! ## Reports -/

variable {limits : Limits} {script : String} {f : Failure}

/-- Where a script is given up, the record has a mark at the missing statement or behind it. -/
theorem covers_of_document {t : State} (e : document limits.depth (.begin script) = (.unmatched, t)) :
    t.attempts.Covers t.cursor.position.offset := by
  have hs : (State.begin script).Sound script.toList := ⟨.refl _, Attempts.sound_empty _⟩
  obtain ⟨statements, u, hr, hc, -, hu⟩ := document_unmatched e
  have hu' := (hr.follows documentItem_orderly).sound hs
  have ht : State.Sound script.toList { u with cursor := t.cursor } :=
    ⟨hu'.reached.trans (hc ▸ reaches_skip _ _), hu'.attempts⟩
  have hcovers : t.attempts.Covers (State.cursor { u with cursor := t.cursor }).position.offset :=
    statement_wants ht hu
  exact hcovers

/-- Where a limit is met, it is the limit that is told of. -/
theorem Failure.report_expected_of_limit (h : ∀ p expected, f ≠ .unmatched p expected) :
    ∃ text, f.report.expected = [text] ∧ text ≠ "statement" := by
  cases f with
  | tooLarge limit => exact ⟨_, rfl, fun he => by simpa using congrArg String.toList he⟩
  | tooDeep p limit => exact ⟨_, rfl, fun he => by simpa using congrArg String.toList he⟩
  | unmatched p expected => exact absurd rfl (h p expected)

/-- Of what was wanted, each thing is told once, and it is not only that a statement was. -/
theorem Attempts.Sound.expected_text {a : Attempts} {n : Nat} (h : a.Sound script.toList) (hc : a.Covers n) :
    a.expected.map Expectation.text ≠ [] ∧ (a.expected.map Expectation.text).Nodup ∧
      a.expected.map Expectation.text ≠ ["statement"] := by
  refine ⟨by simpa using hc.1, h.nodup.map Expectation.text_injective, fun he => ?_⟩
  have hm : Expectation.statement.text ∈ a.expected.map Expectation.text := by
    rw [he]; exact List.mem_singleton.mpr rfl
  obtain ⟨w, hw, ht⟩ := List.mem_map.mp hm
  exact h.expected (Expectation.text_injective ht ▸ hw)

/-- What a report says is so: its place is a place of the script, by line, column and offset, and what
was expected there is listed, each thing once. It is never said only that a statement was expected;
and unless a limit was met, a statement is missing at the place or before it. -/
theorem report_sound (h : Document.read limits script = .error f) :
    f.report.position.offset ≤ script.length ∧
    f.report.position = .of script.toList f.report.position.offset ∧
    f.report.expected ≠ [] ∧ f.report.expected.Nodup ∧ f.report.expected ≠ ["statement"] ∧
    ((∀ size, f ≠ .tooLarge size) → (∀ p depth, f ≠ .tooDeep p depth) →
      ∃ c, GivesUpAt limits.depth script c ∧ c.position.offset ≤ f.report.position.offset) := by
  obtain rfl | ⟨p, t, hd, rfl⟩ | ⟨t, hd, hf⟩ := document_of_read_error h
  · obtain ⟨text, he, hne⟩ := Failure.report_expected_of_limit (f := .tooLarge limits.inputSize) nofun
    rw [he]
    exact ⟨Nat.zero_le _, rfl, List.cons_ne_nil _ _, List.nodup_singleton _, by simpa using hne,
      fun hl => absurd rfl (hl _)⟩
  · obtain ⟨text, he, hne⟩ := Failure.report_expected_of_limit (f := .tooDeep p limits.depth) nofun
    have hc := document_orderly hd
    have hp := position_of_reaches hc.follows.reaches
    rw [← (hc.tooDeep rfl).1] at hp
    rw [he]
    exact ⟨hp.1, hp.2, List.cons_ne_nil _ _, List.nodup_singleton _, by simpa using hne,
      fun _ hl => absurd rfl (hl _ _)⟩
  · have hcovers := covers_of_document hd
    obtain rfl := hf.trans (hcovers.failure_eq _)
    have hsound := (document_orderly hd).follows.sound ⟨.refl _, Attempts.sound_empty script.toList⟩
    obtain ⟨c, hc, hp⟩ := hsound.attempts.furthest
    have hplace := position_of_reaches hc
    rw [← hp] at hplace
    obtain ⟨hne, hnodup, hstatement⟩ := hsound.attempts.expected_text hcovers
    exact ⟨hplace.1, hplace.2, hne, hnodup, hstatement, fun _ _ => ⟨_, givesUpAt_of_document hd, hcovers.2⟩⟩

/-- On the second line, behind `SET`, a name is missing. -/
theorem report_sound_identifier : ∃ f, Document.read {} "rem a\r\nset 1" = .error f ∧
    f.report = ⟨⟨2, 5, 11⟩, ["identifier"]⟩ ∧ f.report.position = .of "rem a\r\nset 1".toList 11 := by
  have h : Document.read {} "rem a\r\nset 1" = .error (.unmatched ⟨2, 5, 11⟩ [.identifier]) := by decide +kernel
  exact ⟨_, h, rfl, (report_sound h).2.1⟩

end BatchScript
