import BatchScript.Proofs.Grammar.Spelling
import BatchScript.Session

/-!
# Scripts with other line breaks and in lower case

What a script is read as does not depend on how its lines end (`read_lineEnding`), nor on the case
of its letters (`read_toLower`). Both are the reading of a script in another spelling
(`answers_of_read`).
-/

namespace BatchScript

open Text Grammar

variable {limits : Limits} {script : String}

/-! ## Another spelling -/

namespace Spelling

/-- The answer to the spelling of a script belongs to the answer to the script. -/
inductive Answers (σ : Spelling) (script : List Char) : Except Failure Document → Except Failure Document → Prop where
  | ok (d : Document) : Answers σ script (.ok d) (.ok (d.reword σ.rewording))
  | tooDeep {p q : Position} (limit : Nat) : σ.Beside script p q →
      Answers σ script (.error (.tooDeep p limit)) (.error (.tooDeep q limit))
  | unmatched {p q : Position} (expected : List Expectation) : σ.Beside script p q →
      Answers σ script (.error (.unmatched p expected)) (.error (.unmatched q expected))

variable {σ : Spelling}

theorem alongside_begin (i : List Char) :
    σ.Alongside i { cursor := .ofText i } { cursor := .ofText (σ.text i) } :=
  ⟨reads_ofText, rfl, rfl, beside_start, rfl⟩

theorem Alongside.failure {i : List Char} {s t : State} (h : σ.Alongside i s t) :
    σ.Answers i (.error (s.attempts.failure s.cursor.position)) (.error (t.attempts.failure t.cursor.position)) := by
  unfold Attempts.failure
  rw [h.expected]
  split
  · exact .unmatched _ h.cursor.beside
  · exact .unmatched _ h.furthest

theorem answers_of_read {other : String} (hf : σ.Fits script.toList) (ho : other.toList = σ.text script.toList)
    (hs : script.utf8ByteSize ≤ limits.inputSize) (hs' : other.utf8ByteSize ≤ limits.inputSize) :
    σ.Answers script.toList (Document.read limits script) (Document.read limits other) := by
  rw [read_eq hs, read_eq hs', ho]
  have h := document_respells hf limits.depth (alongside_begin script.toList)
  match document limits.depth { cursor := .ofText script.toList },
    document limits.depth { cursor := .ofText (σ.text script.toList) }, h with
  | _, _, .matched _ => exact .ok _
  | _, _, .unmatched k => exact k.failure
  | _, _, .tooDeep hp _ => exact .tooDeep _ hp

end Spelling

/-! ## Other line breaks -/

/-- A way to end a line other than with a line feed alone. -/
inductive LineEnding where
  | carriageReturn
  | carriageReturnLineFeed

namespace LineEnding

/-- A line ending as it is written. -/
def text : LineEnding → List Char
  | .carriageReturn => ['\r']
  | .carriageReturnLineFeed => ['\r', '\n']

/-- A text whose line feeds are written as line endings. -/
def rewrite (e : LineEnding) (s : String) : String :=
  .ofList (s.toList.flatMap fun c => if c = '\n' then e.text else [c])

/-- Such a text is a spelling of the text. -/
def spelling (e : LineEnding) : Spelling where
  letter := id
  lineFeed := e.text
  toLower_letter _ := rfl
  lineFeed_mem := by cases e <;> decide

theorem rewording_spelling (e : LineEnding) : e.spelling.rewording = ⟨id, e.rewrite, id⟩ := by
  have h : e.spelling.line = id := by
    funext s
    apply String.toList_injective
    rw [Spelling.line, String.toList_map]
    exact List.map_id _
  rw [Spelling.rewording, h]
  rfl

end LineEnding

/-- A script whose lines end with line feeds, and the same script with other line endings: the one is
read if the other one is, as the same tree with other line endings in tokens, quoted texts and sources
of loops; and if they are not, the reports agree on the line, the column and what was expected there. -/
theorem read_lineEnding (e : LineEnding) (hr : '\r' ∉ script.toList) (hs : script.utf8ByteSize ≤ limits.inputSize)
    (hs' : (e.rewrite script).utf8ByteSize ≤ limits.inputSize) :
    (∀ d, Document.read limits script = .ok d →
      Document.read limits (e.rewrite script) = .ok (d.reword ⟨id, e.rewrite, id⟩)) ∧
    ∀ f, Document.read limits script = .error f →
      ∃ f', Document.read limits (e.rewrite script) = .error f' ∧
        f'.report.position.line = f.report.position.line ∧
        f'.report.position.column = f.report.position.column ∧ f'.report.expected = f.report.expected := by
  have ho : (e.rewrite script).toList = e.spelling.text script.toList := String.toList_ofList
  have hf : e.spelling.Fits script.toList := .inr hr
  have h := Spelling.answers_of_read hf ho hs hs'
  rw [← e.rewording_spelling]
  generalize Document.read limits script = a, Document.read limits (e.rewrite script) = b at h ⊢
  cases h with
  | ok d => exact ⟨fun d' hd => by cases hd; rfl, nofun⟩
  | tooDeep limit hp =>
    refine ⟨nofun, fun f hf => ⟨_, rfl, ?_⟩⟩
    cases hf
    exact ⟨hp.line, hp.column, rfl⟩
  | unmatched expected hp =>
    refine ⟨nofun, fun f hf => ⟨_, rfl, ?_⟩⟩
    cases hf
    exact ⟨hp.line, hp.column, rfl⟩

/-- Comments stay joined by line feeds, while a quoted text keeps its own line break. -/
theorem read_lineEnding_comments :
    Document.read {} "rem a\r\nrem b\r\ncall \"c\r\nd\"" =
      .ok ⟨[.leaf (.comment "a\nb"), .leaf (.invoke "c\r\nd" [])]⟩ := by
  have h : Document.read {} "rem a\nrem b\ncall \"c\nd\"" =
      .ok ⟨[.leaf (.comment "a\nb"), .leaf (.invoke "c\nd" [])]⟩ := by decide +kernel
  have hw : LineEnding.carriageReturnLineFeed.rewrite "rem a\nrem b\ncall \"c\nd\"" =
      "rem a\r\nrem b\r\ncall \"c\r\nd\"" := by decide +kernel
  have hd := (read_lineEnding .carriageReturnLineFeed (by decide) (by decide +kernel) (by decide +kernel)).1 _ h
  rw [hw] at hd
  exact hd.trans (by decide +kernel)

/-! ## Lower case -/

/-- The spelling of a text in lower case. -/
def lowerCase : Spelling where
  letter := Char.toLower
  lineFeed := ['\n']
  toLower_letter := toLower_toLower
  lineFeed_mem := by decide

theorem utf8Size_toLower (c : Char) : c.toLower.utf8Size = c.utf8Size := by
  cases hc : c.isUpper with
  | false => rw [toLower_of_not_isUpper hc]
  | true => exact of_isUpper (P := fun c => c.toLower.utf8Size = c.utf8Size) (by decide) hc

theorem utf8ByteSize_toLower (s : String) : s.toLower.utf8ByteSize = s.utf8ByteSize := by
  have h : ∀ i : List Char, (String.ofList (i.map Char.toLower)).utf8ByteSize = (String.ofList i).utf8ByteSize := by
    intro i
    induction i with
    | nil => rfl
    | cons c i ih =>
      rw [List.map_cons, String.ofList_cons, String.ofList_cons, String.utf8ByteSize_append, String.utf8ByteSize_append,
        String.utf8ByteSize_singleton, String.utf8ByteSize_singleton, utf8Size_toLower, ih]
  have hs : s.toLower = .ofList (s.toList.map Char.toLower) := by
    rw [← String.toList_map, String.ofList_toList]; rfl
  rw [hs, h, String.ofList_toList]

theorem text_lowerCase (i : List Char) : lowerCase.text i = i.map Char.toLower :=
  lowerCase.text_eq_map rfl

theorem rewording_lowerCase : lowerCase.rewording = ⟨String.toLower, String.toLower, Char.toLower⟩ := by
  have h : lowerCase.token = String.toLower := by
    funext s
    rw [Spelling.token, text_lowerCase, ← String.toList_map, String.ofList_toList]; rfl
  rw [Spelling.rewording, h]
  rfl

/-- The lower case of a text has the same places. -/
theorem eq_of_beside_lowerCase {i : List Char} {p q : Position} (h : lowerCase.Beside i p q) : q = p := by
  have ho : q.offset = p.offset := by
    rw [h.offset, text_lowerCase, List.length_map, List.length_take, Nat.min_eq_left h.le]
  obtain ⟨line, column, offset⟩ := p
  obtain ⟨line', column', offset'⟩ := q
  obtain rfl : line' = line := h.line
  obtain rfl : column' = column := h.column
  obtain rfl : offset' = offset := ho
  rfl

/-- No decision of the reader depends on the case of an ASCII letter: a script in lower case is read as
the tree of the script with all its texts in lower case, or fails as the script does. -/
theorem read_toLower (limits : Limits) (script : String) :
    Document.read limits script.toLower =
      (Document.read limits script).map (·.reword ⟨String.toLower, String.toLower, Char.toLower⟩) := by
  have hlen := utf8ByteSize_toLower script
  rcases Nat.lt_or_ge limits.inputSize script.utf8ByteSize with hs | hs
  · rw [read_of_size_lt hs, read_of_size_lt (by omega)]
    rfl
  · have ho : script.toLower.toList = lowerCase.text script.toList := by
      rw [text_lowerCase, ← String.toList_map]; rfl
    have h := Spelling.answers_of_read (.inl rfl) ho hs (by omega)
    rw [← rewording_lowerCase]
    generalize Document.read limits script = a, Document.read limits script.toLower = b at h ⊢
    cases h with
    | ok d => rfl
    | tooDeep limit hp => rw [eq_of_beside_lowerCase hp]; rfl
    | unmatched expected hp => rw [eq_of_beside_lowerCase hp]; rfl

end BatchScript
