import BatchScript.Proofs.Outline.Pieces
import BatchScript.Proofs.Text.Joined

/-!
# Outlines as indented chunks

An outline is put together from chunks, one for each line of its layout (`Statement.chunks`). A chunk
stands at a level of its own, to which the level at which the outline is shown is added
(`Statement.outline_eq_intercalate`). So where no text has a line feed, the chunks are the lines of the
outline, and a deeper outline is the same lines with more spaces before each (`Statement.outline_indents`).
-/

namespace BatchScript

open Outline Text

/-! ## Chunks -/

/-- One line of a layout: how deep it is indented, and what stands there. -/
structure Chunk where
  level : Nat
  pieces : List Piece

mutual

/-- The chunks of a statement that stands `level` levels deep. -/
def Statement.chunksAt (level : Nat) (s : Statement) : List Chunk :=
  ⟨level, s.pieces⟩ ::
    match s with
    | .leaf _ => []
    | .label _ => []
    | .branch _ thenBody elseBody =>
      bodyChunks (level + 1) thenBody ++ elseChunks level elseBody ++ [⟨level, [.closing]⟩]
    | .loop _ _ _ body => bodyChunks (level + 1) body ++ [⟨level, [.closing]⟩]
    | .chain left _ right =>
      left.chunksAt (level + 1) ++ ⟨level, [.mark "\x7d right=\x7b"]⟩ ::
        (right.chunksAt (level + 1) ++ [⟨level, [.closing]⟩])

/-- The chunks of the statements of a body. -/
def bodyChunks (level : Nat) : List Statement → List Chunk
  | [] => []
  | statement :: others => statement.chunksAt level ++ bodyChunks level others

/-- The chunks of the alternative of a branch. -/
def elseChunks (level : Nat) : Option (List Statement) → List Chunk
  | none => []
  | some body => ⟨level, [.mark "\x7d whenFalse=\x7b"]⟩ :: bodyChunks (level + 1) body

end

/-- The chunks of a statement. -/
def Statement.chunks (s : Statement) : List Chunk :=
  s.chunksAt 0

namespace Outline

/-- So many spaces. -/
def spaces (n : Nat) : String :=
  .ofList (List.replicate n ' ')

theorem toList_margin (level : Nat) : (margin level).toList = (spaces (4 * level)).toList := by
  rw [margin, spaces, String.toList_join, String.toList_ofList]
  induction level with
  | zero => rfl
  | succ n ih =>
    rw [List.replicate_succ, List.flatMap_cons, ih, Nat.mul_succ, Nat.add_comm, ← List.replicate_append_replicate]; rfl

end Outline

/-- A chunk as it is shown `base` levels deeper than it stands. -/
def Chunk.shown (base : Nat) (c : Chunk) : String :=
  spaces (4 * (base + c.level)) ++ Piece.line c.pieces

/-- Chunks as they are shown, each with a line feed behind it. -/
def shownChunks (base : Nat) (chunks : List Chunk) : List Char :=
  chunks.flatMap fun c => (c.shown base).toList ++ ['\n']

@[simp] theorem shownChunks_nil (base : Nat) : shownChunks base [] = [] := rfl

@[simp] theorem shownChunks_cons (base : Nat) (c : Chunk) (cs : List Chunk) :
    shownChunks base (c :: cs) =
      (margin (base + c.level)).toList ++ ((Piece.line c.pieces).toList ++ '\n' :: shownChunks base cs) := by
  rw [shownChunks, List.flatMap_cons, Chunk.shown, String.toList_append, toList_margin]
  simp [shownChunks]

@[simp] theorem shownChunks_append (base : Nat) (cs ds : List Chunk) :
    shownChunks base (cs ++ ds) = shownChunks base cs ++ shownChunks base ds :=
  List.flatMap_append

@[simp] theorem toList_outlineBody_nil (level : Nat) : (outlineBody level "" []).toList = [] := by
  rw [outlineBody]; rfl

@[simp] theorem toList_outlineBody_cons (level : Nat) (s : Statement) (others : List Statement) :
    (outlineBody level "" (s :: others)).toList =
      (s.outline level).toList ++ '\n' :: (outlineBody level "" others).toList := by
  rw [outlineBody, outlineBody_eq_append]
  simp

mutual

theorem Statement.toList_outline (base level : Nat) (s : Statement) :
    (s.outline (base + level)).toList ++ ['\n'] = shownChunks base (s.chunksAt level) := by
  cases s with
  | leaf l => simp [Statement.outline, Statement.chunksAt, Statement.pieces]
  | label name => simp [Statement.outline, Statement.chunksAt, Statement.pieces]
  | branch condition thenBody elseBody =>
    have ht := toList_outlineBody base (level + 1) thenBody
    have he := toList_outlineElse base level elseBody
    rw [← Nat.add_assoc] at ht
    simpa [Statement.outline, Statement.chunksAt, Statement.pieces, ht] using he
  | loop option loopVar source body =>
    have hb := toList_outlineBody base (level + 1) body
    rw [← Nat.add_assoc] at hb
    cases option <;> simp [Statement.outline, Statement.chunksAt, Statement.pieces, hb]
  | chain left op right =>
    have hl := left.toList_outline base (level + 1)
    have hr := right.toList_outline base (level + 1)
    rw [← Nat.add_assoc] at hl hr
    simp [Statement.outline, Statement.chunksAt, Statement.pieces, ← hl, ← hr]

theorem toList_outlineBody (base level : Nat) (body : List Statement) :
    (outlineBody (base + level) "" body).toList = shownChunks base (bodyChunks level body) := by
  cases body with
  | nil => simp [bodyChunks]
  | cons s others =>
    have hs := s.toList_outline base level
    have ho := toList_outlineBody base level others
    simp [bodyChunks, ← hs, ho]

theorem toList_outlineElse (base level : Nat) (elseBody : Option (List Statement)) :
    (margin (base + level)).toList ++ '\x7d' :: ((outlineElse (base + level) elseBody).toList ++ ['>', '\n']) =
      shownChunks base (elseChunks level elseBody ++ [⟨level, [.closing]⟩]) := by
  cases elseBody with
  | none => simp [outlineElse, elseChunks]
  | some body =>
    have hb := toList_outlineBody base (level + 1) body
    rw [← Nat.add_assoc] at hb
    simp [outlineElse, elseChunks, hb]

end

/-- The texts of a chunk. -/
def Chunk.texts (c : Chunk) : List String :=
  Piece.texts c.pieces

mutual

theorem Statement.texts_chunksAt (level : Nat) (s : Statement) :
    (s.chunksAt level).flatMap Chunk.texts = s.nodes.flatMap Statement.texts := by
  cases s with
  | leaf | label => simp [Statement.chunksAt, Statement.nodes, Chunk.texts]
  | branch condition thenBody elseBody =>
    simp [Statement.chunksAt, Statement.nodes, Chunk.texts, texts_bodyChunks, texts_elseChunks]
  | loop option loopVar source body => simp [Statement.chunksAt, Statement.nodes, Chunk.texts, texts_bodyChunks]
  | chain left op right =>
    simp [Statement.chunksAt, Statement.nodes, Chunk.texts, left.texts_chunksAt, right.texts_chunksAt]

theorem texts_bodyChunks (level : Nat) (body : List Statement) :
    (bodyChunks level body).flatMap Chunk.texts = (bodyNodes body).flatMap Statement.texts := by
  cases body with
  | nil => rfl
  | cons s others => simp [bodyChunks, bodyNodes, s.texts_chunksAt, texts_bodyChunks]

theorem texts_elseChunks (level : Nat) (elseBody : Option (List Statement)) :
    (elseChunks level elseBody).flatMap Chunk.texts = (elseNodes elseBody).flatMap Statement.texts := by
  cases elseBody with
  | none => rfl
  | some body => simp [elseChunks, elseNodes, Chunk.texts, texts_bodyChunks]

end

/-! ## Lines -/

mutual

/-- The number of lines of a statement whose texts have no line feeds. -/
def Statement.lineCount : Statement → Nat
  | .leaf _ => 1
  | .label _ => 1
  | .branch _ thenBody elseBody => 2 + bodyLineCount thenBody + elseLineCount elseBody
  | .loop _ _ _ body => 2 + bodyLineCount body
  | .chain left _ right => 3 + left.lineCount + right.lineCount

/-- The number of lines of the statements of a body. -/
def bodyLineCount : List Statement → Nat
  | [] => 0
  | statement :: others => statement.lineCount + bodyLineCount others

/-- The number of lines that the alternative of a branch adds. -/
def elseLineCount : Option (List Statement) → Nat
  | none => 0
  | some body => 1 + bodyLineCount body

end

mutual

theorem Statement.length_chunksAt (level : Nat) (s : Statement) : (s.chunksAt level).length = s.lineCount := by
  cases s with
  | leaf l => simp [Statement.chunksAt, Statement.lineCount]
  | label name => simp [Statement.chunksAt, Statement.lineCount]
  | branch condition thenBody elseBody =>
    simp [Statement.chunksAt, Statement.lineCount, length_bodyChunks, length_elseChunks]; omega
  | loop option loopVar source body => simp [Statement.chunksAt, Statement.lineCount, length_bodyChunks]; omega
  | chain left op right =>
    simp [Statement.chunksAt, Statement.lineCount, left.length_chunksAt, right.length_chunksAt]; omega

theorem length_bodyChunks (level : Nat) (body : List Statement) :
    (bodyChunks level body).length = bodyLineCount body := by
  cases body with
  | nil => rfl
  | cons s others => simp [bodyChunks, bodyLineCount, s.length_chunksAt, length_bodyChunks]

theorem length_elseChunks (level : Nat) (elseBody : Option (List Statement)) :
    (elseChunks level elseBody).length = elseLineCount elseBody := by
  cases elseBody with
  | none => rfl
  | some body => simp [elseChunks, elseLineCount, length_bodyChunks]; omega

end

theorem Statement.chunks_ne_nil (s : Statement) : s.chunks ≠ [] := by
  cases s <;> simp [chunks, chunksAt]

/-- An outline is its chunks with a line feed between any two. -/
theorem Statement.outline_eq_intercalate (s : Statement) (level : Nat) :
    s.outline level = "\n".intercalate (s.chunks.map (Chunk.shown level)) := by
  have hs := s.toList_outline level 0
  have hc : s.chunks.map (Chunk.shown level) ≠ [] := by simp [s.chunks_ne_nil]
  have hi : ("\n".intercalate (s.chunks.map (Chunk.shown level))).toList ++ ['\n'] = _ :=
    toList_intercalate_concat rfl hc
  rw [List.flatMap_map] at hi
  exact String.toList_inj.mp (List.append_cancel_right (hs.trans hi.symm))

namespace Outline

/-- The lines of a text. -/
def lines (t : String) : List String :=
  (t.toList.splitOn '\n').map .ofList

theorem lines_intercalate {ts : List String} (hne : ts ≠ []) (h : ∀ t ∈ ts, '\n' ∉ t.toList) :
    lines ("\n".intercalate ts) = ts := by
  rw [lines, splitOn_intercalate rfl hne h, List.map_map]
  simp [Function.comp_def]

theorem spaces_add (m n : Nat) : spaces (m + n) = spaces m ++ spaces n := by
  apply String.toList_inj.mp
  simp [spaces]

theorem notMem_spaces (n : Nat) : '\n' ∉ (spaces n).toList := by
  rw [spaces, String.toList_ofList]
  intro h
  exact absurd (List.eq_of_mem_replicate h) (by decide)

end Outline

theorem Piece.notMem_line {pieces : List Piece} (h : ∀ t ∈ texts pieces, '\n' ∉ t.toList) :
    '\n' ∉ (line pieces).toList := by
  induction pieces with
  | nil => simp
  | cons p ps ih =>
    cases p with
    | mark w stays =>
      rw [line_cons, String.toList_append, List.mem_append, not_or]
      exact ⟨stays, ih h⟩
    | text t =>
      rw [texts_text, List.forall_mem_cons] at h
      rw [line_cons, String.toList_append, List.mem_append, not_or]
      exact ⟨h.1, ih h.2⟩

theorem Chunk.notMem_shown (base : Nat) {c : Chunk} (h : ∀ t ∈ c.texts, '\n' ∉ t.toList) :
    '\n' ∉ (c.shown base).toList := by
  rw [shown, String.toList_append, List.mem_append, not_or]
  exact ⟨notMem_spaces _, Piece.notMem_line h⟩

theorem Chunk.shown_eq (base : Nat) (c : Chunk) : c.shown base = spaces (4 * base) ++ c.shown 0 := by
  rw [shown, shown, Nat.zero_add, Nat.mul_add, spaces_add, String.append_assoc]

/-- Where no text of a statement has a line feed, its chunks are the lines of its outline. -/
theorem Statement.lines_outline {s : Statement} (h : ∀ t ∈ s.nodes.flatMap texts, '\n' ∉ t.toList) (level : Nat) :
    lines (s.outline level) = s.chunks.map (Chunk.shown level) := by
  rw [s.outline_eq_intercalate]
  refine lines_intercalate (by simp [s.chunks_ne_nil]) fun t ht => ?_
  obtain ⟨c, hc, rfl⟩ := List.mem_map.mp ht
  refine Chunk.notMem_shown level fun t ht => h t ?_
  rw [← s.texts_chunksAt 0]
  exact List.mem_flatMap.mpr ⟨c, hc, ht⟩

/-- At every level an outline is the same chunks, as many as the statement has lines, with the texts of the
statement in them as they are; to the level of each chunk the level of the outline is added. Where no text
has a line feed, the outline at a level is the outline at level zero with four more spaces for each level before
every line, and has as many lines. -/
theorem Statement.outline_indents (s : Statement) (level : Nat) :
    (s.outline level =
        "\n".intercalate (s.chunks.map fun c => spaces (4 * (level + c.level)) ++ Piece.line c.pieces) ∧
      s.outline 0 = "\n".intercalate (s.chunks.map fun c => spaces (4 * c.level) ++ Piece.line c.pieces) ∧
      s.chunks.flatMap (fun c => Piece.texts c.pieces) = s.nodes.flatMap texts ∧
      s.chunks.length = s.lineCount) ∧
    ((∀ t ∈ s.nodes.flatMap texts, '\n' ∉ t.toList) →
      lines (s.outline level) = (lines (s.outline 0)).map (spaces (4 * level) ++ ·) ∧
      (lines (s.outline level)).length = s.lineCount) := by
  refine ⟨⟨s.outline_eq_intercalate level, ?_, s.texts_chunksAt 0, s.length_chunksAt 0⟩, fun h => ⟨?_, ?_⟩⟩
  · rw [s.outline_eq_intercalate 0]
    exact congrArg _ (List.map_congr_left fun c _ => by rw [Chunk.shown, Nat.zero_add])
  · rw [lines_outline h, lines_outline h, List.map_map]
    exact List.map_congr_left fun c _ => c.shown_eq level
  · rw [lines_outline h, List.length_map]
    exact s.length_chunksAt 0

/-- A branch with a loop in one of its bodies and a chain in the other. -/
theorem Statement.outline_indents_branch :
    let s : Statement := .branch (.pathExists "a.txt") [.loop none 'i' "b.txt" [.leaf (.goto "X")]]
      (some [.chain (.leaf (.emit "c" true [⟨">", "d"⟩])) .onSuccess (.leaf (.comment "e"))])
    (∀ t ∈ s.nodes.flatMap texts, '\n' ∉ t.toList) ∧
      lines (s.outline 2) = (lines (s.outline 0)).map (spaces 8 ++ ·) ∧ (lines (s.outline 2)).length = 11 := by
  intro s
  have h : ∀ t ∈ s.nodes.flatMap texts, '\n' ∉ t.toList := by decide
  exact ⟨h, (s.outline_indents 2).2 h⟩

end BatchScript
