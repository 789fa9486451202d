import BatchScript.Proofs.Session.Enclosed

/-!
# Comments and their lines

Comment lines one behind another are one comment, however each of them spells its `REM` and whatever
line breaks stand between them. An empty line ends the comment, and the next line begins another one
(`read_comments`).
-/

namespace BatchScript

open Text Cursor Grammar Rule

/-! ## The text -/

/-- A comment line: spaces, perhaps an `@`, `REM` in any case, and perhaps one more space and a text. -/
structure CommentLine where
  spaces : String
  marked : Bool
  word : String
  body : Option (Char × String)
  isSpace_spaces : ∀ x ∈ spaces.toList, isSpace x = true
  isKeyword_word : IsKeyword .rem word.toList
  isSpace_body : ∀ p ∈ body, isSpace p.1 = true
  oneLine_body : ∀ p ∈ body, ∀ x ∈ p.2.toList, isLineBreak x = false

namespace CommentLine

/-- The line from its `REM` on. -/
def command (l : CommentLine) : String :=
  l.word ++ (match l.body with
    | none => ""
    | some (space, text) => String.singleton space ++ text)

/-- The line as it is written. -/
def script (l : CommentLine) : String :=
  l.spaces ++ atSign l.marked ++ l.command

/-- What the line says. -/
def text (l : CommentLine) : String :=
  match l.body with
  | none => ""
  | some (_, text) => text

end CommentLine

/-- Comment lines with a line break between each and the next. -/
structure CommentBlock where
  first : CommentLine
  others : List (LineBreak × CommentLine)

namespace CommentBlock

/-- The lines of a block behind the first one, as they are written. -/
def more (c : CommentBlock) : List Char :=
  c.others.flatMap fun p => p.1.chars ++ p.2.script.toList

/-- The block as it is written. -/
def script (c : CommentBlock) : String :=
  c.first.script ++ .ofList c.more

/-- What the block says, line by line. -/
def text (c : CommentBlock) : String :=
  "\n".intercalate (c.first.text :: c.others.map fun p => p.2.text)

end CommentBlock

/-- An empty line, or one of spaces, with the line break before it and its own one. -/
structure BlankLine where
  before : LineBreak
  spaces : String
  behind : LineBreak
  isSpace_spaces : ∀ x ∈ spaces.toList, isSpace x = true
  /-- The two line breaks are not one. -/
  not_crlf : before = .cr → spaces = "" → behind ≠ .lf

/-- The line as it is written. -/
def BlankLine.script (g : BlankLine) : String :=
  .ofList g.before.chars ++ g.spaces ++ .ofList g.behind.chars

/-- Blocks with a blank line between each and the next, and what stands behind the last one. -/
def commentsScript (first : CommentBlock) (others : List (BlankLine × CommentBlock)) (ending : String) : String :=
  first.script ++ String.join (others.map fun p => p.1.script ++ p.2.script) ++ ending

/-! ## How it is read -/

namespace Grammar

variable {d b limit : Nat} {rest : List Char}

theorem begins_command (l : CommentLine) (rest : List Char) : Keyword.rem.Begins (l.command.toList ++ rest) := by
  rw [CommentLine.command, String.toList_append, List.append_assoc]
  exact l.isKeyword_word.begins _

theorem command_runs (l : CommentLine) (hr : Stops (fun x => !isLineBreak x) rest) :
    Runs commentLine d b (l.command.toList ++ rest) (.matched l.text) rest := by
  have hs := l.isSpace_body
  have ht := l.oneLine_body
  rw [CommentLine.command, CommentLine.text]
  cases hb : l.body with
  | none =>
    rw [String.append_empty]
    exact commentLine_runs_of_lineEnd l.isKeyword_word hr
  | some p =>
    have h := commentLine_runs (d := d) (b := b) l.isKeyword_word (hs p hb) (ht p hb) hr
    rw [String.ofList_toList] at h
    simpa using h

theorem nextLine_runs (l : LineBreak) (c : CommentLine) (hr : Stops (fun x => !isLineBreak x) rest) :
    Runs nextCommentLine d b (l.chars ++ c.script.toList ++ rest) (.matched c.text) rest := by
  have hline : Runs commentLine d b (c.command.toList ++ rest) (.matched c.text) rest := command_runs c hr
  have h := nextCommentLine_runs l c.isSpace_spaces c.marked (begins_command c rest) hline
  simpa [CommentLine.script] using h

theorem stops_lineBreak (l : LineBreak) : Stops (fun x => !isLineBreak x) (l.chars ++ rest) := by
  cases l <;> exact stops_cons.mpr rfl

/-- The lines of a block are one comment. -/
theorem commentBlock_runs (c : CommentBlock) (hr : EndsComment rest) :
    Runs comment d b (c.first.command.toList ++ (c.more ++ rest)) (.matched (.comment c.text)) rest := by
  refine comment_runs_of_lines (fun p : LineBreak × CommentLine => p.2.text) (fun k hk => command_runs c.first hk)
    (fun p _ k hk => nextLine_runs p.1 p.2 hk) (fun p _ k => ?_) hr
  rw [List.append_assoc]
  exact stops_lineBreak p.1

theorem chainLink_unmatched_of_lineEnd (hr : Stops (fun x => !isLineBreak x) rest) :
    Runs chainLink d b rest .unmatched rest := by
  apply chainLink_unmatched
  obtain rfl | ⟨k, rfl | rfl⟩ := lineEnd_cases hr
  · exact stops_nil
  · exact stops_cons.mpr rfl
  · exact stops_cons.mpr rfl

/-- A block behind blanks, as a statement of a script. -/
theorem commentItem_runs (c : CommentBlock) {blanks : List Char} (hb : ∀ x ∈ blanks, isBlank x = true)
    (hr : EndsComment rest) :
    Runs (documentItem limit) d b (blanks ++ (c.script.toList ++ rest)) (.matched (.leaf (.comment c.text))) rest := by
  have hbegins := begins_command c.first (c.more ++ rest)
  have hleaf : Runs leaf d b (c.first.command.toList ++ (c.more ++ rest)) (.matched (.comment c.text)) rest :=
    .orElse_matched (commentBlock_runs c hr) _
  have hchain : Runs chain d b (c.first.command.toList ++ (c.more ++ rest)) (.matched (.leaf (.comment c.text))) rest :=
    .bind hleaf (.foldMany_unmatched (chainLink_unmatched_of_lineEnd hr.1) _ _)
  have hstatement := @statement_runs_of_chain d b limit rest .rem _ _ (by decide) hbegins c.first.marked hchain
  have hstops := stops_atSign c.first.marked (by decide) (Keyword.stops_isBlank_of_begins hbegins)
  have hblanks : ∀ x ∈ blanks ++ c.first.spaces.toList, isBlank x = true :=
    List.forall_mem_append.mpr ⟨hb, fun x hx => isBlank_of_isSpace (c.first.isSpace_spaces x hx)⟩
  have hitem := documentItem_runs hblanks hstops hstatement
  simpa [CommentBlock.script, CommentLine.script] using hitem

/-! ## Where it ends -/

theorem endsComment_blankLine (g : BlankLine) (rest : List Char) : EndsComment (g.script.toList ++ rest) := by
  have hscript : g.script.toList ++ rest = g.before.chars ++ (g.spaces.toList ++ (g.behind.chars ++ rest)) := by
    simp [BlankLine.script]
  have hbehind : Stops isSpace (g.behind.chars ++ rest) := by
    cases g.behind <;> exact stops_cons.mpr rfl
  rw [hscript]
  refine ⟨stops_lineBreak g.before, fun d b => nextCommentLine_unmatched g.before (fun hcr => ?_) ?_⟩
  · cases hs : g.spaces.toList with
    | nil =>
      have hne := g.not_crlf hcr (String.toList_eq_nil_iff.mp hs)
      cases hl : g.behind with
      | lf => exact absurd hl hne
      | cr => exact stops_cons.mpr rfl
      | crlf => exact stops_cons.mpr rfl
    | cons x spaces =>
      refine stops_cons.mpr (beq_eq_false_iff_ne.mpr ?_)
      rintro rfl
      cases g.isSpace_spaces _ (by rw [hs]; exact List.mem_cons_self)
  · rw [dropWhile_append_of_stops g.isSpace_spaces hbehind]
    exact stops_lineBreak g.behind

theorem endsComment_of_blanks (hb : ∀ x ∈ rest, isBlank x = true) (hr : Stops (fun x => !isLineBreak x) rest) :
    EndsComment rest := by
  refine ⟨hr, fun d b => ?_⟩
  by_cases h : Stops isLineBreak rest
  · exact nextCommentLine_unmatched_of_stops h
  · obtain ⟨l, k, rfl, hl⟩ := exists_lineBreak h
    refine nextCommentLine_unmatched l hl fun x hx => ?_
    -- the first blank behind the spaces is a line break
    have hs : isSpace x = false := stops_dropWhile isSpace k x hx
    have hk : x ∈ k := (List.dropWhile_suffix _).mem (List.mem_of_mem_head? hx)
    rw [isSpace, hb x (List.mem_append_right _ hk)] at hs
    simpa using hs

/-! ## Blocks one behind another -/

theorem blankLine_blanks (g : BlankLine) : ∀ x ∈ g.script.toList, isBlank x = true := by
  have hl : ∀ l : LineBreak, ∀ x ∈ l.chars, isBlank x = true := by
    rintro (_ | _ | _) <;> decide
  simp only [BlankLine.script, String.toList_append, String.toList_ofList, List.forall_mem_append]
  exact ⟨⟨hl _, fun x hx => isBlank_of_isSpace (g.isSpace_spaces x hx)⟩, hl _⟩

/-- Each block is one comment, and they come one behind another. -/
theorem comments_rounds (first : CommentBlock) (others : List (BlankLine × CommentBlock)) {blanks ending : List Char}
    (hb : ∀ x ∈ blanks, isBlank x = true) (he : ∀ x ∈ ending, isBlank x = true)
    (hr : Stops (fun x => !isLineBreak x) ending) :
    Runs.Rounds (documentItem limit) d b (blanks ++ (first.script.toList ++
      (others.flatMap (fun p => p.1.script.toList ++ p.2.script.toList) ++ ending)))
      ((first :: others.map Prod.snd).map fun c => .leaf (.comment c.text)) [] := by
  induction others generalizing first blanks with
  | nil =>
    have hitem : Runs (documentItem limit) d b (blanks ++ (first.script.toList ++ ending))
        (.matched (.leaf (.comment first.text))) ending := commentItem_runs first hb (endsComment_of_blanks he hr)
    exact .cons hitem (documentItem_gains.length_lt hitem) (.nil (documentItem_unmatched_of_blanks he))
  | cons p others ih =>
    have hrest := endsComment_blankLine p.1 (p.2.script.toList ++
      (others.flatMap (fun p => p.1.script.toList ++ p.2.script.toList) ++ ending))
    have hitem := @commentItem_runs d b limit _ first blanks hb hrest
    rw [List.flatMap_cons, List.append_assoc, List.append_assoc]
    exact .cons hitem (documentItem_gains.length_lt hitem) (ih p.2 (blankLine_blanks p.1))

end Grammar

/-! ## What it is read as -/

/-- Comment lines make one comment for each block of them, with the lines joined by line feeds. There is one
block more than there are blank lines between them; what stands behind the last one are blanks, from
a line break on. -/
theorem read_comments {limits : Limits} (first : CommentBlock) (others : List (BlankLine × CommentBlock))
    {ending : String} (he : ∀ x ∈ ending.toList, isBlank x = true)
    (hl : ∀ x ∈ ending.toList.head?, isLineBreak x = true)
    (hs : (commentsScript first others ending).utf8ByteSize ≤ limits.inputSize) :
    Document.read limits (commentsScript first others ending) =
      .ok ⟨(first :: others.map Prod.snd).map fun c => .leaf (.comment c.text)⟩ := by
  have hscript : (commentsScript first others ending).toList = first.script.toList ++
      (others.flatMap (fun p => p.1.script.toList ++ p.2.script.toList) ++ ending.toList) := by
    simp [commentsScript, List.flatMap_map]
  have hnone : ∀ x ∈ ([] : List Char), isBlank x = true := by simp
  have hr : Stops (fun x => !isLineBreak x) ending.toList := fun x hx => by simp [hl x hx]
  apply read_of_runs hs
  rw [hscript]
  exact document_runs_of_rounds (comments_rounds first others hnone he hr)

/-- Three lines, a blank line with a vertical tab on it, and another line. -/
theorem read_comments_blank_line :
    Document.read {} "  @Rem  a \r\nREM\r rem\tb\n\x0b\nrem c\r\n " =
      .ok ⟨[.leaf (.comment " a \n\nb"), .leaf (.comment "c")]⟩ := by
  let first : CommentLine := ⟨"  ", true, "Rem", some (' ', " a "), by decide, by decide, by decide, by decide⟩
  let bare : CommentLine := ⟨"", false, "REM", none, by decide, by decide, by decide, by decide⟩
  let third : CommentLine := ⟨" ", false, "rem", some ('\t', "b"), by decide, by decide, by decide, by decide⟩
  let last : CommentLine := ⟨"", false, "rem", some (' ', "c"), by decide, by decide, by decide, by decide⟩
  let blank : BlankLine := ⟨.lf, "\x0b", .lf, by decide, by decide⟩
  let block : CommentBlock := ⟨first, [(.crlf, bare), (.cr, third)]⟩
  have hread : Document.read {} (commentsScript block [(blank, ⟨last, []⟩)] "\r\n ") = _ :=
    read_comments block [(blank, ⟨last, []⟩)] (by decide) (by decide) (by decide +kernel)
  have hscript : commentsScript block [(blank, ⟨last, []⟩)] "\r\n " =
      "  @Rem  a \r\nREM\r rem\tb\n\x0b\nrem c\r\n " := by decide +kernel
  rw [← hscript, hread]
  decide +kernel

end BatchScript
