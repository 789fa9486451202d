import BatchScript.Proofs.RoundTrip.Openings

/-!
# Leaves that are read back

Each leaf on its own script, and with it the rule for leaves (`leaf_runs`), in front of a text
at which the leaf ends (`Leaf.Ends`). Every leaf ends with the text (`ends_nil`); most end at a line
feed or a chain operator (`EndsLeaf.ends`), while behind one that takes its line there are two line
feeds, so that no other comment line follows.
-/

namespace BatchScript

open Text

theorem mem_of_mem_splitOn {a x : Char} {line text : List Char} (h : line ∈ text.splitOn a) (hx : x ∈ line) :
    x ∈ text ∧ x ≠ a := by
  induction text generalizing line with
  | nil => simp at h; subst h; cases hx
  | cons y text ih =>
    rw [List.splitOn_cons_eq_if_modifyHead] at h
    split at h
    · rcases List.mem_cons.mp h with rfl | h
      · cases hx
      · exact (ih h hx).imp_left (List.mem_cons_of_mem _)
    · rename_i hy
      cases hs : text.splitOn a with
      | nil => exact absurd hs (List.splitOn_ne_nil _ _)
      | cons first others =>
        rw [hs, List.modifyHead_cons] at h
        rcases List.mem_cons.mp h with rfl | h
        · rcases List.mem_cons.mp hx with rfl | hx
          · exact ⟨List.mem_cons_self, by simpa using hy⟩
          · exact (ih (hs ▸ List.mem_cons_self) hx).imp_left (List.mem_cons_of_mem _)
        · exact (ih (hs ▸ List.mem_cons_of_mem _ h) hx).imp_left (List.mem_cons_of_mem _)

/-- A redirection begins with its mode, or with a handle digit and the mode behind it. -/
theorem IsMode.exists_cons {mode : String} (h : IsMode mode) :
    ∃ x xs, mode.toList = x :: xs ∧ (mode ∈ Grammar.modes ∧ isRedirectChar x = true ∨
      isHandleDigit x = true ∧ xs.head?.any isRedirectChar = true) := by
  obtain ⟨h, hh, m, hm, rfl⟩ := h
  simp only [Grammar.modes, List.mem_cons, List.not_mem_nil, or_false] at hh hm
  rcases hh with rfl | rfl | rfl | rfl <;> rcases hm with rfl | rfl | rfl | rfl | rfl <;>
    exact ⟨_, _, rfl, by decide⟩

/-- A comment that is written in front of `rest` does not go on there. -/
def Grammar.EndsComment (rest : List Char) : Prop :=
  Stops (fun x => !isLineBreak x) rest ∧ ∀ d b, Rule.Runs Grammar.nextCommentLine d b rest .unmatched rest

/-- A leaf that is written in front of `rest` takes nothing of it. -/
def Leaf.Ends (inBlock : Bool) (rest : List Char) : Leaf → Prop
  | .comment _ => Grammar.EndsComment rest
  | .assignment .. => Stops (fun x => !isLineBreak x && !Grammar.closesBlock inBlock x) rest
  | .goto _ => Stops isNameChar rest
  | .invoke .. => Stops (fun x => x == '"' || Grammar.isTokenChar inBlock x) (rest.dropWhile isSpace)
  | .emit _ _ redirections => Stops (fun x => isHandleDigit x || isRedirectChar x) (rest.dropWhile isSpace) ∧
      (redirections = [] → rest ≠ [] → Grammar.endsMessage inBlock rest = true)

namespace Grammar

open Cursor Rule

/-- A line feed or a chain operator comes next. -/
def EndsLeaf (rest : List Char) : Prop :=
  ∃ x k, rest = x :: k ∧ x ∈ ['\n', '&', '|']

theorem EndsLeaf.stops {rest : List Char} (h : EndsLeaf rest) {p : Char → Bool}
    (hp : ∀ x ∈ ['\n', '&', '|'], p x = false) : Stops p rest := by
  obtain ⟨x, k, rfl, hx⟩ := h
  exact stops_cons.mpr (hp x hx)

variable {d b : Nat} {rest : List Char} {inBlock : Bool}

/-- A leaf ends at a line feed or a chain operator, or at an empty line if it takes its line. -/
theorem EndsLeaf.ends (h : EndsLeaf rest) {l : Leaf} (hl : l.takesLine = true → ∃ k, rest = '\n' :: '\n' :: k) :
    l.Ends inBlock rest := by
  have hs : Stops isSpace rest := h.stops (by decide)
  cases l with
  | comment text =>
    obtain ⟨k, rfl⟩ := hl rfl
    exact ⟨stops_cons.mpr rfl, fun _ _ => nextCommentLine_unmatched .lf nofun (stops_cons.mpr rfl)⟩
  | assignment name value =>
    obtain ⟨k, rfl⟩ := hl rfl
    exact stops_cons.mpr rfl
  | goto target => exact h.stops (by decide +kernel)
  | invoke target arguments =>
    rw [Leaf.Ends, dropWhile_eq_self_of_stops hs]
    cases inBlock <;> exact h.stops (by decide)
  | emit message escapeMode redirections =>
    rw [Leaf.Ends, dropWhile_eq_self_of_stops hs]
    refine ⟨h.stops (by decide), fun _ _ => ?_⟩
    have hends : ∀ x ∈ ['\n', '&', '|'], isLineBreak x = true ∨ isChainChar x = true := by decide
    obtain ⟨x, k, rfl, hx⟩ := h
    rcases hends x hx with hx | hx <;> simp [endsMessage, hx]

/-- Every leaf ends with the text. -/
theorem ends_nil (l : Leaf) : l.Ends inBlock [] := by
  cases l with
  | comment text => exact ⟨stops_nil, fun _ _ => nextCommentLine_unmatched_of_stops stops_nil⟩
  | assignment name value => exact stops_nil
  | goto target => exact stops_nil
  | invoke target arguments => exact stops_nil
  | emit message escapeMode redirections => exact ⟨stops_nil, fun _ h => absurd rfl h⟩

theorem stops_isSpace_of_isName {t : String} (h : IsName t) : Stops isSpace (t.toList ++ rest) :=
  h.stops fun _ hl => not_isSpace_of_not_isBlank (not_isBlank_of_isLetter hl)

/-! ## Comments -/

/-- The text of a comment line stands behind one space and goes on to the end of the line. -/
theorem commentLine_runs {word line : List Char} {x : Char} (hw : IsKeyword .rem word) (hx : isSpace x = true)
    (hl : ∀ y ∈ line, isLineBreak y = false) (hr : Stops (fun x => !isLineBreak x) rest) :
    Runs commentLine d b (word ++ x :: (line ++ rest)) (.matched (.ofList line)) rest := by
  refine .attempt (.bind (keyword_runs hw) (.orElse_matched (.scan? fun c hc => ?_) _))
  have hb : isLineBreak x = false := Bool.not_eq_true' _ ▸ (Bool.and_eq_true_iff.mp hx).2
  have he : c.atLineEnd = false := by rw [atLineEnd, current, hc]; exact hb
  have hs : c.current.any isSpace = true := by rw [current, hc]; exact hx
  have hn : c.next.rest = line ++ rest := by rw [rest_next, hc]; rfl
  obtain ⟨hspan, hrest⟩ := span_append hn (fun y hy => by rw [hl y hy]; rfl) hr
  refine ⟨(c.next.span fun x => !isLineBreak x).2, ?_, hrest⟩
  rw [commentText?, if_neg (by rw [he]; exact Bool.false_ne_true), if_pos hs, restOfLine, ← hspan]

/-- A bare `REM` has the empty text. -/
theorem commentLine_runs_of_lineEnd {word : List Char} (hw : IsKeyword .rem word)
    (hr : Stops (fun x => !isLineBreak x) rest) :
    Runs commentLine d b (word ++ rest) (.matched "") rest := by
  refine .attempt (.bind (keyword_runs hw) (.orElse_matched (.scan? fun c hc => ⟨c, ?_, hc⟩) _))
  have he : c.atLineEnd = true := by
    rw [atLineEnd, current, hc]
    obtain rfl | ⟨k, rfl | rfl⟩ := lineEnd_cases hr <;> rfl
  rw [commentText?, if_pos he]

/-- A line of the same comment, behind a line break, spaces and perhaps an `@`. -/
theorem nextCommentLine_runs {spaces i : List Char} {t : String} (l : LineBreak) (hs : ∀ x ∈ spaces, isSpace x = true)
    (marked : Bool) (hb : Keyword.rem.Begins i) (h : Runs commentLine d b i (.matched t) rest) :
    Runs nextCommentLine d b (l.chars ++ (spaces ++ ((atSign marked).toList ++ i))) (.matched t) rest := by
  have hspace : Stops isSpace ((atSign marked).toList ++ i) :=
    stops_atSign marked rfl fun x hx => not_isSpace_of_not_isBlank (Keyword.stops_isBlank_of_begins hb x hx)
  have hfeed : Stops (· == '\n') (spaces ++ ((atSign marked).toList ++ i)) := by
    refine stops_append (fun x hx => ?_) (stops_atSign marked rfl (Keyword.stops_of_begins hb (by simp) (by decide)))
    rw [beq_eq_false_iff_ne]
    rintro rfl
    cases hs _ hx
  refine .attempt (.bind (lineBreak_runs l fun _ => hfeed) (.bind (skipSpaces_runs_append hs hspace) ?_))
  exact .bind (skipAtSign_runs marked fun _ => hb.stops_at) h

/-- A comment goes on over its lines, if each of them is read up to a line break. -/
theorem comment_runs_of_lines {γ : Type} {first : List Char} {t : String} {line : γ → List Char} (value : γ → String)
    {others : List γ}
    (hfirst : ∀ k, Stops (fun x => !isLineBreak x) k → Runs commentLine d b (first ++ k) (.matched t) k)
    (hnext : ∀ a ∈ others, ∀ k, Stops (fun x => !isLineBreak x) k →
      Runs nextCommentLine d b (line a ++ k) (.matched (value a)) k)
    (hline : ∀ a ∈ others, ∀ k, Stops (fun x => !isLineBreak x) (line a ++ k))
    (hr : EndsComment rest) :
    Runs comment d b (first ++ (others.flatMap line ++ rest))
      (.matched (.comment ("\n".intercalate (t :: others.map value)))) rest := by
  have hne : ∀ a ∈ others, line a ≠ [] := fun a ha h => by
    have := hline a ha ['a']
    rw [h] at this
    cases this 'a' rfl
  have hrounds : Runs.Rounds nextCommentLine d b (others.flatMap line ++ rest) (others.map value) rest :=
    .flatMap_map value _ hnext hne hline hr.1 (hr.2 d b)
  have hstop : Stops (fun x => !isLineBreak x) (others.flatMap line ++ rest) := by
    cases others with
    | nil => exact hr.1
    | cons a others => rw [List.flatMap_cons, List.append_assoc]; exact hline a List.mem_cons_self _
  exact .bind (hfirst _ hstop) (.bind hrounds.many (.pure _))

/-- The lines of a comment, each behind its keyword. -/
theorem comment_runs {text : String} (ht : (Leaf.comment text).WellFormed) (hr : EndsComment rest) :
    Runs comment d b ((Leaf.comment text).script.toList ++ rest) (.matched (.comment text)) rest := by
  have hlines : ∀ line ∈ text.toList.splitOn '\n', ∀ x ∈ line, isLineBreak x = false := by
    intro line hline x hx
    obtain ⟨hm, hn⟩ := mem_of_mem_splitOn hline hx
    have hr : x ≠ '\r' := fun e => ht (e ▸ hm)
    simp [isLineBreak, hr, hn]
  have htext : ['\n'].intercalate (text.toList.splitOn '\n') = text.toList := List.intercalate_splitOn '\n'
  cases hs : text.toList.splitOn '\n' with
  | nil => exact absurd hs (List.splitOn_ne_nil _ _)
  | cons first others =>
    rw [hs] at hlines htext
    obtain ⟨hf, ho⟩ := List.forall_mem_cons.mp hlines
    have hscript : (Leaf.comment text).script.toList ++ rest = (['r', 'e', 'm'] ++ ' ' :: first) ++
        (others.flatMap (fun line => '\n' :: (['r', 'e', 'm'] ++ ' ' :: line)) ++ rest) := by
      rw [Leaf.script, hs, List.map_cons, toList_intercalate_cons (c := '\n') rfl]
      simp [List.flatMap_map]
    have hvalue : "\n".intercalate (String.ofList first :: others.map String.ofList) = text := by
      rw [← String.toList_inj, String.toList_intercalate, ← htext]
      simp [Function.comp_def]
    have hrem : IsKeyword .rem ['r', 'e', 'm'] := rfl
    have hspaces : ∀ x ∈ ([] : List Char), isSpace x = true := by simp
    rw [hscript, ← hvalue]
    refine comment_runs_of_lines String.ofList (fun k hk => ?_) (fun line hline k hk => ?_)
      (fun _ _ _ => stops_cons.mpr rfl) hr
    · rw [List.append_assoc]
      exact commentLine_runs (x := ' ') hrem rfl hf hk
    · have := nextCommentLine_runs (d := d) (b := b) .lf hspaces false (hrem.begins _)
        (commentLine_runs (x := ' ') hrem rfl (ho line hline) hk)
      simpa [atSign, LineBreak.chars] using this

/-! ## Assignments, jumps and calls -/

theorem toList_script_assignment {name value : String} :
    (Leaf.assignment name value).script.toList ++ rest =
      ['s', 'e', 't'] ++ ' ' :: (name.toList ++ '=' :: (value.toList ++ rest)) := by
  simp [Leaf.script]

theorem assignment_runs {name value : String} (hw : (Leaf.assignment name value).WellFormed)
    (hp : (Leaf.assignment name value).Plain (decide (0 < b)))
    (hr : (Leaf.assignment name value).Ends (decide (0 < b)) rest) :
    Runs assignment d b ((Leaf.assignment name value).script.toList ++ rest) (.matched (.assignment name value))
      rest := by
  rw [toList_script_assignment]
  refine .attempt (.bind (keyword_runs rfl) (.bind (spaces_runs (stops_isSpace_of_isName hw.1)) ?_))
  refine .bind (identifier_runs hw.1 (stops_cons.mpr (by decide +kernel))) (.bind (symbol_runs '=') ?_)
  refine .bind (.bind .inBlock (.scan fun c hc => ?_)) (.pure _)
  have hv : ∀ x ∈ value.toList, (!isLineBreak x && !closesBlock (decide (0 < b)) x) = true := by
    intro x hx
    rw [hw.2 x hx, hp x hx]; rfl
  have hs := span_append hc hv hr
  rwa [String.ofList_toList] at hs

theorem goto_runs {target : String} (hw : (Leaf.goto target).WellFormed) (hr : (Leaf.goto target).Ends inBlock rest) :
    Runs goto d b ((Leaf.goto target).script.toList ++ rest) (.matched (.goto target)) rest := by
  have ht : (Leaf.goto target).script.toList ++ rest = ['g', 'o', 't', 'o'] ++ ' ' :: (target.toList ++ rest) := by
    simp [Leaf.script]
  rw [ht]
  refine .attempt (.bind (keyword_runs rfl) (.bind (spaces_runs (stops_isSpace_of_isName hw)) ?_))
  refine .bind (skipSymbol_of_stops (hw.stops fun x hl => ?_)) ?_
  · cases hc : x == ':' with
    | false => rfl
    | true => rw [eq_of_beq hc] at hl; exact absurd hl (by decide +kernel)
  · exact .bind (identifier_runs hw hr) (.pure _)

theorem toList_script_invoke {target : String} {arguments : List String} :
    (Leaf.invoke target arguments).script.toList ++ rest =
      ['c', 'a', 'l', 'l'] ++ ' ' :: '"' :: (target.toList ++ '"' ::
        (arguments.flatMap (fun t => ' ' :: '"' :: (t.toList ++ ['"'])) ++ rest)) := by
  rw [Leaf.script, String.toList_append, List.map_cons, toList_intercalate_cons (c := ' ') rfl]
  simp [toList_quoted, List.flatMap_map]

theorem invoke_runs {target : String} {arguments : List String}
    (hp : (Leaf.invoke target arguments).Plain (decide (0 < b)))
    (hr : (Leaf.invoke target arguments).Ends (decide (0 < b)) rest) :
    Runs invoke d b ((Leaf.invoke target arguments).script.toList ++ rest)
      (.matched (.invoke target arguments)) rest := by
  have hrounds : Runs.Rounds (Rule.attempt do skipSpaces; token (decide (0 < b))) d b
      (arguments.flatMap (fun t => ' ' :: '"' :: (t.toList ++ ['"'])) ++ rest) arguments rest := by
    refine .flatMap (fun _ => True) (fun t hm k _ => ?_) (fun t _ => by simp) (fun t _ k => trivial) trivial ?_
    · have ht := hp t (List.mem_cons_of_mem _ hm)
      simp only [List.cons_append, List.append_assoc, List.nil_append]
      exact .attempt (.bind (skipSpaces_runs (stops_cons.mpr (by decide))) (token_runs ht _))
    · obtain ⟨hq, ht⟩ := stops_or.mp hr
      exact .attempt_unmatched (.bind skipSpaces_runs_dropWhile (token_unmatched hq ht))
  rw [toList_script_invoke]
  refine .attempt (.bind (keyword_runs rfl) (.bind (spaces_runs (stops_cons.mpr (by decide))) ?_))
  refine .bind .inBlock (.bind (.orElse_matched (token_runs (hp target List.mem_cons_self) _) _) ?_)
  exact .bind hrounds.many (.pure _)

/-! ## Redirections -/

theorem beginsWithHandle_append {h m : String} (hh : h ∈ ["", "0", "1", "2"]) (hm : m ∈ modes) (rest : List Char) :
    beginsWithHandle (h.toList ++ (m.toList ++ rest)) = !h.isEmpty := by
  simp only [modes, List.mem_cons, List.not_mem_nil, or_false] at hh hm
  rcases hh with rfl | rfl | rfl | rfl <;> rcases hm with rfl | rfl | rfl | rfl | rfl <;> cases rest <;> rfl

theorem handle_runs {h m : String} (hh : h ∈ ["", "0", "1", "2"]) (hm : m ∈ modes) :
    Runs (.scan handle) d b (h.toList ++ (m.toList ++ rest)) (.matched h) (m.toList ++ rest) := by
  refine .scan fun c hc => ?_
  rw [handle, hc, beginsWithHandle_append hh hm]
  simp only [List.mem_cons, List.not_mem_nil, or_false] at hh
  rcases hh with rfl | rfl | rfl | rfl <;>
    exact ⟨rfl, by first | exact hc | (show c.next.rest = _; rw [rest_next, hc]; rfl)⟩

/-- A mode is read if it is not the beginning of a longer one. -/
theorem mode_runs {m : String} (hm : m ∈ modes) (hr : Stops (fun x => x == '>' || x == '&') rest) :
    Runs (.scan? (·.eatFirst? id modes)) d b (m.toList ++ rest) (.matched m) rest := by
  refine .scan? fun c hc => ?_
  obtain ⟨e, he, hrest⟩ := eatText?_append hc
  refine ⟨e, ?_, hrest⟩
  have hlonger : ¬ ['>'] <+: rest ∧ ¬ ['&'] <+: rest := by
    cases rest with
    | nil => simp
    | cons x rest =>
      obtain ⟨hx, hy⟩ := Bool.or_eq_false_iff.mp (stops_cons.mp hr)
      rw [List.cons_prefix_cons, List.cons_prefix_cons]
      exact ⟨fun h => beq_eq_false_iff_ne.mp hx h.1.symm, fun h => beq_eq_false_iff_ne.mp hy h.1.symm⟩
  simp only [modes, List.mem_cons, List.not_mem_nil, or_false] at hm
  rcases hm with rfl | rfl | rfl | rfl | rfl <;>
    simp [eatFirst?, modes, eatText?, startsWith, hc, List.cons_prefix_cons, hlonger] at he ⊢ <;> exact he

theorem destination_runs {t : String} (ht : '"' ∉ t.toList) :
    Runs destination d b ('"' :: (t.toList ++ '"' :: rest)) (.matched t) rest := by
  refine .bind .inBlock (.orElse (.scan?_unmatched fun c hc => ?_) (.orElse_matched (token_runs ht _) _))
  rw [stream?, word?_eq_none_of_stops (by rw [hc]; exact stops_cons.mpr (by decide))]
  rfl

/-- A handle or none, a mode, perhaps spaces, and a destination. -/
theorem redirection_runs_of_destination {h m t : String} {gap i : List Char} (hh : h ∈ ["", "0", "1", "2"])
    (hm : m ∈ modes) (hgap : ∀ x ∈ gap, isSpace x = true) (hi : Stops isSpace i)
    (hmode : Stops (fun x => x == '>' || x == '&') (gap ++ i)) (ht : Runs destination d b i (.matched t) rest) :
    Runs redirection d b (h.toList ++ (m.toList ++ (gap ++ i))) (.matched ⟨h ++ m, t⟩) rest := by
  refine .attempt (.bind (handle_runs hh hm) (.bind (.orElse_matched (mode_runs hm hmode) _) ?_))
  exact .bind (skipSpaces_runs_append hgap hi) (.bind ht (.pure _))

theorem redirection_runs {r : Redirection} (hw : IsMode r.mode) (hp : '"' ∉ r.destination.toList) :
    Runs redirection d b (r.script.toList ++ rest) (.matched r) rest := by
  obtain ⟨h, hh, m, hm, he⟩ := hw
  have ht : r.script.toList ++ rest = h.toList ++ (m.toList ++ '"' :: (r.destination.toList ++ '"' :: rest)) := by
    simp [Redirection.script, he, toList_quoted]
  have hr : r = ⟨h ++ m, r.destination⟩ := by rw [← he]
  have hgap : ∀ x ∈ ([] : List Char), isSpace x = true := by simp
  rw [ht, hr]
  exact redirection_runs_of_destination hh hm hgap (stops_cons.mpr (by decide)) (stops_cons.mpr (by decide))
    (destination_runs hp)

theorem redirection_unmatched (hr : Stops (fun x => isHandleDigit x || isRedirectChar x) rest) :
    Runs redirection d b rest .unmatched rest := by
  obtain ⟨hdigit, hmode⟩ := stops_or.mp hr
  have hd : beginsWithHandle rest = false := by
    cases rest with
    | nil => rfl
    | cons x k =>
      cases k with
      | nil => rfl
      | cons y k => rw [beginsWithHandle, stops_cons.mp hdigit, Bool.false_and]
  refine .attempt_unmatched (j := rest) (.bind (j := rest) (a := "") (.scan fun c hc => ?_) ?_)
  · rw [handle, hc, hd]
    exact ⟨rfl, hc⟩
  · refine .bind_unmatched (.orElse (.scan?_unmatched fun c hc => ?_) (.fail _)) _
    rw [eatFirst?, List.findSome?_eq_none_iff]
    intro m hm
    rw [Option.map_eq_none_iff, eatText?, startsWith, hc, if_neg]
    rw [List.isPrefixOf_iff_prefix]
    rintro ⟨k, rfl⟩
    simp only [modes, List.mem_cons, List.not_mem_nil, or_false] at hm
    rcases hm with rfl | rfl | rfl | rfl | rfl <;> exact absurd (stops_cons.mp hmode) (by decide)

theorem stops_isSpace_of_isMode {mode : String} (h : IsMode mode) (rest : List Char) :
    Stops isSpace (mode.toList ++ rest) := by
  obtain ⟨x, xs, hx, h⟩ := h.exists_cons
  rw [hx]
  apply stops_cons.mpr
  rcases h with ⟨-, h⟩ | ⟨h, -⟩
  · simp only [isRedirectChar, Bool.or_eq_true, beq_iff_eq] at h
    rcases h with rfl | rfl <;> decide
  · simp only [isHandleDigit, Bool.or_eq_true, beq_iff_eq] at h
    rcases h with (rfl | rfl) | rfl <;> decide

/-- A mode with a handle does not begin like one without. -/
theorem stops_isRedirectChar_of_isMode {mode : String} (h : IsMode mode) (hn : mode ∉ modes) (rest : List Char) :
    Stops isRedirectChar (mode.toList ++ rest) := by
  obtain ⟨x, xs, hx, h⟩ := h.exists_cons
  rw [hx]
  apply stops_cons.mpr
  have h := (h.resolve_left fun h => hn h.1).1
  simp only [isHandleDigit, Bool.or_eq_true, beq_iff_eq] at h
  rcases h with (rfl | rfl) | rfl <;> decide

/-- A message ends at a mode. -/
theorem endsMessage_of_isMode {mode : String} (h : IsMode mode) (rest : List Char) :
    endsMessage inBlock (mode.toList ++ rest) = true := by
  obtain ⟨x, xs, hx, h⟩ := h.exists_cons
  rw [hx]
  rcases h with ⟨-, h⟩ | ⟨hd, h⟩
  · simp [endsMessage, h]
  · cases xs with
    | nil => cases h
    | cons y xs =>
      have h : isRedirectChar y = true := h
      simp [endsMessage, beginsWithHandle, hd, h]

theorem toList_script_redirection (r : Redirection) (rest : List Char) :
    r.script.toList ++ rest = r.mode.toList ++ ((quoted r.destination).toList ++ rest) := by
  rw [Redirection.script, String.toList_append, List.append_assoc]

theorem stops_isSpace_redirection {r : Redirection} (hw : IsMode r.mode) (rest : List Char) :
    Stops isSpace (r.script.toList ++ rest) := by
  rw [toList_script_redirection]
  exact stops_isSpace_of_isMode hw _

/-- Redirections as they are written behind a message. -/
def redirectionsScript (redirections : List Redirection) : List Char :=
  (" ".intercalate (redirections.map Redirection.script)).toList

theorem redirectionsScript_cons (r : Redirection) (others : List Redirection) :
    redirectionsScript (r :: others) = r.script.toList ++ others.flatMap fun q => ' ' :: q.script.toList := by
  rw [redirectionsScript, List.map_cons, toList_intercalate_cons (c := ' ') rfl, List.flatMap_map]

theorem redirections_runs {redirections : List Redirection} (hw : ∀ r ∈ redirections, r.WellFormed)
    (hp : ∀ r ∈ redirections, '"' ∉ r.destination.toList)
    (hr : Stops (fun x => isHandleDigit x || isRedirectChar x) (rest.dropWhile isSpace)) :
    Runs Grammar.redirections d b (redirectionsScript redirections ++ rest) (.matched redirections) rest := by
  have hend : Runs (Rule.attempt do skipSpaces; redirection) d b rest .unmatched rest :=
    .attempt_unmatched (.bind skipSpaces_runs_dropWhile (redirection_unmatched hr))
  cases redirections with
  | nil => exact (Runs.Rounds.nil hend).many
  | cons r others =>
    have hm : r ∈ r :: others := List.mem_cons_self
    have hrounds : Runs.Rounds (Rule.attempt do skipSpaces; redirection) d b
        (others.flatMap (fun q => ' ' :: q.script.toList) ++ rest) others rest := by
      refine .flatMap (fun _ => True) (fun q hq k _ => ?_) (fun q _ => by simp) (fun q _ k => trivial) trivial hend
      have hq := List.mem_cons_of_mem r hq
      have hspace := stops_isSpace_redirection (hw q hq).1 k
      exact .attempt (.bind (skipSpaces_runs hspace) (redirection_runs (hw q hq).1 (hp q hq)))
    rw [redirectionsScript_cons, List.append_assoc]
    have hfirst : ∀ k, Runs redirection d b (r.script.toList ++ k) (.matched r) k := fun _ =>
      redirection_runs (hw r hm).1 (hp r hm)
    have hspace : ∀ k, Stops isSpace (r.script.toList ++ k) := stops_isSpace_redirection (hw r hm).1
    refine (Runs.Rounds.cons (.attempt (.bind (skipSpaces_of_stops (hspace _)) (hfirst _))) ?_ hrounds).many
    simp only [Redirection.script, String.toList_append, toList_quoted, List.length_append, List.length_cons]
    omega

/-! ## Outputs -/

/-- A message does not end inside, nor at its last character if that is no handle of what follows. -/
theorem not_endsMessage_append {front i v : List Char}
    (hm : ∀ x ∈ front, isLineBreak x = false ∧ isRedirectChar x = false ∧ isChainChar x = false)
    (hclose : ∀ x ∈ front, closesBlock inBlock x = false)
    (hlast : ∀ x ∈ front.getLast?, isHandleDigit x = true → Stops isRedirectChar i) (hv : v <:+ front) (hne : v ≠ []) :
    endsMessage inBlock (v ++ i) = false := by
  obtain ⟨x, v, rfl⟩ := List.exists_cons_of_ne_nil hne
  have hx : x ∈ front := hv.mem List.mem_cons_self
  have hh : beginsWithHandle (x :: (v ++ i)) = false := by
    cases v with
    | cons y v =>
      have hy : isRedirectChar y = false := (hm y (hv.mem (by simp))).2.1
      simp [beginsWithHandle, hy]
    | nil =>
      have hl : x ∈ front.getLast? := by
        obtain ⟨u, hu⟩ := hv
        rw [← hu, List.getLast?_concat]; rfl
      cases i with
      | nil => rfl
      | cons y k =>
        cases hd : isHandleDigit x with
        | false => exact Bool.and_eq_false_imp.mpr fun h => absurd (hd.symm.trans h) Bool.false_ne_true
        | true => exact Bool.and_eq_false_imp.mpr fun _ => stops_cons.mp (hlast x hl hd)
  rw [List.cons_append, endsMessage, hh, List.head?_cons, Option.any_some]
  rw [(hm x hx).1, (hm x hx).2.1, (hm x hx).2.2, hclose x hx]
  rfl

theorem message_runs {m : String} {i : List Char}
    (hm : ∀ x ∈ m.toList, isLineBreak x = false ∧ isRedirectChar x = false ∧ isChainChar x = false)
    (hclose : ∀ x ∈ m.toList, closesBlock (decide (0 < b)) x = false)
    (hlast : ∀ x ∈ m.toList.getLast?, isHandleDigit x = true → Stops isRedirectChar i)
    (hi : i ≠ [] → endsMessage (decide (0 < b)) i = true) : Runs message d b (m.toList ++ i) (.matched m) i := by
  refine .bind .inBlock (.scan fun c hc => ?_)
  have h := upTo_append hc (fun v hv hne => not_endsMessage_append hm hclose hlast hv hne) hi
  rwa [String.ofList_toList] at h

/-- Where a message ends that has redirections behind it. -/
theorem endsMessage_redirections {redirections : List Redirection} (hw : ∀ r ∈ redirections, r.WellFormed)
    (hr : redirections = [] → rest ≠ [] → endsMessage inBlock rest = true)
    (hne : redirectionsScript redirections ++ rest ≠ []) :
    endsMessage inBlock (redirectionsScript redirections ++ rest) = true := by
  cases redirections with
  | nil => exact hr rfl hne
  | cons r others =>
    rw [redirectionsScript_cons, List.append_assoc, toList_script_redirection]
    exact endsMessage_of_isMode (hw r List.mem_cons_self).1 _

/-- Behind a message that ends with a digit no redirection begins without a handle. -/
theorem stops_isRedirectChar_redirections {redirections : List Redirection} (hw : ∀ r ∈ redirections, r.WellFormed)
    (hr : Stops (fun x => isHandleDigit x || isRedirectChar x) (rest.dropWhile isSpace))
    (hmode : ∀ r ∈ redirections.head?, r.mode ∉ modes) :
    Stops isRedirectChar (redirectionsScript redirections ++ rest) := by
  cases redirections with
  | nil =>
    exact stops_of_stops_dropWhile (fun y hy => not_of_isBlank (by decide) (isBlank_of_isSpace hy)) (stops_or.mp hr).2
  | cons r others =>
    rw [redirectionsScript_cons, List.append_assoc, toList_script_redirection]
    exact stops_isRedirectChar_of_isMode (hw r List.mem_cons_self).1 (hmode r rfl) _

theorem toList_script_emit {message : String} {escapeMode : Bool} {redirections : List Redirection} :
    (Leaf.emit message escapeMode redirections).script.toList ++ rest = ['e', 'c', 'h', 'o'] ++
      (if escapeMode then ':' else '.') :: (message.toList ++ (redirectionsScript redirections ++ rest)) := by
  cases escapeMode <;> simp [Leaf.script, redirectionsScript]

theorem escapeMode_runs (asked : Bool) :
    Runs escapeMode d b ((if asked then ':' else '.') :: rest) (.matched asked) rest := by
  cases asked with
  | true => exact .orElse_matched (.bind (.step? fun c hc => eat?_cons hc) (.pure true)) _
  | false =>
    refine .orElse (j := '.' :: rest) (.bind_unmatched (.step?_unmatched fun c hc => ?_) _) ?_
    · exact eat?_eq_none (by rw [hc]; exact stops_cons.mpr (by decide))
    · exact .orElse_matched (.bind (.step? fun c hc => eat?_cons hc) (.pure false)) _

theorem emit_runs {message : String} {escapeMode : Bool} {redirections : List Redirection}
    (hw : (Leaf.emit message escapeMode redirections).WellFormed)
    (hp : (Leaf.emit message escapeMode redirections).Plain (decide (0 < b)))
    (hr : (Leaf.emit message escapeMode redirections).Ends (decide (0 < b)) rest) :
    Runs emit d b ((Leaf.emit message escapeMode redirections).script.toList ++ rest)
      (.matched (.emit message escapeMode redirections)) rest := by
  obtain ⟨hm, hred, hlast⟩ := hw
  have hmessage : Runs Grammar.message d b (message.toList ++ (redirectionsScript redirections ++ rest))
      (.matched message) (redirectionsScript redirections ++ rest) := by
    refine message_runs hm hp.1 (fun x hx hd => ?_) (endsMessage_redirections hred hr.2)
    refine stops_isRedirectChar_redirections hred hr.1 fun r hr hmode => ?_
    rw [hlast r hr hmode x hx] at hd
    cases hd
  rw [toList_script_emit]
  refine .attempt (.bind (keyword_runs rfl) (.bind (escapeMode_runs escapeMode) (.bind hmessage ?_)))
  exact .bind (redirections_runs hred hp.2 hr.1) (.pure _)

/-! ## Every leaf -/

theorem leaf_runs {l : Leaf} (hw : l.WellFormed) (hp : l.Plain (decide (0 < b)))
    (hr : l.Ends (decide (0 < b)) rest) :
    Runs leaf d b (l.script.toList ++ rest) (.matched l) rest := by
  have hb := l.begins_script rest
  have hcomment : l.keyword ≠ .rem →
      Runs comment d b (l.script.toList ++ rest) .unmatched (l.script.toList ++ rest) :=
    fun hk => comment_unmatched (hb.beginsWithWord_of_ne hk)
  have hset : l.keyword ≠ .set →
      Runs assignment d b (l.script.toList ++ rest) .unmatched (l.script.toList ++ rest) :=
    fun hk => attempt_keyword_unmatched _ (hb.beginsWithWord_of_ne hk)
  have hecho : l.keyword ≠ .echo →
      Runs emit d b (l.script.toList ++ rest) .unmatched (l.script.toList ++ rest) :=
    fun hk => attempt_keyword_unmatched _ (hb.beginsWithWord_of_ne hk)
  have hgoto : l.keyword ≠ .goto →
      Runs goto d b (l.script.toList ++ rest) .unmatched (l.script.toList ++ rest) :=
    fun hk => attempt_keyword_unmatched _ (hb.beginsWithWord_of_ne hk)
  cases l with
  | comment text => exact .orElse_matched (comment_runs hw hr) _
  | assignment name value =>
    exact .orElse (hcomment nofun) (.orElse_matched (assignment_runs hw hp hr) _)
  | emit message escapeMode redirections =>
    exact .orElse (hcomment nofun) (.orElse (hset nofun) (.orElse_matched (emit_runs hw hp hr) _))
  | goto target =>
    refine .orElse (hcomment nofun) (.orElse (hset nofun) (.orElse (hecho nofun) ?_))
    exact .orElse_matched (goto_runs hw hr) _
  | invoke target arguments =>
    refine .orElse (hcomment nofun) (.orElse (hset nofun) (.orElse (hecho nofun) (.orElse (hgoto nofun) ?_)))
    exact invoke_runs hp hr

end Grammar

end BatchScript
