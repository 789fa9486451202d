import BatchScript.Proofs.Reading.Words
import BatchScript.Proofs.Session.Enclosed
import Mathlib.Data.List.TakeWhile

/-!
# Outputs and their redirections

An output with redirections whose destinations stand without quotes is read with all of them in their order, and
each destination is kept whole. A handle digit at the end of the message is the handle of the first redirection, if
that one has no other; any other digit stays in the message (`redirected_outputs_read`).
-/

namespace BatchScript

open Text Cursor Grammar Rule

/-! ## The text -/

/-- A redirection: perhaps a handle digit, a mode, perhaps spaces, and a destination without quotes. -/
structure BareRedirection where
  handle : String
  mode : String
  gap : String
  destination : String
  handle_mem : handle ∈ ["", "0", "1", "2"]
  mode_mem : mode ∈ modes
  isSpace_gap : ∀ x ∈ gap.toList, isSpace x = true
  destination_ne : destination ≠ ""
  unquoted_destination : ∀ x ∈ destination.toList.head?, x ≠ '"'
  plain_destination : ∀ x ∈ destination.toList, isBlank x = false ∧ isChainChar x = false ∧ isRedirectChar x = false

namespace BareRedirection

theorem destination_ne_nil (r : BareRedirection) : r.destination.toList ≠ [] := fun h =>
  r.destination_ne (String.toList_eq_nil_iff.mp h)

/-- The redirection from its mode on. -/
def target (r : BareRedirection) : String :=
  r.mode ++ r.gap ++ r.destination

/-- The redirection as it is written. -/
def script (r : BareRedirection) : String :=
  r.handle ++ r.target

/-- What the redirection stands for, with a handle. -/
def withHandle (r : BareRedirection) (handle : String) : Redirection :=
  ⟨handle ++ r.mode, r.destination⟩

end BareRedirection

/-- A further redirection, with the spaces before it. -/
structure NextRedirection extends BareRedirection where
  before : String
  before_ne : before ≠ ""
  isSpace_before : ∀ x ∈ before.toList, isSpace x = true

namespace NextRedirection

theorem before_ne_nil (r : NextRedirection) : r.before.toList ≠ [] := fun h =>
  r.before_ne (String.toList_eq_nil_iff.mp h)

/-- The redirection as it is written, with the spaces. -/
def chars (r : NextRedirection) : List Char :=
  r.before.toList ++ r.script.toList

/-- What the redirection stands for. -/
def value (r : NextRedirection) : Redirection :=
  r.withHandle r.handle

end NextRedirection

/-- A message with redirections behind it, the first one at once. -/
structure RedirectedOutput where
  message : String
  first : BareRedirection
  others : List NextRedirection
  plain_message : ∀ x ∈ message.toList, isLineBreak x = false ∧ isRedirectChar x = false ∧ isChainChar x = false

namespace RedirectedOutput

/-- The output as it is written. -/
def script (o : RedirectedOutput) : String :=
  "echo." ++ o.message ++ o.first.script ++ .ofList (o.others.flatMap (·.chars))

/-- Whether the message ends with the handle of the first redirection. -/
def lendsHandle (o : RedirectedOutput) : Bool :=
  o.first.handle.isEmpty && o.message.toList.getLast?.any isHandleDigit

/-- The handle of the first redirection, its own or the last digit of the message. -/
def handle (o : RedirectedOutput) : String :=
  if o.lendsHandle then .ofList o.message.toList.getLast?.toList else o.first.handle

/-- The message without that digit. -/
def text (o : RedirectedOutput) : String :=
  if o.lendsHandle then .ofList o.message.toList.dropLast else o.message

/-- What the output stands for. -/
def leaf (o : RedirectedOutput) : Leaf :=
  .emit o.text false (o.first.withHandle o.handle :: o.others.map (·.value))

/-! ## The first handle -/

/-- Either the last digit of the message is the handle, or the message and the handle are as they are written. -/
theorem lendsHandle_cases (o : RedirectedOutput) :
    (∃ front x, o.message.toList = front ++ [x] ∧ isHandleDigit x = true ∧ o.first.handle = "" ∧
      o.text = .ofList front ∧ o.handle = .ofList [x]) ∨
      (o.text = o.message ∧ o.handle = o.first.handle ∧
        ∀ x ∈ o.message.toList.getLast?, isHandleDigit x = true → o.first.handle ≠ "") := by
  cases h : o.lendsHandle with
  | true =>
    refine .inl ?_
    rw [text, handle, h, if_pos rfl, if_pos rfl]
    obtain ⟨hempty, hlast⟩ := Bool.and_eq_true_iff.mp h
    obtain ⟨x, hx, hdigit⟩ := (Option.any_eq_true _ _).mp hlast
    obtain ⟨front, hfront⟩ := List.getLast?_eq_some_iff.mp hx
    exact ⟨front, x, hfront, hdigit, by simpa using hempty, by simp [hfront], by simp [hfront]⟩
  | false =>
    refine .inr ?_
    rw [text, handle, h, if_neg Bool.false_ne_true, if_neg Bool.false_ne_true]
    refine ⟨rfl, rfl, fun x hx hdigit hempty => ?_⟩
    have hx : o.message.toList.getLast? = some x := hx
    rw [lendsHandle, hempty, hx, Option.any_some, hdigit] at h
    cases h

theorem text_append_handle (o : RedirectedOutput) :
    o.text.toList ++ o.handle.toList = o.message.toList ++ o.first.handle.toList := by
  obtain ⟨front, x, hm, -, hempty, ht, hh⟩ | ⟨ht, hh, -⟩ := o.lendsHandle_cases
  · simp [ht, hh, hm, hempty]
  · rw [ht, hh]

theorem handle_mem (o : RedirectedOutput) : o.handle ∈ ["", "0", "1", "2"] := by
  obtain ⟨front, x, -, hx, -, -, hh⟩ | ⟨-, hh, -⟩ := o.lendsHandle_cases
  · rw [hh]
    simp only [isHandleDigit, Bool.or_eq_true, beq_iff_eq] at hx
    obtain (rfl | rfl) | rfl := hx <;> decide
  · rw [hh]; exact o.first.handle_mem

theorem plain_text (o : RedirectedOutput) :
    ∀ x ∈ o.text.toList, isLineBreak x = false ∧ isRedirectChar x = false ∧ isChainChar x = false := by
  obtain ⟨front, y, hm, -, -, ht, -⟩ | ⟨ht, -, -⟩ := o.lendsHandle_cases
  · intro x hx
    rw [ht, String.toList_ofList] at hx
    exact o.plain_message x (by rw [hm]; exact List.mem_append_left _ hx)
  · rw [ht]; exact o.plain_message

/-- If the message still ends with a digit, then the first redirection has its handle. -/
theorem handle_ne (o : RedirectedOutput) {x : Char} (hx : x ∈ o.text.toList.getLast?) (hd : isHandleDigit x = true) :
    o.handle ≠ "" := by
  obtain ⟨front, y, -, -, -, -, hh⟩ | ⟨ht, hh, hlast⟩ := o.lendsHandle_cases
  · simp [hh]
  · rw [hh]; exact hlast x (ht ▸ hx) hd

end RedirectedOutput

/-! ## How it is read -/

namespace Grammar

variable {d b : Nat} {rest : List Char}

theorem endsStream_eq (inBlock : Bool) (x : Char) :
    endsStream inBlock x = (!isTokenChar inBlock x || isRedirectChar x) := by
  cases hb : isBlank x <;> cases hc : isChainChar x <;> cases hr : isRedirectChar x <;>
    simp [endsStream, isTokenChar, hb, hc, hr]

theorem not_isDigit_of_not_isTokenChar {inBlock : Bool} {x : Char} (h : isTokenChar inBlock x = false) :
    x.isDigit = false := by
  cases hb : isBlank x with
  | true => exact not_of_isBlank (by decide +kernel) hb
  | false =>
    cases hc : isChainChar x with
    | true => obtain rfl | rfl := eq_of_isChainChar hc <;> rfl
    | false =>
      rw [isTokenChar, hb, hc] at h
      obtain ⟨-, hx⟩ : inBlock = true ∧ x = ')' := by simpa [closesBlock] using h
      rw [hx]; rfl

/-- Digits up to the end of the token are the number of a stream. -/
theorem stream_runs {inBlock : Bool} {t : String} (hne : t.toList ≠ []) (ht : ∀ x ∈ t.toList, x.isDigit = true)
    (hr : Stops (isTokenChar inBlock) rest) :
    Runs (.scan? (stream? inBlock)) d b (t.toList ++ rest) (.matched t) rest := by
  refine .scan? fun c hc => ?_
  have hstop : Stops Char.isDigit rest := fun x hx => not_isDigit_of_not_isTokenChar (hr x hx)
  obtain ⟨e, he, hrest⟩ := word?_append hc hne ht hstop
  have hend : e.current.all (endsStream inBlock) = true := by
    rw [current, hrest, Option.all_eq_true]
    intro x hx
    rw [endsStream_eq, hr x hx]; rfl
  refine ⟨e, ?_, hrest⟩
  rw [stream?, he, String.ofList_toList, Option.filter_some, if_pos hend]

/-- Digits in front of any other character of a destination are not. -/
theorem stream_unmatched {inBlock : Bool} {x : Char} {text others : List Char}
    (hx : text.dropWhile Char.isDigit = x :: others) (hend : endsStream inBlock x = false) :
    Runs (.scan? (stream? inBlock)) d b text .unmatched text := by
  refine .scan?_unmatched fun c hc => ?_
  rw [stream?, Option.filter_eq_none_iff]
  intro found hfound
  unfold word? at hfound
  split at hfound
  · cases hfound
  · cases hfound
    show ¬ (c.skipWhile Char.isDigit).current.all _ = true
    rw [current, rest_skipWhile, hc, hx, List.head?_cons, Option.all_some, hend]
    exact Bool.false_ne_true

/-- A destination without quotes goes on to the end of the token, be it a number or only begin like one. -/
theorem destination_runs_of_unquoted {t : String} (hne : t.toList ≠ []) (hq : ∀ x ∈ t.toList.head?, x ≠ '"')
    (ht : ∀ x ∈ t.toList, isTokenChar (decide (0 < b)) x = true ∧ isRedirectChar x = false)
    (hr : Stops (isTokenChar (decide (0 < b))) rest) :
    Runs destination d b (t.toList ++ rest) (.matched t) rest := by
  refine .bind .inBlock ?_
  by_cases hdigits : ∀ x ∈ t.toList, x.isDigit = true
  · exact .orElse_matched (stream_runs hne hdigits hr) _
  · have hnone : ¬ Reading.quotation.Applies (t.toList ++ rest) := by
      rintro ⟨front, v, k, h, -, rfl⟩
      obtain ⟨x, others, hx⟩ := List.exists_cons_of_ne_nil hne
      rw [hx, toList_quoted] at h
      exact hq x (by rw [hx]; rfl) (List.cons.inj h).1
    have htoken : Reading.token (decide (0 < b)) t.toList t rest :=
      .inr ⟨hnone, rfl, fun h => hne (String.toList_eq_nil_iff.mpr h), fun x hx => (ht x hx).1, hr⟩
    have hdrop : t.toList.dropWhile Char.isDigit ≠ [] := fun h => hdigits (List.dropWhile_eq_nil_iff.mp h)
    obtain ⟨x, others, hx⟩ := List.exists_cons_of_ne_nil hdrop
    have hrest : (t.toList ++ rest).dropWhile Char.isDigit = x :: (others ++ rest) := by
      rw [List.dropWhile_append, hx]; rfl
    have hend : endsStream (decide (0 < b)) x = false := by
      obtain ⟨htx, hredirect⟩ := ht x ((List.dropWhile_suffix _).mem (hx ▸ List.mem_cons_self))
      rw [endsStream_eq, htx, hredirect]; rfl
    exact .orElse (stream_unmatched hrest hend) (.orElse_matched ((token_reads _).runs (token_alike _) htoken) _)

theorem redirection_runs_of_bare (r : BareRedirection) {h : String} (hh : h ∈ ["", "0", "1", "2"])
    (hr : Stops (isTokenChar false) rest) :
    Runs redirection d 0 (h.toList ++ (r.target.toList ++ rest)) (.matched (r.withHandle h)) rest := by
  have hstops : ∀ {p : Char → Bool}, (∀ x, isBlank x = false ∧ isChainChar x = false ∧ isRedirectChar x = false →
      p x = false) → Stops p (r.destination.toList ++ rest) := by
    intro p hp
    rw [stops_append_of_ne_nil r.destination_ne_nil]
    exact fun x hx => hp x (r.plain_destination x (List.mem_of_mem_head? hx))
  have htext : r.target.toList ++ rest = r.mode.toList ++ (r.gap.toList ++ (r.destination.toList ++ rest)) := by
    simp [BareRedirection.target]
  rw [htext]
  refine redirection_runs_of_destination hh r.mode_mem r.isSpace_gap (hstops fun x hx => ?_) ?_
    (destination_runs_of_unquoted r.destination_ne_nil r.unquoted_destination (fun x hx => ?_) hr)
  · exact not_isSpace_of_not_isBlank hx.1
  · refine stops_append (fun x hx => ?_) ?_
    · exact not_of_isBlank (p := fun x => x == '>' || x == '&') (by decide) (isBlank_of_isSpace (r.isSpace_gap x hx))
    refine hstops fun x hx => Bool.or_eq_false_iff.mpr ⟨?_, ?_⟩ <;> rw [beq_eq_false_iff_ne] <;> rintro rfl
    · cases hx.2.2
    · cases hx.2.1
  · obtain ⟨hb, hc, hd⟩ := r.plain_destination x hx
    refine ⟨?_, hd⟩
    rw [isTokenChar, hb, hc]; rfl

/-- A redirection begins with its handle or its mode, where no spaces are skipped and a message ends. -/
theorem exists_isMode (r : BareRedirection) {h : String} (hh : h ∈ ["", "0", "1", "2"]) (rest : List Char) :
    ∃ mode i, IsMode mode ∧ (h ≠ "" → mode ∉ modes) ∧ h.toList ++ (r.target.toList ++ rest) = mode.toList ++ i := by
  refine ⟨h ++ r.mode, r.gap.toList ++ (r.destination.toList ++ rest), ⟨h, hh, r.mode, r.mode_mem, rfl⟩,
    fun hne => ?_, ?_⟩
  · exact handle_append_not_mem_modes h ((List.mem_cons.mp hh).resolve_left hne) r.mode r.mode_mem
  · simp [BareRedirection.target]

theorem spacedRedirection_runs (r : BareRedirection) {spaces : List Char} {h : String}
    (hs : ∀ x ∈ spaces, isSpace x = true) (hh : h ∈ ["", "0", "1", "2"]) (hr : Stops (isTokenChar false) rest) :
    Runs (Rule.attempt do skipSpaces; redirection) d 0 (spaces ++ (h.toList ++ (r.target.toList ++ rest)))
      (.matched (r.withHandle h)) rest := by
  have hstop : Stops isSpace (h.toList ++ (r.target.toList ++ rest)) := by
    obtain ⟨mode, i, hmode, -, h⟩ := exists_isMode r hh rest
    exact h ▸ stops_isSpace_of_isMode hmode i
  exact .attempt (.bind (skipSpaces_runs_append hs hstop) (redirection_runs_of_bare r hh hr))

/-- A destination ends at the spaces before the next redirection. -/
theorem stops_isTokenChar_chars (r : NextRedirection) (rest : List Char) :
    Stops (isTokenChar false) (r.chars ++ rest) := by
  rw [NextRedirection.chars, List.append_assoc, stops_append_of_ne_nil r.before_ne_nil]
  intro x hx
  rw [isTokenChar, isBlank_of_isSpace (r.isSpace_before x (List.mem_of_mem_head? hx))]
  rfl

/-- The redirections are read one behind another. -/
theorem redirections_runs_of_bare (o : RedirectedOutput) :
    Runs redirections d 0 (o.handle.toList ++ (o.first.target.toList ++ o.others.flatMap (·.chars)))
      (.matched (o.first.withHandle o.handle :: o.others.map (·.value))) [] := by
  have hend : Runs (Rule.attempt do skipSpaces; redirection) d 0 [] .unmatched [] :=
    .attempt_unmatched (.bind (skipSpaces_of_stops stops_nil) (redirection_unmatched stops_nil))
  have hnext : ∀ r ∈ o.others, ∀ k, Stops (isTokenChar false) k →
      Runs (Rule.attempt do skipSpaces; redirection) d 0 (r.chars ++ k) (.matched r.value) k := by
    intro r _ k hk
    have h := spacedRedirection_runs (d := d) r.toBareRedirection r.isSpace_before r.handle_mem hk
    simpa [NextRedirection.chars, NextRedirection.value, BareRedirection.script] using h
  have hne : ∀ r ∈ o.others, r.chars ≠ [] := fun r _ => List.append_ne_nil_of_left_ne_nil r.before_ne_nil _
  have hrounds : Runs.Rounds (Rule.attempt do skipSpaces; redirection) d 0 (o.others.flatMap (·.chars) ++ [])
      (o.others.map (·.value)) [] :=
    .flatMap_map _ _ hnext hne (fun r _ k => stops_isTokenChar_chars r k) stops_nil hend
  rw [List.append_nil] at hrounds
  have hstop : Stops (isTokenChar false) (o.others.flatMap (·.chars)) := by
    cases o.others with
    | nil => exact stops_nil
    | cons r others => exact stops_isTokenChar_chars r _
  have hspaces : ∀ x ∈ ([] : List Char), isSpace x = true := by simp
  refine (Runs.Rounds.cons (spacedRedirection_runs o.first hspaces o.handle_mem hstop) ?_ hrounds).many
  have hlen := List.length_pos_iff.mpr o.first.destination_ne_nil
  simp only [BareRedirection.target, String.toList_append, List.length_append, List.length_nil]
  omega

theorem emit_runs_of_redirected (o : RedirectedOutput) : Runs emit d 0 o.script.toList (.matched o.leaf) [] := by
  have htext : o.script.toList = ['e', 'c', 'h', 'o'] ++ '.' :: (o.text.toList ++
      (o.handle.toList ++ (o.first.target.toList ++ o.others.flatMap (·.chars)))) := by
    rw [← List.append_assoc o.text.toList, o.text_append_handle]
    simp [RedirectedOutput.script, BareRedirection.script]
  obtain ⟨mode, i, hmode, hhandle, hbehind⟩ := exists_isMode o.first o.handle_mem (o.others.flatMap (·.chars))
  have hmessage : Runs message d 0 (o.text.toList ++ (mode.toList ++ i)) (.matched o.text) (mode.toList ++ i) := by
    refine message_runs o.plain_text (fun x _ => rfl) (fun x hx hd => ?_) fun _ => endsMessage_of_isMode hmode i
    exact stops_isRedirectChar_of_isMode hmode (hhandle (o.handle_ne hx hd)) i
  rw [htext]
  refine .attempt (.bind (keyword_runs rfl) (.bind (escapeMode_runs false) ?_))
  rw [← hbehind] at hmessage
  exact .bind hmessage (.bind (redirections_runs_of_bare o) (.pure _))

theorem begins_script_redirected (o : RedirectedOutput) : Keyword.echo.Begins o.script.toList := by
  have hecho : IsKeyword .echo ['e', 'c', 'h', 'o'] := rfl
  have h := hecho.begins ('.' :: (o.message ++ o.first.script).toList ++ o.others.flatMap (·.chars))
  simpa [RedirectedOutput.script] using h

theorem document_runs_of_redirected (o : RedirectedOutput) (limit : Nat) :
    Runs (document limit) 0 0 o.script.toList (.matched ⟨[.leaf o.leaf]⟩) [] := by
  have hbegins := begins_script_redirected o
  have hleaf : Runs leaf 0 0 o.script.toList (.matched o.leaf) [] := by
    refine .orElse (comment_unmatched (hbegins.beginsWithWord_of_ne nofun)) ?_
    refine .orElse (attempt_keyword_unmatched _ (hbegins.beginsWithWord_of_ne nofun)) ?_
    exact .orElse_matched (emit_runs_of_redirected o) _
  have hchain : Runs chain 0 0 o.script.toList (.matched (.leaf o.leaf)) [] :=
    .bind hleaf (.foldMany_unmatched (chainLink_unmatched stops_nil) _ _)
  refine document_runs_of_statement (Keyword.stops_isBlank_of_begins hbegins) ?_
  exact statement_runs_of_chain (by decide) hbegins false hchain

theorem endsMessage_of_isDigit {inBlock : Bool} {x : Char} (hx : x.isDigit = true) (rest : List Char) :
    endsMessage inBlock (x :: rest) = beginsWithHandle (x :: rest) := by
  have hmarks : ∀ y ∈ ['\r', '\n', '<', '>', '&', '|', ')'], y.isDigit = false := by decide
  have hother : ∀ y ∈ ['\r', '\n', '<', '>', '&', '|', ')'], x ≠ y := by
    rintro y hy rfl
    rw [hmarks x hy] at hx
    cases hx
  simp only [List.mem_cons, List.not_mem_nil, or_false, forall_eq_or_imp, forall_eq] at hother
  simp [endsMessage, isLineBreak, isRedirectChar, isChainChar, closesBlock, hother]

/-- Where a message ends at a digit, that is the handle of a redirection. -/
theorem message_stops_before_handle {s t : State} {m : String} (e : message s = (.matched m, t)) :
    s.cursor.rest = m.toList ++ t.cursor.rest ∧
      ∀ x rest, t.cursor.rest = x :: rest → x.isDigit = true →
        isHandleDigit x = true ∧ rest.head?.any isRedirectChar = true := by
  cases e
  refine ⟨(toList_upTo_append _ _).symm, fun x rest hrest hdigit => ?_⟩
  simp only [upTo, rest_skip] at hrest
  have hstop := stop_drop_lengthBefore (hrest ▸ List.cons_ne_nil x rest)
  rw [hrest, endsMessage_of_isDigit hdigit] at hstop
  cases rest with
  | nil => cases hstop
  | cons y rest => exact Bool.and_eq_true_iff.mp hstop

end Grammar

/-! ## What it is read as -/

/-- An output with redirections is read as one leaf, if the limits let it be read; and no message ends at a digit,
but for a handle directly before a mode. -/
theorem redirected_outputs_read :
    (∀ (limits : Limits) (o : RedirectedOutput), Document.read limits o.script =
      if limits.inputSize < o.script.utf8ByteSize then .error (.tooLarge limits.inputSize) else .ok ⟨[.leaf o.leaf]⟩) ∧
    ∀ (s t : State) (m : String), message s = (.matched m, t) → s.cursor.rest = m.toList ++ t.cursor.rest ∧
      ∀ x rest, t.cursor.rest = x :: rest → x.isDigit = true →
        isHandleDigit x = true ∧ rest.head?.any isRedirectChar = true := by
  refine ⟨fun limits o => ?_, fun s t m => message_stops_before_handle⟩
  split
  · rename_i h
    exact read_of_size_lt h
  · rename_i h
    exact read_of_runs (Nat.le_of_not_lt h) (document_runs_of_redirected o _)

/-- The last digit of the message is the handle, and the digit before it is not; a destination may begin with a
digit, or be one. -/
theorem read_redirected_output :
    Document.read {} "echo.x 12>& 1 2>>0a\t<f)" =
      .ok ⟨[.leaf (.emit "x 1" false [⟨"2>&", "1"⟩, ⟨"2>>", "0a"⟩, ⟨"<", "f)"⟩])]⟩ := by
  let first : BareRedirection :=
    ⟨"", ">&", " ", "1", by decide, by decide, by decide, by decide, by decide, by decide⟩
  let second : BareRedirection :=
    ⟨"2", ">>", "", "0a", by decide, by decide, by decide, by decide, by decide, by decide⟩
  let third : BareRedirection :=
    ⟨"", "<", "", "f)", by decide, by decide, by decide, by decide, by decide, by decide⟩
  let output : RedirectedOutput :=
    ⟨"x 12", first, [⟨second, " ", by decide, by decide⟩, ⟨third, "\t", by decide, by decide⟩], by decide⟩
  have hread : Document.read {} output.script = _ := redirected_outputs_read.1 {} output
  have hscript : output.script = "echo.x 12>& 1 2>>0a\t<f)" := by decide +kernel
  rw [← hscript, hread]
  decide +kernel

end BatchScript
