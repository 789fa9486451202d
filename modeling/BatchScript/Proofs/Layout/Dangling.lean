import BatchScript.Proofs.Layout.Chains
import BatchScript.Proofs.Rule.Marks

/-!
# Operators without a leaf behind them

The rule for chains leaves an operator unread that has no leaf behind it. Nothing else begins with an operator,
so that the script is not read, in a block or outside of one; and what is reported is a place behind the operator,
where the leaf is missing (`read_dangling`).
-/

namespace BatchScript

open Text Cursor Grammar Rule

/-! ## The text -/

/-- A chain with one more operator behind it, as it is written. -/
def danglingScript (first : Leaf) (links : List Link) (k : Joint) : String :=
  chainScript first links ++ k.script

/-- No leaf begins a text inside `n` blocks. -/
def NoLeaf (n : Nat) (text : List Char) : Prop :=
  (Grammar.leaf ⟨.ofText text, n, n, {}⟩).1 = .unmatched

theorem NoLeaf.exists_runs {d b : Nat} {rest : List Char} (h : NoLeaf b rest) :
    ∃ j, Runs Grammar.leaf d b rest .unmatched j := by
  have hl : Grammar.leaf ⟨.ofText rest, b, b, {}⟩ = (.unmatched, (Grammar.leaf ⟨.ofText rest, b, b, {}⟩).2) := by
    rw [← h]
  exact ⟨_, runs_of_flat leaf_alike hl⟩

/-- A branch or a loop is no leaf. -/
theorem NoLeaf.of_begins {n : Nat} {w : Keyword} {text : List Char} (h : w.Begins text) (hw : w ∉ leafKeywords) :
    NoLeaf n text := by
  have hl : Runs Grammar.leaf n n text .unmatched text :=
    leaf_unmatched fun _ hj => h.beginsWithWord_of_ne fun e => hw (e ▸ hj)
  obtain ⟨t, ht, -⟩ := hl ⟨.ofText text, n, n, {}⟩ ⟨rest_ofText _, rfl, rfl⟩
  rw [NoLeaf, ht]

/-- The chain is one that is read inside `n` blocks, the operator and what belongs to it end where `rest` begins, and
no leaf begins there. -/
structure Dangles (n : Nat) (first : Leaf) (links : List Link) (k : Joint) (rest : List Char) : Prop where
  wellFormed : ∀ l ∈ first :: links.map Link.leaf, l.WellFormed ∧ l.Plain (decide (0 < n))
  leavesLine : ∀ l ∈ first :: links.map Link.leaf, l.takesLine = false
  behind : BehindOperator k.marked rest
  noLeaf : NoLeaf n rest

namespace Grammar

variable {d b n limit : Nat} {script rest i : List Char} {first : Leaf} {links : List Link} {k : Joint}

/-! ## The last operator -/

/-- An operator, what stands behind it, and the rest of the text. -/
def danglingText (k : Joint) (rest : List Char) : List Char :=
  k.operator.text.toList ++ (k.behind.toList ++ ((atSign k.marked).toList ++ rest))

theorem toList_danglingScript (first : Leaf) (links : List Link) (k : Joint) (rest : List Char) :
    (danglingScript first links k).toList ++ rest =
      first.script.toList ++ (linksText links ++ (k.before.toList ++ danglingText k rest)) := by
  simp [danglingScript, toList_chainScript, Joint.script, danglingText]

theorem not_stops_danglingText (k : Joint) (rest : List Char) : ¬ Stops isChainChar (danglingText k rest) := by
  intro h
  have hoperator := h.of_front (List.prefix_append _ _)
  revert hoperator
  cases k.operator <;> simp [Stops, ChainOperator.text, isChainChar]

theorem danglingText_ne_nil (k : Joint) (rest : List Char) : danglingText k rest ≠ [] :=
  fun h => not_stops_danglingText k rest (h ▸ stops_nil)

/-- What begins with an operator does not begin with anything else. -/
theorem stops_danglingText {p : Char → Bool} (hand : p '&' = false) (hbar : p '|' = false) (k : Joint)
    (rest : List Char) : Stops p (danglingText k rest) := by
  refine stops_of_not_stops (fun x hx => ?_) (not_stops_danglingText k rest)
  obtain rfl | rfl := eq_of_isChainChar hx
  · exact hand
  · exact hbar

/-- Without a leaf behind its operator there is no link. -/
theorem danglingLink_unmatched (h : Dangles b first links k rest) {spaces : List Char}
    (hs : ∀ x ∈ spaces, isSpace x = true) :
    Runs chainLink d b (spaces ++ danglingText k rest) .unmatched (spaces ++ danglingText k rest) := by
  obtain ⟨j, hj⟩ := h.noLeaf.exists_runs (d := d)
  rw [chainLink_eq]
  exact .attempt_unmatched (.bind (linkHead_runs hs k.operator k.isBlank_behind h.behind) (.bind_unmatched hj _))

/-- The leaf is wanted where the rest of the text begins. -/
theorem danglingLink_marks (h : Dangles b first links k rest) {spaces : List Char}
    (hs : ∀ x ∈ spaces, isSpace x = true) (hn : n + rest.length ≤ script.length) :
    Marks script n chainLink d b (spaces ++ danglingText k rest) := by
  obtain ⟨j, hj⟩ := h.noLeaf.exists_runs (d := d)
  have hhead : Orderly 0 linkHead := Flat.orderly (.bind skipSpaces_alike fun _ => .bind chainOperator_alike fun _ =>
    .bind skipBlanks_alike fun _ => .bind (skipSymbol_alike (by decide)) fun _ => .pure _) 0
  have hpure : ∀ l, Orderly 0 (pure (k.operator, l) : Rule (ChainOperator × Leaf)) := fun _ => .pure _
  rw [chainLink_eq]
  refine .attempt (.bind_right hhead (linkHead_runs hs k.operator k.isBlank_behind h.behind) ?_)
  exact .bind_left (.of_wants leaf_wants hj hn) hpure

/-! ## The chain in front of it -/

/-- The links in front of the last operator are read, and the repetition ends there. -/
theorem dangling_rounds (h : Dangles b first links k rest) :
    ∃ i spaces, (∀ x ∈ spaces, isSpace x = true) ∧
      Runs leaf d b ((danglingScript first links k).toList ++ rest)
        (.matched (first.padded (spacesBehind k.before links))) i ∧
      Runs.Rounds chainLink d b i (linkValues k.before links) (spaces ++ danglingText k rest) := by
  have hend : EndsLeaf (danglingText k rest) := endsLeaf_operator k.operator
  have hlast : ∀ l ∈ (first :: links.map Link.leaf).getLast?, (l.padded k.before).Ends (decide (0 < b))
      ((l.spacesLeft k.before).toList ++ danglingText k rest) := fun l hm =>
    ends_padded (h.leavesLine l (List.mem_of_mem_getLast? hm)) k.isSpace_before hend
  obtain ⟨i, spaces, hspaces, hleaf, hrounds⟩ := links_rounds (d := d) first links k.isSpace_before h.wellFormed
    (fun l hm => h.leavesLine l (List.dropLast_subset _ hm)) hlast fun _ hs => danglingLink_unmatched h hs
  rw [toList_danglingScript]
  refine ⟨i, spaces.toList, ?_, hleaf, hrounds⟩
  obtain rfl | rfl := hspaces
  · simp
  · exact k.isSpace_before

theorem begins_danglingScript (first : Leaf) (links : List Link) (k : Joint) (rest : List Char) :
    first.keyword.Begins ((danglingScript first links k).toList ++ rest) := by
  rw [toList_danglingScript]
  exact first.begins_script _

/-- The chain in front of the last operator is read as a statement, up to that operator. -/
theorem dangling_runs (limit : Nat) (h : Dangles b first links k rest) : ∃ j,
    j.dropWhile isBlank = danglingText k rest ∧
    Runs (statement limit) d b ((danglingScript first links k).toList ++ rest)
      (.matched (chainOf k.before first links)) j := by
  obtain ⟨i, spaces, hspaces, hleaf, hrounds⟩ := dangling_rounds (d := d) h
  have hchain : Runs chain d b ((danglingScript first links k).toList ++ rest)
      (.matched (chainOf k.before first links)) (spaces ++ danglingText k rest) :=
    .bind hleaf (hrounds.foldMany _ _)
  refine ⟨_, ?_, statement_runs_of_chain first.keyword_mem (begins_danglingScript ..) false hchain⟩
  exact dropWhile_append_of_stops (fun x hx => isBlank_of_isSpace (hspaces x hx)) (stops_danglingText rfl rfl k rest)

/-- The leaf that is missing behind it is wanted there. -/
theorem dangling_marks (h : Dangles b first links k rest) (hn : n + rest.length ≤ script.length) :
    Marks script n chain d b ((danglingScript first links k).toList ++ rest) := by
  obtain ⟨i, spaces, hspaces, hleaf, hrounds⟩ := dangling_rounds (d := d) h
  refine .bind_right (Flat.orderly leaf_alike 0) hleaf ?_
  refine .foldMany_last (Flat.orderly chainLink_alike 0) hrounds (fun j hj => ?_) _ _
  -- a link that does not match reads nothing, so the last round begins where the repetition ends
  rw [← hj.eq_of_attempt]
  exact danglingLink_marks h hspaces hn

/-! ## Marks of statements -/

/-- A statement that begins with a keyword leaves the marks that a branch, a loop or a chain leaves. -/
theorem statement_marks_of_begins {w : Keyword} (hw : w.Begins i)
    (h : Marks script n (branch (body limit (statement limit)) <|> loop (body limit (statement limit)) <|> chain) d b
      i) : Marks script n (statement limit) d b i := by
  have hcolon : Stops (· == ':') i := Keyword.stops_of_begins hw (by simp) (by cases w <;> decide)
  rw [statement_eq]
  refine .attempt (.bind_right (Flat.orderly (skipSymbol_alike (by decide)) limit) (skipSymbol_of_stops hw.stops_at) ?_)
  exact .orElse_right (Flat.orderly label_alike limit) (label_unmatched hcolon) h

theorem statement_marks_of_chain (limit : Nat) {w : Keyword} (hw : w ∈ leafKeywords) (hb : w.Begins i)
    (h : Marks script n chain d b i) : Marks script n (statement limit) d b i := by
  obtain ⟨hbranch, hloop⟩ := branch_and_loop_unmatched (d := d) (b := b) hw hb (body limit (statement limit))
  exact statement_marks_of_begins hb (.orElse_right branch_orderly hbranch (.orElse_right loop_orderly hloop h))

/-- The first of some statements leaves a mark. -/
theorem items_marks {p : Cursor → Bool} (hp : LocalTest Eq p) (hi : ∀ c, c.rest = i → p c = true)
    (hb : Stops isBlank i) (h : Marks script n (statement limit) d b i) :
    Marks script n (.many (do skipBlanks; .holds p; statement limit)) d b i := by
  have hholds : Orderly limit (.holds p) := .holds p
  refine .many_first (.bind_right (Flat.orderly skipBlanks_alike limit) (skipBlanks_of_stops hb) ?_) (item_orderly hp)
  exact .bind_right hholds (.holds hi) h

theorem document_marks (hb : Stops isBlank i) (hne : i ≠ []) (h : Marks script n (statement limit) 0 0 i) :
    Marks script n (document limit) 0 0 i := by
  have hitems : Marks script n (.many (documentItem limit)) 0 0 i :=
    items_marks localTest_atEnd (fun c hc => by simpa [atEnd, hc] using hne) hb h
  have hend : ∀ statements, Orderly limit (do .holds (·.atEnd); return ⟨statements⟩ : Rule Document) := fun _ =>
    .bind (.holds _) fun _ => .pure _
  exact .bind_left hitems hend

/-! ## In a block -/

/-- The condition and the block of a branch, from its `IF` on. -/
def branchText (text : List Char) : List Char :=
  ['i', 'f'] ++ ' ' :: ((Condition.comparison "a" "==" "b").script.toList ++ ' ' :: '(' :: text)

theorem begins_branchText (text : List Char) : Keyword.ifWord.Begins (branchText text) := by
  have hif : IsKeyword .ifWord ['i', 'f'] := rfl
  exact hif.begins _

theorem branchHead_runs : Runs branchHead d b
    (' ' :: ((Condition.comparison "a" "==" "b").script.toList ++ ' ' :: '(' :: rest))
    (.matched (.comparison "a" "==" "b")) ('(' :: rest) := by
  have hcondition : Runs condition d b ((Condition.comparison "a" "==" "b").script.toList ++ ' ' :: '(' :: rest)
      (.matched (.comparison "a" "==" "b")) (' ' :: '(' :: rest) :=
    condition_runs_of_equation (by decide) (by decide) (by decide)
  refine .bind (spaces_runs (stops_cons.mpr (by decide))) (.bind hcondition ?_)
  exact .bind (skipBlank_runs (stops_cons.mpr (by decide))) (.pure _)

/-- Behind the first statement in a block there is more, but no other statement. -/
theorem blockItems_runs_of_statement {a : Statement} {j : List Char} (hb : Stops isBlank i)
    (hp : Stops (· == ')') i) (h : Runs (statement limit) d b i (.matched a) j)
    (hj : Stops (· == ')') (j.dropWhile isBlank))
    (hu : Runs (statement limit) d b (j.dropWhile isBlank) .unmatched (j.dropWhile isBlank)) :
    Runs (.many (blockItem (statement limit))) d b i (.matched [a]) (j.dropWhile isBlank) := by
  have hfirst : Runs (blockItem (statement limit)) d b i (.matched a) j :=
    .bind (skipBlanks_of_stops hb) (.bind (.holds fun c hc => notCloses_of_stops c (hc ▸ hp)) h)
  have hnext : Runs (blockItem (statement limit)) d b j .unmatched (j.dropWhile isBlank) :=
    .bind skipBlanks_runs_dropWhile (.bind (.holds fun c hc => notCloses_of_stops c (hc ▸ hj)) hu)
  have hrounds : Runs.Rounds (blockItem (statement limit)) d b i [a] (j.dropWhile isBlank) :=
    .cons hfirst (statement_gains.length_lt h) (.nil hnext)
  exact hrounds.many

/-- A branch whose block does not end behind its statements is no statement. -/
theorem branchText_unmatched {statements : List Statement} (hd : d < limit)
    (hitems : Runs (.many (blockItem (statement limit))) (d + 1) (b + 1) i (.matched statements) rest)
    (hr : Stops (· == ')') rest) : Runs (statement limit) d b (branchText i) .unmatched (branchText i) := by
  have hbegins := begins_branchText i
  have hcolon : Stops (· == ':') (branchText i) := Keyword.stops_of_begins hbegins (by simp) (by decide)
  have hbody := body_unmatched_of_items (b := b) hd hitems hr
  have hbodies : ∀ c, Runs (branchBodies (body limit (statement limit)) c) d b ('(' :: i) .unmatched ('(' :: i) :=
    fun c => .bind_unmatched hbody _
  have hbranch : Runs (branch (body limit (statement limit))) d b (branchText i) .unmatched (branchText i) := by
    rw [branch_eq]
    exact .attempt_unmatched (.bind (keyword_runs rfl) (.bind branchHead_runs (hbodies _)))
  have hloop : Runs (loop (body limit (statement limit))) d b (branchText i) .unmatched (branchText i) :=
    loop_unmatched _ (hbegins.beginsWithWord_of_ne (by decide))
  have hchain : Runs chain d b (branchText i) .unmatched (branchText i) :=
    chain_unmatched_of_begins hbegins (by decide)
  rw [statement_eq]
  exact .attempt_unmatched (.bind (skipSymbol_of_stops hbegins.stops_at)
    (.orElse (label_unmatched hcolon) (.orElse hbranch (.orElse hloop hchain))))

theorem block_marks (hb : Stops isBlank i) (hp : Stops (· == ')') i)
    (h : Marks script n (statement limit) d (b + 1) i) : Marks script n (block (statement limit)) d b ('(' :: i) := by
  have hitems : Marks script n (.many (blockItem (statement limit))) d (b + 1) i :=
    items_marks (localTest_current_ne (by decide)) (fun c hc => notCloses_of_stops c (hc ▸ hp)) hb h
  have hsymbol : ∀ x : Char, x ≠ '\n' → Orderly limit (symbol x) := fun _ hx => Flat.orderly (symbol_alike hx) limit
  have hclose : ∀ statements, Orderly limit (do symbol ')'; return statements : Rule (List Statement)) := fun _ =>
    .bind (hsymbol ')' (by decide)) fun _ => .pure _
  have hinside : Marks script n (.insideBlock (blockStatements (statement limit))) d b i :=
    .insideBlock (.bind_left hitems hclose)
  exact .attempt (.bind_right (hsymbol '(' (by decide)) (symbol_runs '(') hinside)

/-- The first statement in the block of a branch leaves a mark. -/
theorem branchText_marks (hd : d < limit) (hb : Stops isBlank i) (hp : Stops (· == ')') i)
    (h : Marks script n (statement limit) (d + 1) (b + 1) i) : Marks script n (statement limit) d b (branchText i) := by
  have hsingle : Orderly limit (do return [← statement limit]) := .bind statement_orderly fun _ => .pure _
  have hbody : Marks script n (body limit (statement limit)) d b ('(' :: i) :=
    .insideBody (.orElse_right hsingle (.bind_unmatched (statement_unmatched_of_open limit) _) (block_marks hb hp h)) hd
  have helse : ∀ c thenBody, Orderly limit (do
      let elseBody ← Rule.optional (alternative (body limit (statement limit)))
      return Statement.branch c thenBody elseBody) := fun c thenBody =>
    .bind (.orElse (.bind alternative_orderly fun _ => .pure _) (.pure _)) fun _ => .pure _
  have hbranch : Marks script n (branch (body limit (statement limit))) d b (branchText i) := by
    rw [branch_eq]
    refine .attempt (.bind_right (Flat.orderly (keyword_alike _) limit) (keyword_runs rfl) ?_)
    exact .bind_right (Flat.orderly branchHead_alike limit) branchHead_runs (.bind_left hbody (helse _))
  have hothers : Orderly limit (loop (body limit (statement limit)) <|> chain) :=
    .orElse loop_orderly (Flat.orderly chain_alike limit)
  exact statement_marks_of_begins (begins_branchText i) (.orElse_left hbranch hothers)

end Grammar

variable {limits : Limits} {first : Leaf} {links : List Link} {k : Joint} {rest : String}

/-! ## What is reported -/

/-- A script that is given up with a mark in the record. -/
theorem read_of_marks {script : String} {n : Nat} {j : List Char} (hs : script.utf8ByteSize ≤ limits.inputSize)
    (h : Runs (document limits.depth) 0 0 script.toList .unmatched j)
    (hm : Marks script.toList n (document limits.depth) 0 0 script.toList) :
    ∃ p expected, Document.read limits script = .error (.unmatched p expected) ∧ n ≤ p.offset := by
  obtain ⟨t, ht, -⟩ := h (.begin script) ⟨rest_ofText _, rfl, rfl⟩
  have hcovers := hm (.begin script) ⟨.refl _, Attempts.sound_empty _⟩ ⟨rest_ofText _, rfl, rfl⟩
  rw [ht] at hcovers
  refine ⟨_, t.attempts.expected, ?_, hcovers.2⟩
  rw [read_eq hs, ht]
  exact congrArg Except.error (hcovers.failure_eq _)

/-- Outside of blocks the script is given up at the operator. -/
theorem read_dangling_outside (h : Dangles 0 first links k rest.toList)
    (hs : (danglingScript first links k ++ rest).utf8ByteSize ≤ limits.inputSize) :
    ∃ p expected, Document.read limits (danglingScript first links k ++ rest) = .error (.unmatched p expected) ∧
      (danglingScript first links k).length ≤ p.offset := by
  have hbegins := begins_danglingScript first links k rest.toList
  have hblank := Keyword.stops_isBlank_of_begins hbegins
  obtain ⟨j, hj, hstatement⟩ := dangling_runs (d := 0) limits.depth h
  have hnone := statement_unmatched_of_operator (d := 0) (b := 0) limits.depth (not_stops_danglingText k rest.toList)
  have hne := danglingText_ne_nil k rest.toList
  rw [← hj] at hnone hne
  have hn : (danglingScript first links k).length + rest.toList.length ≤
      ((danglingScript first links k).toList ++ rest.toList).length := by simp [String.length_toList]
  have hchain := dangling_marks (d := 0) h hn
  have hmarks := statement_marks_of_chain limits.depth first.keyword_mem hbegins hchain
  apply read_of_marks hs
  · rw [String.toList_append]
    exact document_unmatched_of_statement hblank hstatement hne hnone
  · rw [String.toList_append]
    exact document_marks hblank (Keyword.ne_nil_of_begins hbegins) hmarks

/-- In a block the block does not end there. -/
theorem read_dangling_inBlock (h : Dangles 1 first links k rest.toList) (hd : 1 ≤ limits.depth)
    (hs : ("if a==b (" ++ danglingScript first links k ++ rest).utf8ByteSize ≤ limits.inputSize) :
    ∃ p expected, Document.read limits ("if a==b (" ++ danglingScript first links k ++ rest) =
        .error (.unmatched p expected) ∧
      ("if a==b (" ++ danglingScript first links k).length ≤ p.offset := by
  have hbegins := begins_danglingScript first links k rest.toList
  have hblank := Keyword.stops_isBlank_of_begins hbegins
  have hparen : Stops (· == ')') ((danglingScript first links k).toList ++ rest.toList) :=
    Keyword.stops_of_begins hbegins (by simp) (by cases first.keyword <;> decide)
  have htext : ("if a==b (" ++ danglingScript first links k ++ rest).toList =
      branchText ((danglingScript first links k).toList ++ rest.toList) := by
    simp [branchText, Condition.script]
  have hif := begins_branchText ((danglingScript first links k).toList ++ rest.toList)
  obtain ⟨j, hj, hstatement⟩ := dangling_runs (d := 1) limits.depth h
  have hnone := statement_unmatched_of_operator (d := 1) (b := 1) limits.depth (not_stops_danglingText k rest.toList)
  have hclose : Stops (· == ')') (danglingText k rest.toList) := stops_danglingText rfl rfl k rest.toList
  rw [← hj] at hnone hclose
  have hitems := blockItems_runs_of_statement hblank hparen hstatement hclose hnone
  have hn : ("if a==b (" ++ danglingScript first links k).length + rest.toList.length ≤
      (branchText ((danglingScript first links k).toList ++ rest.toList)).length := by
    rw [← htext, String.length_toList, String.length_toList, String.length_append _ rest]
  have hchain := dangling_marks (d := 1) h hn
  have hmarks := statement_marks_of_chain limits.depth first.keyword_mem hbegins hchain
  apply read_of_marks hs
  · rw [htext]
    -- the branch is given up as a whole, so that the script is given up at its start
    have hdrop := dropWhile_eq_self_of_stops (Keyword.stops_isBlank_of_begins hif)
    refine document_unmatched_of_rounds (.nil (documentItem_unmatched_of_statement ?_ ?_)) ?_
    all_goals rw [hdrop]
    · exact Keyword.ne_nil_of_begins hif
    · exact branchText_unmatched (Nat.lt_of_lt_of_le Nat.zero_lt_one hd) hitems hclose
    · exact Keyword.ne_nil_of_begins hif
  · rw [htext]
    refine document_marks (Keyword.stops_isBlank_of_begins hif) (Keyword.ne_nil_of_begins hif) ?_
    exact branchText_marks (Nat.lt_of_lt_of_le Nat.zero_lt_one hd) hblank hparen hmarks

/-- A script that has an operator without a leaf behind it is not read, whatever follows, and neither is it in a block;
what is reported is not before the place where the leaf is missing. -/
theorem read_dangling (first : Leaf) (links : List Link) (k : Joint) (rest : String) :
    (Dangles 0 first links k rest.toList →
      (danglingScript first links k ++ rest).utf8ByteSize ≤ limits.inputSize →
      ∃ p expected, Document.read limits (danglingScript first links k ++ rest) = .error (.unmatched p expected) ∧
        (danglingScript first links k).length ≤ p.offset) ∧
    (Dangles 1 first links k rest.toList → 1 ≤ limits.depth →
      ("if a==b (" ++ danglingScript first links k ++ rest).utf8ByteSize ≤ limits.inputSize →
      ∃ p expected, Document.read limits ("if a==b (" ++ danglingScript first links k ++ rest) =
          .error (.unmatched p expected) ∧
        ("if a==b (" ++ danglingScript first links k).length ≤ p.offset) :=
  ⟨read_dangling_outside, read_dangling_inBlock⟩

/-- A branch is a statement of its own, but no leaf. -/
theorem read_dangling_branch :
    (∃ p expected, Document.read {} "goto a |goto b&&\n@if x==y goto c" = .error (.unmatched p expected) ∧
      18 ≤ p.offset) ∧
    ∃ p expected, Document.read {} "if a==b (goto a |goto b&&\n@if x==y goto c" = .error (.unmatched p expected) ∧
      27 ≤ p.offset := by
  let links : List Link := [⟨⟨" ", .pipe, "", false, by decide, by decide⟩, .goto "b"⟩]
  let k : Joint := ⟨"", .onSuccess, "\n", true, by decide, by decide⟩
  have hif : Keyword.ifWord.Begins "if x==y goto c".toList := by rw [Keyword.Begins]; decide +kernel
  have hgoto : ∀ n, ∀ l ∈ [Leaf.goto "a", .goto "b"], l.WellFormed ∧ l.Plain (decide (0 < n)) := fun n => by
    simp only [List.mem_cons, List.not_mem_nil, or_false, forall_eq_or_imp, forall_eq]
    exact ⟨⟨by decide +kernel, trivial⟩, by decide +kernel, trivial⟩
  have h : ∀ n, Dangles n (.goto "a") links k "if x==y goto c".toList := fun n => {
    wellFormed := hgoto n
    leavesLine := by decide
    behind := behindOperator_of_begins hif true
    noLeaf := .of_begins hif (by decide) }
  have hscript : danglingScript (.goto "a") links k = "goto a |goto b&&\n@" := by decide +kernel
  have hread := @read_dangling {} (.goto "a") links k "if x==y goto c"
  rw [hscript] at hread
  exact ⟨hread.1 (h 0) (by decide +kernel), hread.2 (h 1) (by decide) (by decide +kernel)⟩

end BatchScript
