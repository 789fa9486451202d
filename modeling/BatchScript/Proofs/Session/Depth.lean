import BatchScript.Proofs.Grammar.Jammed
import BatchScript.Proofs.Rule.Ensures
import BatchScript.Proofs.Tree.Basic
import BatchScript.Session

/-!
# Scripts under two limits

A limit on nested bodies rejects the scripts that are nested too deep, and
changes nothing else (`read_of_depth_le`). For the limit measures the tree:
every body that is opened while a script is read ends up in its tree, unless the
reader is jammed. So a rule is compared under a smaller and a larger limit by the
size of the tree it reads (`Measures`), rule by rule.

* `statement_measures`: a statement is read under a smaller limit just if it is
  nested no deeper, unless the reader is jammed behind it;
* `document_measures`: a document leaves no way out.
-/

namespace BatchScript

namespace Grammar

open Cursor Rule Text

variable {m m' left : Nat}

/-! ## Repetition -/

/-- A rule for one of several statements, under both limits. -/
structure Items (m m' left : Nat) (item item' : Rule Statement) : Prop where
  agrees : Agrees item item'
  steady : Steady item'
  measures : Measures m left Statement.nest (Jammed m') item item'
  obstructed {s t u : State} {p : Position} : item s = (.tooDeep p, t) → item' s = (.unmatched, u) →
    Obstructed u
  /-- Where the reader is jammed there is no other statement. -/
  jammed {s : State} : Jammed m' s → ∃ t, item' s = (.unmatched, t) ∧ Obstructed t

theorem mem_foldMany {α : Type} {r : Rule α} {a : α} {acc found : List α} {s t : State} (ha : a ∈ acc)
    (h : foldMany (fun values a => a :: values) r acc s = (.matched found, t)) : a ∈ found :=
  Yields.foldMany (B := fun values => a ∈ values) (Yields.any r)
    (fun _ _ hv _ => List.mem_cons_of_mem _ hv) ha trivial h

/-- The statements of a repetition that are new fit, or one of them does not. -/
theorem Items.foldMany {item item' : Rule Statement} (h : Items m m' left item item') {s t : State}
    {acc found : List Statement} (hl : s.left < left) (hd : s.depth ≤ m)
    (e : Rule.foldMany (fun values a => a :: values) item' acc s = (.matched found, t)) :
    (Rule.foldMany (fun values a => a :: values) item acc s = (.matched found, t) ∧
      ∀ a ∈ found, a ∈ acc ∨ s.depth + a.nest ≤ m) ∨
    (∃ p u, Rule.foldMany (fun values a => a :: values) item acc s = (.tooDeep p, u)) ∧
      ((∃ a ∈ found, m < s.depth + a.nest) ∨ Obstructed t) := by
  generalize ho : Outcome.matched found = o at e
  induction loops_of_foldMany e with
  | @next acc s u t a o hi hlt hloops ih =>
    subst ho
    obtain ⟨hdu, -, hlu⟩ := h.steady.matched hi
    obtain ⟨hr, hf⟩ | ⟨⟨p, w, hr⟩, hf | hj⟩ := h.measures hl hd hi
    · rw [foldMany_of_lt hr hlt, ← hdu]
      rw [← hdu] at hd hf
      refine (ih (by omega) hd rfl hloops.foldMany_eq).imp_left fun ⟨hfound, hfit⟩ => ⟨hfound, fun b hb => ?_⟩
      obtain hb | hb := hfit b hb
      · rcases List.mem_cons.mp hb with rfl | hb
        · exact .inr hf
        · exact .inl hb
      · exact .inr hb
    · exact .inr ⟨⟨p, w, (Loops.tooDeep hr).foldMany_eq⟩,
        .inl ⟨a, mem_foldMany List.mem_cons_self hloops.foldMany_eq, hf⟩⟩
    · obtain ⟨v, hv, hobstructed⟩ := h.jammed hj
      cases hloops.foldMany_eq.symm.trans (Loops.ended hv).foldMany_eq
      exact .inr ⟨⟨p, w, (Loops.tooDeep hr).foldMany_eq⟩, .inr hobstructed⟩
  | last hi hle =>
    cases ho
    obtain ⟨hr, hf⟩ | ⟨⟨p, w, hr⟩, hf | hj⟩ := h.measures hl hd hi
    · refine .inl ⟨(Loops.last hr hle).foldMany_eq, fun b hb => ?_⟩
      rcases List.mem_cons.mp hb with rfl | hb
      · exact .inr hf
      · exact .inl hb
    · exact .inr ⟨⟨p, w, (Loops.tooDeep hr).foldMany_eq⟩, .inl ⟨_, List.mem_cons_self, hf⟩⟩
    · exact .inr ⟨⟨p, w, (Loops.tooDeep hr).foldMany_eq⟩, .inr hj.obstructed⟩
  | ended hi =>
    cases ho
    obtain hr | ⟨p, w, hr⟩ := h.agrees.eq_or hi
    · exact .inl ⟨(Loops.ended hr).foldMany_eq, fun a ha => .inl ha⟩
    · exact .inr ⟨⟨p, w, (Loops.tooDeep hr).foldMany_eq⟩, .inr (h.obstructed hr hi)⟩
  | tooDeep _ => cases ho

/-- The statements of a repetition fit, or they do not and the reader may be obstructed. -/
theorem Items.many {item item' : Rule Statement} (h : Items m m' left item item') :
    Measures m left bodyNest Obstructed (Rule.many item) (Rule.many item') := by
  intro s t v hl hd e
  obtain ⟨found, u, hu, e⟩ := bind_matched e
  cases e
  obtain ⟨hr, hf⟩ | ⟨⟨p, w, hr⟩, hf⟩ := h.foldMany hl hd hu
  · refine .inl ⟨bind_of_matched hr _, ?_⟩
    have hn : bodyNest found.reverse ≤ m - s.depth := bodyNest_le fun a ha => by
      rcases hf a (List.mem_reverse.mp ha) with ha | ha
      · cases ha
      · omega
    omega
  · refine .inr ⟨⟨p, w, bind_of_tooDeep hr _⟩, hf.imp_left fun ⟨a, ha, hlt⟩ => ?_⟩
    have := nest_le_bodyNest (List.mem_reverse.mpr ha)
    omega

/-- A statement behind blanks, if the place is such that one may begin. -/
theorem items_of_measures (hm : m ≤ m')
    (h : Measures m left Statement.nest (Jammed m') (statement m) (statement m')) {p : Cursor → Bool}
    (hp : LocalTest Eq p) :
    Items m m' left (do skipBlanks; .holds p; statement m) (do skipBlanks; .holds p; statement m') where
  agrees := agrees_of_lockstep fun _ _ _ =>
    (item_alike hp).lockstep (Aligned.twin ..) (statement_aligned (by omega))
  steady := (item_orderly hp).steady
  measures := .after (Flat.steady skipBlanks_alike) fun _ => .after (Flat.steady (.holds hp)) fun _ => h
  obstructed := by
    intro s t u q e e'
    have e := (skipBlanks_holds_apply p (statement m) s).symm.trans e
    have e' := (skipBlanks_holds_apply p (statement m') s).symm.trans e'
    split at e
    · rename_i hp
      rw [if_pos hp] at e'
      have hu := headed_of_tooDeep hm e e'
      rw [statement_eq] at e'
      rw [← (attempt_unmatched e').1] at hu
      exact hu.obstructed
    · cases e
  jammed hj := by
    obtain ⟨t, ht, hr⟩ := hj.item_unmatched p
    exact ⟨t, ht, Headed.obstructed (hr ▸ hj.obstructed)⟩

/-! ## Bodies -/

section Bodies

variable (hm : m ≤ m') (h : Measures m left Statement.nest (Jammed m') (statement m) (statement m'))
include h

theorem single_measures : Measures m left bodyNest (Jammed m') (do return [← statement m])
    (do return [← statement m']) := by
  refine h.before (fun {v t b u} e hj => ?_) fun {v t b u} e => ?_
  · cases e; exact hj
  · cases e
    simp only [bodyNest]; omega

include hm

theorem block_measures :
    Measures m left bodyNest (fun _ => False) (block (statement m)) (block (statement m')) := by
  refine .attempt (.after (Flat.steady (symbol_alike (by decide))) fun _ => .insideBlock ?_)
  refine (items_of_measures hm h (localTest_current_ne (by decide))).many.before (fun {vs t b u} e ho => ?_)
    fun {vs t b u} e => ?_
  · obtain ⟨w, hw, -⟩ := symbol_unmatched (d := t.depth) (b := t.blockDepth) ho.stops t ⟨rfl, rfl, rfl⟩
    rw [bind_of_unmatched hw] at e
    cases e
  · obtain ⟨-, w, -, e⟩ := bind_matched e
    cases e; rfl

theorem body_measures : Measures m left (fun b => bodyNest b + 1) (Jammed m') (body m (statement m))
    (body m' (statement m')) := by
  have hb : Measures m left bodyNest (Jammed m') (block (statement m)) (block (statement m')) :=
    fun s t v hl hd e => (block_measures hm h hl hd e).imp_right fun hr => ⟨hr.1, hr.2.imp_right False.elim⟩
  have hs : Orderly m' (do return [← statement m']) := .bind statement_orderly fun _ => .pure _
  refine .insideBody (.orElse (agrees_of_lockstep fun _ _ _ => ?_) hs.steady
    (single_measures h) hb fun {s p u t a w} e e' ew => ?_) fun {t} hj => hj.of_cursor_eq rfl rfl
  · exact .bind (statement_aligned (by omega)) fun _ => .pure _
  · -- where a statement is given up there is no block
    obtain e | ⟨v, x, -, e⟩ := bind_tooDeep e
    · obtain e' | ⟨v, x, -, e'⟩ := bind_unmatched e'
      · have hh := headed_of_tooDeep hm e e'
        rw [statement_eq] at e'
        rw [← (attempt_unmatched e').1] at hh
        have hp : Stops (· == '(') t.cursor.rest := hh.stops fun x hx => .inr (.inl (eq_of_beq hx))
        obtain ⟨y, hy, -⟩ := symbol_unmatched (d := t.depth) (b := t.blockDepth) hp t ⟨rfl, rfl, rfl⟩
        have ew := bind_of_unmatched hy _ ▸ attempt_matched.mp ew
        cases ew
      · cases e'
    · cases e

theorem alternative_measures : Measures m left (fun b => bodyNest b + 1) (Jammed m')
    (alternative (body m (statement m))) (alternative (body m' (statement m'))) := by
  rw [alternative_eq, alternative_eq]
  exact .attempt (.after (Flat.steady alternativeHead_alike) fun _ => body_measures hm h)

end Bodies

/-! ## Statements -/

/-- A keyword at the beginning leaves less to read. -/
theorem keyword_measures {α : Type} {size : α → Nat} {Jam : State → Prop} (k : Keyword)
    {f f' : Unit → Rule α} (hf : Measures m left size Jam (f ()) (f' ())) :
    Measures m (left + 1) size Jam (keyword k >>= f) (keyword k >>= f') := by
  intro s t v hl hd e
  obtain ⟨⟨⟩, u, hu, e⟩ := bind_matched e
  have hlu := left_lt_of_keyword hu
  have hdu := ((Flat.steady (keyword_alike k)).matched hu).1
  rw [bind_of_matched hu]
  rw [← hdu] at hd ⊢
  exact hf (by omega) hd e

theorem label_nest : Yields label fun s => s.nest = 0 :=
  .attempt <| .after fun _ => .after fun _ => .pure rfl

theorem chain_nest : Yields chain fun s => s.nest = 0 := by
  refine .after fun _ => .foldMany (Yields.any _) (fun left link h _ => ?_) rfl
  simp only [Statement.nest, h, Nat.max_self]

section Statements

variable (hm : m ≤ m') (h : Measures m left Statement.nest (Jammed m') (statement m) (statement m'))
include hm h

theorem optional_measures :
    Measures m left (fun o : Option (List Statement) => o.elim 0 fun b => bodyNest b + 1) (Jammed m')
      (Rule.optional (alternative (body m (statement m))))
      (Rule.optional (alternative (body m' (statement m')))) := by
  intro s t v hl hd e
  have hagrees : Agrees (alternative (body m (statement m))) (alternative (body m' (statement m'))) :=
    agrees_of_lockstep fun _ _ _ => alternative_aligned (by omega)
  obtain ⟨b, rfl, ha⟩ | ⟨rfl, ha⟩ := optional_matched e
  · obtain ⟨hr, hf⟩ | ⟨⟨p, w, hr⟩, hf⟩ := alternative_measures hm h hl hd ha
    · exact .inl ⟨optional_of_matched hr, hf⟩
    · exact .inr ⟨⟨p, w, optional_of_tooDeep hr⟩, hf⟩
  · obtain hr | ⟨p, w, hr⟩ := hagrees.eq_or ha
    · exact .inl ⟨optional_of_unmatched hr, hd⟩
    · exact .inr ⟨⟨p, w, optional_of_tooDeep hr⟩, .inr (jammed_of_tooDeep hr ha)⟩

/-- The bodies of a branch. -/
theorem bodies_measures (condition : Condition) :
    Measures m left Statement.nest (Jammed m') (branchBodies (body m (statement m)) condition)
      (branchBodies (body m' (statement m')) condition) := by
  unfold branchBodies
  intro s t v hl hd e
  obtain ⟨thenBody, u, hthen, e⟩ := bind_matched e
  obtain ⟨elseBody, w, helse, e⟩ := bind_matched e
  cases e
  obtain ⟨hdu, -, hlu⟩ := (body_orderly statement_orderly).steady.matched hthen
  have hn : Statement.nest (.branch condition thenBody elseBody) =
      max (bodyNest thenBody + 1) (elseBody.elim 0 fun b => bodyNest b + 1) := by
    cases elseBody <;> simp only [Statement.nest, elseNest, Option.elim] <;> omega
  rw [hn]
  obtain ⟨hr, hf⟩ | ⟨⟨p, x, hr⟩, hf⟩ := body_measures hm h hl hd hthen
  · have hf : s.depth + (bodyNest thenBody + 1) ≤ m := hf
    rw [bind_of_matched hr]
    rw [← hdu] at hd hf ⊢
    obtain ⟨hr', hf'⟩ | ⟨⟨p, x, hr'⟩, hf'⟩ := optional_measures hm h (by omega) hd helse
    · have hf' : u.depth + (elseBody.elim 0 fun b => bodyNest b + 1) ≤ m := hf'
      exact .inl ⟨bind_of_matched hr' _, by omega⟩
    · refine .inr ⟨⟨p, x, bind_of_tooDeep hr' _⟩, hf'.imp_left fun hlt => ?_⟩
      have hlt : m < u.depth + (elseBody.elim 0 fun b => bodyNest b + 1) := hlt
      omega
  · refine .inr ⟨⟨p, x, bind_of_tooDeep hr _⟩, ?_⟩
    rcases hf with hf | hj
    · have hf : m < s.depth + (bodyNest thenBody + 1) := hf
      left; omega
    · exact .inr (hj.optional helse).2

theorem branch_measures : Measures m (left + 1) Statement.nest (Jammed m') (branch (body m (statement m)))
    (branch (body m' (statement m'))) := by
  rw [branch_eq, branch_eq]
  exact .attempt (keyword_measures _ (.after (Flat.steady branchHead_alike) (bodies_measures hm h)))

theorem loop_measures : Measures m (left + 1) Statement.nest (Jammed m') (loop (body m (statement m)))
    (loop (body m' (statement m'))) := by
  rw [loop_eq, loop_eq]
  refine .attempt (keyword_measures _ (.after (Flat.steady loopHead_alike) fun _ => ?_))
  refine (body_measures hm h).before (fun {b t v u} e hj => ?_) fun {b t v u} e => ?_
  · cases e; exact hj
  · cases e; rfl

theorem choice_measures : Measures m (left + 1) Statement.nest (Jammed m')
    (label <|> branch (body m (statement m)) <|> loop (body m (statement m)) <|> chain)
    (label <|> branch (body m' (statement m')) <|> loop (body m' (statement m')) <|> chain) := by
  refine .orElse (fun _ => .inl rfl) (Flat.steady label_alike) (.of_size_eq_zero fun e => label_nest trivial e) ?_ ?_
  · refine .orElse (branch_agrees hm) branch_orderly.steady (branch_measures hm h) ?_ ?_
    · refine .orElse (loop_agrees hm) loop_orderly.steady (loop_measures hm h)
        (.of_size_eq_zero fun e => chain_nest trivial e) ?_
      intro s p u t v w e e'
      have hbegins := begins_of_tooDeep (attempt_tooDeep.mp e)
      rw [← (attempt_unmatched e').1] at hbegins
      exact not_chain hbegins (by decide)
    · intro s p u t v w e e'
      have hbegins := begins_of_tooDeep (attempt_tooDeep.mp e)
      rw [← (attempt_unmatched e').1] at hbegins
      exact not_loop_or_chain hbegins (by decide) (by decide)
  · intro s p u t v w e e'
    rw [e] at e'; cases e'

end Statements

/-- A statement is read under a smaller limit just if it is nested no deeper, unless the
reader is jammed behind it. -/
theorem statement_measures (hm : m ≤ m') (left : Nat) :
    Measures m left Statement.nest (Jammed m') (statement m) (statement m') := by
  induction left with
  | zero => exact fun s t v hl => absurd hl (Nat.not_lt_zero _)
  | succ left ih =>
    have hw : Measures m (left + 1) Statement.nest (Jammed m') (statementWith m (statement m))
        (statementWith m' (statement m')) :=
      .attempt (.after (Flat.steady (skipSymbol_alike (by decide))) fun _ => choice_measures hm ih)
    rwa [← statement_eq, ← statement_eq] at hw

/-- A whole script leaves no way out. -/
theorem document_measures (hm : m ≤ m') (left : Nat) :
    Measures m left Document.nest (fun _ => False) (document m) (document m') := by
  refine (items_of_measures hm (statement_measures hm left) localTest_atEnd).many.before (fun {vs t b u} e ho => ?_)
    fun {vs t b u} e => ?_
  · obtain ⟨⟨⟩, w, hw, -⟩ := bind_matched e
    unfold holds at hw
    split at hw
    · rename_i he
      exact ho.ne_nil (List.isEmpty_iff.mp he)
    · cases hw
  · obtain ⟨-, w, -, e⟩ := bind_matched e
    cases e; rfl

end Grammar

/-! ## Whole scripts -/

open Grammar

/-- A script on which the rule for documents runs to its end is read. -/
theorem read_of_runs {d : Document} {rest : List Char} (hs : script.utf8ByteSize ≤ limits.inputSize)
    (h : Rule.Runs (document limits.depth) 0 0 script.toList (.matched d) rest) :
    Document.read limits script = .ok d := by
  obtain ⟨t, ht, -⟩ := h { cursor := .ofText script.toList } ⟨rfl, rfl, rfl⟩
  rw [read_eq hs, ht]

/-- A script that does not match under some limit on nested bodies is not read under a smaller one. -/
theorem exists_error_of_runs {limits : Limits} {script : String} {m : Nat} {rest : List Char}
    (hm : limits.depth ≤ m) (h : Rule.Runs (document m) 0 0 script.toList .unmatched rest) :
    ∃ f, Document.read limits script = .error f := by
  by_cases hs : script.utf8ByteSize ≤ limits.inputSize
  · obtain ⟨t, ht, -⟩ := h { cursor := .ofText script.toList } ⟨rfl, rfl, rfl⟩
    rw [read_eq hs]
    obtain he | ⟨p, u, he⟩ := document_agrees hm { cursor := .ofText script.toList }
    · rw [he, ht]; exact ⟨_, rfl⟩
    · rw [he]; exact ⟨_, rfl⟩
  · exact ⟨_, read_of_size_lt (by omega)⟩

/-- What a script is read as under two limits on nested bodies. A result other than the
smaller limit being met is the result under the larger one; and a document that
is read under the larger one is read under the smaller one just if it is nested no deeper. -/
theorem read_of_depth_le {m m' : Nat} (hm : m ≤ m') (size : Nat) (script : String) :
    ((∀ p, Document.read ⟨size, m⟩ script ≠ .error (.tooDeep p m)) →
      Document.read ⟨size, m'⟩ script = Document.read ⟨size, m⟩ script) ∧
    ∀ d, Document.read ⟨size, m'⟩ script = .ok d →
      (d.nest ≤ m → Document.read ⟨size, m⟩ script = .ok d) ∧
      (m < d.nest → ∃ p, Document.read ⟨size, m⟩ script = .error (.tooDeep p m)) := by
  by_cases hs : script.utf8ByteSize ≤ size
  · rw [@read_eq ⟨size, m⟩ script hs, @read_eq ⟨size, m'⟩ script hs]
    simp only
    refine ⟨fun hn => ?_, fun d hd => ?_⟩
    · match hd : document m { cursor := .ofText script.toList } with
      | (.tooDeep p, t) => rw [hd] at hn; exact absurd rfl (hn p)
      | (.matched d, t) =>
        obtain he | ⟨p, u, he⟩ := document_agrees hm { cursor := .ofText script.toList }
        · rw [← he, hd]
        · rw [hd] at he; cases he
      | (.unmatched, t) => rw [(document_agrees hm).unmatched hd]
    · match hd' : document m' { cursor := .ofText script.toList } with
      | (.tooDeep p, t) => rw [hd'] at hd; cases hd
      | (.unmatched, t) => rw [hd'] at hd; cases hd
      | (.matched d', t) =>
        rw [hd'] at hd; cases hd
        have hmeasure := document_measures hm (script.toList.length + 1)
          (s := { cursor := .ofText script.toList }) (Nat.lt_succ_self _) (Nat.zero_le m) hd'
        obtain ⟨he, hf⟩ | ⟨⟨p, u, he⟩, hf⟩ := hmeasure
        · have hf : 0 + d.nest ≤ m := hf
          rw [he]
          exact ⟨fun _ => rfl, fun hlt => absurd hf (by omega)⟩
        · have hf : m < 0 + d.nest := hf.resolve_right id
          rw [he]
          exact ⟨fun hle => absurd hf (by omega), fun _ => ⟨p, rfl⟩⟩
  · have hlt : size < script.utf8ByteSize := by omega
    rw [read_of_size_lt hlt, read_of_size_lt hlt]
    exact ⟨fun _ => rfl, fun d hd => nomatch hd⟩

/-- A branch is one body deep, which is too deep where none may be open. -/
theorem read_of_depth_le_branch : ∃ d, Document.read ⟨20, 1⟩ "if a==b goto c" = .ok d ∧
    ∃ p, Document.read ⟨20, 0⟩ "if a==b goto c" = .error (.tooDeep p 0) := by
  have h : Document.read ⟨20, 1⟩ "if a==b goto c" =
      .ok ⟨[.branch (.comparison "a" "==" "b") [.leaf (.goto "c")] none]⟩ := by decide +kernel
  exact ⟨_, h, ((read_of_depth_le (by decide) 20 "if a==b goto c").2 _ h).2 (by decide)⟩

end BatchScript
