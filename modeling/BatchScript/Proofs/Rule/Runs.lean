import BatchScript.Proofs.Rule.Cases

/-!
# How a rule runs on a text

What a rule answers, and what it leaves unread, is a matter of what remains to
be read; the place, and the attempts before, play no part in it. `Rule.Runs`
says this of one run, and each way to join rules has its law of such runs, so
that the run of a rule on a known text is put together from the runs of its
parts.

What a part of a rule answered is then known from its run (`State.At.outcome`), and so is what
comes behind it. The match of a repetition is taken apart into the values that it collects
(`Repeats`).
-/

namespace BatchScript

/-- The reader is at `input`, inside `d` bodies and `b` blocks. -/
structure State.At (s : State) (d b : Nat) (input : List Char) : Prop where
  rest : s.cursor.rest = input
  depth : s.depth = d
  blockDepth : s.blockDepth = b

namespace Rule

variable {α β : Type} {d b : Nat} {i j k : List Char} {o : Outcome α}

/-- At `input`, inside `d` bodies and `b` blocks, the rule ends with `o` at `rest`. -/
def Runs (r : Rule α) (d b : Nat) (input : List Char) (o : Outcome α) (rest : List Char) : Prop :=
  ∀ s : State, s.At d b input → ∃ t, r s = (o, t) ∧ t.At d b rest

/-- The list that `many` collects. -/
theorem reverse_foldl_cons (values : List α) :
    (values.foldl (fun values a => a :: values) []).reverse = values := by
  rw [← List.foldr_reverse]; simp

namespace Runs

/-! ## Sequence and choice -/

theorem pure (a : α) : Runs (Pure.pure a : Rule α) d b i (.matched a) i :=
  fun s h => ⟨s, rfl, h⟩

theorem bind {r : Rule α} {f : α → Rule β} {a : α} {o : Outcome β}
    (h₁ : Runs r d b i (.matched a) j) (h₂ : Runs (f a) d b j o k) : Runs (r >>= f) d b i o k := by
  intro s h
  obtain ⟨t, hr, ht⟩ := h₁ s h
  rw [bind_of_matched hr]
  exact h₂ t ht

theorem bind_unmatched {r : Rule α} (h₁ : Runs r d b i .unmatched j) (f : α → Rule β) :
    Runs (r >>= f) d b i .unmatched j := by
  intro s h
  obtain ⟨t, hr, ht⟩ := h₁ s h
  exact ⟨t, bind_of_unmatched hr f, ht⟩

theorem orElse {r q : Rule α} (h₁ : Runs r d b i .unmatched j) (h₂ : Runs q d b j o k) :
    Runs (r <|> q) d b i o k := by
  intro s h
  obtain ⟨t, hr, ht⟩ := h₁ s h
  rw [orElse_of_unmatched hr]
  exact h₂ t ht

theorem orElse_matched {r : Rule α} {a : α} (h₁ : Runs r d b i (.matched a) j) (q : Rule α) :
    Runs (r <|> q) d b i (.matched a) j := by
  intro s h
  obtain ⟨t, hr, ht⟩ := h₁ s h
  exact ⟨t, orElse_of_matched hr q, ht⟩

theorem attempt {r : Rule α} {a : α} (h₁ : Runs r d b i (.matched a) j) :
    Runs (Rule.attempt r) d b i (.matched a) j := by
  intro s h
  obtain ⟨t, hr, ht⟩ := h₁ s h
  exact ⟨t, Rule.attempt_matched.mpr hr, ht⟩

theorem attempt_unmatched {r : Rule α} (h₁ : Runs r d b i .unmatched j) :
    Runs (Rule.attempt r) d b i .unmatched i := by
  intro s h
  obtain ⟨t, hr, ht⟩ := h₁ s h
  exact ⟨{ t with cursor := s.cursor }, attempt_of_unmatched hr, h.rest, ht.depth, ht.blockDepth⟩

theorem optional {r : Rule α} {a : α} (h₁ : Runs r d b i (.matched a) j) :
    Runs (Rule.optional r) d b i (.matched (some a)) j :=
  orElse_matched (bind h₁ (pure (some a))) _

theorem optional_unmatched {r : Rule α} (h₁ : Runs r d b i .unmatched j) :
    Runs (Rule.optional r) d b i (.matched none) j :=
  orElse (bind_unmatched h₁ _) (pure _)

/-! ## Reading at the cursor -/

theorem fail (wanted : Expectation) : Runs (Rule.fail wanted : Rule α) d b i .unmatched i :=
  fun _ h => ⟨_, rfl, h.rest, h.depth, h.blockDepth⟩

theorem failAll (wanted : List Expectation) :
    Runs (Rule.failAll wanted : Rule α) d b i .unmatched i := by
  induction wanted with
  | nil => exact fun s h => ⟨s, rfl, h⟩
  | cons e others ih => exact orElse (fail e) ih

theorem inBlock : Runs Rule.inBlock d b i (.matched (decide (0 < b))) i := by
  intro s h
  exact ⟨s, by rw [Rule.inBlock, h.blockDepth], h⟩

theorem move {f : Cursor → Cursor} (hf : ∀ c, c.rest = i → (f c).rest = j) :
    Runs (Rule.move f) d b i (.matched ()) j :=
  fun _ h => ⟨_, rfl, hf _ h.rest, h.depth, h.blockDepth⟩

theorem scan {f : Cursor → α × Cursor} {a : α}
    (hf : ∀ c, c.rest = i → (f c).1 = a ∧ (f c).2.rest = j) :
    Runs (Rule.scan f) d b i (.matched a) j := by
  intro s h
  obtain ⟨ha, hj⟩ := hf _ h.rest
  refine ⟨{ s with cursor := (f s.cursor).2 }, ?_, hj, h.depth, h.blockDepth⟩
  rw [Rule.scan, ha]

theorem scan? {f : Cursor → Option (α × Cursor)} {a : α}
    (hf : ∀ c, c.rest = i → ∃ e, f c = some (a, e) ∧ e.rest = j) :
    Runs (Rule.scan? f) d b i (.matched a) j := by
  intro s h
  obtain ⟨e, he, hj⟩ := hf _ h.rest
  refine ⟨{ s with cursor := e }, ?_, hj, h.depth, h.blockDepth⟩
  rw [Rule.scan?, he]

theorem scan?_unmatched {f : Cursor → Option (α × Cursor)} (hf : ∀ c, c.rest = i → f c = none) :
    Runs (Rule.scan? f) d b i .unmatched i :=
  fun s h => ⟨s, by rw [Rule.scan?, hf _ h.rest], h⟩

theorem step? {f : Cursor → Option Cursor} (hf : ∀ c, c.rest = i → ∃ e, f c = some e ∧ e.rest = j) :
    Runs (Rule.step? f) d b i (.matched ()) j := by
  refine scan? fun c hc => ?_
  obtain ⟨e, he, hj⟩ := hf c hc
  exact ⟨e, by rw [he]; rfl, hj⟩

theorem step?_unmatched {f : Cursor → Option Cursor} (hf : ∀ c, c.rest = i → f c = none) :
    Runs (Rule.step? f) d b i .unmatched i :=
  scan?_unmatched fun c hc => by rw [hf c hc]; rfl

theorem holds {p : Cursor → Bool} (hp : ∀ c, c.rest = i → p c = true) :
    Runs (Rule.holds p) d b i (.matched ()) i :=
  fun s h => ⟨s, if_pos (hp _ h.rest), h⟩

theorem holds_unmatched {p : Cursor → Bool} (hp : ∀ c, c.rest = i → p c = false) :
    Runs (Rule.holds p) d b i .unmatched i :=
  fun s h => ⟨s, if_neg (by rw [hp _ h.rest]; exact Bool.false_ne_true), h⟩

/-! ## Repetition -/

theorem foldMany_unmatched {r : Rule α} (h₁ : Runs r d b i .unmatched j) (f : β → α → β) (x : β) :
    Runs (Rule.foldMany f r x) d b i (.matched x) j := by
  intro s h
  obtain ⟨t, hr, ht⟩ := h₁ s h
  exact ⟨t, (Loops.ended hr).foldMany_eq, ht⟩

/-- One round, which reads something, and the rounds behind it. -/
theorem foldMany {r : Rule α} {f : β → α → β} {x y : β} {a : α}
    (h₁ : Runs r d b i (.matched a) j) (hlt : j.length < i.length)
    (h₂ : Runs (Rule.foldMany f r (f x a)) d b j (.matched y) k) :
    Runs (Rule.foldMany f r x) d b i (.matched y) k := by
  intro s h
  obtain ⟨t, hr, ht⟩ := h₁ s h
  obtain ⟨u, hu, hk⟩ := h₂ t ht
  have hl : t.left < s.left := by
    simpa only [State.left, Cursor.left_eq, h.rest, ht.rest] using hlt
  exact ⟨u, (foldMany_of_lt hr hl).trans hu, hk⟩

/-- The values of the rounds of a repetition, each of which reads something. -/
inductive Rounds (r : Rule α) (d b : Nat) : List Char → List α → List Char → Prop where
  | nil {i j : List Char} : Runs r d b i .unmatched j → Rounds r d b i [] j
  | cons {i j k : List Char} {a : α} {values : List α} : Runs r d b i (.matched a) j →
      j.length < i.length → Rounds r d b j values k → Rounds r d b i (a :: values) k

theorem Rounds.foldMany {r : Rule α} {values : List α} (h : Rounds r d b i values k)
    (f : β → α → β) (x : β) :
    Runs (Rule.foldMany f r x) d b i (.matched (values.foldl f x)) k := by
  induction h generalizing x with
  | nil h => exact foldMany_unmatched h f x
  | cons h hlt _ ih => exact Runs.foldMany h hlt (ih (f x _))

theorem Rounds.many {r : Rule α} {values : List α} (h : Rounds r d b i values k) :
    Runs (Rule.many r) d b i (.matched values) k := by
  refine bind (h.foldMany _ []) ?_
  rw [reverse_foldl_cons]; exact pure values

/-- Rounds on the texts of some parts, one behind the other. What stands behind each of them
is `good`, and that is enough for the rule to stop there. -/
theorem Rounds.flatMap_map {γ : Type} {r : Rule α} {text : γ → List Char} (value : γ → α) {parts : List γ}
    (good : List Char → Prop) (hr : ∀ a ∈ parts, ∀ k, good k → Runs r d b (text a ++ k) (.matched (value a)) k)
    (ht : ∀ a ∈ parts, text a ≠ []) (hk : ∀ a ∈ parts, ∀ k, good (text a ++ k)) (hi : good i)
    (hu : Runs r d b i .unmatched j) : Rounds r d b (parts.flatMap text ++ i) (parts.map value) j := by
  have hall : good (parts.flatMap text ++ i) ∧ Rounds r d b (parts.flatMap text ++ i) (parts.map value) j := by
    induction parts with
    | nil => exact ⟨hi, .nil hu⟩
    | cons a parts ih =>
      obtain ⟨hg, hrounds⟩ := ih (fun c hc => hr c (List.mem_cons_of_mem _ hc))
        (fun c hc => ht c (List.mem_cons_of_mem _ hc)) fun c hc => hk c (List.mem_cons_of_mem _ hc)
      rw [List.flatMap_cons, List.append_assoc]
      refine ⟨hk a List.mem_cons_self _, .cons (hr a List.mem_cons_self _ hg) ?_ hrounds⟩
      have := List.length_pos_iff.mpr (ht a List.mem_cons_self)
      simp only [List.length_append]; omega
  exact hall.2

/-- Rounds on the texts of some values. -/
theorem Rounds.flatMap {r : Rule α} {text : α → List Char} {values : List α} (good : List Char → Prop)
    (hr : ∀ a ∈ values, ∀ k, good k → Runs r d b (text a ++ k) (.matched a) k)
    (ht : ∀ a ∈ values, text a ≠ []) (hk : ∀ a ∈ values, ∀ k, good (text a ++ k)) (hi : good i)
    (hu : Runs r d b i .unmatched j) : Rounds r d b (values.flatMap text ++ i) values j := by
  have hrounds := Rounds.flatMap_map id good hr ht hk hi hu
  rwa [List.map_id] at hrounds

/-! ## Nesting -/

theorem insideBody_of_ne {limit : Nat} {r : Rule α} (ho : ∀ p, o ≠ .tooDeep p) (h₁ : Runs r (d + 1) b i o j)
    (hd : d < limit) : Runs (Rule.insideBody limit r) d b i o j := by
  intro s h
  obtain ⟨t, hr, ht⟩ := h₁ { s with depth := s.depth + 1 } ⟨h.rest, by rw [h.depth], h.blockDepth⟩
  have hle : s.depth + 1 ≤ limit := by rw [h.depth]; exact hd
  exact ⟨_, insideBody_of_ne_tooDeep hle hr ho, ht.rest, congrArg (· - 1) ht.depth, ht.blockDepth⟩

theorem insideBody {limit : Nat} {r : Rule α} {a : α} (h₁ : Runs r (d + 1) b i (.matched a) j)
    (hd : d < limit) : Runs (Rule.insideBody limit r) d b i (.matched a) j :=
  insideBody_of_ne nofun h₁ hd

theorem insideBlock {r : Rule α} (h₁ : Runs r d (b + 1) i o j) : Runs (Rule.insideBlock r) d b i o j := by
  intro s h
  obtain ⟨t, hr, ht⟩ := h₁ { s with blockDepth := s.blockDepth + 1 } ⟨h.rest, h.depth, by rw [h.blockDepth]⟩
  exact ⟨_, insideBlock_of_inside hr, ht.rest, ht.depth, congrArg (· - 1) ht.blockDepth⟩

end Runs

end Rule

/-! ## Matches on a known text -/

variable {α β : Type} {d b : Nat} {i j : List Char}

namespace State.At

variable {s t : State} (hs : s.At d b i)
include hs

/-- There is only one way in which a rule ends. -/
theorem outcome {r : Rule α} {o o' : Outcome α} (e : r s = (o', t)) (h : Rule.Runs r d b i o j) :
    o' = o ∧ t.At d b j := by
  obtain ⟨u, hu, hat⟩ := h s hs
  rw [hu] at e
  cases e
  exact ⟨rfl, hat⟩

/-- Behind a part that is known to match there is the rest of a sequence. -/
theorem behind {r : Rule α} {f : α → Rule β} {a : α} {o : Outcome β} (e : (r >>= f) s = (o, t))
    (h : Rule.Runs r d b i (.matched a) j) : ∃ u, u.At d b j ∧ f a u = (o, t) := by
  obtain ⟨u, hu, hat⟩ := h s hs
  exact ⟨u, hat, by rwa [Rule.bind_of_matched hu] at e⟩

/-- Behind a choice that is known not to match there is the other one. -/
theorem otherwise {r q : Rule α} {o : Outcome α} (e : (r <|> q) s = (o, t))
    (h : Rule.Runs r d b i .unmatched j) : ∃ u, u.At d b j ∧ q u = (o, t) := by
  obtain ⟨u, hu, hat⟩ := h s hs
  exact ⟨u, hat, by rwa [Rule.orElse_of_unmatched hu] at e⟩

end State.At

/-- An attempt that does not match reads nothing. -/
theorem Rule.Runs.eq_of_attempt {r : Rule α} (h : Rule.Runs (Rule.attempt r) d b i .unmatched j) : j = i := by
  obtain ⟨t, ht, hat⟩ := h ⟨.ofText i, d, b, {}⟩ ⟨Cursor.rest_ofText i, rfl, rfl⟩
  rw [← hat.rest, (Rule.attempt_unmatched ht).1, Cursor.rest_ofText]

namespace Rule

/-! ## Repetitions taken apart -/

/-- From `s` to `t` the rule matches with these values, one behind the other. -/
inductive Repeats (r : Rule α) : State → List α → State → Prop where
  | nil {s : State} : Repeats r s [] s
  | cons {s t u : State} {a : α} {values : List α} : r s = (.matched a, t) → Repeats r t values u →
      Repeats r s (a :: values) u

/-- A repetition ends where the rule does not match, or behind a match that read nothing. -/
theorem repeats_of_foldMany {r : Rule α} {f : β → α → β} {x y : β} {s t : State}
    (e : foldMany f r x s = (.matched y, t)) :
    ∃ values u, Repeats r s values u ∧ y = values.foldl f x ∧
      (r u = (.unmatched, t) ∨ ∃ w a, r w = (.matched a, t) ∧ w.left ≤ t.left) := by
  generalize ho : Outcome.matched y = o at e
  induction loops_of_foldMany e with
  | next hr _ hl ih =>
    obtain ⟨values, w, hv, hy, hw⟩ := ih ho hl.foldMany_eq
    exact ⟨_ :: values, w, .cons hr hv, hy, hw⟩
  | @last x s t a hr hle => cases ho; exact ⟨[a], t, .cons hr .nil, rfl, .inr ⟨s, a, hr, hle⟩⟩
  | @ended x s t hr => cases ho; exact ⟨[], s, .nil, rfl, .inl hr⟩
  | tooDeep => cases ho

theorem repeats_of_many {r : Rule α} {values : List α} {s t : State} (e : many r s = (.matched values, t)) :
    ∃ u, Repeats r s values u ∧
      (r u = (.unmatched, t) ∨ ∃ w a, r w = (.matched a, t) ∧ w.left ≤ t.left) := by
  obtain ⟨reversed, u, hf, e⟩ := bind_matched e
  obtain ⟨found, w, hv, rfl, hw⟩ := repeats_of_foldMany hf
  rw [reverse_foldl_cons] at e
  cases e
  exact ⟨w, hv, hw⟩

/-- What is true of each value whose text is read, and lets it be read to the end of its text, is
true of all values whose texts stand one behind the other. -/
theorem Repeats.forall_mem {r : Rule α} {text : α → List Char} {p : α → Prop} {values : List α} {s u : State}
    (h : Repeats r s values u) (hs : s.At d b (values.flatMap text ++ i))
    (hp : ∀ a ∈ values, ∀ {k s t}, s.At d b (text a ++ k) → r s = (.matched a, t) → p a)
    (hr : ∀ a ∈ values, p a → ∀ {k}, Runs r d b (text a ++ k) (.matched a) k) : ∀ a ∈ values, p a := by
  induction h with
  | nil => simp
  | cons h _ ih =>
    rw [List.flatMap_cons, List.append_assoc] at hs
    have ha := hp _ List.mem_cons_self hs h
    have ht := (hs.outcome h (hr _ List.mem_cons_self ha)).2
    refine List.forall_mem_cons.mpr ⟨ha, ih ht (fun a hm => ?_) fun a hm => ?_⟩
    · exact hp a (List.mem_cons_of_mem _ hm)
    · exact hr a (List.mem_cons_of_mem _ hm)

end Rule

end BatchScript
