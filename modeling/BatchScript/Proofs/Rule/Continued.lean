import BatchScript.Proofs.Rule.Repeats

/-!
# A text that goes on

One run reads a text to its end; another one reads the same text, which goes on behind an empty line
(`State.Continued`). As long as the first run does not look beyond the end of a line, the second one does
the same. Where a rule may look further, what is asked of it is less: if the first run matches, the
second one matches alike, or the first one is left at a place from which it cannot go on
(`Carries`).

* `Carries.bind`, `Carries.orElse` and so on: rules joined from rules that carry over carry over;
* `Carries.repeats`: so do the rounds of a repetition.
-/

namespace BatchScript

namespace Text

/-- The first text is the second one, without double quotes, and behind an empty line it goes on with `more`. -/
def Continues (more j i : List Char) : Prop :=
  j = i ++ '\n' :: '\n' :: more ∧ '"' ∉ i

variable {more i j : List Char} {p q : Char → Bool}

instance prolongsContinues : Prolongs (Continues more) where
  exists_tail := ⟨'\n' :: '\n' :: more, by simp, fun h => ⟨h.1, fun _ => h.2⟩⟩

theorem Continues.drop (h : Continues more j i) {n : Nat} (hn : n ≤ i.length) :
    Continues more (j.drop n) (i.drop n) :=
  ⟨by rw [h.1, List.drop_append_of_le_length hn], fun hm => h.2 (List.mem_of_mem_drop hm)⟩

/-- Behind the characters that satisfy `p` the longer text goes on as the shorter one does, or with
what follows its end. -/
theorem Continues.dropWhile (h : Continues more j i) (p : Char → Bool) :
    j.dropWhile p = i.dropWhile p ++ '\n' :: '\n' :: more ∧ i.dropWhile p ≠ [] ∨
      i.dropWhile p = [] ∧ j.dropWhile p = ('\n' :: '\n' :: more).dropWhile p := by
  by_cases hi : i.dropWhile p = []
  · exact .inr ⟨hi, by rw [h.1, List.dropWhile_append, hi]; rfl⟩
  · exact .inl ⟨by rw [h.1, dropWhile_append_of_ne_nil hi], hi⟩

theorem Continues.stops_dropWhile (h : Continues more j i) (hp : p '\n' = false) (hq : q '\n' = false)
    (hs : Stops q (i.dropWhile p)) : Stops q (j.dropWhile p) := by
  rcases h.dropWhile p with ⟨hj, hne⟩ | ⟨-, hj⟩
  · rw [hj, stops_append_of_ne_nil hne]; exact hs
  · rw [hj, List.dropWhile_cons, hp]; exact stops_cons.mpr hq

/-- A word that does not come behind blanks, neither in the first text nor in what follows it. -/
theorem Continues.not_beginsWithWord (h : Continues more j i) {word : List Char}
    (hw : '\n' ∉ word.map Char.toLower) (hi : beginsWithWord word (i.dropWhile isBlank) = false)
    (hm : beginsWithWord word (more.dropWhile isBlank) = false) :
    beginsWithWord word (j.dropWhile isBlank) = false := by
  refine Bool.eq_false_iff.mpr fun hj => ?_
  rcases h.dropWhile isBlank with ⟨he, -⟩ | ⟨-, he⟩
  · rw [he] at hj
    rw [beginsWithWord_of_append (x := '\n') hw hj] at hi
    cases hi
  · have hblanks : ('\n' :: '\n' :: more).dropWhile isBlank = more.dropWhile isBlank := rfl
    rw [he, hblanks, hm] at hj
    cases hj

end Text

open Text

variable {more : List Char} {left : Nat}

/-- The second run has the text of the first one before it, and `more` behind an empty line; both
are inside as many bodies and blocks, and the first has less than `left` characters to read. -/
structure State.Continued (more : List Char) (left : Nat) (s t : State) : Prop where
  rest : Continues more t.cursor.rest s.cursor.rest
  depth : t.depth = s.depth
  blockDepth : t.blockDepth = s.blockDepth
  left_lt : s.left < left

namespace State.Continued

variable {s t u v : State}

theorem twin (more : List Char) (left : Nat) : Twin (Continues more) (State.Continued more left) where
  rest h := h.rest
  blockDepth h := h.blockDepth
  move {s t n} hn h := by
    refine ⟨?_, h.depth, h.blockDepth, Nat.lt_of_le_of_lt (Cursor.reaches_skip _ n).left_le h.left_lt⟩
    rw [Cursor.rest_skip, Cursor.rest_skip]
    exact h.rest.drop hn
  rewind h k := ⟨h.rest, k.depth, k.blockDepth, h.left_lt⟩
  note _ h := ⟨h.rest, h.depth, h.blockDepth, h.left_lt⟩

theorem mono {left' : Nat} (h : s.Continued more left t) (hl : left ≤ left') : s.Continued more left' t :=
  ⟨h.rest, h.depth, h.blockDepth, Nat.lt_of_lt_of_le h.left_lt hl⟩

/-- A rule that is known not to match in the second run, where it did not match in the first one. -/
theorem of_runs {α β : Type} {limit : Nat} {r : Rule α} {q : Rule β} (h : s.Continued more left t)
    (hr : Rule.Orderly limit r) (e : r s = (.unmatched, u)) (hc : u.cursor = s.cursor)
    (hq : Rule.Runs q t.depth t.blockDepth t.cursor.rest .unmatched t.cursor.rest) :
    ∃ v, q t = (.unmatched, v) ∧ u.Continued more left v := by
  obtain ⟨v, hv, hat⟩ := hq t ⟨rfl, rfl, rfl⟩
  refine ⟨v, hv, ?_, ?_, ?_, ?_⟩
  · rw [hat.rest, hc]; exact h.rest
  · rw [hat.depth, h.depth, (hr e).depth nofun]
  · rw [hat.blockDepth, h.blockDepth, (hr e).follows.blockDepth]
  · rw [State.left, hc]; exact h.left_lt

end State.Continued

namespace Rule

variable {α β : Type} {Jam Jam' : State → Prop} {limit : Nat}

/-! ## Rules that are given up -/

/-- From these two states both runs end alike, and if they match they end where the text still goes on. -/
def TracksFrom (more : List Char) (left : Nat) (s t : State) (r : Rule α) : Prop :=
  ∀ ⦃o : Outcome α⦄ ⦃u : State⦄, r s = (o, u) →
    ∃ v, r t = (o, v) ∧ ((∃ a, o = .matched a) → u.Continued more left v)

/-- The same from all states where the text goes on. -/
def Tracks (more : List Char) (left : Nat) (r : Rule α) : Prop :=
  ∀ ⦃s t : State⦄, s.Continued more left t → TracksFrom more left s t r

namespace TracksFrom

variable {s t : State} {r : Rule α}

theorem of_unmatched {u v : State} (hs : r s = (.unmatched, u)) (ht : r t = (.unmatched, v)) :
    TracksFrom more left s t r := by
  intro o w e
  rw [hs] at e; cases e
  exact ⟨v, ht, nofun⟩

theorem scan? {f : Cursor → Option (α × Cursor)} (hs : s.Continued more left t)
    (h : f s.cursor = none ∧ f t.cursor = none ∨ ∃ a, ∃ n ≤ s.cursor.rest.length,
      f s.cursor = some (a, s.cursor.skip n) ∧ f t.cursor = some (a, t.cursor.skip n)) :
    TracksFrom more left s t (Rule.scan? f) := by
  obtain ⟨hc, hd⟩ | ⟨a, n, hn, hc, hd⟩ := h
  · exact of_unmatched (scan?_of_none hc) (scan?_of_none hd)
  · intro o u e
    rw [scan?_of_some hc] at e; cases e
    exact ⟨_, scan?_of_some hd, fun _ => (State.Continued.twin more left).move hn hs⟩

/-- A choice whose second part never matches. -/
theorem orElse {q : Rule α} (h : TracksFrom more left s t r) (hq : ∀ w, ∃ x, q w = (.unmatched, x)) :
    TracksFrom more left s t (r <|> q) := by
  intro o u e
  obtain ⟨w, hr, e⟩ | ⟨hr, ho⟩ := orElse_cases e
  · obtain ⟨x, hx, -⟩ := h hr
    obtain ⟨y, hy⟩ := hq w
    obtain ⟨z, hz⟩ := hq x
    cases hy.symm.trans e
    exact ⟨z, (orElse_of_unmatched hx q).trans hz, nofun⟩
  · obtain ⟨x, hx, k⟩ := h hr
    exact ⟨x, orElse_of_ne_unmatched hx ho q, k⟩

theorem bind {f : α → Rule β} (h₁ : TracksFrom more left s t r) (h₂ : ∀ a, Tracks more left (f a)) :
    TracksFrom more left s t (r >>= f) := by
  intro o u e
  obtain ⟨a, w, hr, e⟩ | ⟨hr, rfl⟩ | ⟨p, hr, rfl⟩ := bind_cases e
  · obtain ⟨x, hx, k⟩ := h₁ hr
    rw [bind_of_matched hx]
    exact h₂ a (k ⟨a, rfl⟩) e
  · obtain ⟨x, hx, -⟩ := h₁ hr
    exact ⟨x, bind_of_unmatched hx f, nofun⟩
  · obtain ⟨x, hx, -⟩ := h₁ hr
    exact ⟨x, bind_of_tooDeep hx f, nofun⟩

/-- Where the cursor is put back it does not matter how far a rule looked before it was given up. -/
theorem attempt (h : TracksFrom more left s t r) (hr : Flat Eq (Rule.attempt r)) (hs : s.Continued more left t)
    {o : Outcome α} {u : State} (e : Rule.attempt r s = (o, u)) :
    ∃ v, Rule.attempt r t = (o, v) ∧ u.Continued more left v := by
  have hs' := hr.orderly 0 e
  obtain ⟨w, hu, rfl, rfl⟩ | ⟨hu, ho⟩ := attempt_cases e
  · obtain ⟨x, hx, -⟩ := h hu
    have hx := attempt_of_unmatched hx
    have ht' := hr.orderly 0 hx
    refine ⟨_, hx, hs.rest, ?_, ?_, hs.left_lt⟩
    · exact (ht'.depth nofun).trans (hs.depth.trans (hs'.depth nofun).symm)
    · exact ht'.follows.blockDepth.trans (hs.blockDepth.trans hs'.follows.blockDepth.symm)
  · obtain ⟨x, hx, k⟩ := h hu
    cases o with
    | matched a => exact ⟨x, attempt_of_ne_unmatched hx ho, k ⟨a, rfl⟩⟩
    | unmatched => exact absurd rfl ho
    | tooDeep p => exact absurd e hr.ne_tooDeep

end TracksFrom

namespace Tracks

theorem of_lockstep {r : Rule α} (h : Lockstep False (State.Continued more left) r r) : Tracks more left r := by
  intro s t hs o u e
  obtain ⟨hf, -⟩ | ⟨v, hv, k⟩ := h hs e
  · exact hf.elim
  · exact ⟨v, hv, fun _ => k⟩

theorem bind {r : Rule α} {f : α → Rule β} (h₁ : Tracks more left r) (h₂ : ∀ a, Tracks more left (f a)) :
    Tracks more left (r >>= f) :=
  fun _ _ hs => (h₁ hs).bind h₂

theorem attempt {r : Rule α} (hr : Flat Eq (Rule.attempt r)) (h : Tracks more left r) :
    Lockstep False (State.Continued more left) (Rule.attempt r) (Rule.attempt r) :=
  fun _ _ hs _ _ e => .inr ((h hs).attempt hr hs e)

end Tracks

/-! ## Rules that do not match at the end -/

/-- A rule that does not match where the text ends. -/
def NeedsText (r : Rule α) : Prop :=
  ∀ ⦃s t : State⦄ ⦃a : α⦄, s.cursor.rest = [] → r s ≠ (.matched a, t)

theorem Gains.needsText {r : Rule α} (h : Gains r) : NeedsText r := by
  intro s t a hs e
  have hl := h e nofun
  rw [State.left, State.left, s.cursor.left_eq, hs] at hl
  exact absurd hl (Nat.not_lt_zero _)

theorem NeedsText.bind {r : Rule α} (h : NeedsText r) (f : α → Rule β) : NeedsText (r >>= f) := by
  intro s t b hs e
  obtain ⟨a, u, hu, -⟩ := bind_matched e
  exact h hs hu

theorem NeedsText.insideBody {r : Rule α} (h : NeedsText r) : NeedsText (Rule.insideBody limit r) := by
  intro s t a hs e
  obtain ⟨-, u, hu, -⟩ := insideBody_matched e
  exact h (s := { s with depth := s.depth + 1 }) hs hu

/-! ## Rules that carry over -/

/-- Where the first run matches, the second one matches alike, or the first one is jammed. -/
def Carries (more : List Char) (left : Nat) (Jam : State → Prop) (r : Rule α) : Prop :=
  ∀ ⦃s t u : State⦄ ⦃a : α⦄, s.Continued more left t → r s = (.matched a, u) →
    (∃ v, r t = (.matched a, v) ∧ u.Continued more left v) ∨ Jam u

namespace Carries

theorem of_lockstep {loose : Prop} {r : Rule α} (h : Lockstep loose (State.Continued more left) r r) :
    Carries more left Jam r :=
  fun _ _ _ _ hs e => .inl (h.matched hs e)

theorem pure (a : α) : Carries more left Jam (Pure.pure a : Rule α) := by
  intro s t u b hs e
  cases e
  exact .inl ⟨t, rfl, hs⟩

/-- A sequence; where the first run is jammed behind the first part, it is jammed behind the second. -/
theorem bind {r : Rule α} {f : α → Rule β} (h₁ : Carries more left Jam' r)
    (h₂ : ∀ a, Carries more left Jam (f a))
    (hj : ∀ {a t b u}, f a t = (.matched b, u) → Jam' t → Jam u) : Carries more left Jam (r >>= f) := by
  intro s t u b hs e
  obtain ⟨a, w, hw, e⟩ := bind_matched e
  obtain ⟨x, hx, k⟩ | hw := h₁ hs hw
  · rw [bind_of_matched hx]
    exact h₂ a k e
  · exact .inr (hj e hw)

/-- A first part behind which no run is jammed. -/
theorem followedBy {r : Rule α} {f : α → Rule β} (h₁ : Carries more left (fun _ => False) r)
    (h₂ : ∀ a, Carries more left Jam (f a)) : Carries more left Jam (r >>= f) :=
  h₁.bind h₂ fun _ hf => hf.elim

/-- A first part that goes in lockstep. -/
theorem after {loose : Prop} {r : Rule α} {f : α → Rule β}
    (h₁ : Lockstep loose (State.Continued more left) r r) (h₂ : ∀ a, Carries more left Jam (f a)) :
    Carries more left Jam (r >>= f) :=
  (of_lockstep h₁).followedBy h₂

theorem mono {r : Rule α} (h : Carries more left Jam r) (hj : ∀ {s}, Jam s → Jam' s) : Carries more left Jam' r :=
  fun _ _ _ _ hs e => (h hs e).imp_right hj

theorem attempt {r : Rule α} (h : Carries more left Jam r) : Carries more left Jam (Rule.attempt r) := by
  intro s t u a hs e
  simp only [attempt_matched] at e ⊢
  exact h hs e

/-- A choice; where the second part is taken in the first run, the second run does not take the first part. -/
theorem orElse {r q : Rule α} (h₁ : Carries more left Jam r) (h₂ : Carries more left Jam q)
    (hn : ∀ {s t w u a}, s.Continued more left t → r s = (.unmatched, w) → q w = (.matched a, u) →
      ∃ x, r t = (.unmatched, x) ∧ w.Continued more left x) : Carries more left Jam (r <|> q) := by
  intro s t u a hs e
  obtain e | ⟨w, hw, e⟩ := orElse_matched e
  · exact (h₁ hs e).imp_left fun ⟨v, hv, k⟩ => ⟨v, orElse_of_matched hv q, k⟩
  · obtain ⟨x, hx, k⟩ := hn hs hw e
    rw [orElse_of_unmatched hx]
    exact h₂ k e

/-- A choice whose second part never matches. -/
theorem orElse_of_ne_matched {r q : Rule α} (h : Carries more left Jam r) (hq : ∀ {w u a}, q w ≠ (.matched a, u)) :
    Carries more left Jam (r <|> q) :=
  h.orElse (fun _ _ _ _ _ e => absurd e hq) fun _ _ e => absurd e hq

theorem holds {p : Cursor → Bool}
    (hp : ∀ {c d : Cursor}, Continues more d.rest c.rest → p c = true → p d = true) :
    Carries more left Jam (Rule.holds p) := by
  intro s t u a hs e
  obtain ⟨hpc, rfl⟩ := holds_matched e
  exact .inl ⟨t, if_pos (hp hs.rest hpc), hs⟩

theorem insideBody {r : Rule α} (h : Carries more left Jam r)
    (hj : ∀ {t : State}, Jam t → Jam { t with depth := t.depth - 1 }) :
    Carries more left Jam (Rule.insideBody limit r) := by
  intro s t u a hs e
  obtain ⟨hle, w, hr, rfl⟩ := insideBody_matched e
  have hs' : State.Continued more left { s with depth := s.depth + 1 } { t with depth := t.depth + 1 } :=
    ⟨hs.rest, congrArg (· + 1) hs.depth, hs.blockDepth, hs.left_lt⟩
  obtain ⟨x, hx, k⟩ | hw := h hs' hr
  · have hle' : t.depth + 1 ≤ limit := by rwa [hs.depth]
    exact .inl ⟨_, insideBody_of_ne_tooDeep hle' hx nofun,
      k.rest, congrArg (· - 1) k.depth, k.blockDepth, k.left_lt⟩
  · exact .inr (hj hw)

theorem insideBlock {r : Rule α} (h : Carries more left (fun _ => False) r) :
    Carries more left (fun _ => False) (Rule.insideBlock r) := by
  intro s t u a hs e
  obtain ⟨w, hr, rfl⟩ := insideBlock_cases e
  have hs' : State.Continued more left { s with blockDepth := s.blockDepth + 1 }
      { t with blockDepth := t.blockDepth + 1 } :=
    ⟨hs.rest, hs.depth, congrArg (· + 1) hs.blockDepth, hs.left_lt⟩
  obtain ⟨x, hx, k⟩ | hw := h hs' hr
  · exact .inl ⟨_, insideBlock_of_inside hx, k.rest, k.depth, congrArg (· - 1) k.blockDepth, k.left_lt⟩
  · exact hw.elim

/-- The rounds of a repetition; where the first run is jammed behind one of them, there is no other one. -/
theorem repeats {r : Rule α} (h : Carries more left Jam r) (hj : ∀ {w a x}, Jam w → r w ≠ (.matched a, x))
    {values : List α} {s t u : State} (hs : s.Continued more left t) (hr : Repeats r s values u) :
    (∃ v, Repeats r t values v ∧ u.Continued more left v) ∨ Jam u := by
  induction hr generalizing t with
  | nil => exact .inl ⟨t, .nil, hs⟩
  | cons e hr ih =>
    obtain ⟨x, hx, k⟩ | hw := h hs e
    · exact (ih k).imp_left fun ⟨v, hv, k⟩ => ⟨v, .cons hx hv, k⟩
    · cases hr with
      | nil => exact .inr hw
      | cons e' _ => exact absurd e' (hj hw)

end Carries

end Rule

end BatchScript
