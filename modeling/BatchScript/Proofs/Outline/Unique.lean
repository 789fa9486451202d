import BatchScript.Proofs.Outline.Chunks

/-!
# Outlines read in one way

Where no text of a tree has a closing brace in it, and where what is absent is not shown like something
empty (`Statement.Legible`), an outline can be read in one way only: it tells where it ends, whatever
follows it, and what it is the outline of (`Statement.outline_append_inj`). So two scripts with the
same outline are the same (`Document.outline_eq_iff`).
-/

namespace BatchScript

open Outline Text

/-! ## Texts that end where they are told to -/

/-- The arguments of a call. -/
def Statement.arguments : Statement → List String
  | .leaf (.invoke _ arguments) => arguments
  | _ => []

/-- The option of a loop. -/
def Statement.option : Statement → Option String
  | .loop option _ _ _ => option
  | _ => none

/-- The texts of a statement, not of those inside it, can be told from what stands around them. -/
structure Statement.Legible (s : Statement) : Prop where
  closed : ∀ t ∈ s.texts, '\x7d' ∉ t.toList
  arguments : ∀ a ∈ s.arguments, a ≠ "" ∧ ',' ∉ a.toList
  option : s.option ≠ some ""

instance (s : Statement) : Decidable s.Legible :=
  decidable_of_iff ((∀ t ∈ s.texts, '\x7d' ∉ t.toList) ∧ (∀ a ∈ s.arguments, a ≠ "" ∧ ',' ∉ a.toList) ∧
      s.option ≠ some "")
    ⟨fun h => ⟨h.1, h.2.1, h.2.2⟩, fun h => ⟨h.closed, h.arguments, h.option⟩⟩

variable {u v : List Char}

theorem text_append_inj {t t' : String} (ht : '\x7d' ∉ t.toList) (ht' : '\x7d' ∉ t'.toList)
    (h : t.toList ++ ("\x7d".toList ++ u) = t'.toList ++ ("\x7d".toList ++ v)) : t = t' ∧ u = v :=
  (append_cons_inj ht ht' h).imp_left String.toList_inj.mp

theorem field_append_inj {name t t' : String} (ht : '\x7d' ∉ t.toList) (ht' : '\x7d' ∉ t'.toList)
    (h : (field name t).toList ++ u = (field name t').toList ++ v) : t = t' ∧ u = v := by
  simp only [field, String.toList_append, List.append_assoc, List.append_cancel_left_eq] at h
  exact text_append_inj ht ht' h

/-! ## Redirections -/

theorem Redirection.outline_append_inj {r r' : Redirection} (hr : ∀ t ∈ r.texts, '\x7d' ∉ t.toList)
    (hr' : ∀ t ∈ r'.texts, '\x7d' ∉ t.toList) (h : r.outline.toList ++ u = r'.outline.toList ++ v) :
    r = r' ∧ u = v := by
  obtain ⟨mode, destination⟩ := r
  obtain ⟨mode', destination'⟩ := r'
  simp only [texts, List.forall_mem_cons] at hr hr'
  simp only [outline, String.toList_append, List.append_assoc, List.append_cancel_left_eq] at h
  obtain ⟨rfl, h₁⟩ := field_append_inj hr.1 hr'.1 h
  obtain ⟨rfl, h₂⟩ := field_append_inj hr.2.1 hr'.2.1 h₁
  exact ⟨rfl, List.append_cancel_left h₂⟩

/-- Redirections behind the first one, each with a space before it. -/
theorem redirections_append_inj {rs rs' : List Redirection}
    (hr : ∀ t ∈ rs.flatMap Redirection.texts, '\x7d' ∉ t.toList)
    (hr' : ∀ t ∈ rs'.flatMap Redirection.texts, '\x7d' ∉ t.toList)
    (h : rs.flatMap (fun r => ' ' :: r.outline.toList) ++ '\x7d' :: u =
      rs'.flatMap (fun r => ' ' :: r.outline.toList) ++ '\x7d' :: v) : rs = rs' ∧ u = v := by
  induction rs generalizing rs' with
  | nil =>
    cases rs' with
    | nil => simpa using h
    | cons r' rs' => simp at h
  | cons r rs ih =>
    cases rs' with
    | nil => simp at h
    | cons r' rs' =>
      rw [List.flatMap_cons, List.forall_mem_append] at hr hr'
      simp only [List.flatMap_cons, List.cons_append, List.append_assoc, List.cons.injEq, true_and] at h
      obtain ⟨rfl, h₁⟩ := Redirection.outline_append_inj hr.1 hr'.1 h
      obtain ⟨rfl, hu⟩ := ih hr.2 hr'.2 h₁
      exact ⟨rfl, hu⟩

/-- The part of an outline for redirections, which is missing where there are none. -/
def redirectPart (rs : List Redirection) : String :=
  if rs.isEmpty then "" else field "redirect" (" ".intercalate (rs.map Redirection.outline))

theorem redirectPart_append_inj {rs rs' : List Redirection}
    (hr : ∀ t ∈ rs.flatMap Redirection.texts, '\x7d' ∉ t.toList)
    (hr' : ∀ t ∈ rs'.flatMap Redirection.texts, '\x7d' ∉ t.toList)
    (h : (redirectPart rs).toList ++ (">".toList ++ u) = (redirectPart rs').toList ++ (">".toList ++ v)) :
    rs = rs' ∧ u = v := by
  cases rs with
  | nil =>
    cases rs' with
    | nil => simpa using h
    | cons r' rs' => simp [redirectPart, field] at h
  | cons r rs =>
    cases rs' with
    | nil => simp [redirectPart, field] at h
    | cons r' rs' =>
      rw [List.flatMap_cons, List.forall_mem_append] at hr hr'
      simp only [redirectPart, List.isEmpty_cons, Bool.false_eq_true, if_false, field, String.toList_append,
        List.append_assoc, List.append_cancel_left_eq] at h
      rw [List.map_cons, List.map_cons, toList_intercalate_cons (c := ' ') rfl, toList_intercalate_cons (c := ' ') rfl,
        List.flatMap_map, List.flatMap_map, List.append_assoc, List.append_assoc] at h
      obtain ⟨rfl, h₁⟩ := Redirection.outline_append_inj hr.1 hr'.1 h
      obtain ⟨rfl, h₂⟩ := redirections_append_inj hr.2 hr'.2 h₁
      exact ⟨rfl, List.append_cancel_left h₂⟩

/-- Whether a message is in escape mode is told before its redirections, if there are any. -/
theorem escapePart_append_inj {e e' : Bool} {rs rs' : List Redirection}
    (h : (if e then field "escape" "true" else "").toList ++ ((redirectPart rs).toList ++ (">".toList ++ u)) =
      (if e' then field "escape" "true" else "").toList ++ ((redirectPart rs').toList ++ (">".toList ++ v))) :
    e = e' ∧ (redirectPart rs).toList ++ (">".toList ++ u) = (redirectPart rs').toList ++ (">".toList ++ v) := by
  cases e with
  | false =>
    cases e' with
    | false => exact ⟨rfl, h⟩
    | true => cases rs <;> simp [redirectPart, field] at h
  | true =>
    cases e' with
    | false => cases rs' <;> simp [redirectPart, field] at h
    | true => exact ⟨rfl, List.append_cancel_left h⟩

/-! ## Leaves and conditions -/

/-- The letter that tells the kind of a leaf in its outline. -/
def Leaf.initial : Leaf → Char
  | .comment _ => 'r'
  | .assignment .. => 's'
  | .goto _ => 'g'
  | .invoke .. => 'c'
  | .emit .. => 'e'

theorem Leaf.exists_toList_outline (l : Leaf) : ∃ w, l.outline.toList = '<' :: l.initial :: w := by
  cases l <;> simp [outline, initial]

theorem Leaf.initial_eq {l m : Leaf} (h : l.outline.toList ++ u = m.outline.toList ++ v) : l.initial = m.initial := by
  obtain ⟨w, hl⟩ := l.exists_toList_outline
  obtain ⟨w', hm⟩ := m.exists_toList_outline
  rw [hl, hm] at h
  exact List.head_eq_of_cons_eq (List.tail_eq_of_cons_eq h)

theorem Leaf.outline_append_inj {l m : Leaf} (hl : (Statement.leaf l).Legible) (hm : (Statement.leaf m).Legible)
    (h : l.outline.toList ++ u = m.outline.toList ++ v) : l = m ∧ u = v := by
  have hk := initial_eq h
  have ht := hl.closed
  have ht' := hm.closed
  cases l with
  | comment text =>
    cases m with
    | comment text' =>
      simp only [Statement.texts, texts, List.forall_mem_singleton] at ht ht'
      simp only [outline, String.toList_append, List.append_assoc, List.append_cancel_left_eq] at h
      obtain ⟨rfl, h₁⟩ := field_append_inj ht ht' h
      exact ⟨rfl, List.append_cancel_left h₁⟩
    | _ => simp [initial] at hk
  | assignment name value =>
    cases m with
    | assignment name' value' =>
      simp only [Statement.texts, texts, List.forall_mem_cons] at ht ht'
      simp only [outline, String.toList_append, List.append_assoc, List.append_cancel_left_eq] at h
      obtain ⟨rfl, h₁⟩ := field_append_inj ht.1 ht'.1 h
      obtain ⟨rfl, h₂⟩ := field_append_inj ht.2.1 ht'.2.1 h₁
      exact ⟨rfl, List.append_cancel_left h₂⟩
    | _ => simp [initial] at hk
  | goto target =>
    cases m with
    | goto target' =>
      simp only [Statement.texts, texts, List.forall_mem_singleton] at ht ht'
      simp only [outline, String.toList_append, List.append_assoc, List.append_cancel_left_eq] at h
      obtain ⟨rfl, h₁⟩ := field_append_inj ht ht' h
      exact ⟨rfl, List.append_cancel_left h₁⟩
    | _ => simp [initial] at hk
  | invoke target arguments =>
    cases m with
    | invoke target' arguments' =>
      simp only [Statement.texts, texts, List.forall_mem_cons] at ht ht'
      simp only [outline, String.toList_append, List.append_assoc, List.append_cancel_left_eq] at h
      obtain ⟨rfl, h₁⟩ := field_append_inj ht.1 ht'.1 h
      obtain ⟨ha, h₂⟩ := field_append_inj (not_mem_intercalate (by decide) ht.2) (not_mem_intercalate (by decide) ht'.2) h₁
      obtain rfl : arguments = arguments' := intercalate_inj rfl hl.arguments hm.arguments ha
      exact ⟨rfl, List.append_cancel_left h₂⟩
    | _ => simp [initial] at hk
  | emit message escapeMode redirections =>
    cases m with
    | emit message' escapeMode' redirections' =>
      simp only [Statement.texts, texts, List.forall_mem_cons] at ht ht'
      simp only [outline, String.toList_append, List.append_assoc, List.append_cancel_left_eq] at h
      obtain ⟨rfl, h₁⟩ := field_append_inj ht.1 ht'.1 h
      obtain ⟨rfl, h₂⟩ := escapePart_append_inj h₁
      obtain ⟨rfl, h₃⟩ := redirectPart_append_inj ht.2 ht'.2 h₂
      exact ⟨rfl, h₃⟩
    | _ => simp [initial] at hk

theorem Condition.outline_append_inj {c c' : Condition} (hc : ∀ t ∈ c.texts, '\x7d' ∉ t.toList)
    (hc' : ∀ t ∈ c'.texts, '\x7d' ∉ t.toList) (h : c.outline.toList ++ u = c'.outline.toList ++ v) :
    c = c' ∧ u = v := by
  induction c generalizing c' u v with
  | comparison left operator right =>
    cases c' with
    | comparison left' operator' right' =>
      simp only [texts, List.forall_mem_cons] at hc hc'
      simp only [outline, String.toList_append, List.append_assoc, List.append_cancel_left_eq] at h
      obtain ⟨rfl, h₁⟩ := field_append_inj hc.1 hc'.1 h
      obtain ⟨rfl, h₂⟩ := field_append_inj hc.2.1 hc'.2.1 h₁
      obtain ⟨rfl, h₃⟩ := field_append_inj hc.2.2.1 hc'.2.2.1 h₂
      exact ⟨rfl, List.append_cancel_left h₃⟩
    | _ => simp [outline] at h
  | pathExists path =>
    cases c' with
    | pathExists path' =>
      simp only [texts, List.forall_mem_singleton] at hc hc'
      simp only [outline, String.toList_append, List.append_assoc, List.append_cancel_left_eq] at h
      obtain ⟨rfl, h₁⟩ := field_append_inj hc hc' h
      exact ⟨rfl, List.append_cancel_left h₁⟩
    | _ => simp [outline] at h
  | negated inner ih =>
    cases c' with
    | negated inner' =>
      simp only [outline, String.toList_append, List.append_assoc, List.append_cancel_left_eq] at h
      have hi : ∀ t ∈ inner'.texts, '\x7d' ∉ t.toList := hc'
      obtain ⟨rfl, h₁⟩ := ih hc hi h
      exact ⟨rfl, List.append_cancel_left h₁⟩
    | _ => simp [outline] at h

/-! ## Statements -/

theorem toList_margin_succ (level : Nat) :
    (margin (level + 1)).toList = (margin level).toList ++ [' ', ' ', ' ', ' '] := by
  rw [toList_margin, toList_margin, Nat.mul_succ, spaces_add, String.toList_append]; rfl

/-- A closing brace stands less deep than the statements of its body. -/
theorem closing_ne (level : Nat) {closing : String} (hc : closing.toList.head? = some '\x7d') (u w : List Char) :
    (margin level).toList ++ (closing.toList ++ u) ≠ (margin (level + 1)).toList ++ '<' :: w := by
  obtain ⟨k, hk⟩ := List.head?_eq_some_iff.mp hc
  rw [toList_margin_succ, List.append_assoc, hk]
  intro h
  have hd := List.head_eq_of_cons_eq (List.append_cancel_left h)
  exact absurd hd (by decide)

/-- The letter that tells the kind of a statement in its outline. -/
def Statement.initial : Statement → Char
  | .leaf l => l.initial
  | .label _ => 'l'
  | .branch .. => 'i'
  | .loop .. => 'f'
  | .chain .. => 'p'

theorem Statement.exists_toList_outline (level : Nat) (s : Statement) :
    ∃ w, (s.outline level).toList = (margin level).toList ++ '<' :: s.initial :: w := by
  cases s with
  | leaf l =>
    obtain ⟨w, hw⟩ := l.exists_toList_outline
    exact ⟨w, by rw [outline, String.toList_append, hw]; rfl⟩
  | _ => simp [outline, initial]

theorem Statement.initial_eq {level : Nat} {s t : Statement}
    (h : (s.outline level).toList ++ u = (t.outline level).toList ++ v) : s.initial = t.initial := by
  obtain ⟨w, hs⟩ := s.exists_toList_outline level
  obtain ⟨w', ht⟩ := t.exists_toList_outline level
  rw [hs, ht, List.append_assoc, List.append_assoc] at h
  exact List.head_eq_of_cons_eq (List.tail_eq_of_cons_eq (List.append_cancel_left h))

theorem getD_inj {option option' : Option String} (ho : option ≠ some "") (ho' : option' ≠ some "")
    (h : option.getD "" = option'.getD "") : option = option' := by
  cases option with
  | none =>
    cases option' with
    | none => rfl
    | some t => exact absurd (congrArg some h.symm) ho'
  | some t =>
    cases option' with
    | none => exact absurd (congrArg some h) ho
    | some t' => exact congrArg some h

theorem notMem_getD {option : Option String} (h : ∀ t ∈ option.toList, '\x7d' ∉ t.toList) :
    '\x7d' ∉ (option.getD "").toList := by
  cases option with
  | none => simp
  | some t => exact h t (by simp)

theorem ChainOperator.notMem_text (op : ChainOperator) : '\x7d' ∉ op.text.toList := by
  cases op <;> decide

mutual

/-- An outline tells where it ends and what it is the outline of. -/
theorem Statement.outline_append_inj (level : Nat) (s t : Statement) (u v : List Char)
    (hs : ∀ n ∈ s.nodes, n.Legible) (ht : ∀ n ∈ t.nodes, n.Legible)
    (h : (s.outline level).toList ++ u = (t.outline level).toList ++ v) : s = t ∧ u = v := by
  have hk := Statement.initial_eq h
  cases s with
  | leaf l =>
    cases t with
    | leaf m =>
      simp only [Statement.outline, String.toList_append, List.append_assoc, List.append_cancel_left_eq] at h
      obtain ⟨rfl, hu⟩ :=
        Leaf.outline_append_inj (hs _ (Statement.self_mem_nodes _)) (ht _ (Statement.self_mem_nodes _)) h
      exact ⟨rfl, hu⟩
    | _ => cases l <;> simp [Statement.initial, Leaf.initial] at hk
  | label name =>
    cases t with
    | leaf m => cases m <;> simp [Statement.initial, Leaf.initial] at hk
    | label name' =>
      have hn := (hs _ (Statement.self_mem_nodes _)).closed
      have hn' := (ht _ (Statement.self_mem_nodes _)).closed
      simp only [Statement.texts, List.forall_mem_singleton] at hn hn'
      simp only [Statement.outline, String.toList_append, List.append_assoc, List.append_cancel_left_eq] at h
      obtain ⟨rfl, h₁⟩ := field_append_inj hn hn' h
      exact ⟨rfl, List.append_cancel_left h₁⟩
    | _ => simp [Statement.initial] at hk
  | branch c thenBody elseBody =>
    cases t with
    | leaf m => cases m <;> simp [Statement.initial, Leaf.initial] at hk
    | branch c' thenBody' elseBody' =>
      simp only [Statement.nodes, List.forall_mem_cons, List.forall_mem_append] at hs ht
      simp only [Statement.outline, field, String.toList_append, List.append_assoc, List.append_cancel_left_eq] at h
      obtain ⟨rfl, h₁⟩ := Condition.outline_append_inj hs.1.closed ht.1.closed h
      simp only [List.append_cancel_left_eq] at h₁
      obtain ⟨rfl, h₂⟩ := body_append_inj (level + 1) thenBody thenBody' _ _ hs.2.1 ht.2.1 (closing_ne level rfl _)
        (closing_ne level rfl _) h₁
      simp only [List.append_cancel_left_eq] at h₂
      obtain ⟨rfl, h₃⟩ := else_append_inj level elseBody elseBody' u v hs.2.2 ht.2.2 h₂
      exact ⟨rfl, h₃⟩
    | _ => simp [Statement.initial] at hk
  | loop option loopVar source body =>
    cases t with
    | leaf m => cases m <;> simp [Statement.initial, Leaf.initial] at hk
    | loop option' loopVar' source' body' =>
      simp only [Statement.nodes, List.forall_mem_cons] at hs ht
      have hc := hs.1.closed
      have hc' := ht.1.closed
      simp only [Statement.texts, List.forall_mem_append, List.forall_mem_cons] at hc hc'
      simp only [Statement.outline, String.toList_append, List.append_assoc, List.append_cancel_left_eq] at h
      obtain ⟨ho, h₁⟩ := field_append_inj (notMem_getD hc.1) (notMem_getD hc'.1) h
      obtain rfl : option = option' := getD_inj hs.1.option ht.1.option ho
      obtain ⟨hv, h₂⟩ := field_append_inj hc.2.1 hc'.2.1 h₁
      obtain rfl : loopVar = loopVar' := String.singleton_inj.mp hv
      obtain ⟨rfl, h₃⟩ := field_append_inj hc.2.2.1 hc'.2.2.1 h₂
      obtain ⟨rfl, h₄⟩ := body_append_inj (level + 1) body body' _ _ hs.2 ht.2 (closing_ne level rfl _)
        (closing_ne level rfl _) (List.append_cancel_left h₃)
      simp only [List.append_cancel_left_eq] at h₄
      exact ⟨rfl, h₄⟩
    | _ => simp [Statement.initial] at hk
  | chain left op right =>
    cases t with
    | leaf m => cases m <;> simp [Statement.initial, Leaf.initial] at hk
    | chain left' op' right' =>
      simp only [Statement.nodes, List.forall_mem_cons, List.forall_mem_append] at hs ht
      simp only [Statement.outline, String.toList_append, List.append_assoc, List.append_cancel_left_eq] at h
      obtain ⟨ho, h₁⟩ := field_append_inj op.notMem_text op'.notMem_text h
      obtain rfl : op = op' := ChainOperator.text_inj ho
      simp only [List.append_cancel_left_eq] at h₁
      obtain ⟨rfl, h₂⟩ := left.outline_append_inj (level + 1) left' _ _ hs.2.1 ht.2.1 h₁
      simp only [List.append_cancel_left_eq] at h₂
      obtain ⟨rfl, h₃⟩ := right.outline_append_inj (level + 1) right' _ _ hs.2.2 ht.2.2 h₂
      simp only [List.append_cancel_left_eq] at h₃
      exact ⟨rfl, h₃⟩
    | _ => simp [Statement.initial] at hk

/-- The statements of a body end where none begins at their level. -/
theorem body_append_inj (level : Nat) (body other : List Statement) (u v : List Char)
    (hb : ∀ n ∈ bodyNodes body, n.Legible) (ho : ∀ n ∈ bodyNodes other, n.Legible)
    (hu : ∀ w, u ≠ (margin level).toList ++ '<' :: w) (hv : ∀ w, v ≠ (margin level).toList ++ '<' :: w)
    (h : (outlineBody level "" body).toList ++ u = (outlineBody level "" other).toList ++ v) :
    body = other ∧ u = v := by
  cases body with
  | nil =>
    cases other with
    | nil => simpa using h
    | cons t other =>
      obtain ⟨w, hw⟩ := t.exists_toList_outline level
      simp only [toList_outlineBody_nil, toList_outlineBody_cons, hw, List.append_assoc, List.cons_append] at h
      exact absurd h (hu _)
  | cons s body =>
    cases other with
    | nil =>
      obtain ⟨w, hw⟩ := s.exists_toList_outline level
      simp only [toList_outlineBody_nil, toList_outlineBody_cons, hw, List.append_assoc, List.cons_append] at h
      exact absurd h.symm (hv _)
    | cons t other =>
      simp only [bodyNodes, List.forall_mem_append] at hb ho
      simp only [toList_outlineBody_cons, List.append_assoc, List.cons_append] at h
      obtain ⟨rfl, h₁⟩ := s.outline_append_inj level t _ _ hb.1 ho.1 h
      obtain ⟨rfl, h₂⟩ := body_append_inj level body other u v hb.2 ho.2 hu hv (List.tail_eq_of_cons_eq h₁)
      exact ⟨rfl, h₂⟩

theorem else_append_inj (level : Nat) (body other : Option (List Statement)) (u v : List Char)
    (hb : ∀ n ∈ elseNodes body, n.Legible) (ho : ∀ n ∈ elseNodes other, n.Legible)
    (h : (outlineElse level body).toList ++ (">".toList ++ u) = (outlineElse level other).toList ++ (">".toList ++ v)) :
    body = other ∧ u = v := by
  cases body with
  | none =>
    cases other with
    | none => simpa [outlineElse] using h
    | some other => simp [outlineElse] at h
  | some body =>
    cases other with
    | none => simp [outlineElse] at h
    | some other =>
      simp only [outlineElse, String.toList_append, List.append_assoc, List.append_cancel_left_eq] at h
      obtain ⟨rfl, h₁⟩ :=
        body_append_inj (level + 1) body other _ _ hb ho (closing_ne level rfl _) (closing_ne level rfl _) h
      simp only [List.append_cancel_left_eq] at h₁
      exact ⟨rfl, h₁⟩

end

/-- Scripts of which the outline can be read are told apart by it, at whatever level it is shown. -/
theorem Document.outline_eq_iff {d e : Document} (hd : ∀ n ∈ d.nodes, n.Legible) (he : ∀ n ∈ e.nodes, n.Legible)
    (level : Nat) : d.outline level = e.outline level ↔ d = e := by
  constructor
  · intro h
    have hs := congrArg String.toList h
    rw [outline, outline, ← List.append_nil (outlineBody level "" d.statements).toList,
      ← List.append_nil (outlineBody level "" e.statements).toList] at hs
    have hend : ∀ w, [] ≠ (margin level).toList ++ '<' :: w := by simp
    have hb := (body_append_inj level d.statements e.statements [] [] hd he hend hend hs).1
    cases d; cases e
    exact congrArg Document.mk hb
  · rintro rfl
    rfl

/-- No alternative and an empty one are shown differently. -/
theorem Document.outline_ne_of_alternative :
    let d : Document := ⟨[.branch (.negated (.pathExists "a.txt")) [.leaf (.invoke "b.cmd" ["c", "d"])] none]⟩
    let e : Document := ⟨[.branch (.negated (.pathExists "a.txt")) [.leaf (.invoke "b.cmd" ["c", "d"])] (some [])]⟩
    (∀ n ∈ d.nodes, n.Legible) ∧ (∀ n ∈ e.nodes, n.Legible) ∧ d.outline 1 ≠ e.outline 1 := by
  intro d e
  have hd : ∀ n ∈ d.nodes, n.Legible := by decide
  have he : ∀ n ∈ e.nodes, n.Legible := by decide
  exact ⟨hd, he, fun h => absurd ((Document.outline_eq_iff hd he 1).mp h) (by simp [d, e])⟩

end BatchScript
