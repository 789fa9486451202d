/-!
# Texts joined

Texts put one behind another with a separator between any two: what is neither in them nor in the separator is
not in the whole (`not_mem_intercalate`), and where each of them ends at a character that it does not have,
they can be told from the whole (`append_cons_inj`, `splitOn_intercalate`, `intercalate_inj`).
-/

namespace BatchScript

namespace Text

/-! ## What they make -/

theorem toList_intercalate_cons {sep : String} {c : Char} (hs : sep.toList = [c]) (t : String)
    (others : List String) :
    (sep.intercalate (t :: others)).toList = t.toList ++ others.flatMap fun u => c :: u.toList := by
  induction others generalizing t with
  | nil => simp
  | cons u others ih =>
    rw [String.intercalate_cons_cons, String.toList_append, String.toList_append, ih, hs, List.flatMap_cons]
    simp

theorem not_mem_intercalate {x : Char} {sep : String} {texts : List String} (hs : x ∉ sep.toList)
    (ht : ∀ t ∈ texts, x ∉ t.toList) : x ∉ (sep.intercalate texts).toList := by
  induction texts with
  | nil => simp
  | cons t others ih =>
    have hx := ht t List.mem_cons_self
    by_cases ho : others = []
    · rw [ho, String.intercalate_singleton]; exact hx
    · rw [String.intercalate_cons_of_ne_nil ho, String.toList_append, String.toList_append]
      have hi := ih fun u hu => ht u (List.mem_cons_of_mem _ hu)
      simp only [List.mem_append, not_or]
      exact ⟨⟨hx, hs⟩, hi⟩

/-- What stands behind every text stands between them and behind the last. -/
theorem toList_intercalate_concat {sep : String} {c : Char} (hs : sep.toList = [c]) {texts : List String}
    (hne : texts ≠ []) :
    (sep.intercalate texts).toList ++ [c] = texts.flatMap fun t => t.toList ++ [c] := by
  obtain ⟨t, others, rfl⟩ := List.exists_cons_of_ne_nil hne
  rw [toList_intercalate_cons hs]
  induction others generalizing t with
  | nil => simp
  | cons u others ih => simpa using ih u (List.cons_ne_nil _ _)

/-! ## What can be told from them -/

theorem append_cons_inj {x : Char} {s s' u v : List Char} (hs : x ∉ s) (hs' : x ∉ s')
    (h : s ++ x :: u = s' ++ x :: v) : s = s' ∧ u = v := by
  induction s generalizing s' with
  | nil =>
    cases s' with
    | nil => exact ⟨rfl, List.tail_eq_of_cons_eq h⟩
    | cons y s' =>
      obtain rfl : x = y := List.head_eq_of_cons_eq h
      exact absurd List.mem_cons_self hs'
  | cons y s ih =>
    rw [List.mem_cons, not_or] at hs
    cases s' with
    | nil => exact absurd (List.head_eq_of_cons_eq h).symm hs.1
    | cons z s' =>
      rw [List.mem_cons, not_or] at hs'
      rw [List.cons_append, List.cons_append, List.cons.injEq] at h
      obtain ⟨rfl, h⟩ := h
      obtain ⟨rfl, hu⟩ := ih hs.2 hs'.2 h
      exact ⟨rfl, hu⟩

section Separated

variable {sep : String} {x : Char} {texts texts' : List String}

theorem splitOn_intercalate (hs : sep.toList = [x]) (hne : texts ≠ []) (ht : ∀ t ∈ texts, x ∉ t.toList) :
    (sep.intercalate texts).toList.splitOn x = texts.map String.toList := by
  rw [String.toList_intercalate, hs]
  exact List.splitOn_intercalate x (by simpa using ht) (by simpa using hne)

theorem eq_nil_of_intercalate (hs : sep.toList = [x]) (ht : ∀ t ∈ texts, t ≠ "" ∧ x ∉ t.toList)
    (h : sep.intercalate texts = "") : texts = [] := by
  cases texts with
  | nil => rfl
  | cons t others =>
    have hl := splitOn_intercalate hs (List.cons_ne_nil t others) fun t h => (ht t h).2
    rw [h] at hl
    have hn : [] = t.toList := List.head_eq_of_cons_eq hl
    exact absurd (String.toList_eq_nil_iff.mp hn.symm) (ht t List.mem_cons_self).1

/-- Texts that are not empty and do not have the separator in them can be told from what they make. -/
theorem intercalate_inj (hs : sep.toList = [x]) (ht : ∀ t ∈ texts, t ≠ "" ∧ x ∉ t.toList)
    (ht' : ∀ t ∈ texts', t ≠ "" ∧ x ∉ t.toList) (h : sep.intercalate texts = sep.intercalate texts') :
    texts = texts' := by
  by_cases hn : texts = []
  · subst hn
    exact (eq_nil_of_intercalate hs ht' h.symm).symm
  · have hn' : texts' ≠ [] := by
      rintro rfl
      exact hn (eq_nil_of_intercalate hs ht h)
    have hm : texts.map String.toList = texts'.map String.toList := by
      rw [← splitOn_intercalate hs hn fun t h => (ht t h).2, h, splitOn_intercalate hs hn' fun t h => (ht' t h).2]
    exact (List.map_inj_right fun _ _ => String.toList_inj.mp).mp hm

end Separated

end Text

end BatchScript
