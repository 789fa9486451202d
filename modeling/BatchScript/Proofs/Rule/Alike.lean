import BatchScript.Proofs.Rule.Lockstep

/-!
# Rules composed alike

Most rules are composed of small steps at the cursor by sequence, choice and
repetition; a rule for a branch is composed of such steps and of a rule
for its bodies. `Rule.Alike E q q' r r'` says that `r` is composed of `q` as `r'` is
composed of `q'`, where every small step is local and no step wants a statement as such.
What is kept by each way to compose rules then holds of every rule of the grammar by
one induction. The texts at which small steps are local are a parameter `E`.

* `Alike.lockstep`: rules composed alike of rules in lockstep are in lockstep;
* `Flat.lockstep`: a rule without bodies is in lockstep with itself.
-/

namespace BatchScript.Rule

variable {α β : Type} {E : List Char → List Char → Prop}

instance : LawfulMonad Rule :=
  .mk' Rule
    (fun r => by
      funext s
      show (r >>= Pure.pure) s = r s
      rw [bind_apply]
      match r s with
      | (.matched a, t) => rfl
      | (.unmatched, t) => rfl
      | (.tooDeep p, t) => rfl)
    (fun _ _ => rfl)
    (fun r f g => by
      funext s
      simp only [bind_apply]
      match r s with
      | (.matched a, t) => rfl
      | (.unmatched, t) => rfl
      | (.tooDeep p, t) => rfl)

/-- One rule is composed of `q` as the other one is composed of `q'`. -/
inductive Alike (E : List Char → List Char → Prop) (q q' : Rule β) : {α : Type} → Rule α → Rule α → Prop where
  | given : Alike E q q' q q'
  | pure {α : Type} (a : α) : Alike E q q' (Pure.pure a) (Pure.pure a)
  | bind {α γ : Type} {r r' : Rule α} {f f' : α → Rule γ} : Alike E q q' r r' →
      (∀ a, Alike E q q' (f a) (f' a)) → Alike E q q' (r >>= f) (r' >>= f')
  | orElse {α : Type} {r r' p p' : Rule α} : Alike E q q' r r' → Alike E q q' p p' →
      Alike E q q' (r <|> p) (r' <|> p')
  | attempt {α : Type} {r r' : Rule α} : Alike E q q' r r' → Alike E q q' (Rule.attempt r) (Rule.attempt r')
  | miss {α : Type} : Alike E q q' (Rule.miss : Rule α) Rule.miss
  | fail {α : Type} {wanted : Expectation} : wanted ≠ .statement →
      Alike E q q' (Rule.fail wanted : Rule α) (Rule.fail wanted)
  | inBlock : Alike E q q' Rule.inBlock Rule.inBlock
  | move {f : Cursor → Cursor} : Cursor.LocalMove E f → Alike E q q' (Rule.move f) (Rule.move f)
  | scan {α : Type} {f : Cursor → α × Cursor} : Cursor.LocalScan E f → Alike E q q' (Rule.scan f) (Rule.scan f)
  | scan? {α : Type} {f : Cursor → Option (α × Cursor)} : Cursor.LocalScan? E f →
      Alike E q q' (Rule.scan? f) (Rule.scan? f)
  | holds {p : Cursor → Bool} : Cursor.LocalTest E p → Alike E q q' (Rule.holds p) (Rule.holds p)
  | foldMany {α γ : Type} {r r' : Rule α} (f : γ → α → γ) (b : γ) : Alike E q q' r r' →
      Alike E q q' (Rule.foldMany f r b) (Rule.foldMany f r' b)

namespace Alike

variable {q q' : Rule β} {r r' : Rule α}

theorem optional (h : Alike E q q' r r') : Alike E q q' (Rule.optional r) (Rule.optional r') :=
  .orElse (.bind h fun _ => .pure _) (.pure _)

theorem many (h : Alike E q q' r r') : Alike E q q' (Rule.many r) (Rule.many r') :=
  .bind (.foldMany _ _ h) fun _ => .pure _

theorem step? {f : Cursor → Option Cursor} (hf : Cursor.LocalStep? E f) :
    Alike E q q' (Rule.step? f) (Rule.step? f) :=
  .scan? hf.scan

theorem failAll {wanted : List Expectation} (h : .statement ∉ wanted) :
    Alike E q q' (Rule.failAll wanted : Rule α) (Rule.failAll wanted) := by
  induction wanted with
  | nil => exact .miss
  | cons w others ih =>
    rw [List.mem_cons, not_or] at h
    exact .orElse (.fail fun e => h.1 e.symm) (ih h.2)

/-- Rules composed alike of rules in lockstep are in lockstep. -/
theorem lockstep [Text.Prolongs E] {loose : Prop} {R : State → State → Prop} (hR : Twin E R) (h : Alike E q q' r r')
    (hq : Lockstep loose R q q') : Lockstep loose R r r' := by
  induction h with
  | given => exact hq
  | pure a => exact .pure a
  | bind _ _ ihr ihf => exact .bind ihr ihf
  | orElse _ _ ihr ihp => exact .orElse ihr ihp
  | attempt _ ih => exact .attempt hR.companion ih
  | miss => exact .miss
  | fail _ => exact .fail hR.companion _
  | inBlock => exact .inBlock hR.companion
  | move hf => exact .move hR hf
  | scan hf => exact .scan hR hf
  | scan? hf => exact .scan? hR hf
  | holds hp => exact .holds hR hp
  | foldMany f b _ ih => exact .foldMany hR.companion ih f b

end Alike

/-- A rule that is composed of small steps alone. -/
abbrev Flat (E : List Char → List Char → Prop) (r : Rule α) : Prop :=
  Alike E (Rule.miss : Rule Unit) Rule.miss r r

/-- Such a rule is composed of anything in the same way. -/
theorem Flat.alike {q q' : Rule β} {r : Rule α} (h : Flat E r) : Alike E q q' r r := by
  have lift : ∀ {γ : Type} {r r' : Rule γ}, Alike E (Rule.miss : Rule Unit) Rule.miss r r' → Alike E q q' r r' := by
    intro γ r r' h
    induction h with
    | given => exact .miss
    | pure a => exact .pure a
    | bind _ _ ihr ihf => exact .bind ihr ihf
    | orElse _ _ ihr ihp => exact .orElse ihr ihp
    | attempt _ ih => exact .attempt ih
    | miss => exact .miss
    | fail hw => exact .fail hw
    | inBlock => exact .inBlock
    | move hf => exact .move hf
    | scan hf => exact .scan hf
    | scan? hf => exact .scan? hf
    | holds hp => exact .holds hp
    | foldMany f b _ ih => exact .foldMany f b ih
  exact lift h

theorem Flat.lockstep [Text.Prolongs E] {loose : Prop} {R : State → State → Prop} {r : Rule α} (h : Flat E r)
    (hR : Twin E R) : Lockstep loose R r r :=
  Alike.lockstep hR h .miss

end BatchScript.Rule
