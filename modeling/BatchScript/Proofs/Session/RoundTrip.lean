import BatchScript.Proofs.Session.Depth
import BatchScript.Proofs.Necessity.Statements

/-!
# Scripts that are read back

A document is what its own script is read as just if it is canonical and the limits let the
script in and its bodies open (`read_script_iff`); in one direction this says that scripts are
read back (`read_script`).
-/

namespace BatchScript

open Grammar Rule

variable {limits : Limits} {d : Document} {limit : Nat}

/-- A canonical document is read back from its script. -/
theorem document_runs (hc : d.Canonical) (hn : d.nest ≤ limit) :
    Runs (document limit) 0 0 d.script.toList (.matched d) [] := by
  have hcanon : ∀ s ∈ d.statements, s.Canonical false := canonical_of_body hc.wellFormed hc.wellChained hc.plain
  have hstop : Separated [] := ⟨Text.stops_nil, fun h => by cases h⟩
  have hitems : Runs.Rounds (documentItem limit) 0 0 ([] ++ ((bodyScript d.statements).toList ++ [])) d.statements
      [] := by
    refine items_rounds hstop (fun c h => ?_) notAtEnd_of_opens (fun s hm k hk => ?_) [] (by simp)
    · rw [Cursor.atEnd, h]; rfl
    · exact s.readsBack (hcanon s hm) (by have := nest_le_bodyNest hm; simp only [Document.nest] at hn; omega) hk
  rw [List.nil_append, List.append_nil] at hitems
  have hend : Runs (.holds (·.atEnd)) 0 0 [] (.matched ()) [] := .holds fun c hc => by rw [Cursor.atEnd, hc]; rfl
  exact .bind hitems.many (.bind hend (.pure d))

/-- A document that is what its own script is read as is canonical. -/
theorem canonical_of_document {t : State} (hn : d.nest ≤ limit)
    (e : document limit { cursor := .ofText d.script.toList } = (.matched d, t)) : d.Canonical := by
  have hw : ∀ n ∈ d.nodes, n.WellFormed := nodes_document admits_wellFormed trivial e
  have hc : ∀ n ∈ d.nodes, n.WellChained := nodes_document admits_wellChained trivial e
  refine ⟨hw, hc, ?_⟩
  obtain ⟨statements, _, hitems, e⟩ := bind_matched e
  obtain ⟨_, _, -, e⟩ := bind_matched e
  cases e
  have hst : State.At { cursor := .ofText (Document.mk statements).script.toList } 0 0
      ([] ++ ((bodyScript statements).toList ++ [])) := ⟨by simp [Document.script, Cursor.ofText], rfl, rfl⟩
  have hnest : ∀ s ∈ statements, 0 + s.nest ≤ limit := fun s hm => by
    have := nest_le_bodyNest hm
    simp only [Document.nest] at hn; omega
  have hwell : ∀ s ∈ statements, (∀ n ∈ s.nodes, n.WellFormed) ∧ ∀ n ∈ s.nodes, n.WellChained := fun s hm =>
    ⟨fun n h => hw n (mem_bodyNodes.mpr ⟨s, hm, h⟩), fun n h => hc n (mem_bodyNodes.mpr ⟨s, hm, h⟩)⟩
  obtain ⟨_, hrepeats, -⟩ := repeats_of_many hitems
  refine items_plain ⟨Text.stops_nil, fun h => by cases h⟩ notAtEnd_of_opens (fun s hm k st t hst e => ?_)
    (fun s hm hp k hk => ?_) hrepeats [] (by simp) hst
  · exact s.plainWhereRead (hwell s hm).1 (hwell s hm).2 (hnest s hm) hst e
  · exact s.readsBack ⟨(hwell s hm).1, (hwell s hm).2, hp⟩ (hnest s hm) hk

/-- A document that is read is nested no deeper than the limit. -/
theorem nest_le_of_document {s t : State} (hs : s.depth = 0) (e : document limit s = (.matched d, t)) :
    d.nest ≤ limit := by
  obtain ⟨-, h⟩ | ⟨⟨p, u, h⟩, -⟩ := document_measures (Nat.le_refl limit) (s.left + 1) (Nat.lt_succ_self _)
    (by omega) e
  · simp only [hs] at h
    omega
  · rw [e] at h
    cases h

/-- A document is read back from its script just if it is canonical and the script keeps to the limits. -/
theorem read_script_iff : Document.read limits d.script = .ok d ↔
    d.Canonical ∧ d.nest ≤ limits.depth ∧ d.script.utf8ByteSize ≤ limits.inputSize := by
  constructor
  · intro h
    have hs : d.script.utf8ByteSize ≤ limits.inputSize := by
      refine Nat.le_of_not_lt fun hlt => ?_
      rw [read_of_size_lt hlt] at h
      cases h
    obtain ⟨t, e⟩ := document_of_read h
    have hn := nest_le_of_document rfl e
    exact ⟨canonical_of_document hn e, hn, hs⟩
  · rintro ⟨hc, hn, hs⟩
    exact read_of_runs hs (document_runs hc hn)

/-- A canonical document within the limits is what its own script is read as. -/
theorem read_script (hc : d.Canonical) (hn : d.nest ≤ limits.depth)
    (hs : d.script.utf8ByteSize ≤ limits.inputSize) : Document.read limits d.script = .ok d :=
  read_script_iff.mpr ⟨hc, hn, hs⟩

/-- A script with a label, a branch with an alternative, a loop and a chain in it. -/
def sampleDocument : Document :=
  ⟨[.label "start",
    .branch (.negated (.pathExists "a b"))
      [.chain (.leaf (.goto "end")) .onSuccess (.leaf (.comment "gone\nby now"))]
      (some [.loop (some "tokens=1") 'i' "'(a)'" [.leaf (.emit "hi" false [⟨"2>", "nul"⟩])]])]⟩

theorem read_script_sample :
    sampleDocument.script = ":start\n\nif not exist \"a b\" (\ngoto end&&rem gone\nrem by now\n\n) else (\n" ++
      "for /f \"tokens=1\" %%i in ('(a)') do (\necho.hi2>\"nul\"\n\n)\n\n)\n\n" ∧
    Document.read {} sampleDocument.script = .ok sampleDocument := by
  refine ⟨by decide +kernel, read_script ?_ ?_ ?_⟩
  · show sampleDocument.Canonical
    decide +kernel
  · show sampleDocument.nest ≤ 200
    decide +kernel
  · show sampleDocument.script.utf8ByteSize ≤ 1000000
    decide +kernel

end BatchScript
