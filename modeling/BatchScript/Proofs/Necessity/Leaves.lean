import BatchScript.Proofs.RoundTrip.Leaves
import BatchScript.Proofs.Rule.Ensures
import BatchScript.Proofs.Rule.Runs

/-!
# Leaves that have to be plain

A leaf that is what its own script is read as is plain: a text in quotes ends at the first
quote (`not_mem_of_quoted`), and free text ends where its block ends (`leaf_plain`).
-/

namespace BatchScript.Grammar

open Text Cursor Rule

variable {d b : Nat} {rest : List Char} {s t : State}

/-! ## Texts in quotes -/

/-- Whatever is read at a quote with another quote behind it has no quote inside. -/
theorem not_mem_of_quoted {q : Rule String} {u v : String} (hs : s.At d b ('"' :: (u.toList ++ '"' :: rest)))
    (e : (.scan? (·.quoted?) <|> q) s = (.matched v, t)) : '"' ∉ v.toList := by
  have hm : '"' ∈ u.toList ++ '"' :: rest := by simp
  obtain ⟨front, k, hfront, hn⟩ := List.eq_append_cons_of_mem hm
  have hq : Runs (.scan? (·.quoted?)) d b ('"' :: (u.toList ++ '"' :: rest)) (.matched (.ofList front)) k := by
    rw [hfront]
    exact .scan? fun c hc => quoted?_append hc hn
  obtain ⟨ho, -⟩ := hs.outcome e (.orElse_matched hq q)
  cases ho
  rwa [String.toList_ofList]

/-! ## Assignments and calls -/

theorem assignment_plain {name value : String} (hw : (Leaf.assignment name value).WellFormed)
    (hs : s.At d b ((Leaf.assignment name value).script.toList ++ rest))
    (e : assignment s = (.matched (.assignment name value), t)) :
    (Leaf.assignment name value).Plain (decide (0 < b)) := by
  rw [toList_script_assignment] at hs
  obtain ⟨_, hs, e⟩ := hs.behind (attempt_matched.mp e) (keyword_runs rfl)
  obtain ⟨_, hs, e⟩ := hs.behind e (spaces_runs (stops_isSpace_of_isName hw.1))
  obtain ⟨n, _, hname, e⟩ := bind_matched e
  obtain ⟨_, _, hequals, e⟩ := bind_matched e
  obtain ⟨v, _, hvalue, e⟩ := bind_matched e
  cases e
  have hs := (hs.outcome hname (identifier_runs hw.1 (stops_cons.mpr (by decide +kernel)))).2
  have hs := (hs.outcome hequals (symbol_runs '=')).2
  obtain ⟨_, hs, hvalue⟩ := hs.behind hvalue .inBlock
  intro x hx
  cases hvalue
  rw [toList_span] at hx
  have := of_mem_takeWhile hx
  simp only [Bool.and_eq_true, Bool.not_eq_true'] at this
  exact this.2

theorem invoke_plain {target : String} {arguments : List String}
    (hs : s.At d b ((Leaf.invoke target arguments).script.toList ++ rest))
    (e : invoke s = (.matched (.invoke target arguments), t)) :
    (Leaf.invoke target arguments).Plain (decide (0 < b)) := by
  rw [toList_script_invoke] at hs
  obtain ⟨_, hs, e⟩ := hs.behind (attempt_matched.mp e) (keyword_runs rfl)
  obtain ⟨_, hs, e⟩ := hs.behind e (spaces_runs (stops_cons.mpr (by decide)))
  obtain ⟨_, hs, e⟩ := hs.behind e .inBlock
  obtain ⟨_, _, htarget, e⟩ := bind_matched e
  obtain ⟨_, _, harguments, e⟩ := bind_matched e
  cases e
  obtain htarget | ⟨_, _, htarget⟩ := orElse_matched htarget
  · have hp := not_mem_of_quoted hs htarget
    have hs := (hs.outcome htarget (token_runs hp _)).2
    refine List.forall_mem_cons.mpr ⟨hp, ?_⟩
    obtain ⟨_, hrepeats, -⟩ := repeats_of_many harguments
    refine hrepeats.forall_mem hs (fun a _ k s t hs e => ?_) fun a _ hp k => ?_
    · simp only [List.cons_append, List.append_assoc, List.nil_append] at hs
      obtain ⟨_, hs, e⟩ := hs.behind (attempt_matched.mp e) (skipSpaces_runs (stops_cons.mpr (by decide)))
      exact not_mem_of_quoted hs e
    · simp only [List.cons_append, List.append_assoc, List.nil_append]
      exact .attempt (.bind (skipSpaces_runs (stops_cons.mpr (by decide))) (token_runs hp _))
  · cases htarget

/-! ## Redirections -/

theorem destination_plain {u v : String} (hs : s.At d b ('"' :: (u.toList ++ '"' :: rest)))
    (e : destination s = (.matched v, t)) : '"' ∉ v.toList := by
  obtain ⟨_, hs, e⟩ := hs.behind e .inBlock
  obtain ⟨_, hs, e⟩ := hs.otherwise e (.scan?_unmatched fun c hc => by
    rw [stream?, word?_eq_none_of_stops (by rw [hc]; exact stops_cons.mpr (by decide))]
    rfl)
  obtain e | ⟨_, _, e⟩ := orElse_matched e
  · exact not_mem_of_quoted hs e
  · cases e

theorem redirection_plain {r : Redirection} (hw : IsMode r.mode) (hs : s.At d b (r.script.toList ++ rest))
    (e : redirection s = (.matched r, t)) : '"' ∉ r.destination.toList := by
  obtain ⟨h, hh, m, hm, he⟩ := hw
  have ht : r.script.toList ++ rest = h.toList ++ (m.toList ++ '"' :: (r.destination.toList ++ '"' :: rest)) := by
    simp [Redirection.script, he, toList_quoted]
  rw [ht] at hs
  obtain ⟨_, hs, e⟩ := hs.behind (attempt_matched.mp e) (handle_runs hh hm)
  obtain ⟨_, hs, e⟩ := hs.behind e (.orElse_matched (mode_runs hm (stops_cons.mpr (by decide))) _)
  obtain ⟨_, hs, e⟩ := hs.behind e (skipSpaces_of_stops (stops_cons.mpr (by decide)))
  obtain ⟨v, _, hv, e⟩ := bind_matched e
  cases e
  exact destination_plain hs hv

theorem redirections_plain {redirections : List Redirection} (hw : ∀ r ∈ redirections, r.WellFormed)
    (hs : s.At d b (redirectionsScript redirections ++ rest))
    (e : Grammar.redirections s = (.matched redirections, t)) :
    ∀ r ∈ redirections, '"' ∉ r.destination.toList := by
  cases redirections with
  | nil => simp
  | cons r others =>
    obtain ⟨hr, ho⟩ := List.forall_mem_cons.mp hw
    rw [redirectionsScript_cons, List.append_assoc] at hs
    obtain ⟨_, hrepeats, -⟩ := repeats_of_many e
    cases hrepeats with
    | cons e h =>
      obtain ⟨_, hs, e⟩ := hs.behind (attempt_matched.mp e) (skipSpaces_of_stops (stops_isSpace_redirection hr.1 _))
      have hp := redirection_plain hr.1 hs e
      have hs := (hs.outcome e (redirection_runs hr.1 hp)).2
      refine List.forall_mem_cons.mpr ⟨hp, h.forall_mem hs (fun q hq k s t hs e => ?_) fun q hq hp k => ?_⟩
      · have hspace := stops_isSpace_redirection (ho q hq).1 k
        obtain ⟨_, hs, e⟩ := hs.behind (attempt_matched.mp e) (skipSpaces_runs hspace)
        exact redirection_plain (ho q hq).1 hs e
      · have hspace := stops_isSpace_redirection (ho q hq).1 k
        exact .attempt (.bind (skipSpaces_runs hspace) (redirection_runs (ho q hq).1 hp))

/-! ## Outputs -/

/-- A message that is read is the front of the text, and the block does not end in it. -/
theorem message_front {m : String} (hs : s.At d b (m.toList ++ rest)) (e : message s = (.matched m, t)) :
    (∀ x ∈ m.toList, closesBlock (decide (0 < b)) x = false) ∧ t.At d b rest := by
  obtain ⟨u, hs, e⟩ := hs.behind e .inBlock
  cases e
  refine ⟨fun x hx => ?_, ?_, hs.depth, hs.blockDepth⟩
  · obtain ⟨k, hk⟩ := exists_not_stop_of_mem_upTo hx
    simp only [endsMessage, List.head?_cons, Option.any_some, Bool.or_eq_false_iff] at hk
    exact hk.1.2
  · exact List.append_cancel_left ((toList_upTo_append u.cursor _).trans hs.rest)

theorem emit_plain {message : String} {escapeMode : Bool} {redirections : List Redirection}
    (hw : (Leaf.emit message escapeMode redirections).WellFormed)
    (hs : s.At d b ((Leaf.emit message escapeMode redirections).script.toList ++ rest))
    (e : emit s = (.matched (.emit message escapeMode redirections), t)) :
    (Leaf.emit message escapeMode redirections).Plain (decide (0 < b)) := by
  rw [toList_script_emit] at hs
  obtain ⟨_, hs, e⟩ := hs.behind (attempt_matched.mp e) (keyword_runs rfl)
  obtain ⟨_, hs, e⟩ := hs.behind e (escapeMode_runs escapeMode)
  obtain ⟨_, _, hmessage, e⟩ := bind_matched e
  obtain ⟨_, _, hredirections, e⟩ := bind_matched e
  cases e
  obtain ⟨hm, hs⟩ := message_front hs hmessage
  exact ⟨hm, redirections_plain hw.2.1 hs hredirections⟩

/-! ## Every leaf -/

theorem goto_or_invoke_yields {k : Keyword} (hg : .goto ≠ k) (hc : .call ≠ k) :
    Yields (goto <|> invoke) fun l => l.keyword ≠ k := by
  refine .orElse (.attempt ?_) (.attempt ?_)
  · exact .after fun _ => .after fun _ => .after fun _ => .after fun _ => .pure hg
  · exact .after fun _ => .after fun _ => .after fun _ => .after fun _ => .after fun _ => .pure hc

theorem emit_yields_keyword : Yields emit fun l => l.keyword = .echo :=
  .attempt <| .after fun _ => .after fun _ => .after fun _ => .after fun _ => .pure rfl

/-- A leaf that is what its own script is read as is plain. -/
theorem leaf_plain {l : Leaf} (hw : l.WellFormed) (hs : s.At d b (l.script.toList ++ rest))
    (e : leaf s = (.matched l, t)) : l.Plain (decide (0 < b)) := by
  have hb := l.begins_script rest
  cases l with
  | comment _ => trivial
  | goto _ => trivial
  | assignment name value =>
    obtain ⟨_, hs, e⟩ := hs.otherwise e (comment_unmatched (hb.beginsWithWord_of_ne nofun))
    obtain e | ⟨_, _, e⟩ := orElse_matched e
    · exact assignment_plain hw hs e
    · obtain e | ⟨_, _, e⟩ := orElse_matched e
      · exact nomatch emit_yields_keyword trivial e
      · exact absurd rfl (goto_or_invoke_yields (k := .set) nofun nofun trivial e)
  | emit message escapeMode redirections =>
    obtain ⟨_, hs, e⟩ := hs.otherwise e (comment_unmatched (hb.beginsWithWord_of_ne nofun))
    obtain ⟨_, hs, e⟩ := hs.otherwise e (attempt_keyword_unmatched _ (hb.beginsWithWord_of_ne nofun))
    obtain e | ⟨_, _, e⟩ := orElse_matched e
    · exact emit_plain hw hs e
    · exact absurd rfl (goto_or_invoke_yields (k := .echo) nofun nofun trivial e)
  | invoke target arguments =>
    obtain ⟨_, hs, e⟩ := hs.otherwise e (comment_unmatched (hb.beginsWithWord_of_ne nofun))
    obtain ⟨_, hs, e⟩ := hs.otherwise e (attempt_keyword_unmatched _ (hb.beginsWithWord_of_ne nofun))
    obtain ⟨_, hs, e⟩ := hs.otherwise e (attempt_keyword_unmatched _ (hb.beginsWithWord_of_ne nofun))
    obtain ⟨_, hs, e⟩ := hs.otherwise e (attempt_keyword_unmatched _ (hb.beginsWithWord_of_ne nofun))
    exact invoke_plain hs e

end BatchScript.Grammar
