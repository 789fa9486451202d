import BatchScript.Proofs.Grammar.Course
import BatchScript.Session

/-!
# What a session goes through

A session serves requests one after the other (`Session.serve`), and its log tells what
it was asked and what it replied. Between two requests it rests: it reads the script that
was let in last, no block is open, and as many bodies are held open as the overruns of the limit
since then tell (`State.Rests`). One request keeps this (`Session.rests_respond`), and so
does every run of requests (`Session.rests_serve`).
-/

namespace BatchScript

open Grammar Rule

/-! ## Requests and replies -/

/-- What a session is asked for. -/
inductive Request where
  | read (script : String)
  /-- One statement where the last request stopped. -/
  | readStatement
deriving DecidableEq

/-- What a session replies. -/
inductive Reply where
  | script (answer : Except Failure Document)
  | statement (answer : Except Failure (Option Statement))

/-- The requests that a session served, and its replies. -/
abbrev Log : Type :=
  List (Request × Reply)

namespace Request

variable (size : Nat)

/-- Whether a request is anything but a script that is too large. -/
def fits : Request → Bool
  | .read script => script.utf8ByteSize ≤ size
  | .readStatement => true

/-- Whether a request lets a script in. -/
def begins : Request → Bool
  | .read script => script.utf8ByteSize ≤ size
  | .readStatement => false

/-- The script that is read after a request, if `script` was read before. -/
def scriptAfter (script : String) (q : Request) : String :=
  match q with
  | .read next => if next.utf8ByteSize ≤ size then next else script
  | .readStatement => script

end Request

/-- Whether a reply is that a body is nested too deep. -/
def Reply.overruns : Reply → Bool
  | .script (.error (.tooDeep ..)) => true
  | .statement (.error (.tooDeep ..)) => true
  | _ => false

/-- The number of overruns behind an entry of a log, if there were `n` before it. -/
def tally (size n : Nat) (entry : Request × Reply) : Nat :=
  (if entry.1.begins size then 0 else n) + if entry.2.overruns then 1 else 0

theorem tally_read {size : Nat} {script : String} (h : script.utf8ByteSize ≤ size) (n : Nat) (reply : Reply) :
    tally size n (.read script, reply) = if reply.overruns then 1 else 0 := by
  simp [tally, Request.begins, h]

/-- The number of overruns since a script was last let in. -/
def Log.overruns (size : Nat) (log : Log) : Nat :=
  log.foldl (tally size) 0

namespace Session

/-- A session replies to a request. -/
def respond (s : Session) : Request → Reply × Session
  | .read script => ((.script (s.read script).1), (s.read script).2)
  | .readStatement => ((.statement s.readStatement.1), s.readStatement.2)

/-- A session serves requests in order and keeps a log. -/
def serve (s : Session) : List Request → Log × Session
  | [] => ([], s)
  | q :: others =>
    let run := (s.respond q).2.serve others
    ((q, (s.respond q).1) :: run.1, run.2)

end Session

/-! ## Between two requests -/

/-- How many bodies are held open after `n` overruns of a limit. -/
def heldOpen (limit n : Nat) : Nat :=
  if n = 0 then 0 else limit + n

theorem max_heldOpen (limit n : Nat) : max limit (heldOpen limit n) + 1 = heldOpen limit (n + 1) := by
  unfold heldOpen
  rw [if_neg (Nat.succ_ne_zero n)]
  split <;> omega

/-- A reader of a script that stands between two requests, after `n` overruns of the limit. -/
structure State.Rests (limit : Nat) (script : String) (n : Nat) (s : State) : Prop where
  sound : s.Sound script.toList
  blockDepth : s.blockDepth = 0
  depth : s.depth = heldOpen limit n

namespace State.Rests

variable {α : Type} {limit n : Nat} {script : String} {s t : State} {o : Outcome α}

theorem start (limit : Nat) (script : String) : State.Rests limit script 0 { cursor := .ofText script.toList } :=
  ⟨⟨.refl _, Attempts.sound_empty _⟩, rfl, rfl⟩

theorem course (h : s.Rests limit script n) (hc : Course limit s o t) (ho : ∀ p, o ≠ .tooDeep p) :
    t.Rests limit script n :=
  ⟨hc.follows.sound h.sound, hc.follows.blockDepth.trans h.blockDepth, (hc.depth ho).trans h.depth⟩

theorem course_tooDeep {p : Position} (h : s.Rests limit script n)
    (hc : Course limit s (.tooDeep p : Outcome α) t) : t.Rests limit script (n + 1) := by
  refine ⟨hc.follows.sound h.sound, hc.follows.blockDepth.trans h.blockDepth, ?_⟩
  rw [(hc.tooDeep rfl).2, h.depth, max_heldOpen]

end State.Rests

namespace Session

variable {s : Session} {script : String} {n : Nat}

/-! ## One request -/

theorem read_of_size_lt {next : String} (h : s.limits.inputSize < next.utf8ByteSize) :
    s.read next = (.error (.tooLarge s.limits.inputSize), s) :=
  if_pos h

theorem respond_of_size_lt {next : String} (h : s.limits.inputSize < next.utf8ByteSize) :
    s.respond (.read next) = (.script (.error (.tooLarge s.limits.inputSize)), s) := by
  rw [respond, read_of_size_lt h]

/-- A script is read as it is at the start of any session with the same limits. -/
theorem fst_read (s : Session) (next : String) : (s.read next).1 = Document.read s.limits next := by
  unfold Document.read Session.read
  split
  · rfl
  · match document s.limits.depth { cursor := .ofText next.toList } with
    | (.matched d, t) => rfl
    | (.unmatched, t) => rfl
    | (.tooDeep p, t) => rfl

@[simp] theorem limits_respond (s : Session) (q : Request) : (s.respond q).2.limits = s.limits := by
  cases q with
  | read next =>
    show (s.read next).2.limits = s.limits
    obtain ⟨-, hr⟩ | ⟨-, t, ⟨d, -, hr⟩ | ⟨-, hr⟩ | ⟨p, -, hr⟩⟩ := s.read_cases next <;> rw [hr]
  | readStatement =>
    show s.readStatement.2.limits = s.limits
    obtain ⟨t, ⟨v, -, hr⟩ | ⟨-, hr⟩ | ⟨p, -, hr⟩⟩ := s.readStatement_cases <;> rw [hr]

theorem rests_read {next : String} (h : next.utf8ByteSize ≤ s.limits.inputSize) :
    (s.read next).2.state.Rests s.limits.depth next
      (if (Reply.script (s.read next).1).overruns then 1 else 0) := by
  have hs := State.Rests.start s.limits.depth next
  obtain ⟨hlt, -⟩ | ⟨-, t, ⟨d, hd, hr⟩ | ⟨hd, hr⟩ | ⟨p, hd, hr⟩⟩ := s.read_cases next
  · omega
  · rw [hr]
    exact hs.course (document_orderly hd) nofun
  · obtain ⟨p, expected, hf⟩ := t.attempts.failure_eq t.cursor.position
    rw [hr, hf]
    exact hs.course (document_orderly hd) nofun
  · rw [hr]
    exact hs.course_tooDeep (document_orderly hd)

theorem rests_readStatement (h : s.state.Rests s.limits.depth script n) :
    s.readStatement.2.state.Rests s.limits.depth script
      (n + if (Reply.statement s.readStatement.1).overruns then 1 else 0) := by
  obtain ⟨t, ⟨v, hd, hr⟩ | ⟨hd, hr⟩ | ⟨p, hd, hr⟩⟩ := s.readStatement_cases
  · rw [hr]
    exact h.course (statement_orderly hd) nofun
  · rw [hr]
    exact h.course (statement_orderly hd) nofun
  · rw [hr]
    exact h.course_tooDeep (statement_orderly hd)

/-- A session that rests replies to a request and rests again. -/
theorem rests_respond (h : s.state.Rests s.limits.depth script n) (q : Request) :
    (s.respond q).2.state.Rests s.limits.depth (q.scriptAfter s.limits.inputSize script)
      (tally s.limits.inputSize n (q, (s.respond q).1)) := by
  cases q with
  | readStatement => exact rests_readStatement h
  | read next =>
    by_cases hn : next.utf8ByteSize ≤ s.limits.inputSize
    · have ht := tally_read hn n (.script (s.read next).1)
      rw [respond, ht, Request.scriptAfter, if_pos hn]
      exact rests_read hn
    · have hr : s.respond (.read next) = (.script (.error (.tooLarge s.limits.inputSize)), s) :=
        respond_of_size_lt (by omega)
      simpa [Request.scriptAfter, tally, Request.begins, hn, hr, Reply.overruns] using h

/-! ## Many requests -/

@[simp] theorem limits_serve (s : Session) (requests : List Request) :
    (s.serve requests).2.limits = s.limits := by
  induction requests generalizing s with
  | nil => rfl
  | cons q others ih => exact (ih _).trans (limits_respond s q)

theorem rests_serve (h : s.state.Rests s.limits.depth script n) (requests : List Request) :
    (s.serve requests).2.state.Rests s.limits.depth
      (requests.foldl (fun script q => q.scriptAfter s.limits.inputSize script) script)
      ((s.serve requests).1.foldl (tally s.limits.inputSize) n) := by
  induction requests generalizing s script n with
  | nil => exact h
  | cons q others ih =>
    have hr := rests_respond h q
    rw [← limits_respond s q] at hr
    have hs := ih hr
    rw [limits_respond] at hs
    exact hs

/-- A script that is too large leaves no trace. -/
theorem serve_filter_fits (s : Session) (requests : List Request) :
    s.serve (requests.filter (·.fits s.limits.inputSize)) =
      ((s.serve requests).1.filter (·.1.fits s.limits.inputSize), (s.serve requests).2) := by
  induction requests generalizing s with
  | nil => rfl
  | cons q others ih =>
    by_cases hq : q.fits s.limits.inputSize = true
    · have ih := ih (s.respond q).2
      rw [limits_respond] at ih
      simp only [List.filter_cons, hq, if_true, serve, ih]
    · match q with
      | .readStatement => exact absurd rfl hq
      | .read next =>
        have hr := @respond_of_size_lt s next (by simpa [Request.fits] using hq)
        simp only [List.filter_cons, hq, Bool.false_eq_true, if_false, serve, ih, hr]

/-- What a session does with its requests, whatever they are. No block is open after them, and
bodies are held open just if there were overruns of the limit since a script was last let in. The
next script is read as in a new session, and scripts that are too large might as well not
have been sent. The counts of bodies and of blocks are lowered only where they were raised. -/
theorem serve_keeps (limits : Limits) (requests : List Request) :
    let (log, s) := ({ limits } : Session).serve requests
    let n := log.overruns limits.inputSize
    s.state.blockDepth = 0 ∧ s.state.depth = (if n = 0 then 0 else limits.depth + n) ∧
    (∀ next, (s.read next).1 = Document.read limits next) ∧
    ({ limits } : Session).serve (requests.filter (·.fits limits.inputSize)) =
      (log.filter (·.1.fits limits.inputSize), s) ∧
    ∀ u : State,
      (match bodyStatements (statement limits.depth) { u with depth := u.depth + 1 } with
      | (.tooDeep _, _) => True
      | (_, t) => t.depth = u.depth + 1) ∧
      (blockStatements (statement limits.depth) { u with blockDepth := u.blockDepth + 1 }).2.blockDepth =
        u.blockDepth + 1 := by
  have hr := rests_serve (s := { limits }) (State.Rests.start limits.depth "") requests
  refine ⟨hr.blockDepth, hr.depth, fun next => ?_, serve_filter_fits { limits } requests, fun u => ⟨?_, ?_⟩⟩
  · rw [fst_read, limits_serve]
  · match hb : bodyStatements (statement limits.depth) { u with depth := u.depth + 1 } with
    | (.tooDeep p, t) => trivial
    | (.matched b, t) => exact (bodyStatements_orderly statement_orderly hb).depth nofun
    | (.unmatched, t) => exact (bodyStatements_orderly statement_orderly hb).depth nofun
  · exact (blockStatements_orderly statement_orderly rfl).follows.blockDepth

/-- Two bodies are nested too deep, one inside the other, and are held open; a script that is too
large does not change that. -/
theorem serve_keeps_overruns :
    let run := ({ limits := ⟨24, 0⟩ } : Session).serve
      [.read "if a==b if c==d goto e", .readStatement, .read "rem too large to be let in"]
    run.1.overruns 24 = 2 ∧ run.2.state.depth = 2 := by
  intro run
  have hn : run.1.overruns 24 = 2 := by decide +kernel
  have hd : run.2.state.depth = if run.1.overruns 24 = 0 then 0 else 0 + run.1.overruns 24 :=
    (serve_keeps ⟨24, 0⟩
      [.read "if a==b if c==d goto e", .readStatement, .read "rem too large to be let in"]).2.1
  exact ⟨hn, by rw [hd, hn]; rfl⟩

end Session

end BatchScript
