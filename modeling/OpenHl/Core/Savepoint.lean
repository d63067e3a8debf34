import OpenHl.Core.Machine

/-!
# Nested frames and savepoints

A run of nested frames, each of which succeeds or fails, over a state that
actions change.  A journal saves the state on entry to a frame and restores it
when the frame fails; frames of a kind without hooks pass it by.  What
restoring does not bring back of an action is its `skim`.

`run_events`: the stack of savepoints follows the nesting.  `replay_of_eval`: a
run does to the state what its actions do one after the other, when only the
skim is left of an action inside a failed frame with hooks.  `meets_of_eachKept`:
an action that is kept meets the same state in the run and in the replay.
-/

namespace Savepoint

open Machine

universe u v w

variable {Kind Action : Type u} {State Save : Type v} {Stop : Type w}

/-! ## Nested frames -/

inductive Trace (Kind Action : Type u) where
  | done
  | act (action : Action) (rest : Trace Kind Action)
  | frame (kind : Kind) (succeeds : Bool) (body rest : Trace Kind Action)

inductive Event (Kind Action : Type u) where
  | enter (kind : Kind)
  | leave (kind : Kind) (succeeds : Bool)
  | act (action : Action)

/-- The events of a trace in their order. -/
def Trace.events : Trace Kind Action → List (Event Kind Action)
  | .done => []
  | .act action rest => .act action :: rest.events
  | .frame kind succeeds body rest =>
      .enter kind :: (body.events ++ .leave kind succeeds :: rest.events)

/-- An action with the frames around it, innermost first. -/
structure Occurrence (Kind Action : Type u) where
  action : Action
  enclosing : List (Kind × Bool)

/-- The actions of a trace in their order, under the given frames. -/
def Trace.occurrences (enclosing : List (Kind × Bool)) :
    Trace Kind Action → List (Occurrence Kind Action)
  | .done => []
  | .act action rest =>
      { action := action, enclosing := enclosing } :: rest.occurrences enclosing
  | .frame kind succeeds body rest =>
      body.occurrences ((kind, succeeds) :: enclosing) ++ rest.occurrences enclosing

/-- Every frame around the action succeeds. -/
def Occurrence.survives (occurrence : Occurrence Kind Action) : Bool :=
  occurrence.enclosing.all Prod.snd

/-! ## Journals -/

structure Journal (Kind Action : Type u) (State Save : Type v) (Stop : Type w) where
  act : Action → State → Except Stop State
  /-- The kinds of frames that are saved and restored. -/
  hooked : Kind → Bool
  save : State → Save
  restore : Save → State → State
  /-- What is left of an action after a restore. -/
  skim : Action → State → State

/-- The state with the savepoints of the open frames. -/
structure Journaled (State Save : Type v) where
  state : State
  savepoints : List Save

namespace Journal

variable (journal : Journal Kind Action State Save Stop)

def step (current : Journaled State Save) :
    Event Kind Action → Except Stop (Journaled State Save)
  | .enter kind =>
      if journal.hooked kind then
        .ok { current with savepoints := journal.save current.state :: current.savepoints }
      else .ok current
  | .leave kind succeeds =>
      if journal.hooked kind then
        match current.savepoints with
        | [] => .ok current
        | saved :: savepoints =>
            .ok { state := if succeeds then current.state
                    else journal.restore saved current.state
                  savepoints := savepoints }
      else .ok current
  | .act action =>
      (journal.act action current.state).map fun state => { current with state := state }

def run (current : Journaled State Save) (events : List (Event Kind Action)) :
    Except Stop (Journaled State Save) :=
  events.foldlM journal.step current

/-- The effect of a trace, frame by frame. -/
def eval : Trace Kind Action → State → Except Stop State
  | .done, state => .ok state
  | .act action rest, state => do
      let after ← journal.act action state
      eval rest after
  | .frame kind succeeds body rest, state => do
      let after ← eval body state
      eval rest (if journal.hooked kind && !succeeds then
        journal.restore (journal.save state) after else after)

/-- The stack of savepoints follows the nesting of the frames. -/
theorem run_events (trace : Trace Kind Action) (state : State) (savepoints : List Save) :
    journal.run ⟨state, savepoints⟩ trace.events =
      (journal.eval trace state).map fun after => ⟨after, savepoints⟩ := by
  induction trace generalizing state savepoints with
  | done => rfl
  | act action rest ih =>
      rw [Trace.events, run, List.foldlM_cons, step, eval]
      cases journal.act action state with
      | error stop => rfl
      | ok after => exact ih after savepoints
  | frame kind succeeds body rest ihBody ihRest =>
      rw [Trace.events, run, List.foldlM_cons, step, eval]
      cases hhooked : journal.hooked kind with
      | false =>
          simp only [Bool.false_eq_true, if_false, ok_bind, List.foldlM_append]
          change (journal.run _ body.events >>= _) = _
          rw [ihBody]
          cases journal.eval body state with
          | error stop => rfl
          | ok after =>
              simp only [Except.map, ok_bind, List.foldlM_cons, step, hhooked,
                Bool.false_eq_true, if_false, Bool.false_and]
              exact ihRest after savepoints
      | true =>
          simp only [if_true, ok_bind, List.foldlM_append]
          change (journal.run _ body.events >>= _) = _
          rw [ihBody]
          cases journal.eval body state with
          | error stop => rfl
          | ok after =>
              simp only [Except.map, ok_bind, List.foldlM_cons, step, hhooked, if_true,
                Bool.true_and]
              cases succeeds with
              | true => exact ihRest after savepoints
              | false => exact ihRest _ savepoints

/-! ## Replaying the actions -/

/-- Some frame around the action is restored. -/
def rolledBack (occurrence : Occurrence Kind Action) : Bool :=
  occurrence.enclosing.any fun frame => journal.hooked frame.1 && !frame.2

def replayStep (state : State) (occurrence : Occurrence Kind Action) :
    Except Stop State :=
  if journal.rolledBack occurrence then .ok (journal.skim occurrence.action state)
  else journal.act occurrence.action state

/-- The actions one after the other, with only the skim of those rolled back. -/
def replay (occurrences : List (Occurrence Kind Action)) (state : State) :
    Except Stop State :=
  occurrences.foldlM journal.replayStep state

structure Lawful : Prop where
  restore_self : ∀ state, journal.restore (journal.save state) state = state
  restore_restore : ∀ outer inner state,
    journal.restore (journal.save outer) (journal.restore (journal.save inner) state) =
      journal.restore (journal.save outer) state
  restore_act : ∀ {action before after} saved, journal.act action before = .ok after →
    journal.restore (journal.save saved) after =
      journal.skim action (journal.restore (journal.save saved) before)

variable {journal}

/-- Restoring after a trace leaves the skim of its actions. -/
theorem restore_eval (hlawful : journal.Lawful) {trace : Trace Kind Action}
    {before after : State} (heval : journal.eval trace before = .ok after)
    (enclosing : List (Kind × Bool)) (saved : State) :
    journal.restore (journal.save saved) after =
      (trace.occurrences enclosing).foldl
        (fun state occurrence => journal.skim occurrence.action state)
        (journal.restore (journal.save saved) before) := by
  induction trace generalizing before after enclosing with
  | done => rw [← Except.ok.inj heval, Trace.occurrences, List.foldl_nil]
  | act action rest ih =>
      rw [eval] at heval
      obtain ⟨middle, hact, hrest⟩ := bind_eq_ok.1 heval
      rw [Trace.occurrences, List.foldl_cons, ← hlawful.restore_act saved hact]
      exact ih hrest enclosing
  | frame kind succeeds body rest ihBody ihRest =>
      rw [eval] at heval
      obtain ⟨middle, hbody, hrest⟩ := bind_eq_ok.1 heval
      rw [Trace.occurrences, List.foldl_append, ← ihBody hbody, ihRest hrest enclosing]
      congr 1
      split_ifs
      · exact hlawful.restore_restore saved before middle
      · rfl

/-- Actions under a restored frame are replayed by their skim. -/
theorem replay_of_rolledBack (trace : Trace Kind Action) {enclosing : List (Kind × Bool)}
    (hrolledBack : (enclosing.any fun frame => journal.hooked frame.1 && !frame.2) = true)
    (state : State) :
    journal.replay (trace.occurrences enclosing) state =
      .ok ((trace.occurrences enclosing).foldl
        (fun state occurrence => journal.skim occurrence.action state) state) := by
  induction trace generalizing enclosing state with
  | done => rfl
  | act action rest ih =>
      rw [Trace.occurrences, replay, List.foldlM_cons, replayStep, rolledBack,
        if_pos hrolledBack, ok_bind, List.foldl_cons]
      exact ih hrolledBack _
  | frame kind succeeds body rest ihBody ihRest =>
      have hinner : (((kind, succeeds) :: enclosing).any fun frame =>
          journal.hooked frame.1 && !frame.2) = true := by
        rw [List.any_cons, hrolledBack, Bool.or_true]
      have hbody := ihBody hinner state
      rw [replay] at hbody
      rw [Trace.occurrences, replay, List.foldlM_append, hbody, ok_bind, List.foldl_append]
      exact ihRest hrolledBack _

/-- A run does what its actions do in order, less those that are rolled back. -/
theorem replay_of_eval (hlawful : journal.Lawful) {trace : Trace Kind Action}
    {enclosing : List (Kind × Bool)}
    (hkept : (enclosing.any fun frame => journal.hooked frame.1 && !frame.2) = false)
    {before after : State} (heval : journal.eval trace before = .ok after) :
    journal.replay (trace.occurrences enclosing) before = .ok after := by
  induction trace generalizing before after enclosing with
  | done => exact heval
  | act action rest ih =>
      rw [eval] at heval
      obtain ⟨middle, hact, hrest⟩ := bind_eq_ok.1 heval
      rw [Trace.occurrences, replay, List.foldlM_cons, replayStep, rolledBack,
        if_neg (by rw [hkept]; decide), hact, ok_bind]
      exact ih hkept hrest
  | frame kind succeeds body rest ihBody ihRest =>
      rw [eval] at heval
      obtain ⟨middle, hbody, hrest⟩ := bind_eq_ok.1 heval
      rw [Trace.occurrences, replay, List.foldlM_append]
      cases hfails : journal.hooked kind && !succeeds with
      | true =>
          have hinner : (((kind, succeeds) :: enclosing).any fun frame =>
              journal.hooked frame.1 && !frame.2) = true := by
            rw [List.any_cons, hfails, Bool.true_or]
          have hskim := replay_of_rolledBack body hinner before
          have hrestored :=
            restore_eval hlawful hbody ((kind, succeeds) :: enclosing) before
          rw [hlawful.restore_self] at hrestored
          rw [replay, ← hrestored] at hskim
          rw [hfails, if_pos rfl] at hrest
          rw [hskim, ok_bind]
          exact ihRest hkept hrest
      | false =>
          have hinner : (((kind, succeeds) :: enclosing).any fun frame =>
              journal.hooked frame.1 && !frame.2) = false := by
            rw [List.any_cons, hfails, hkept, Bool.or_false]
          have hreplayed := ihBody hinner hbody
          rw [replay] at hreplayed
          rw [hfails, if_neg (by decide)] at hrest
          rw [hreplayed, ok_bind]
          exact ihRest hkept hrest

/-! ## The state that a kept action meets -/

section Meets

variable (journal)
variable (holds : State → Occurrence Kind Action → Prop)

/-- Every action of a trace that is not rolled back has the property on the state in
which it runs. -/
def EachKept (enclosing : List (Kind × Bool)) : Trace Kind Action → State → Prop
  | .done, _ => True
  | .act action rest, state =>
      (journal.rolledBack { action := action, enclosing := enclosing } = false →
        holds state { action := action, enclosing := enclosing }) ∧
      ∀ after, journal.act action state = .ok after → EachKept enclosing rest after
  | .frame kind succeeds body rest, state =>
      EachKept ((kind, succeeds) :: enclosing) body state ∧
      ∀ after, journal.eval body state = .ok after →
        EachKept enclosing rest (if journal.hooked kind && !succeeds then
          journal.restore (journal.save state) after else after)

/-- Every action that is not rolled back has the property on the state in which it is
replayed. -/
def Meets : State → List (Occurrence Kind Action) → Prop
  | _, [] => True
  | state, occurrence :: rest =>
      (journal.rolledBack occurrence = false → holds state occurrence) ∧
      ∀ next, journal.replayStep state occurrence = .ok next → Meets next rest

variable {journal holds}

theorem meets_append {first second : List (Occurrence Kind Action)} {state : State}
    (hfirst : journal.Meets holds state first)
    (hsecond : ∀ middle, journal.replay first state = .ok middle →
      journal.Meets holds middle second) :
    journal.Meets holds state (first ++ second) := by
  induction first generalizing state with
  | nil => exact hsecond state rfl
  | cons occurrence first ih =>
      refine ⟨hfirst.1, fun next hnext => ih (hfirst.2 next hnext) fun middle hmiddle => ?_⟩
      apply hsecond
      rw [replay, List.foldlM_cons, hnext, ok_bind]
      exact hmiddle

theorem meets_of_rolledBack (trace : Trace Kind Action) {enclosing : List (Kind × Bool)}
    (hrolledBack : (enclosing.any fun frame => journal.hooked frame.1 && !frame.2) = true)
    (state : State) : journal.Meets holds state (trace.occurrences enclosing) := by
  induction trace generalizing enclosing state with
  | done => trivial
  | act action rest ih =>
      refine ⟨fun hkept => ?_, fun next _ => ih hrolledBack next⟩
      rw [rolledBack, hrolledBack] at hkept
      cases hkept
  | frame kind succeeds body rest ihBody ihRest =>
      refine meets_append (ihBody ?_ state) fun middle _ => ihRest hrolledBack middle
      rw [List.any_cons, hrolledBack, Bool.or_true]

/-- A kept action is replayed on the state in which it ran. -/
theorem meets_of_eachKept (hlawful : journal.Lawful) {trace : Trace Kind Action}
    {enclosing : List (Kind × Bool)}
    (hkept : (enclosing.any fun frame => journal.hooked frame.1 && !frame.2) = false)
    {before after : State} (heval : journal.eval trace before = .ok after)
    (heach : journal.EachKept holds enclosing trace before) :
    journal.Meets holds before (trace.occurrences enclosing) := by
  induction trace generalizing before after enclosing with
  | done => trivial
  | act action rest ih =>
      rw [eval] at heval
      obtain ⟨middle, hact, hrest⟩ := bind_eq_ok.1 heval
      refine ⟨heach.1, fun next hnext => ?_⟩
      rw [replayStep, rolledBack, if_neg (by rw [hkept]; decide)] at hnext
      obtain rfl := Except.ok.inj (hact.symm.trans hnext)
      exact ih hkept hrest (heach.2 middle hact)
  | frame kind succeeds body rest ihBody ihRest =>
      rw [eval] at heval
      obtain ⟨inner, hbody, hrest⟩ := bind_eq_ok.1 heval
      apply meets_append
      · cases hfails : journal.hooked kind && !succeeds with
        | true =>
            refine meets_of_rolledBack body ?_ before
            rw [List.any_cons, hfails, Bool.true_or]
        | false =>
            refine ihBody ?_ hbody heach.1
            rw [List.any_cons, hfails, hkept, Bool.or_false]
      · intro middle hmiddle
        -- the frame on its own leaves the state in which the rest runs
        have hframe : journal.eval (.frame kind succeeds body .done) before =
            .ok (if journal.hooked kind && !succeeds then
              journal.restore (journal.save before) inner else inner) := by
          rw [eval, hbody]
          rfl
        have hreplay := replay_of_eval hlawful hkept hframe
        rw [Trace.occurrences, Trace.occurrences, List.append_nil, hmiddle] at hreplay
        obtain rfl := Except.ok.inj hreplay
        exact ihRest hkept hrest (heach.2 inner hbody)

end Meets

end Journal

end Savepoint
