import Stepwise.Lowering.Basic
import Stepwise.Session.Cache
import Stepwise.Session.Log

/-!
# Session - Stepping forth and back

A session drives a program one step at a time.  It keeps every state, so that
steps can be undone, and the views it rendered.  A step that is undone and taken again
makes new nodes: the identities it gave out before are not given out again.

Main definitions:

- `Session.startWith`, a session before the first step of a tree, and `Session.start`,
  the same with the view cache.
- `Session.step`, `Session.back`, `Session.run` and `Session.seek`.
- `Session.view`, the view of the current state, from the cache where it can be.
-/

namespace Stepwise

/-- Failures of a session. -/
inductive SessionError where
  | node (error : NodeError)
  | eval (error : EvalError)
  /-- A cache must have room for at least one view. -/
  | cacheSize
  /-- There is no state before the first one. -/
  | negativeSeek (step : Int)
  /-- The program ends before the state asked for. -/
  | endsBefore (steps : Nat)
  deriving DecidableEq, Repr, Inhabited

namespace SessionError

/-- The class of an error. -/
def errorClass : SessionError → ErrorClass
  | node e => e.errorClass
  | eval e => e.errorClass
  | cacheSize => .other
  | negativeSeek _ => .other
  | endsBefore _ => .terminated

/-- The message of an error. -/
def message : SessionError → String
  | node e => e.message
  | eval e => e.message
  | cacheSize => "view cache: Must provide a positive size"
  | negativeSeek step => "seek to step " ++ toString step
  | endsBefore steps =>
    "program terminates after " ++ toString steps ++ " steps: " ++ ErrorClass.terminated.text

end SessionError

/-- A session: the tree and its lowered form, the states before the current one
with the oldest first, the current one, the identities not given out yet, the views
rendered and the log. -/
structure Session (Store : Type := ViewCache) where
  tree : List Stmt
  program : List Stmt
  past : Array State
  state : State
  supply : Supply
  views : Store
  log : Log
  deriving Inhabited

namespace Session

variable {Store : Type}

/-- How many views a session keeps unless told otherwise. -/
def defaultCacheSize : Int := 128

/-- The number of steps taken to reach the current state. -/
def steps (s : Session Store) : Nat := s.past.size

/-- Whether the program has terminated. -/
def done (s : Session Store) : Bool := s.state.done

/-- Everything printed so far. -/
def output (s : Session Store) : String := s.state.output

/-- The variables in scope. -/
def env (s : Session Store) : Env := s.state.env

/-- The current state, from which the next step draws identities that are new to the
session. -/
def now (s : Session Store) : State :=
  { s.state with supply := s.supply }

/-- Record an event. -/
def note (s : Session Store) (event : Event) : Session Store :=
  { s with log := s.log.push event }

/-- The active statement in one line. -/
def describeActive (s : State) : String :=
  match s.active with
  | .empty => "terminated"
  | slot => (Operand.describe? (slot.map .stmt)).getD ""

/-! ## Events -/

/-- The event of a new session. -/
def startedEvent (statements ir : Nat) : Event :=
  ⟨.debug, "session started", [("statements", .number statements), ("ir", .number ir)]⟩

/-- The event of a step. -/
def stepEvent (step : Nat) (next : State) : Event :=
  ⟨.debug, "step", [("step", .number step), ("pc", .number next.pc),
    ("output", .text next.output), ("active", .text (describeActive next))]⟩

/-- The event of a step that failed. -/
def stepFailedEvent (error : EvalError) (step : Nat) (state : State) : Event :=
  ⟨.error, "step failed", [("error", .text error.message), ("step", .number step),
    ("pc", .number state.pc), ("statement", .text (describeActive state))]⟩

/-- The event of an undone step. -/
def backEvent (step : Nat) : Event :=
  ⟨.debug, "back", [("step", .number step)]⟩

/-- The event of a run that reached its limit. -/
def runStoppedEvent (error : EvalError) (step : Nat) : Event :=
  ⟨.error, "run stopped", [("error", .text error.message), ("step", .number step)]⟩

/-- The event of a run that reached the end. -/
def runFinishedEvent (steps : Nat) : Event :=
  ⟨.debug, "run finished", [("steps", .number steps)]⟩

/-! ## Driving a session -/

/-- The session of a tree before its first step, with a store of views of a kind. -/
def startWith (Store : Type) [ViewStore Store] (tree : List (Slot Stmt)) (cacheSize : Int)
    (log : Log) (supply : Supply) : Except SessionError (Session Store) :=
  match lower tree supply with
  | .error e => .error (.node e)
  | .ok (program, supply) =>
    if cacheSize ≤ 0 then .error .cacheSize
    else
      let session : Session Store :=
        { tree := tree.filterMap Slot.get?, program, past := #[]
          state := State.init (program.map .filled) supply, supply
          views := ViewStore.new cacheSize.toNat, log }
      .ok (session.note (startedEvent tree.length program.length))

/-- The session of a tree before its first step. -/
def start (tree : List (Slot Stmt)) (cacheSize : Int) (log : Log) (supply : Supply) :
    Except SessionError Session :=
  startWith ViewCache tree cacheSize log supply

/-- One step; a step that fails leaves the states as they are, and is noted unless
it broke down. -/
def step (s : Session Store) : Session Store × Option EvalError :=
  match s.now.step with
  | .error e =>
    if e.errorClass.isBreakdown then (s, some e)
    else (s.note (stepFailedEvent e (s.steps + 1) s.state), some e)
  | .ok next =>
    ({ s with past := s.past.push s.state, state := next, supply := next.supply }.note
      (stepEvent (s.steps + 1) next), none)

/-- Undo the last step; there is none to undo at the first state. -/
def back? (s : Session Store) : Option (Session Store) :=
  match s.past.back? with
  | none => none
  | some previous =>
    some ({ s with past := s.past.pop, state := previous }.note (backEvent (s.steps - 1)))

/-- The end of a run of a session. -/
structure Stop (Store : Type := ViewCache) where
  session : Session Store
  steps : Nat
  error : Option EvalError
  deriving Inhabited

/-- Step until the program terminates or fails, or until a positive limit is
reached; `steps` were taken before.  There is no answer while `fuel` steps do
not suffice. -/
def runFrom (limit : Int) (steps : Nat) (s : Session Store) : Nat → Option (Stop Store)
  | 0 => none
  | fuel + 1 =>
    if s.done then some ⟨s.note (runFinishedEvent steps), steps, none⟩
    else if 0 < limit ∧ limit ≤ steps then
      some ⟨s.note (runStoppedEvent (.stepLimit steps) s.steps), steps, some (.stepLimit steps)⟩
    else
      match s.step with
      | (s', some e) => some ⟨s', steps, some e⟩
      | (s', none) => runFrom limit (steps + 1) s' fuel

/-- Step until the program terminates, fails or reaches a positive limit. -/
def run (s : Session Store) (limit : Int) (fuel : Nat) : Option (Stop Store) :=
  s.runFrom limit 0 fuel

/-- Undo a number of steps, as far as there are any. -/
def rewind (s : Session Store) : Nat → Session Store
  | 0 => s
  | n + 1 =>
    match s.back? with
    | some s' => s'.rewind n
    | none => s

/-- Take a number of steps. -/
def advance (s : Session Store) : Nat → Session Store × Option SessionError
  | 0 => (s, none)
  | n + 1 =>
    if s.done then (s, some (.endsBefore s.steps))
    else
      match s.step with
      | (s', some e) => (s', some (.eval e))
      | (s', none) => s'.advance n

/-- Go to the state after a number of steps, forth or back. -/
def seek (s : Session Store) (target : Int) : Session Store × Option SessionError :=
  if target < 0 then (s, some (.negativeSeek target))
  else
    let n := target.toNat
    if n ≤ s.steps then (s.rewind (s.steps - n), none)
    else s.advance (n - s.steps)

/-- The view of the current state, from the store where it is kept. -/
def view [ViewStore Store] (s : Session Store) : Session Store × Except NodeError View :=
  match ViewStore.get s.views s.steps with
  | (some view, views) => ({ s with views }, .ok view)
  | (none, views) =>
    match s.now.view s.tree with
    | .error e => ({ s with views }, .error e)
    | .ok view => ({ s with views := ViewStore.add views s.steps view }, .ok view)

end Session

end Stepwise
