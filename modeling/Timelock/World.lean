import Timelock.Run
import Timelock.World.Rank

/-!
# Worlds

Runs of one engine side by side, under a clock that stands still while anything can move.  A move
is one step of a run, of a task, or of an alarm; which of the possible moves comes next is left
open here.
-/

namespace Timelock

/-- A run with the cancellation token it listens to and the numbers its tasks get. -/
structure Run where
  job : Job
  token : Nat
  numbers : TaskNumbers
  phase : Phase := .starting

inductive AlarmAction where
  | cancel (token : Nat)
  | abandon (run : Nat)
  deriving DecidableEq

structure Alarm where
  due : Nat
  action : AlarmAction
  fired : Bool := false
  deriving DecidableEq

structure Event where
  run : Nat
  task : Nat
  analyzer : String
  incident : Incident
  deriving DecidableEq

structure World where
  now : Nat := 0
  cancelled : List Nat := []
  runs : List Run
  alarms : List Alarm := []
  /-- What has happened, the latest first. -/
  events : List Event := []

/-- What can move by itself. -/
inductive Thread where
  | run (run : Nat)
  | task (run task : Nat)
  | alarm (alarm : Nat)
  deriving DecidableEq

namespace Run

def withPhase (r : Run) (p : Phase) : Run := { r with phase := p }

end Run

namespace World

def isCancelled (w : World) (token : Nat) : Bool := w.cancelled.contains token

def cancel (w : World) (token : Nat) : World :=
  { w with cancelled := token :: w.cancelled }

def setPhase (w : World) (r : Nat) (p : Phase) : World :=
  { w with runs := w.runs.modify r (·.withPhase p) }

def carryOut (w : World) (r : Nat) (x : Run) (events : List Event) (a : Phase.Advance) : World :=
  let w := if a.cancelsRun then w.cancel x.token else w
  { w.setPhase r a.phase with events := events.reverse ++ w.events }

def runEvents (r i : Nat) (t : Task) (incidents : List Incident) : List Event :=
  incidents.map (fun x ↦ ⟨r, i, t.analyzer.id, x⟩)

/-- The tasks in flight end when their run is abandoned. -/
def abandonEvents (r : Nat) (p : Phase) : List Event :=
  p.tasks.zipIdx.filterMap fun (t, i) ↦
    if t.isRunning then some ⟨r, i, t.analyzer.id, .ended⟩ else none

def moveRun? (e : Engine) (w : World) (r : Nat) : Option World :=
  match w.runs[r]? with
  | none => none
  | some x =>
      match x.phase.advance? e x.job x.numbers w.now (w.isCancelled x.token) with
      | none => none
      | some a => some (w.carryOut r x [] a)

def moveTask? (e : Engine) (w : World) (r i : Nat) : Option World :=
  match w.runs[r]? with
  | none => none
  | some x =>
      match x.phase.advanceTask? e w.now (w.isCancelled x.token) i with
      | none => none
      | some a =>
          match x.phase.tasks[i]? with
          | none => none
          | some t => some (w.carryOut r x (runEvents r i t a.incidents) a)

def act (w : World) : AlarmAction → World
  | .cancel token => w.cancel token
  | .abandon r =>
      match w.runs[r]? with
      | none => w
      | some x =>
          if x.phase.isSettled then w
          else { w.setPhase r .abandoned with
            events := (abandonEvents r x.phase).reverse ++ w.events }

def ring (a : Alarm) : Alarm := { a with fired := true }

def moveAlarm? (w : World) (k : Nat) : Option World :=
  match w.alarms[k]? with
  | none => none
  | some a =>
      if !a.fired && a.due ≤ w.now then
        some { w.act a.action with alarms := w.alarms.modify k ring }
      else none

/-- The next move of a thread, or `none` while it waits. -/
def move? (e : Engine) (w : World) : Thread → Option World
  | .run r => w.moveRun? e r
  | .task r i => w.moveTask? e r i
  | .alarm k => w.moveAlarm? k

def canMove (e : Engine) (w : World) (x : Thread) : Bool := (w.move? e x).isSome

def isSettled (w : World) : Bool := w.runs.all (·.phase.isSettled)

def runThreads (r : Nat) (p : Phase) : List Thread :=
  if p.isSettled then []
  else
    .run r :: p.tasks.zipIdx.filterMap fun (t, i) ↦
      if t.hasEnded then none else some (.task r i)

def threads (w : World) : List Thread :=
  w.runs.zipIdx.flatMap (fun (x, r) ↦ runThreads r x.phase) ++
    w.alarms.zipIdx.filterMap fun (a, k) ↦ if a.fired then none else some (.alarm k)

def dues (e : Engine) (w : World) : List Nat :=
  w.runs.flatMap (fun x ↦ x.phase.dues e) ++
    w.alarms.filterMap (fun a ↦ if a.fired then none else some a.due)

def deadline? (e : Engine) (w : World) : Thread → Option Nat
  | .task r i => w.runs[r]?.bind (fun x ↦ x.phase.deadline? e i)
  | .run _ | .alarm _ => none

def waitUntil (w : World) (now : Nat) : World := { w with now := now }

end World

end Timelock
