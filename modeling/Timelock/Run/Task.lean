import Timelock.Report

/-!
# Tasks

One invocation of an analyzer on a node.  A task waits for a permit, then runs until it is done
or its time is up; the time is counted from the permit.
-/

namespace Timelock

/-- How the tasks of a run are numbered where they are carried out, by node and analyzer.  The
numbers depend on all that goes on there, and only the text on a task that panicked shows one. -/
abbrev TaskNumbers := NodePath → String → Nat

inductive TaskResult where
  | annotated (annotations : List Annotation)
  | skipped
  | failed (error : String)
  | panicked (message : Option String)
  | timedOut
  deriving DecidableEq

inductive TaskState where
  | waiting
  | running (started : Nat) (position : Position (Option Verdict))
  | ended (result : TaskResult) (elapsedMs : Nat)

structure Task where
  analyzer : Analyzer
  /-- What the analyzer is told; it does not change after the start of the level. -/
  context : AnalyzerContext
  invocation : Activity (Option Verdict)
  state : TaskState := .waiting

inductive Incident where
  | granted
  | passed (mark : Mark)
  | returned
  | ended
  deriving DecidableEq

namespace Task

def isRunning (t : Task) : Bool :=
  match t.state with
  | .running _ _ => true
  | .waiting | .ended _ _ => false

def hasEnded (t : Task) : Bool :=
  match t.state with
  | .ended _ _ => true
  | .waiting | .running _ _ => false

structure Advance where
  state : TaskState
  cancelsRun : Bool := false
  incidents : List Incident := []

/-- What is reported of a panic in the task of the given number. -/
def panicText (number : Nat) (message : Option String) : String :=
  let reason := match message with
    | some m => " with message " ++ Text.quoted m
    | none => ""
  "analyzer task aborted: task " ++ Text.decimal number ++ " panicked" ++ reason

def conclude (elapsedMs : Nat) : Option Verdict → Advance
  | none => { state := .ended .skipped elapsedMs, incidents := [.ended] }
  | some (.answered (.ok as)) =>
      { state := .ended (.annotated as) elapsedMs, incidents := [.returned, .ended] }
  | some (.answered (.error e)) =>
      { state := .ended (.failed e.text) elapsedMs, incidents := [.returned, .ended] }
  | some (.panicked message) =>
      { state := .ended (.panicked message) 0, incidents := [.ended] }

/-- A task that would be held up when its time is up ends there. -/
def expire? (timeoutMs started now : Nat) : Option Advance :=
  if started + timeoutMs ≤ now then
    some { state := .ended .timedOut (now - started), incidents := [.ended] }
  else none

/-- The next move of a task, or `none` while it is held up; `free` tells whether a permit is
free. -/
def advance? (timeoutMs now : Nat) (cancelled free : Bool) (t : Task) : Option Advance :=
  match t.state with
  | .waiting =>
      if free then some { state := .running now (.ready t.invocation), incidents := [.granted] }
      else none
  | .running started p =>
      match p.move? ⟨now, some (started + timeoutMs), cancelled⟩ with
      | some (.on q none) => some { state := .running started q }
      | some (.on q (some (.mark m))) =>
          some { state := .running started q, incidents := [.passed m] }
      | some (.on q (some .cancelRun)) =>
          some { state := .running started q, cancelsRun := true }
      | some (.done v) => some (conclude (now - started) v)
      | none => expire? timeoutMs started now
  | .ended _ _ => none

def deadline? (timeoutMs : Nat) (t : Task) : Option Nat :=
  match t.state with
  | .running started _ => some (started + timeoutMs)
  | .waiting | .ended _ _ => none

def due? (timeoutMs : Nat) (t : Task) : Option Nat :=
  match t.state with
  | .running started p =>
      match p.due? with
      | some due => some (min due (started + timeoutMs))
      | none => some (started + timeoutMs)
  | .waiting | .ended _ _ => none

def weight (t : Task) : Nat :=
  match t.state with
  | .waiting => t.invocation.size + 2
  | .running _ p => p.weight + 1
  | .ended _ _ => 0

theorem weight_lt_of_advance {timeoutMs now : Nat} {cancelled free : Bool} {t : Task}
    {a : Advance} (h : t.advance? timeoutMs now cancelled free = some a) :
    { t with state := a.state }.weight < t.weight := by
  simp only [advance?] at h
  split at h
  next hs =>
    simp only [Option.ite_none_right_eq_some, Option.some.injEq] at h
    obtain ⟨_, rfl⟩ := h
    simp [weight, hs, Position.weight]
  next started p hs =>
    have hw : t.weight = p.weight + 1 := by simp [weight, hs]
    rw [hw]
    split at h
    next q hm =>
      cases h
      simpa [weight] using Position.weight_lt_of_move hm
    next q m hm =>
      cases h
      simpa [weight] using Position.weight_lt_of_move hm
    next q hm =>
      cases h
      simpa [weight] using Position.weight_lt_of_move hm
    next v hm =>
      cases h
      have : ({ t with state := (conclude (now - started) v).state } : Task).weight = 0 := by
        rcases v with _ | ⟨⟨_ | _⟩ | _⟩ <;> simp [conclude, weight]
      omega
    next =>
      simp only [expire?, Option.ite_none_right_eq_some, Option.some.injEq] at h
      obtain ⟨_, rfl⟩ := h
      simp [weight]
  next => simp at h

end Task

end Timelock
