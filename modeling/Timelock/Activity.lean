/-!
# Activities

What a collaborator of a run does, as a finite tree of steps.  Sleeping and waiting for
cancellation are the only steps at which an activity gives way to others; all others take no
time.  A position is a place in such a tree, and moves on whenever it is not held up.
-/

namespace Timelock

/-- What an activity can tell about the moment it is in.  Times are in milliseconds. -/
structure Moment where
  now : Nat
  deadline : Option Nat
  cancelled : Bool
  deriving DecidableEq

namespace Moment

def remaining (m : Moment) : Nat := m.deadline.getD m.now - m.now

end Moment

inductive Mark where
  | consulted
  | began
  deriving DecidableEq

inductive Activity (α : Type) where
  | done (result : Moment → α)
  | sleep (ms : Nat) (next : Activity α)
  | awaitCancel (next : Activity α)
  | cancelRun (next : Activity α)
  | branch (test : Moment → Bool) (yes no : Activity α)
  | note (mark : Mark) (next : Activity α)

namespace Activity

variable {α β : Type}

def result (a : α) : Activity α := .done fun _ ↦ a

def size : Activity α → Nat
  | .done _ => 1
  | .sleep _ next => next.size + 2
  | .awaitCancel next => next.size + 2
  | .cancelRun next => next.size + 1
  | .branch _ yes no => yes.size + no.size + 1
  | .note _ next => next.size + 1

def map (f : α → β) : Activity α → Activity β
  | .done r => .done fun m ↦ f (r m)
  | .sleep ms next => .sleep ms (next.map f)
  | .awaitCancel next => .awaitCancel (next.map f)
  | .cancelRun next => .cancelRun (next.map f)
  | .branch test yes no => .branch test (yes.map f) (no.map f)
  | .note mark next => .note mark (next.map f)

/-- Go on after an activity: with `next` where its result passes the test, else with an end that
follows from the result. -/
def continueIf (a : Activity α) (test : α → Bool) (next : Activity β) (otherwise : α → β) :
    Activity β :=
  match a with
  | .done r => .branch (fun m ↦ test (r m)) next (.done fun m ↦ otherwise (r m))
  | .sleep ms a => .sleep ms (a.continueIf test next otherwise)
  | .awaitCancel a => .awaitCancel (a.continueIf test next otherwise)
  | .cancelRun a => .cancelRun (a.continueIf test next otherwise)
  | .branch t yes no =>
      .branch t (yes.continueIf test next otherwise) (no.continueIf test next otherwise)
  | .note mark a => .note mark (a.continueIf test next otherwise)

end Activity

inductive Position (α : Type) where
  | ready (rest : Activity α)
  | asleep (due : Nat) (rest : Activity α)
  | awaiting (rest : Activity α)

inductive Effect where
  | mark (mark : Mark)
  | cancelRun
  deriving DecidableEq

inductive Move (α : Type) where
  | on (next : Position α) (effect : Option Effect)
  | done (result : α)

namespace Position

variable {α : Type}

def isParked : Position α → Bool
  | .ready _ => false
  | .asleep _ _ | .awaiting _ => true

def due? : Position α → Option Nat
  | .asleep due _ => some due
  | .ready _ | .awaiting _ => none

/-- The next move, or `none` while the position is held up. -/
def move? (m : Moment) : Position α → Option (Move α)
  | .ready (.done r) => some (.done (r m))
  | .ready (.sleep ms next) =>
      some (.on (if ms = 0 then .ready next else .asleep (m.now + ms) next) none)
  | .ready (.awaitCancel next) =>
      some (.on (if m.cancelled then .ready next else .awaiting next) none)
  | .ready (.cancelRun next) => some (.on (.ready next) (some .cancelRun))
  | .ready (.branch test yes no) => some (.on (.ready (if test m then yes else no)) none)
  | .ready (.note mark next) => some (.on (.ready next) (some (.mark mark)))
  | .asleep due next => if due ≤ m.now then some (.on (.ready next) none) else none
  | .awaiting next => if m.cancelled then some (.on (.ready next) none) else none

def weight : Position α → Nat
  | .ready a => a.size
  | .asleep _ a | .awaiting a => a.size + 1

/-- Every move leads nearer to the end. -/
theorem weight_lt_of_move {m : Moment} {p q : Position α} {e : Option Effect}
    (h : p.move? m = some (.on q e)) : q.weight < p.weight := by
  cases p with
  | ready a =>
      cases a <;> simp only [move?, Option.some.injEq, Move.on.injEq, reduceCtorEq] at h
      all_goals
        obtain ⟨rfl, _⟩ := h
        repeat' split
        all_goals simp only [weight, Activity.size]; omega
  | asleep due a =>
      simp only [move?, Option.ite_none_right_eq_some, Option.some.injEq, Move.on.injEq] at h
      obtain ⟨_, rfl, _⟩ := h
      simp [weight]
  | awaiting a =>
      simp only [move?, Option.ite_none_right_eq_some, Option.some.injEq, Move.on.injEq] at h
      obtain ⟨_, rfl, _⟩ := h
      simp [weight]

end Position

end Timelock
