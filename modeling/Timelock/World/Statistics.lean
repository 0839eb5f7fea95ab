import Timelock.World

/-!
# Statistics

How often analyzers were consulted, began and returned, and how many analyses were in progress
at once at most.
-/

namespace Timelock

structure CallCount where
  consulted : Nat := 0
  began : Nat := 0
  returned : Nat := 0
  deriving DecidableEq

namespace CallCount

def add (c : CallCount) : Incident → CallCount
  | .passed .consulted => { c with consulted := c.consulted + 1 }
  | .passed .began => { c with began := c.began + 1 }
  | .returned => { c with returned := c.returned + 1 }
  | .granted | .ended => c

def isZero (c : CallCount) : Bool := c = {}

end CallCount

structure Statistics where
  calls : Table CallCount := .empty
  /-- The tasks whose analysis is in progress. -/
  active : List (Nat × Nat) := []
  peak : Nat := 0

namespace Statistics

def count (s : Statistics) (x : Event) : Statistics :=
  let c := ((s.calls.get? x.analyzer).getD {}).add x.incident
  if c.isZero then s else { s with calls := s.calls.put x.analyzer c }

def track (s : Statistics) (x : Event) : Statistics :=
  match x.incident with
  | .passed .began =>
      let active := (x.run, x.task) :: s.active
      { s with active := active, peak := max s.peak active.length }
  | .ended => { s with active := s.active.filter (· ≠ (x.run, x.task)) }
  | .granted | .passed .consulted | .returned => s

def ofEvents (xs : List Event) : Statistics :=
  xs.foldl (fun s x ↦ (s.count x).track x) {}

end Statistics

namespace World

def statistics (w : World) : Statistics := .ofEvents w.events.reverse

end World

end Timelock
