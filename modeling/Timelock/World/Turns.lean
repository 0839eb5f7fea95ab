import Timelock.World

/-!
# Turns

The moves of a world in a fixed order: first come, first served.  A thread keeps its turn while
it can move, time passes only when no thread can, and threads whose waits end at one moment go on
in the order in which the waits began.  Every move lowers the rank of the world, so a world comes
to rest.
-/

namespace Timelock

namespace World

def rank (w : World) : Nat × List (Nat × Nat × Nat) :=
  ((w.alarms.filter (fun a ↦ !a.fired)).length, w.runs.map (fun x ↦ x.phase.rank))

abbrev RankLess : Nat × List (Nat × Nat × Nat) → Nat × List (Nat × Nat × Nat) → Prop :=
  Prod.Lex (· < ·) (OneSmaller Phase.RankLess)

theorem wellFounded_rankLess : WellFounded RankLess :=
  (Prod.lex Nat.lt_wfRel
    ⟨_, OneSmaller.wellFounded (Prod.lex Nat.lt_wfRel (Prod.lex Nat.lt_wfRel Nat.lt_wfRel)).wf⟩).wf

@[simp] theorem rank_waitUntil (w : World) (now : Nat) : (w.waitUntil now).rank = w.rank := rfl

@[simp] theorem alarms_carryOut (w : World) (r : Nat) (x : Run) (events : List Event)
    (a : Phase.Advance) : (w.carryOut r x events a).alarms = w.alarms := by
  unfold carryOut
  split <;> rfl

@[simp] theorem runs_carryOut (w : World) (r : Nat) (x : Run) (events : List Event)
    (a : Phase.Advance) :
    (w.carryOut r x events a).runs = w.runs.modify r (·.withPhase a.phase) := by
  unfold carryOut
  split <;> rfl

theorem rankLess_carryOut {w : World} {r : Nat} {x : Run} {events : List Event}
    {a : Phase.Advance} (hx : w.runs[r]? = some x) (h : Phase.RankLess a.phase.rank x.phase.rank) :
    RankLess (w.carryOut r x events a).rank w.rank := by
  have hs : OneSmaller Phase.RankLess
      ((w.runs.modify r (·.withPhase a.phase)).map (fun y ↦ y.phase.rank))
      (w.runs.map (fun y ↦ y.phase.rank)) :=
    OneSmaller.map_modify hx h
  simpa [rank] using Prod.Lex.right _ hs

theorem length_filter_modify_ring {as : List Alarm} {k : Nat} {a : Alarm}
    (ha : as[k]? = some a) (h : a.fired = false) :
    ((as.modify k ring).filter (fun a ↦ !a.fired)).length <
      (as.filter (fun a ↦ !a.fired)).length := by
  induction as generalizing k with
  | nil => simp at ha
  | cons b bs ih =>
      cases k with
      | zero =>
          simp only [List.getElem?_cons_zero, Option.some.injEq] at ha
          subst ha
          simp [ring, h]
      | succ k =>
          simp only [List.getElem?_cons_succ] at ha
          have := ih ha
          simp only [List.modify_succ_cons, List.filter_cons]
          split <;> simp <;> omega

theorem rankLess_of_move {e : Engine} {w w' : World} {x : Thread} (h : w.move? e x = some w') :
    RankLess w'.rank w.rank := by
  cases x with
  | run r =>
      simp only [move?, moveRun?] at h
      split at h
      · cases h
      next hx =>
        split at h
        · cases h
        next ha =>
          cases h
          exact rankLess_carryOut hx (Phase.rankLess_of_advance ha)
  | task r i =>
      simp only [move?, moveTask?] at h
      split at h
      · cases h
      next hx =>
        split at h
        · cases h
        next ha =>
          split at h
          · cases h
          · cases h
            exact rankLess_carryOut hx (Phase.rankLess_of_advanceTask ha)
  | alarm k =>
      simp only [move?, moveAlarm?] at h
      split at h
      · cases h
      next a ha =>
        simp only [Option.ite_none_right_eq_some, Option.some.injEq, Bool.and_eq_true,
          Bool.not_eq_true'] at h
        obtain ⟨⟨hf, _⟩, rfl⟩ := h
        exact Prod.Lex.left _ _ (length_filter_modify_ring ha hf)

end World

/-- What a thread that cannot move waits for: that it can move again, or its deadline. -/
inductive Wait where
  | turn (x : Thread)
  | deadline (x : Thread)
  deriving DecidableEq

structure Turns where
  queue : List Thread := []
  /-- In the order in which they began; a task waits for its deadline from the first time that it
  is held up. -/
  waits : List Wait := []

namespace Wait

def thread : Wait → Thread
  | .turn x | .deadline x => x

end Wait

namespace World

def isOver (e : Engine) (w : World) : Wait → Bool
  | .turn x => w.canMove e x
  | .deadline x => w.canMove e x && (w.deadline? e x).any (· ≤ w.now)

/-- A deadline is waited for besides until its thread is gone. -/
def stays (e : Engine) (w : World) : Wait → Bool
  | .turn x => !w.canMove e x
  | .deadline _ => true

def newWaits (e : Engine) (w : World) (waits : List Wait) (x : Thread) : List Wait :=
  if (w.deadline? e x).isSome && !waits.contains (.deadline x) then [.turn x, .deadline x]
  else [.turn x]

/-- Put threads whose wait is over, and then new ones, at the end of the queue, and pass over
those at its front that cannot move. -/
def refresh (e : Engine) (w : World) (t : Turns) : Turns :=
  let waits := t.waits.filter (fun y ↦ w.threads.contains y.thread)
  let ended := (waits.filter (w.isOver e)).map Wait.thread
  let woken := (ended.filter (fun x ↦ t.waits.contains (.turn x))).eraseDups
  let fresh := w.threads.filter (fun x ↦ !t.queue.contains x && !t.waits.contains (.turn x))
  let queue := t.queue.filter w.threads.contains ++ woken ++ fresh
  let passed := queue.takeWhile (fun x ↦ !w.canMove e x)
  { queue := queue.dropWhile (fun x ↦ !w.canMove e x)
    waits := waits.filter (w.stays e) ++ passed.flatMap (w.newWaits e waits) }

def moveNow? (e : Engine) (w : World) (t : Turns) : Option (World × Turns) :=
  let t := w.refresh e t
  match t.queue with
  | [] => none
  | x :: _ =>
      match w.move? e x with
      | some w' => some (w', t)
      | none => none

def earliest? : List Nat → Option Nat
  | [] => none
  | d :: ds => some (ds.foldl min d)

/-- The next move, after as much time as has to pass before it. -/
def next? (e : Engine) (w : World) (t : Turns) : Option (World × Turns) :=
  if w.isSettled then none
  else
    match w.moveNow? e t with
    | some x => some x
    | none =>
        match earliest? (w.dues e) with
        | some due => (w.waitUntil due).moveNow? e (w.refresh e t)
        | none => none

theorem rankLess_of_moveNow {e : Engine} {w w' : World} {t t' : Turns}
    (h : w.moveNow? e t = some (w', t')) : RankLess w'.rank w.rank := by
  simp only [moveNow?] at h
  split at h
  · cases h
  · split at h
    next hm =>
      cases h
      exact rankLess_of_move hm
    · cases h

theorem rankLess_of_next {e : Engine} {w w' : World} {t t' : Turns}
    (h : w.next? e t = some (w', t')) : RankLess w'.rank w.rank := by
  simp only [next?] at h
  split at h
  · cases h
  · split at h
    next hm =>
      cases h
      exact rankLess_of_moveNow hm
    · split at h
      · simpa using rankLess_of_moveNow h
      · cases h

instance : WellFoundedRelation (Nat × List (Nat × Nat × Nat)) := ⟨RankLess, wellFounded_rankLess⟩

/-- Go on until all runs have come to an end or nothing can move any more. -/
def settle (e : Engine) (w : World) (t : Turns) : World :=
  match h : w.next? e t with
  | some (w', t') =>
      have : RankLess w'.rank w.rank := rankLess_of_next h
      settle e w' t'
  | none => w
termination_by w.rank
decreasing_by exact this

def run (e : Engine) (w : World) : World := w.settle e {}

end World

end Timelock
