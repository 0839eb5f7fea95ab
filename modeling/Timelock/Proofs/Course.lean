import Timelock.Proofs.RunHistory

/-!
# The course of an invocation

What an activity comes to when it is left alone depends on the time at which it starts and on its
timeout, but not on anything else that goes on.  A task of a run that is not cancelled takes the
course of its invocation from the moment of its permit, and is cut off when its time is up.
-/

namespace Timelock

namespace Activity

variable {α : Type}

/-- After how long, and with what, an activity ends that is not cancelled and has gone on for some
time already; `none` when it waits to be cancelled. -/
def course (timeoutMs started : Nat) : Activity α → Nat → Option (Nat × α)
  | .done result, elapsed =>
      some (elapsed, result ⟨started + elapsed, some (started + timeoutMs), false⟩)
  | .sleep ms next, elapsed => next.course timeoutMs started (elapsed + ms)
  | .awaitCancel _, _ => none
  | .cancelRun next, elapsed => next.course timeoutMs started elapsed
  | .branch test yes no, elapsed =>
      if test ⟨started + elapsed, some (started + timeoutMs), false⟩ then
        yes.course timeoutMs started elapsed
      else no.course timeoutMs started elapsed
  | .note _ next, elapsed => next.course timeoutMs started elapsed

theorem le_of_course {timeoutMs started elapsed total : Nat} {a : Activity α} {v : α}
    (h : a.course timeoutMs started elapsed = some (total, v)) : elapsed ≤ total := by
  induction a generalizing elapsed with
  | done result =>
      simp only [course, Option.some.injEq, Prod.mk.injEq] at h
      exact h.1.le
  | sleep ms next ih => exact Nat.le_of_add_right_le (ih h)
  | awaitCancel next ih => cases h
  | cancelRun next ih => exact ih h
  | branch test yes no ihy ihn =>
      simp only [course] at h
      split at h
      · exact ihy h
      · exact ihn h
  | note mark next ih => exact ih h

end Activity

namespace Task

def resultOf : Option Verdict → TaskResult
  | none => .skipped
  | some (.answered (.ok as)) => .annotated as
  | some (.answered (.error x)) => .failed x.text
  | some (.panicked message) => .panicked message

/-- The time of a panic is not taken. -/
def concluded (elapsedMs : Nat) (v : Option Verdict) : TaskResult × Nat :=
  match v with
  | some (.panicked _) => (resultOf v, 0)
  | _ => (resultOf v, elapsedMs)

theorem state_conclude (elapsedMs : Nat) (v : Option Verdict) :
    (conclude elapsedMs v).state =
      .ended (concluded elapsedMs v).1 (concluded elapsedMs v).2 := by
  rcases v with _ | ⟨_ | _⟩ | _ <;> rfl

/-- A moment at which a task ends: with the verdict of its analyzer, or when its time is up. -/
def EndsWith (timeoutMs now : Nat) (cancelled : Bool) (t : Task) (result : TaskResult) : Prop :=
  ∃ started q, t.state = .running started q ∧
    let move? := q.move? ⟨now, some (started + timeoutMs), cancelled⟩
    (∃ v, move? = some (.done v) ∧ result = resultOf v) ∨
      (move? = none ∧ started + timeoutMs ≤ now ∧ result = .timedOut)

theorem endsWith_of_advance? {timeoutMs now ms : Nat} {cancelled free : Bool} {t : Task}
    {b : Advance} {result : TaskResult} (h : t.advance? timeoutMs now cancelled free = some b)
    (hb : b.state = .ended result ms) : t.EndsWith timeoutMs now cancelled result := by
  unfold advance? at h
  split at h
  · simp only [Option.ite_none_right_eq_some, Option.some.injEq] at h
    obtain ⟨_, rfl⟩ := h
    cases hb
  next started q hs =>
    refine ⟨started, q, hs, ?_⟩
    split at h
    · cases h
      cases hb
    · cases h
      cases hb
    · cases h
      cases hb
    next v hm =>
      cases h
      refine .inl ⟨v, hm, ?_⟩
      rcases v with _ | ⟨_ | _⟩ | _ <;> cases hb <;> rfl
    next hm =>
      simp only [expire?, Option.ite_none_right_eq_some, Option.some.injEq] at h
      obtain ⟨hdue, rfl⟩ := h
      cases hb
      exact .inr ⟨hm, hdue, rfl⟩
  · cases h

def ending (timeoutMs : Nat) : Option (Nat × Option Verdict) → TaskResult × Nat
  | some (total, v) => if total ≤ timeoutMs then concluded total v else (.timedOut, timeoutMs)
  | none => (.timedOut, timeoutMs)

end Task

namespace Position

variable {α : Type} {timeoutMs started now : Nat} {foretold : Option (Nat × α)}

/-- A position from which an activity takes a course that was foretold. -/
def OnCourse (timeoutMs started now : Nat) (foretold : Option (Nat × α)) : Position α → Prop
  | .ready a => ∃ elapsed, now = started + elapsed ∧ a.course timeoutMs started elapsed = foretold
  | .asleep due a => ∃ elapsed, due = started + elapsed ∧ now ≤ due ∧
      a.course timeoutMs started elapsed = foretold
  | .awaiting _ => foretold = none

theorem OnCourse.move {p q : Position α} {effect : Option Effect}
    (h : p.OnCourse timeoutMs started now foretold)
    (hm : p.move? ⟨now, some (started + timeoutMs), false⟩ = some (.on q effect)) :
    q.OnCourse timeoutMs started now foretold := by
  cases p with
  | ready a =>
      obtain ⟨elapsed, rfl, hcourse⟩ := h
      cases a with
      | done result => cases hm
      | sleep ms next =>
          cases hm
          split
          next hms => exact ⟨elapsed, rfl, by simpa [Activity.course, hms] using hcourse⟩
          next => exact ⟨elapsed + ms, Nat.add_assoc _ _ _, Nat.le_add_right _ _, hcourse⟩
      | awaitCancel next =>
          cases hm
          exact hcourse.symm
      | cancelRun next =>
          cases hm
          exact ⟨elapsed, rfl, hcourse⟩
      | branch test yes no =>
          cases hm
          refine ⟨elapsed, rfl, ?_⟩
          simp only [Activity.course] at hcourse
          split <;> simp_all
      | note mark next =>
          cases hm
          exact ⟨elapsed, rfl, hcourse⟩
  | asleep due a =>
      obtain ⟨elapsed, rfl, hnow, hcourse⟩ := h
      simp only [move?, Option.ite_none_right_eq_some, Option.some.injEq, Move.on.injEq] at hm
      obtain ⟨hdue, rfl, _⟩ := hm
      exact ⟨elapsed, Nat.le_antisymm hnow hdue, hcourse⟩
  | awaiting a => simp [move?] at hm

theorem OnCourse.done {p : Position α} {v : α} (h : p.OnCourse timeoutMs started now foretold)
    (hm : p.move? ⟨now, some (started + timeoutMs), false⟩ = some (.done v)) :
    foretold = some (now - started, v) := by
  cases p with
  | ready a =>
      obtain ⟨elapsed, rfl, hcourse⟩ := h
      cases a with
      | done result =>
          cases hm
          rw [← hcourse, Activity.course, Nat.add_sub_cancel_left]
      | sleep | awaitCancel | cancelRun | branch | note => cases hm
  | asleep due a => simp [move?] at hm
  | awaiting a => simp [move?] at hm

theorem OnCourse.heldUp {p : Position α} {total : Nat} {v : α}
    (h : p.OnCourse timeoutMs started now foretold)
    (hm : p.move? ⟨now, some (started + timeoutMs), false⟩ = none)
    (hforetold : foretold = some (total, v)) : now < started + total := by
  cases p with
  | ready a => cases a <;> simp [move?] at hm
  | asleep due a =>
      obtain ⟨elapsed, rfl, hnow, hcourse⟩ := h
      have hlt : now < started + elapsed := by simpa [move?] using hm
      exact Nat.lt_of_lt_of_le hlt
        (Nat.add_le_add_left (Activity.le_of_course (hcourse.trans hforetold)) started)
  | awaiting a => cases h.symm.trans hforetold

theorem isSome_move?_ready (m : Moment) (a : Activity α) : ((ready a).move? m).isSome := by
  cases a <;> rfl

end Position

namespace Task

variable {timeoutMs now now' : Nat} {t : Task}

/-- A task that takes the course of its invocation, from the moment of its permit. -/
def OnCourse (timeoutMs now : Nat) (t : Task) : Prop :=
  match t.state with
  | .waiting => True
  | .running started p => now ≤ started + timeoutMs ∧
      p.OnCourse timeoutMs started now (t.invocation.course timeoutMs started 0)
  | .ended result ms =>
      ∃ started, (result, ms) = ending timeoutMs (t.invocation.course timeoutMs started 0)

def EndsByItself (timeoutMs : Nat) (t : Task) : Prop :=
  ∃ started result ms, t.state = .ended result ms ∧
    (result, ms) = ending timeoutMs (t.invocation.course timeoutMs started 0)

/-- A move of a task in a run that is not cancelled stays on course. -/
theorem OnCourse.advance {free : Bool} {b : Advance} (h : t.OnCourse timeoutMs now)
    (hb : t.advance? timeoutMs now false free = some b) :
    { t with state := b.state }.OnCourse timeoutMs now := by
  unfold OnCourse at h
  unfold advance? at hb
  split at hb
  next hs =>
    simp only [Option.ite_none_right_eq_some, Option.some.injEq] at hb
    obtain ⟨_, rfl⟩ := hb
    exact ⟨Nat.le_add_right _ _, 0, rfl, rfl⟩
  next started p hs =>
    simp only [hs] at h
    obtain ⟨hnow, hp⟩ := h
    split at hb
    next q hm =>
      cases hb
      exact ⟨hnow, hp.move hm⟩
    next q m hm =>
      cases hb
      exact ⟨hnow, hp.move hm⟩
    next q hm =>
      cases hb
      exact ⟨hnow, hp.move hm⟩
    next v hm =>
      cases hb
      have hforetold := hp.done hm
      have hle : now - started ≤ timeoutMs := by omega
      simp only [OnCourse, state_conclude]
      exact ⟨started, by rw [hforetold, ending, if_pos hle]⟩
    next hm =>
      simp only [expire?, Option.ite_none_right_eq_some, Option.some.injEq] at hb
      obtain ⟨hdue, rfl⟩ := hb
      have helapsed : now - started = timeoutMs := by omega
      refine ⟨started, ?_⟩
      cases hcourse : t.invocation.course timeoutMs started 0 with
      | none => rw [ending, helapsed]
      | some y =>
          obtain ⟨total, v⟩ := y
          have hlt := hp.heldUp hm hcourse
          have hlate : ¬ total ≤ timeoutMs := by omega
          rw [ending, if_neg hlate, helapsed]
  next => cases hb

/-- Time may pass until the task can move by itself. -/
theorem OnCourse.wait {free : Bool} (h : t.OnCourse timeoutMs now)
    (hidle : t.advance? timeoutMs now false free = none)
    (hdue : ∀ due, t.due? timeoutMs = some due → now' ≤ due) : t.OnCourse timeoutMs now' := by
  unfold OnCourse at h ⊢
  unfold due? at hdue
  unfold advance? at hidle
  cases hs : t.state with
  | waiting => trivial
  | running started p =>
      simp only [hs] at h hdue hidle ⊢
      cases p with
      | ready a =>
          -- A task that is ready can move, so no time passes.
          have hready := Position.isSome_move?_ready ⟨now, some (started + timeoutMs), false⟩ a
          split at hidle <;> simp_all
      | asleep due a =>
          have hle := hdue _ rfl
          obtain ⟨elapsed, rfl, _, hcourse⟩ := h.2
          exact ⟨by omega, elapsed, rfl, by omega, hcourse⟩
      | awaiting a => exact ⟨hdue _ rfl, h.2⟩
  | ended result ms => simpa [hs] using h

end Task

end Timelock
