import Timelock.Proofs.RunResult

/-!
# Sessions

In a session of an engine runs are launched, cancelled and abandoned at any time, and whatever can
move moves in any order.  A run that is neither cancelled nor abandoned goes through the session as
it could go alone, under a clock that may lag behind while the run has nothing to do.
-/

namespace Timelock

variable {e e' : Engine} {k : Conduct} {j : Job} {numbers : TaskNumbers} {r r' i now now' : Nat}
  {u v w s z : World} {x y : Run} {φ ψ : Phase} {l : LevelRun} {t : Task} {n : UInt64}

namespace World

inductive SessionStep (e : Engine) (w : World) : World → Prop
  | move (x : Thread) (w' : World) (h : w.move? e x = some w') : SessionStep e w w'
  /-- Time passes while nothing can move, and not beyond the moment at which something can. -/
  | pass (now : Nat) (later : w.now ≤ now) (idle : ∀ x, w.canMove e x = false)
      (early : ∀ due ∈ w.dues e, now ≤ due) : SessionStep e w (w.waitUntil now)
  | launch (j : Job) (token : Nat) (numbers : TaskNumbers) :
      SessionStep e w { w with runs := w.runs ++ [⟨j, token, numbers, .starting⟩] }
  | act (a : AlarmAction) : SessionStep e w (w.act a)

abbrev Session (e : Engine) : World → World → Prop := Relation.ReflTransGen (SessionStep e)

/-- A world with nothing but one run. -/
def alone (j : Job) (token : Nat) (numbers : TaskNumbers) (now : Nat) : World :=
  { now := now, runs := [⟨j, token, numbers, .starting⟩] }

/-- Whatever happens in a world can happen in a session. -/
theorem SessionStep.of_step (h : Step e v w) : SessionStep e v w := by
  cases h with
  | move y _ hm => exact .move y w hm
  | wait due hidle hdue =>
      refine .pass due ?_ hidle fun d hd ↦ le_of_earliest? hdue hd
      by_contra hearly
      obtain ⟨y, hy⟩ := exists_canMove_of_mem_dues (mem_of_earliest? hdue) (Nat.le_of_not_le hearly)
      simp [hidle y] at hy

theorem session_of_steps (h : Steps e v w) : Session e v w := h.lift id fun _ _ ↦ .of_step

/-! ## Steps of a session as seen by one run -/

theorem exists_follows_of_session (h : SessionStep e v w) (hx : v.runs[r]? = some x) :
    ∃ y, w.runs[r]? = some y ∧ Follows e v x y := by
  cases h with
  | move y _ hm => exact exists_follows_of_step (.move y w hm) hx
  | pass => exact ⟨x, hx, .refl x⟩
  | launch =>
      refine ⟨x, ?_, .refl x⟩
      rw [List.getElem?_append_left (List.getElem?_eq_some_iff.1 hx).1, hx]
  | act a => exact exists_follows_of_act hx a

theorem stepOf_session (h : SessionStep e v w) (hx : v.runs[r]? = some x) : StepOf e r x v w := by
  have hφ : v.phase? r = some x.phase := phase?_eq_some_iff.2 ⟨x, hx, rfl⟩
  cases h with
  | move y _ hm => exact stepOf_step (.move y w hm) hx
  | pass => exact .elsewhere [] hφ rfl (by simp)
  | launch =>
      refine .elsewhere [] ?_ rfl (by simp)
      rw [phase?, List.getElem?_append_left (List.getElem?_eq_some_iff.1 hx).1, hx]
      rfl
  | act a => exact stepOf_act hx a rfl rfl

theorem isCancelled_of_session {token : Nat} (h : Session e v w)
    (hc : v.isCancelled token = true) : w.isCancelled token = true := by
  induction h with
  | refl => exact hc
  | tail _ hstep ih =>
      cases hstep with
      | move y _ hm => exact isCancelled_of_step (.move y _ hm) ih
      | pass | launch => exact ih
      | act a => exact isCancelled_act a ih

theorem exists_run_of_session (h : Session e v w) (hx : v.runs[r]? = some x) :
    ∃ y, w.runs[r]? = some y ∧ y.job = x.job ∧ y.token = x.token ∧ y.numbers = x.numbers := by
  induction h with
  | refl => exact ⟨x, hx, rfl, rfl, rfl⟩
  | tail _ hstep ih =>
      obtain ⟨y, hy, hjob, htoken, hnumbers⟩ := ih
      obtain ⟨z, hz, hfollows⟩ := exists_follows_of_session hstep hy
      exact ⟨z, hz, hfollows.job.trans hjob, hfollows.token.trans htoken,
        hfollows.numbers.trans hnumbers⟩

end World

/-! ## What becomes possible with time was due -/

namespace Position

variable {α : Type} {q : Position α} {deadline : Option Nat}

theorem exists_due_of_move? (h : q.move? ⟨now, deadline, false⟩ = none)
    (h' : (q.move? ⟨now', deadline, false⟩).isSome) : ∃ due, q.due? = some due ∧ due ≤ now' := by
  cases q with
  | ready a =>
      have hready := isSome_move?_ready ⟨now, deadline, false⟩ a
      simp [h] at hready
  | asleep due a => exact ⟨due, rfl, by simpa [move?] using h'⟩
  | awaiting a => simp [move?] at h'

end Position

namespace Task

theorem exists_due_of_advance? {timeoutMs : Nat} {free : Bool}
    (h : t.advance? timeoutMs now false free = none)
    (h' : (t.advance? timeoutMs now' false free).isSome) :
    ∃ due, t.due? timeoutMs = some due ∧ due ≤ now' := by
  cases hs : t.state with
  | waiting => simp_all [advance?]
  | ended result ms => simp [advance?, hs] at h'
  | running started q =>
      simp only [advance?, hs] at h h'
      simp only [due?, hs]
      have hm : q.move? ⟨now, some (started + timeoutMs), false⟩ = none := by
        split at h <;> simp_all
      cases hm' : q.move? ⟨now', some (started + timeoutMs), false⟩ with
      | some m =>
          obtain ⟨due, hdue, hle⟩ := Position.exists_due_of_move? hm (by rw [hm']; rfl)
          exact ⟨_, by rw [hdue], (Nat.min_le_left _ _).trans hle⟩
      | none =>
          have hexpired : started + timeoutMs ≤ now' := by
            simp only [hm', expire?] at h'
            split at h' <;> simp_all
          cases hdue : q.due? with
          | none => exact ⟨_, rfl, hexpired⟩
          | some due => exact ⟨_, rfl, (Nat.min_le_right _ _).trans hexpired⟩

end Task

namespace Phase

theorem exists_due_of_advance? (h : φ.advance? e j numbers now false = none)
    (h' : (φ.advance? e j numbers now' false).isSome) : ∃ due ∈ φ.dues e, due ≤ now' := by
  have hcall : ∀ {α : Type} {stage : Stage} {q : Position α} {stay : Position α → Phase}
      {leave : α → Phase}, callMove stage now false q stay leave = none →
      (callMove stage now' false q stay leave).isSome → ∃ due ∈ q.due?.toList, due ≤ now' := by
    intro α stage q stay leave hq hq'
    simp only [callMove, Bool.and_false, Bool.false_eq_true, if_false] at hq hq'
    have hheld : q.move? ⟨now, none, false⟩ = none := by split at hq <;> simp_all
    have hfree : (q.move? ⟨now', none, false⟩).isSome := by split at hq' <;> simp_all
    obtain ⟨due, hdue, hle⟩ := Position.exists_due_of_move? hheld hfree
    exact ⟨due, by simp [hdue], hle⟩
  cases φ with
  | loading plan q => exact hcall h h'
  | decoding plan environment q => exact hcall h h'
  | analyzing c p l? => cases l? <;> simp_all [advance?]
  | starting | planned | loaded | finished | crashed | abandoned => simp_all [advance?]

theorem exists_task_of_advanceTask? {cancelled : Bool} {a : Advance}
    (h : φ.advanceTask? e now cancelled i = some a) : ∃ t, φ.tasks[i]? = some t := by
  obtain ⟨c, p, l, _, rfl, _⟩ := advanceTask?_eq_some h
  cases ht : l.tasks[i]? with
  | none => simp [advanceTask?, ht] at h
  | some t => exact ⟨t, ht⟩

theorem exists_due_of_advanceTask? (h : φ.advanceTask? e now false i = none)
    (h' : (φ.advanceTask? e now' false i).isSome) : ∃ due ∈ φ.dues e, due ≤ now' := by
  obtain ⟨a, ha⟩ := Option.isSome_iff_exists.1 h'
  obtain ⟨c, p, l, _, rfl, _⟩ := advanceTask?_eq_some ha
  simp only [advanceTask?] at h h'
  cases ht : l.tasks[i]? with
  | none => simp [ht] at h'
  | some t =>
      simp only [ht] at h h'
      have hheld : t.advance? e.timeoutMs now false (l.hasFreePermit e.config.maxConcurrency) =
          none := by split at h <;> simp_all
      have hfree : (t.advance? e.timeoutMs now' false
          (l.hasFreePermit e.config.maxConcurrency)).isSome := by split at h' <;> simp_all
      obtain ⟨due, hdue, hle⟩ := Task.exists_due_of_advance? hheld hfree
      exact ⟨due, List.mem_filterMap.2 ⟨t, List.mem_of_getElem? ht, hdue⟩, hle⟩

end Phase

namespace World

/-! ## A run alone behind a session -/

/-- A world with one run that is in a session as well.  Its clock may lag behind, but then there is
nothing to do before the time of the session. -/
structure Lagging (e : Engine) (v : World) (x : Run) (s : World) : Prop where
  runs : s.runs = [x]
  alarms : s.alarms = []
  uncancelled : s.isCancelled x.token = false
  now_le : s.now ≤ v.now
  behind : s.now < v.now → (∀ y, s.canMove e y = false) ∧ ∀ due ∈ s.dues e, v.now ≤ due

theorem dues_of_single (hruns : s.runs = [x]) (halarms : s.alarms = []) :
    s.dues e = x.phase.dues e := by
  simp [dues, hruns, halarms]

/-- The session adds no obstacle to the run that is not there when it is alone. -/
theorem canMove_single (hruns : s.runs = [x]) (halarms : s.alarms = [])
    (hs : s.isCancelled x.token = false) (hv : v.isCancelled x.token = false)
    (hx : v.runs[r]? = some x) (hnow : s.now = v.now) (hidle : ∀ y, v.canMove e y = false)
    (y : Thread) : s.canMove e y = false := by
  cases y with
  | run k =>
      cases k with
      | zero =>
          have hrun := hidle (.run r)
          simp only [canMove, move?, moveRun?, hx, hv] at hrun
          simp only [canMove, move?, moveRun?, hruns, List.getElem?_cons_zero, hs, hnow]
          split at hrun <;> simp_all
      | succ k => simp [canMove, move?, moveRun?, hruns]
  | task k i =>
      cases k with
      | zero =>
          have htask := hidle (.task r i)
          simp only [canMove, move?, moveTask?, hx, hv] at htask
          simp only [canMove, move?, moveTask?, hruns, List.getElem?_cons_zero, hs, hnow]
          cases ha : x.phase.advanceTask? e v.now false i with
          | none => rfl
          | some a => cases ht : x.phase.tasks[i]? <;> simp_all
      | succ k => simp [canMove, move?, moveTask?, hruns]
  | alarm k => simp [canMove, move?, moveAlarm?, halarms]

namespace Lagging

theorem of_phase_eq (h : Lagging e v x s) (hnow : w.now = v.now) : Lagging e w x s :=
  ⟨h.runs, h.alarms, h.uncancelled, hnow ▸ h.now_le, hnow ▸ h.behind⟩

theorem pass (h : Lagging e v x s) (hx : v.runs[r]? = some x)
    (hv : v.isCancelled x.token = false) (hlater : v.now ≤ now)
    (hidle : ∀ y, v.canMove e y = false) (hearly : ∀ due ∈ v.dues e, now ≤ due) :
    Lagging e (v.waitUntil now) x s where
  runs := h.runs
  alarms := h.alarms
  uncancelled := h.uncancelled
  now_le := h.now_le.trans hlater
  behind _ := by
    constructor
    · rcases Nat.lt_or_eq_of_le h.now_le with hlt | heq
      · exact (h.behind hlt).1
      · exact canMove_single h.runs h.alarms h.uncancelled hv hx heq hidle
    · intro due hdue
      rw [dues_of_single h.runs h.alarms] at hdue
      exact hearly due
        (List.mem_append_left _ (List.mem_flatMap.2 ⟨x, List.mem_of_getElem? hx, hdue⟩))

/-- The clock catches up when the run can move again. -/
theorem exists_catchUp (h : Lagging e v x s)
    (hmove : s.now < v.now → ∃ due ∈ x.phase.dues e, due ≤ v.now) :
    ∃ s', Steps e s s' ∧ Lagging e v x s' ∧ s'.now = v.now := by
  rcases Nat.lt_or_eq_of_le h.now_le with hlt | heq
  · obtain ⟨hidle, hdues⟩ := h.behind hlt
    obtain ⟨due, hdue, hle⟩ := hmove hlt
    rw [← dues_of_single (e := e) h.runs h.alarms] at hdue
    have hearliest : earliest? (s.dues e) = some v.now := by
      cases hm : earliest? (s.dues e) with
      | none =>
          cases hd : s.dues e with
          | nil => simp [hd] at hdue
          | cons d ds => simp [hd, earliest?] at hm
      | some m =>
          have hmin := le_of_earliest? hm hdue
          have hlate := hdues m (mem_of_earliest? hm)
          exact congrArg some (Nat.le_antisymm (hmin.trans hle) hlate)
    refine ⟨s.waitUntil v.now, .single (.wait v.now hidle hearliest), ?_, rfl⟩
    exact ⟨h.runs, h.alarms, h.uncancelled, le_refl _, fun hlt ↦ absurd hlt (Nat.lt_irrefl _)⟩
  · exact ⟨s, .refl, h, heq⟩

theorem carryOut (h : Lagging e v x s) {events : List Event} {a : Phase.Advance}
    (hquiet : a.cancelsRun = false) (hnow : s.now = w.now) :
    Lagging e w (x.withPhase a.phase) (s.carryOut 0 x events a) where
  runs := by simp [h.runs]
  alarms := by simp [h.alarms]
  uncancelled := by
    have hsame : (s.carryOut 0 x events a).cancelled = s.cancelled := by
      simp [World.carryOut, hquiet, setPhase]
    rw [isCancelled, hsame]
    exact h.uncancelled
  now_le := by simp [hnow]
  behind hlt := by simp [hnow] at hlt

/-- A move of the run itself is a move of the run alone. -/
theorem exists_run (h : Lagging e v x s) {a : Phase.Advance}
    (ha : x.phase.advance? e x.job x.numbers v.now false = some a) (hquiet : a.cancelsRun = false)
    (hnow : w.now = v.now) : ∃ s', Steps e s s' ∧ Lagging e w (x.withPhase a.phase) s' := by
  obtain ⟨s', hsteps, h', hnow'⟩ := h.exists_catchUp fun hlt ↦ by
    have hidle := (h.behind hlt).1 (.run 0)
    simp only [canMove, move?, moveRun?, h.runs, List.getElem?_cons_zero, h.uncancelled] at hidle
    have hheld : x.phase.advance? e x.job x.numbers s.now false = none := by
      split at hidle <;> simp_all
    exact Phase.exists_due_of_advance? hheld (by rw [ha]; rfl)
  have hmove : s'.move? e (.run 0) = some (s'.carryOut 0 x [] a) := by
    simp [move?, moveRun?, h'.runs, h'.uncancelled, hnow', ha]
  refine ⟨_, hsteps.tail (.move _ _ hmove), h'.carryOut hquiet ?_⟩
  rw [hnow', hnow]

theorem exists_task (h : Lagging e v x s) {a : Phase.Advance}
    (ha : x.phase.advanceTask? e v.now false i = some a) (ht : x.phase.tasks[i]? = some t)
    (hquiet : a.cancelsRun = false) (hnow : w.now = v.now) :
    ∃ s', Steps e s s' ∧ Lagging e w (x.withPhase a.phase) s' := by
  obtain ⟨s', hsteps, h', hnow'⟩ := h.exists_catchUp fun hlt ↦ by
    have hidle := (h.behind hlt).1 (.task 0 i)
    simp only [canMove, move?, moveTask?, h.runs, List.getElem?_cons_zero, h.uncancelled,
      ht] at hidle
    have hheld : x.phase.advanceTask? e s.now false i = none := by split at hidle <;> simp_all
    exact Phase.exists_due_of_advanceTask? hheld (by rw [ha]; rfl)
  have hmove : s'.move? e (.task 0 i) = some (s'.carryOut 0 x (runEvents 0 i t a.incidents) a) := by
    simp [move?, moveTask?, h'.runs, h'.uncancelled, hnow', ha, ht]
  refine ⟨_, hsteps.tail (.move _ _ hmove), h'.carryOut hquiet ?_⟩
  rw [hnow', hnow]

end Lagging

theorem isCancelled_carryOut_self {a : Phase.Advance} (events : List Event)
    (h : a.cancelsRun = true) : (w.carryOut r x events a).isCancelled x.token = true := by
  simp [carryOut, h, isCancelled, cancel, setPhase]

theorem act_cases (hx : v.runs[r]? = some x) (a : AlarmAction) :
    (v.act a).runs[r]? = some x ∨ (v.act a).runs[r]? = some (x.withPhase .abandoned) := by
  cases a with
  | cancel token => exact .inl hx
  | abandon k =>
      simp only [act]
      split
      · exact .inl hx
      next z hz =>
        split
        · exact .inl hx
        · by_cases hk : k = r
          · exact .inr (by simp [setPhase, hk, hx])
          · exact .inl (by simp [setPhase, hk, hx])

/-- Every step of a session leaves the run alone behind it, or abandons it. -/
theorem Lagging.exists_step (h : Lagging e v x s) (hx : v.runs[r]? = some x)
    (hstep : SessionStep e v w) (hc : w.isCancelled x.token = false) :
    ∃ y, w.runs[r]? = some y ∧ y.job = x.job ∧ y.token = x.token ∧
      (y.phase = .abandoned ∨ ∃ s', Steps e s s' ∧ Lagging e w y s') := by
  have hv : v.isCancelled x.token = false := by
    cases hv : v.isCancelled x.token with
    | false => rfl
    | true => rw [isCancelled_of_session (.single hstep) hv] at hc; exact hc
  have hact : ∀ a : AlarmAction, w.runs = (v.act a).runs → w.now = v.now →
      ∃ y, w.runs[r]? = some y ∧ y.job = x.job ∧ y.token = x.token ∧
        (y.phase = .abandoned ∨ ∃ s', Steps e s s' ∧ Lagging e w y s') := by
    intro a hruns hnow
    rcases act_cases hx a with hsame | habandoned
    · exact ⟨x, hruns ▸ hsame, rfl, rfl, .inr ⟨s, .refl, h.of_phase_eq hnow⟩⟩
    · exact ⟨x.withPhase .abandoned, hruns ▸ habandoned, rfl, rfl, .inl rfl⟩
  cases hstep with
  | move y _ hm =>
      rcases move?_eq_some hm with ⟨k, z, a, events, hz, rfl, ha⟩ | ⟨_, a, rfl⟩
      · by_cases hk : k = r
        · subst hk
          obtain rfl : z = x := Option.some.inj (hz.symm.trans hx)
          have hquiet : a.cancelsRun = false := by
            cases hcancels : a.cancelsRun with
            | false => rfl
            | true => rw [isCancelled_carryOut_self events hcancels] at hc; exact hc
          rw [hv] at ha
          refine ⟨z.withPhase a.phase, by simp [hx], rfl, rfl, .inr ?_⟩
          rcases ha with ha | ⟨i, ha⟩
          · exact h.exists_run ha hquiet (now_carryOut ..)
          · obtain ⟨t, ht⟩ := Phase.exists_task_of_advanceTask? ha
            exact h.exists_task ha ht hquiet (now_carryOut ..)
        · exact ⟨x, by simp [hk, hx], rfl, rfl, .inr ⟨s, .refl, h.of_phase_eq (now_carryOut ..)⟩⟩
      · exact hact a rfl (now_act v a)
  | pass now hlater hidle hearly =>
      exact ⟨x, hx, rfl, rfl, .inr ⟨s, .refl, h.pass hx hv hlater hidle hearly⟩⟩
  | launch =>
      refine ⟨x, ?_, rfl, rfl, .inr ⟨s, .refl, h.of_phase_eq rfl⟩⟩
      rw [List.getElem?_append_left (List.getElem?_eq_some_iff.1 hx).1, hx]
  | act a => exact hact a rfl (now_act v a)

/-- A run that is not cancelled in a session has been abandoned, or goes as it can go alone. -/
theorem exists_alone (hx : u.runs[r]? = some x) (hstart : x.phase = .starting)
    (h : Session e u w) (hc : w.isCancelled x.token = false) :
    ∃ y, w.runs[r]? = some y ∧ y.job = x.job ∧ y.token = x.token ∧
      (y.phase = .abandoned ∨
        ∃ s, Steps e (alone x.job x.token x.numbers u.now) s ∧ Lagging e w y s) := by
  induction h with
  | refl =>
      obtain ⟨job, token, numbers, phase⟩ := x
      subst hstart
      refine ⟨_, hx, rfl, rfl, .inr ⟨_, .refl, rfl, rfl, rfl, le_refl _, ?_⟩⟩
      exact fun hlt ↦ absurd hlt (Nat.lt_irrefl _)
  | @tail v w hsession hstep ih =>
      have hv : v.isCancelled x.token = false := by
        cases hv : v.isCancelled x.token with
        | false => rfl
        | true => rw [isCancelled_of_session (.single hstep) hv] at hc; exact hc
      obtain ⟨y, hy, hjob, htoken, habandoned | ⟨s, hsteps, hlagging⟩⟩ := ih hv
      · obtain ⟨z, hz, hfollows⟩ := exists_follows_of_session hstep hy
        refine ⟨z, hz, hfollows.job.trans hjob, hfollows.token.trans htoken, .inl ?_⟩
        rw [hfollows.next.of_settled (by rw [habandoned]; rfl), habandoned]
      · obtain ⟨z, hz, hjob', htoken', hz'⟩ := hlagging.exists_step hy hstep (htoken ▸ hc)
        refine ⟨z, hz, hjob'.trans hjob, htoken'.trans htoken, hz'.imp_right ?_⟩
        rintro ⟨s', hsteps', hlagging'⟩
        exact ⟨s', hsteps.trans hsteps', hlagging'⟩

end World

end Timelock
