import Timelock.Proofs.RunHistory

/-!
# Steps and their events

For one of its runs, a step of a world is a move of the run, a move of one of its tasks, the end of
the run when it is abandoned, or something that goes on elsewhere.  The step adds events of the run
only for tasks that are in flight.
-/

namespace Timelock

namespace World

variable {e : Engine} {r k i : Nat} {u v w : World} {x y : Run} {a : Phase.Advance}
  {l l' : LevelRun} {t : Task} {xs : List Event}

/-- A step of a world as one of its runs takes part in it, with the events that it adds. -/
inductive StepOf (e : Engine) (r : Nat) (x : Run) (v w : World) : Prop
  | elsewhere (xs : List Event) (phase : w.phase? r = some x.phase)
      (events : w.events = xs ++ v.events) (others : ∀ y ∈ xs, y.run ≠ r)
  | run (a : Phase.Advance) (move : v.move? e (.run r) = some w)
      (advance : x.phase.advance? e x.job x.numbers v.now (v.isRunCancelled r) = some a)
      (phase : w.phase? r = some a.phase) (events : w.events = v.events)
  | task (i : Nat) (t : Task) (a : Phase.Advance) (member : x.phase.tasks[i]? = some t)
      (advance : x.phase.advanceTask? e v.now (v.isRunCancelled r) i = some a)
      (phase : w.phase? r = some a.phase)
      (events : w.events = (runEvents r i t a.incidents).reverse ++ v.events)
  | abandon (unsettled : x.phase.isSettled = false) (phase : w.phase? r = some .abandoned)
      (events : w.events = (abandonEvents r x.phase).reverse ++ v.events)

theorem events_carryOut (w : World) (r : Nat) (x : Run) (xs : List Event) (a : Phase.Advance) :
    (w.carryOut r x xs a).events = xs.reverse ++ w.events := by
  unfold carryOut
  split <;> rfl

theorem phase?_carryOut (hx : w.runs[r]? = some x) :
    (w.carryOut r x xs a).phase? r = some a.phase := by
  simp [phase?, hx, Run.withPhase]

theorem phase?_carryOut_ne (h : k ≠ r) : (w.carryOut k y xs a).phase? r = w.phase? r := by
  simp [phase?, h]

theorem of_mem_runEvents {is : List Incident} {z : Event} (h : z ∈ runEvents r i t is) :
    z.run = r ∧ z.task = i ∧ z.analyzer = t.analyzer.id := by
  obtain ⟨incident, _, rfl⟩ := List.mem_map.1 h
  exact ⟨rfl, rfl, rfl⟩

theorem of_mem_abandonEvents {φ : Phase} {z : Event} (h : z ∈ abandonEvents r φ) :
    z.run = r ∧ z.incident = .ended ∧
      ∃ t, φ.tasks[z.task]? = some t ∧ z.analyzer = t.analyzer.id := by
  obtain ⟨⟨t, i⟩, ht, hz⟩ := List.mem_filterMap.1 h
  simp only [Option.ite_none_right_eq_some, Option.some.injEq] at hz
  obtain ⟨_, rfl⟩ := hz
  exact ⟨rfl, rfl, t, List.mem_zipIdx_iff_getElem?.1 ht, rfl⟩

theorem stepOf_act (hx : v.runs[r]? = some x) (a : AlarmAction) {w : World}
    (hruns : w.runs = (v.act a).runs) (hevents : w.events = (v.act a).events) :
    StepOf e r x v w := by
  have hphase : v.phase? r = some x.phase := phase?_eq_some_iff.2 ⟨x, hx, rfl⟩
  have hkept : w.runs = v.runs → w.events = v.events → StepOf e r x v w := fun hr he ↦
    .elsewhere [] (by rw [phase?, hr]; exact hphase) he (by simp)
  cases a with
  | cancel token => exact hkept hruns hevents
  | abandon k =>
      simp only [act] at hruns hevents
      split at hruns
      next hk =>
        rw [hk] at hevents
        exact hkept hruns hevents
      next z hz =>
        simp only [hz] at hevents
        split at hruns
        next hsettled =>
          rw [if_pos hsettled] at hevents
          exact hkept hruns hevents
        next hsettled =>
          rw [if_neg hsettled] at hevents
          by_cases hkr : k = r
          · subst hkr
            obtain rfl : z = x := Option.some.inj (hz.symm.trans hx)
            refine .abandon (by simpa using hsettled) ?_ hevents
            simp [phase?, hruns, setPhase, hx, Run.withPhase]
          · refine .elsewhere _ ?_ hevents fun y hy hrun ↦ hkr ?_
            · rw [← hphase, phase?, phase?, hruns]
              simp [setPhase, hkr]
            · rw [← hrun, (of_mem_abandonEvents (List.mem_reverse.1 hy)).1]

theorem stepOf_step (h : Step e v w) (hx : v.runs[r]? = some x) : StepOf e r x v w := by
  have hphase : v.phase? r = some x.phase := phase?_eq_some_iff.2 ⟨x, hx, rfl⟩
  have hcancelled := isRunCancelled_of_getElem? hx
  cases h with
  | wait due hidle hdue => exact .elsewhere [] hphase rfl (by simp)
  | move y _ hm =>
      cases y with
      | run k =>
          obtain ⟨z, a, hz, ha, rfl⟩ := moveRun?_eq_some hm
          have hevents := events_carryOut v k z [] a
          by_cases hk : k = r
          · subst hk
            obtain rfl : z = x := Option.some.inj (hz.symm.trans hx)
            exact .run a hm (hcancelled ▸ ha) (phase?_carryOut hx) hevents
          · exact .elsewhere [] ((phase?_carryOut_ne hk).trans hphase) hevents (by simp)
      | task k i =>
          obtain ⟨z, a, t, hz, ha, ht, rfl⟩ := moveTask?_eq_some hm
          have hevents := events_carryOut v k z (runEvents k i t a.incidents) a
          by_cases hk : k = r
          · subst hk
            obtain rfl : z = x := Option.some.inj (hz.symm.trans hx)
            exact .task i t a ht (hcancelled ▸ ha) (phase?_carryOut hx) hevents
          · refine .elsewhere _ ((phase?_carryOut_ne hk).trans hphase) hevents ?_
            intro y hy hrun
            exact hk ((of_mem_runEvents (List.mem_reverse.1 hy)).1 ▸ hrun)
      | alarm k =>
          obtain ⟨a, rfl⟩ := moveAlarm?_eq_some hm
          exact stepOf_act hx a rfl rfl

/-- A step adds events of a run only for tasks in flight. -/
theorem exists_tasks_of_new_events (h : Step e v w) (hx : v.runs[r]? = some x) :
    ∃ ys, w.events = ys ++ v.events ∧ ∀ y ∈ ys, y.run = r →
      ∃ t, x.phase.tasks[y.task]? = some t ∧ y.analyzer = t.analyzer.id := by
  cases stepOf_step h hx with
  | elsewhere ys _ hevents hothers =>
      exact ⟨ys, hevents, fun y hy hrun ↦ absurd hrun (hothers y hy)⟩
  | run a _ _ _ hevents => exact ⟨[], hevents, by simp⟩
  | task i t a ht _ _ hevents =>
      refine ⟨_, hevents, fun y hy _ ↦ ?_⟩
      obtain ⟨_, rfl, hid⟩ := of_mem_runEvents (List.mem_reverse.1 hy)
      exact ⟨t, ht, hid⟩
  | abandon _ _ hevents =>
      exact ⟨_, hevents, fun y hy _ ↦ (of_mem_abandonEvents (List.mem_reverse.1 hy)).2.2⟩

end World

end Timelock
