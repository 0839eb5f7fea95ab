import Timelock.Proofs.Completion

/-!
# Worlds come to rest

A move lowers the rank of a world, and time passes only to a moment at which something can move
again.  So no world goes on for ever.  A run that has not ended goes on, unless its loader or its
decoder waits for a cancellation that does not come.
-/

namespace Timelock

variable {e : Engine} {r i : Nat} {j : Job} {numbers : TaskNumbers} {u v w : World}
  {now due : Nat} {cancelled free : Bool} {φ : Phase} {x : Run}

/-! ## What is due can move -/

namespace Position

theorem isSome_move?_of_due {α : Type} {p : Position α} {m : Moment} (h : p.due? = some due)
    (hm : due ≤ m.now) : (p.move? m).isSome := by
  cases p with
  | ready a => exact isSome_move?_ready m a
  | asleep d a =>
      obtain rfl : d = due := Option.some.inj h
      simp [move?, hm]
  | awaiting a => cases h

end Position

namespace Task

theorem isSome_advance?_of_due (cancelled free : Bool) {t : Task} {timeoutMs : Nat}
    (h : t.due? timeoutMs = some due) (hnow : due ≤ now) :
    (t.advance? timeoutMs now cancelled free).isSome := by
  cases hs : t.state with
  | waiting => simp [due?, hs] at h
  | ended result ms => simp [due?, hs] at h
  | running started p =>
      simp only [advance?, hs]
      cases hm : p.move? ⟨now, some (started + timeoutMs), cancelled⟩ with
      | some move => rcases move with ⟨q, _ | _ | _⟩ | v <;> rfl
      | none =>
          -- A position that does not move is not due, so the deadline is.
          have hexpired : started + timeoutMs ≤ now := by
            simp only [due?, hs] at h
            cases hd : p.due? with
            | none =>
                rw [hd] at h
                exact Option.some.inj h ▸ hnow
            | some d =>
                rw [hd] at h
                have hmin : min d (started + timeoutMs) = due := Option.some.inj h
                have hlate : ¬ d ≤ now := fun hle ↦ by
                  have hmoves := Position.isSome_move?_of_due hd
                    (m := ⟨now, some (started + timeoutMs), cancelled⟩) hle
                  simp [hm] at hmoves
                omega
          simp [expire?, hexpired]

end Task

namespace Phase

theorem isSome_callMove_of_due {α : Type} {stage : Stage} {q : Position α}
    {stay : Position α → Phase} {leave : α → Phase} (h : q.due? = some due) (hnow : due ≤ now) :
    (callMove stage now cancelled q stay leave).isSome := by
  unfold callMove
  split
  · rfl
  · obtain ⟨move, hm⟩ := Option.isSome_iff_exists.1
      (Position.isSome_move?_of_due h (m := ⟨now, none, cancelled⟩) hnow)
    rw [hm]
    cases move <;> rfl

theorem exists_advance_of_mem_dues (h : due ∈ φ.dues e) (hnow : due ≤ now) :
    (φ.advance? e j numbers now cancelled).isSome ∨
      ∃ i, (φ.advanceTask? e now cancelled i).isSome ∧ (φ.tasks[i]?).isSome := by
  cases φ with
  | starting => cases h
  | planned plan => cases h
  | loading plan q => exact .inl (isSome_callMove_of_due (Option.mem_toList.1 h) hnow)
  | loaded plan environment => cases h
  | decoding plan environment q =>
      exact .inl (isSome_callMove_of_due (Option.mem_toList.1 h) hnow)
  | analyzing c p l? =>
      cases l? with
      | none => cases h
      | some l =>
          obtain ⟨t, ht, hdue⟩ := List.mem_filterMap.1 h
          obtain ⟨i, hi⟩ := List.mem_iff_getElem?.1 ht
          obtain ⟨b, hb⟩ := Option.isSome_iff_exists.1
            (Task.isSome_advance?_of_due cancelled (l.hasFreePermit e.config.maxConcurrency) hdue
              hnow)
          exact .inr ⟨i, by simp [advanceTask?, hi, hb], by simp [tasks, hi]⟩
  | finished result => cases h
  | crashed => cases h
  | abandoned => cases h

end Phase

namespace World

theorem canMove_run_of_advance (hx : w.runs[r]? = some x)
    (h : (x.phase.advance? e x.job x.numbers w.now (w.isCancelled x.token)).isSome) :
    w.canMove e (.run r) = true := by
  obtain ⟨a, ha⟩ := Option.isSome_iff_exists.1 h
  simp [canMove, move?, moveRun?, hx, ha]

theorem canMove_task_of_advance (hx : w.runs[r]? = some x)
    (h : (x.phase.advanceTask? e w.now (w.isCancelled x.token) i).isSome)
    (ht : (x.phase.tasks[i]?).isSome) : w.canMove e (.task r i) = true := by
  obtain ⟨a, ha⟩ := Option.isSome_iff_exists.1 h
  obtain ⟨t, ht⟩ := Option.isSome_iff_exists.1 ht
  simp [canMove, move?, moveTask?, hx, ha, ht]

/-- Something can move at every moment to which time may pass. -/
theorem exists_canMove_of_mem_dues (h : due ∈ w.dues e) (hnow : due ≤ w.now) :
    ∃ y, w.canMove e y = true := by
  rcases List.mem_append.1 h with h | h
  · obtain ⟨x, hx, hdue⟩ := List.mem_flatMap.1 h
    obtain ⟨r, hr⟩ := List.mem_iff_getElem?.1 hx
    rcases Phase.exists_advance_of_mem_dues hdue hnow with ha | ⟨i, ha, ht⟩
    · exact ⟨_, canMove_run_of_advance hr ha⟩
    · exact ⟨_, canMove_task_of_advance hr ha ht⟩
  · obtain ⟨a, ha, hdue⟩ := List.mem_filterMap.1 h
    obtain ⟨k, hk⟩ := List.mem_iff_getElem?.1 ha
    have hfired : a.fired = false ∧ a.due = due := by simpa using hdue
    refine ⟨.alarm k, ?_⟩
    simp [canMove, move?, moveAlarm?, hk, hfired.1, hfired.2, hnow]

theorem earliest?_eq_min? (ds : List Nat) : earliest? ds = ds.min? := by
  cases ds <;> rfl

theorem mem_of_earliest? {ds : List Nat} (h : earliest? ds = some due) : due ∈ ds := by
  rw [earliest?_eq_min?] at h
  exact List.min?_mem h

theorem exists_canMove_waitUntil (h : earliest? (w.dues e) = some due) :
    ∃ y, (w.waitUntil due).canMove e y = true :=
  exists_canMove_of_mem_dues (w := w.waitUntil due) (mem_of_earliest? h) (Nat.le_refl due)

/-! ## No world goes on for ever -/

theorem wellFounded_step (e : Engine) : WellFounded fun v w ↦ Step e w v := by
  refine ⟨fun w ↦ ?_⟩
  generalize hrank : w.rank = k
  induction k using wellFounded_rankLess.induction generalizing w with
  | _ k ih =>
      subst hrank
      have hmoved : ∀ (v v' : World) y, v.rank = w.rank → v.move? e y = some v' →
          Acc (fun v w ↦ Step e w v) v' := fun v v' y hrank hm ↦
        ih _ (hrank ▸ rankLess_of_move hm) _ rfl
      refine ⟨_, fun v hstep ↦ ?_⟩
      cases hstep with
      | move y _ hm => exact hmoved w _ y rfl hm
      | wait due hidle hdue =>
          -- After time has passed something can move, so the next step is a move.
          obtain ⟨y, hy⟩ := exists_canMove_waitUntil hdue
          refine ⟨_, fun v' hstep ↦ ?_⟩
          cases hstep with
          | move z _ hm => exact hmoved _ _ z (rank_waitUntil w due) hm
          | wait _ hidle' _ => simp [hidle' y] at hy

theorem exists_rest (e : Engine) (w : World) : ∃ v, Steps e w v ∧ ∀ z, ¬ Step e v z := by
  induction w using (wellFounded_step e).induction with
  | _ w ih =>
      by_cases hrest : ∀ z, ¬ Step e w z
      · exact ⟨w, .refl, hrest⟩
      · push Not at hrest
        obtain ⟨z, hz⟩ := hrest
        obtain ⟨v, hsteps, hv⟩ := ih z hz
        exact ⟨v, hsteps.head hz, hv⟩

/-! ## Runs that have not ended go on -/

theorem exists_step_of_canMove {y : Thread} (h : w.canMove e y = true) : ∃ v, Step e w v := by
  obtain ⟨v, hv⟩ := Option.isSome_iff_exists.1 h
  exact ⟨v, .move y v hv⟩

theorem exists_step_of_mem_dues (h : due ∈ w.dues e) : ∃ v, Step e w v := by
  by_cases hidle : ∀ y, w.canMove e y = false
  · cases he : earliest? (w.dues e) with
    | none =>
        cases hds : w.dues e with
        | nil => simp [hds] at h
        | cons d ds => simp [hds, earliest?] at he
    | some d => exact ⟨_, .wait d hidle he⟩
  · push Not at hidle
    obtain ⟨y, hy⟩ := hidle
    exact exists_step_of_canMove (by simpa using hy)

end World

namespace Phase

/-- Whether the loader or the decoder of a run waits to be cancelled. -/
def awaitsCancel : Phase → Bool
  | .loading _ (.awaiting _) | .decoding _ _ (.awaiting _) => true
  | _ => false

/-- A call moves, waits for a moment, or waits to be cancelled. -/
theorem callMove_or_waits {α : Type} (stage : Stage) (now : Nat) (cancelled : Bool)
    (q : Position α) (stay : Position α → Phase) (leave : α → Phase) :
    (callMove stage now cancelled q stay leave).isSome ∨ (∃ due, q.due? = some due) ∨
      (∃ a, q = .awaiting a) ∧ cancelled = false := by
  cases q with
  | ready a =>
      left
      obtain ⟨move, hm⟩ := Option.isSome_iff_exists.1
        (Position.isSome_move?_ready ⟨now, none, cancelled⟩ a)
      simp only [callMove, Position.isParked, Bool.false_and, Bool.false_eq_true, if_false, hm]
      cases move <;> rfl
  | asleep d a => exact .inr (.inl ⟨d, rfl⟩)
  | awaiting a =>
      cases cancelled with
      | true => exact .inl rfl
      | false => exact .inr (.inr ⟨⟨a, rfl⟩, rfl⟩)

end Phase

namespace World

/-- Without permits a level is held up by its tasks. -/
theorem exists_step_of_level_or_heldUp {l : LevelRun} (hl : w.level? r = some l) :
    (∃ v, Step e w v) ∨ e.config.maxConcurrency = some 0 ∧ l.tasks ≠ [] := by
  by_cases hpermits : e.config.maxConcurrency = some 0
  · by_cases htasks : l.tasks = []
    · obtain ⟨x, c, p, hx, hphase⟩ := getElem?_of_level? hl
      have hover : l.isOver = true := by simp [LevelRun.isOver, htasks]
      exact .inl (exists_step_of_canMove
        (canMove_run_of_advance hx (by simp [hphase, Phase.advance?, hover])))
    · exact .inr ⟨hpermits, htasks⟩
  · exact .inl (exists_step_of_level hpermits hl)

/-- A run that has not ended goes on, or waits for ever: to be cancelled, or for a permit. -/
theorem exists_step_or_heldUp (hw : w.phase? r = some φ) (hφ : φ.isSettled = false) :
    (∃ v, Step e w v) ∨ (φ.awaitsCancel = true ∧ w.isRunCancelled r = false) ∨
      ∃ l, φ.level? = some l ∧ e.config.maxConcurrency = some 0 ∧ l.tasks ≠ [] := by
  obtain ⟨x, hx, rfl⟩ := phase?_eq_some_iff.1 hw
  rw [isRunCancelled_of_getElem? hx]
  have hmove : (x.phase.advance? e x.job x.numbers w.now (w.isCancelled x.token)).isSome →
      ∃ v, Step e w v := fun h ↦ exists_step_of_canMove (canMove_run_of_advance hx h)
  have hdue : ∀ d ∈ x.phase.dues e, ∃ v, Step e w v := fun d hd ↦
    exists_step_of_mem_dues
      (List.mem_append_left _ (List.mem_flatMap.2 ⟨x, List.mem_of_getElem? hx, hd⟩))
  cases hp : x.phase with
  | starting =>
      left
      apply hmove
      rw [hp, Phase.advance?]
      split
      · rfl
      · split <;> rfl
  | planned plan =>
      left
      apply hmove
      rw [hp, Phase.advance?]
      split <;> rfl
  | loading plan q =>
      rw [hp] at hmove hdue
      rcases Phase.callMove_or_waits _ _ _ q _ _ with ha | ⟨d, hd⟩ | ⟨⟨a, rfl⟩, hc⟩
      · exact .inl (hmove ha)
      · exact .inl (hdue d (Option.mem_toList.2 hd))
      · exact .inr (.inl ⟨rfl, hc⟩)
  | loaded plan environment =>
      left
      apply hmove
      rw [hp, Phase.advance?]
      split <;> rfl
  | decoding plan environment q =>
      rw [hp] at hmove hdue
      rcases Phase.callMove_or_waits _ _ _ q _ _ with ha | ⟨d, hd⟩ | ⟨⟨a, rfl⟩, hc⟩
      · exact .inl (hmove ha)
      · exact .inl (hdue d (Option.mem_toList.2 hd))
      · exact .inr (.inl ⟨rfl, hc⟩)
  | analyzing c p l? =>
      cases l? with
      | none => exact .inl (hmove (by simp [hp, Phase.advance?]))
      | some l =>
          rcases exists_step_of_level_or_heldUp (e := e) (level?_of_phase? (hp ▸ hw)) with hstep |
            ⟨hbound, htasks⟩
          · exact .inl hstep
          · exact .inr (.inr ⟨l, rfl, hbound, htasks⟩)
  | finished result => simp [hp, Phase.isSettled] at hφ
  | crashed => simp [hp, Phase.isSettled] at hφ
  | abandoned => simp [hp, Phase.isSettled] at hφ

theorem exists_step_of_unsettled (hpermits : e.config.maxConcurrency ≠ some 0)
    (hw : w.phase? r = some φ) (hφ : φ.isSettled = false) :
    (∃ v, Step e w v) ∨ φ.awaitsCancel = true ∧ w.isRunCancelled r = false := by
  rcases exists_step_or_heldUp (e := e) hw hφ with hstep | hwaits | ⟨l, _, hbound, _⟩
  · exact .inl hstep
  · exact .inr hwaits
  · exact absurd hbound hpermits

end World

end Timelock
