import Mathlib.Data.List.Count
import Timelock.Proofs.OutcomeOrder
import Timelock.Proofs.Rest
import Timelock.Proofs.StepEvents

/-!
# Permits

The tasks of a level in flight share the permits that the bound on concurrency allows.  A task holds
a permit from the event that grants it to the event that ends it, whichever way it ends, so a level
never holds more permits than there are, and never waits for one that nobody will give back.
-/

namespace Timelock

variable {e : Engine} {r i : Nat} {u v w z : World} {c : ExecutionContext} {p : Progress}
  {l l' : LevelRun} {t : Task} {xs ys : List Event} {ws : List World} {n : UInt64}

/-! ## The permit of one task -/

namespace Task

/-- How often a task has been granted a permit. -/
def grants (t : Task) : Nat :=
  match t.state with
  | .waiting => 0
  | .running _ _ | .ended _ _ => 1

/-- How often a task has ended. -/
def endings (t : Task) : Nat :=
  match t.state with
  | .waiting | .running _ _ => 0
  | .ended _ _ => 1

variable {timeoutMs now : Nat} {cancelled free : Bool} {b : Advance}

theorem count_incidents_conclude (elapsedMs : Nat) (v : Option Verdict) :
    (conclude elapsedMs v).incidents.count .granted = 0 ∧
      (conclude elapsedMs v).incidents.count .ended = 1 := by
  rcases v with _ | ⟨_ | _⟩ | _ <;> exact ⟨rfl, rfl⟩

/-- A move of a task tells of the permit that it is granted and of its end. -/
theorem count_incidents (h : t.advance? timeoutMs now cancelled free = some b) :
    { t with state := b.state }.grants = b.incidents.count .granted + t.grants ∧
      { t with state := b.state }.endings = b.incidents.count .ended + t.endings := by
  unfold advance? at h
  split at h
  next hs =>
    simp only [Option.ite_none_right_eq_some, Option.some.injEq] at h
    obtain ⟨_, rfl⟩ := h
    simp [grants, endings, hs]
  next started q hs =>
    have hg : t.grants = 1 := by simp [grants, hs]
    have he : t.endings = 0 := by simp [endings, hs]
    split at h
    · cases h
      simp [grants, endings, hs]
    · cases h
      simp [grants, endings, hs]
    · cases h
      simp [grants, endings, hs]
    next verdict _ =>
      cases h
      obtain ⟨hgranted, hended⟩ := count_incidents_conclude (now - started) verdict
      rw [hg, he, hgranted, hended, state_conclude]
      exact ⟨rfl, rfl⟩
    · simp only [expire?, Option.ite_none_right_eq_some, Option.some.injEq] at h
      obtain ⟨_, rfl⟩ := h
      simp [grants, endings, hs]
  next => cases h

theorem isRunning_iff : t.isRunning = true ↔ t.grants = 1 ∧ t.endings = 0 := by
  cases hs : t.state <;> simp [isRunning, grants, endings, hs]

/-- A task that does not run moves only when it is granted a free permit. -/
theorem free_of_advance? (h : t.advance? timeoutMs now cancelled free = some b)
    (ht : t.isRunning = false) : free = true := by
  unfold advance? at h
  split at h
  · simp only [Option.ite_none_right_eq_some] at h
    exact h.1
  next started q hs => simp [isRunning, hs] at ht
  next => cases h

/-- A task can end at every moment at which its analyzer has answered or its time is up. -/
theorem exists_advance_of_endsWith {result : TaskResult}
    (h : t.EndsWith timeoutMs now cancelled result) (free : Bool) :
    ∃ b ms, t.advance? timeoutMs now cancelled free = some b ∧ b.state = .ended result ms := by
  obtain ⟨started, q, hs, ⟨verdict, hm, rfl⟩ | ⟨hm, hdue, rfl⟩⟩ := h
  · refine ⟨conclude (now - started) verdict, (concluded (now - started) verdict).2, ?_, ?_⟩
    · simp [advance?, hs, hm]
    · rw [state_conclude]
      rcases verdict with _ | ⟨_ | _⟩ | _ <;> rfl
  · refine ⟨{ state := .ended .timedOut (now - started), incidents := [.ended] }, now - started,
      ?_, rfl⟩
    simp [advance?, hs, hm, expire?, hdue]

end Task

/-! ## The permits of a level -/

namespace LevelRun

theorem countP_modify {α : Type} (q : α → Bool) {f : α → α} {as : List α} {a : α}
    (ha : as[i]? = some a) :
    (as.modify i f).countP q + (if q a then 1 else 0) =
      as.countP q + (if q (f a) then 1 else 0) := by
  induction as generalizing i with
  | nil => simp at ha
  | cons b bs ih =>
      cases i with
      | zero =>
          obtain rfl : b = a := by simpa using ha
          simp only [List.modify_zero_cons, List.countP_cons]
          omega
      | succ i =>
          have := ih (by simpa using ha)
          simp only [List.modify_succ_cons, List.countP_cons]
          omega

theorem running_setState (ht : l.tasks[i]? = some t) (s : TaskState) :
    (l.setState i s).running + (if t.isRunning then 1 else 0) =
      l.running + (if { t with state := s }.isRunning then 1 else 0) :=
  countP_modify Task.isRunning ht

theorem getElem?_setState (ht : l.tasks[i]? = some t) (s : TaskState) :
    (l.setState i s).tasks[i]? = some { t with state := s } := by
  simp [setState, ht]

theorem getElem?_setState_ne {k : Nat} (h : i ≠ k) (s : TaskState) :
    (l.setState i s).tasks[k]? = l.tasks[k]? := by
  simp [setState, h]

/-- A move of a task takes a permit only if one is free. -/
theorem running_le_of_advance? {timeoutMs now : Nat} {cancelled : Bool} {b : Task.Advance}
    (ht : l.tasks[i]? = some t)
    (hb : t.advance? timeoutMs now cancelled (l.hasFreePermit (some n)) = some b)
    (h : l.running ≤ n.toNat) : (l.setState i b.state).running ≤ n.toNat := by
  have hrunning := running_setState ht b.state
  cases hr : t.isRunning with
  | true =>
      rw [hr, if_pos rfl] at hrunning
      split at hrunning <;> omega
  | false =>
      have hfree : l.running < n.toNat := by
        simpa [hasFreePermit] using Task.free_of_advance? hb hr
      simp only [hr, Bool.false_eq_true, if_false] at hrunning
      split at hrunning <;> omega

end LevelRun

namespace World

theorem count_runEvents_self (is : List Incident) (incident : Incident) :
    (runEvents r i t is).count ⟨r, i, t.analyzer.id, incident⟩ = is.count incident :=
  List.count_map_of_injective is (fun x ↦ (⟨r, i, t.analyzer.id, x⟩ : Event))
    (fun _ _ h ↦ congrArg Event.incident h) incident

theorem count_abandonEvents {φ : Phase} (ht : φ.tasks[i]? = some t) :
    (abandonEvents r φ).count ⟨r, i, t.analyzer.id, .ended⟩ = if t.isRunning then 1 else 0 := by
  have hposition : φ.tasks.zipIdx.countP (fun y ↦ decide (y.2 = i)) = 1 := by
    have hi : i ∈ List.range' 0 φ.tasks.length := by
      simpa using (List.getElem?_eq_some_iff.1 ht).1
    rw [← List.count_eq_one_of_mem List.nodup_range' hi, ← List.zipIdx_map_snd 0 φ.tasks,
      List.count_eq_countP, List.countP_map]
    rfl
  have htask : ∀ y ∈ φ.tasks.zipIdx, y.2 = i → y.1 = t := by
    rintro ⟨k, i⟩ hk rfl
    exact Option.some.inj ((List.mem_zipIdx_iff_getElem?.1 hk).symm.trans ht)
  rw [abandonEvents, List.count_filterMap]
  cases hr : t.isRunning with
  | true =>
      rw [if_pos rfl, ← hposition]
      apply List.countP_congr
      intro y hy
      by_cases hi : y.2 = i
      · simp [hi, htask y hy hi, hr]
      · simp [hi]
  | false =>
      simp only [Bool.false_eq_true, if_false]
      refine List.countP_eq_zero.2 fun y hy ↦ ?_
      by_cases hi : y.2 = i
      · simp [htask y hy hi, hr]
      · simp [hi]

/-! ## Levels in flight -/

/-- A level in flight since its start, with the events since. -/
inductive Flight (e : Engine) (r : Nat) : World → LevelRun → List Event → Prop
  | start {w : World} {l : LevelRun} (level : w.level? r = some l)
      (fresh : ∀ t ∈ l.tasks, t.state = .waiting) : Flight e r w l []
  | step {v w : World} {l l' : LevelRun} {xs ys : List Event} (past : Flight e r v l xs)
      (last : Step e v w) (level : w.level? r = some l') (events : w.events = ys ++ v.events) :
      Flight e r w l' (ys ++ xs)

/-- What a step does to a level that stays in flight, with the events that it adds. -/
inductive LevelMove (e : Engine) (r : Nat) (v : World) (l : LevelRun) :
    LevelRun → List Event → Prop
  | elsewhere (ys : List Event) (others : ∀ y ∈ ys, y.run ≠ r) : LevelMove e r v l l ys
  | task (i : Nat) (t : Task) (b : Task.Advance) (member : l.tasks[i]? = some t)
      (advance : t.advance? e.timeoutMs v.now (v.isRunCancelled r)
        (l.hasFreePermit e.config.maxConcurrency) = some b) :
      LevelMove e r v l (l.setState i b.state) (runEvents r i t b.incidents).reverse

theorem phase?_of_level? (h : w.level? r = some l) :
    ∃ c p, w.phase? r = some (.analyzing c p (some l)) := by
  obtain ⟨φ, hφ, hl⟩ := Option.bind_eq_some_iff.1 h
  obtain ⟨c, p, rfl⟩ := Phase.level?_eq_some hl
  exact ⟨c, p, hφ⟩

/-- A level in flight stays in flight, until it is over or its run is abandoned. -/
theorem levelMove_or_end (h : Step e v w) (hv : v.phase? r = some (.analyzing c p (some l))) :
    (∃ l' ys, w.phase? r = some (.analyzing c p (some l')) ∧ w.events = ys ++ v.events ∧
        LevelMove e r v l l' ys) ∨
      (l.isOver = true ∧
        w.phase? r = some (Phase.leaveLevel e.config.analyzerTimeoutMs c p l)) ∨
      (w.phase? r = some .abandoned ∧
        w.events = (abandonEvents r (.analyzing c p (some l))).reverse ++ v.events) := by
  obtain ⟨x, hx, hphase⟩ := phase?_eq_some_iff.1 hv
  cases stepOf_step h hx with
  | elsewhere ys hw hevents hothers =>
      exact .inl ⟨l, ys, hphase ▸ hw, hevents, .elsewhere ys hothers⟩
  | run a _ ha hw hevents =>
      simp only [hphase, Phase.advance?, Config.wholeMilliseconds_analyzerTimeout,
        Option.ite_none_right_eq_some, Option.some.injEq] at ha
      obtain ⟨hover, rfl⟩ := ha
      exact .inr (.inl ⟨hover, hw⟩)
  | task i t a ht ha hw hevents =>
      rw [hphase] at ht ha
      have ht : l.tasks[i]? = some t := ht
      simp only [Phase.advanceTask?, ht] at ha
      split at ha
      · cases ha
      next b hb =>
        cases ha
        exact .inl ⟨_, _, hw, hevents, .task i t b ht hb⟩
  | abandon _ hw hevents => exact .inr (.inr ⟨hw, hphase ▸ hevents⟩)

theorem levelMove_of_step (h : Step e v w) (hv : v.level? r = some l) (hw : w.level? r = some l')
    (hevents : w.events = ys ++ v.events) : LevelMove e r v l l' ys := by
  obtain ⟨c, p, hphase⟩ := phase?_of_level? hv
  rcases levelMove_or_end h hphase with ⟨k, zs, hk, hzs, hmove⟩ | ⟨_, hover⟩ | ⟨habandoned, _⟩
  · obtain rfl : k = l' := Option.some.inj ((level?_of_phase? hk).symm.trans hw)
    obtain rfl : zs = ys := List.append_cancel_right (hzs.symm.trans hevents)
    exact hmove
  · cases (Phase.level?_leaveLevel _).symm.trans ((level?_of_phase? hover).symm.trans hw)
  · cases (level?_of_phase? habandoned).symm.trans hw

theorem LevelMove.continues (h : LevelMove e r v l l' ys) : l.Continues l' := by
  cases h with
  | elsewhere => exact .refl l
  | task i t b ht hb => exact .of_taskMove ⟨i, t, _, b, ht, hb, rfl⟩

namespace Flight

theorem level (h : Flight e r w l xs) : w.level? r = some l := by
  cases h <;> assumption

theorem levelMove (h : Flight e r v l xs) (hstep : Step e v w) (hw : w.level? r = some l')
    (hevents : w.events = ys ++ v.events) : LevelMove e r v l l' ys :=
  levelMove_of_step hstep h.level hw hevents

end Flight

/-- Every level in flight has been in flight since its start. -/
theorem exists_flight (hu : u.phase? r = some .starting) (huw : Steps e u w)
    (hl : w.level? r = some l) : ∃ xs, Flight e r w l xs := by
  induction huw generalizing l with
  | refl => cases (level?_of_phase? hu).symm.trans hl
  | @tail v w hsteps hstep ih =>
      obtain ⟨x, hx, _⟩ := phase?_eq_some_iff.1 hu
      obtain ⟨x, hx⟩ := exists_getElem?_of_steps hsteps hx
      obtain ⟨ys, hevents, _⟩ := exists_tasks_of_new_events hstep hx
      cases hv : v.level? r with
      | some k =>
          obtain ⟨xs, hxs⟩ := ih hv
          exact ⟨_, hxs.step hstep hl hevents⟩
      | none =>
          obtain ⟨y, hy, hfollows⟩ := exists_follows_of_step hstep hx
          rw [level?_of_phase? (phase?_eq_some_iff.2 ⟨x, hx, rfl⟩)] at hv
          refine ⟨[], .start hl fun t ht ↦ ?_⟩
          rw [level?_of_phase? (phase?_eq_some_iff.2 ⟨y, hy, rfl⟩)] at hl
          rcases hfollows.next.task_cases hl ht with ⟨k, hk, _⟩ | ⟨k, hk, _⟩ | hwaiting
          · cases hv.symm.trans hk
          · cases hv.symm.trans hk
          · exact hwaiting

/-! ## What the events tell -/

/-- The events of a level count the permits and the ends of each of its tasks. -/
def Tallied (r : Nat) (l : LevelRun) (xs : List Event) : Prop :=
  ∀ i t, l.tasks[i]? = some t →
    xs.count ⟨r, i, t.analyzer.id, .granted⟩ = t.grants ∧
      xs.count ⟨r, i, t.analyzer.id, .ended⟩ = t.endings

theorem LevelMove.tallied (h : LevelMove e r v l l' ys) (hxs : Tallied r l xs) :
    Tallied r l' (ys ++ xs) := by
  have hother : ∀ y : Event, y ∉ ys → (ys ++ xs).count y = xs.count y := fun y hy ↦ by
    rw [List.count_append, List.count_eq_zero_of_not_mem hy, Nat.zero_add]
  intro k t' ht'
  cases h with
  | elsewhere ys hothers =>
      rw [hother _ fun h ↦ hothers _ h rfl, hother _ fun h ↦ hothers _ h rfl]
      exact hxs k t' ht'
  | task i t b ht hb =>
      by_cases hk : i = k
      · subst hk
        obtain rfl : { t with state := b.state } = t' :=
          Option.some.inj ((LevelRun.getElem?_setState ht b.state).symm.trans ht')
        obtain ⟨hgranted, hended⟩ := hxs i t ht
        simp only [List.count_append, List.count_reverse, count_runEvents_self, hgranted, hended]
        obtain ⟨hgrants, hendings⟩ := Task.count_incidents hb
        exact ⟨hgrants.symm, hendings.symm⟩
      · have hnot : ∀ incident, ⟨r, k, t'.analyzer.id, incident⟩ ∉
            (runEvents r i t b.incidents).reverse := fun _ hmem ↦
          hk (of_mem_runEvents (List.mem_reverse.1 hmem)).2.1.symm
        rw [hother _ (hnot _), hother _ (hnot _)]
        exact hxs k t' (LevelRun.getElem?_setState_ne hk b.state ▸ ht')

theorem Flight.tallied (h : Flight e r w l xs) : Tallied r l xs := by
  induction h with
  | start _ hfresh =>
      intro i t ht
      have hs := hfresh t (List.mem_of_getElem? ht)
      simp [Task.grants, Task.endings, hs]
  | step hpast hstep hw hevents ih => exact (hpast.levelMove hstep hw hevents).tallied ih

/-- How many tasks have been granted a permit and have not ended since, by the events. -/
def held (r : Nat) (l : LevelRun) (xs : List Event) : Nat :=
  l.tasks.zipIdx.countP fun (t, i) ↦
    xs.contains ⟨r, i, t.analyzer.id, .granted⟩ && !xs.contains ⟨r, i, t.analyzer.id, .ended⟩

theorem Tallied.held_eq_running (h : Tallied r l xs) : held r l xs = l.running := by
  have hrunning : l.running = l.tasks.zipIdx.countP (fun y ↦ y.1.isRunning) := by
    rw [LevelRun.running, ← List.zipIdx_map_fst 0 l.tasks, List.countP_map]
    simp [Function.comp_def]
  rw [hrunning]
  apply List.countP_congr
  rintro ⟨t, i⟩ hti
  obtain ⟨hgranted, hended⟩ := h i t (List.mem_zipIdx_iff_getElem?.1 hti)
  simp only [Bool.and_eq_true, Bool.not_eq_true', List.contains_iff_mem, Bool.eq_false_iff,
    Task.isRunning_iff, ← hgranted, ← hended, ne_eq, List.count_eq_zero]
  refine and_congr_left fun _ ↦ ⟨fun hmem ↦ ?_, fun hone ↦ ?_⟩
  · have hpos := List.count_pos_iff.2 hmem
    have hle : t.grants ≤ 1 := by cases hs : t.state <;> simp [Task.grants, hs]
    omega
  · exact List.count_pos_iff.1 (by omega)

/-- A level holds at most as many permits as there are. -/
theorem Flight.running_le (h : Flight e r w l xs) (hn : e.config.maxConcurrency = some n) :
    l.running ≤ n.toNat := by
  induction h with
  | @start w l _ hfresh =>
      have hrunning : l.running = 0 := List.countP_eq_zero.2 fun t ht ↦ by
        simp [Task.isRunning, hfresh t ht]
      omega
  | step hpast hstep hw hevents ih =>
      cases hpast.levelMove hstep hw hevents with
      | elsewhere => exact ih
      | task i t b ht hb => exact LevelRun.running_le_of_advance? ht (hn ▸ hb) ih

theorem Flight.held_le (h : Flight e r w l xs) (hn : e.config.maxConcurrency = some n) :
    held r l xs ≤ n.toNat :=
  h.tallied.held_eq_running ▸ h.running_le hn

/-! ## Permits are given back -/

/-- A task that ends gives its permit back, whichever way it ends. -/
theorem LevelMove.released {t' : Task} {result : TaskResult} {ms : Nat}
    (h : LevelMove e r v l l' ys) (ht : l.tasks[i]? = some t) (hopen : t.hasEnded = false)
    (ht' : l'.tasks[i]? = some t') (hs' : t'.state = .ended result ms) :
    t.EndsWith e.timeoutMs v.now (v.isRunCancelled r) result ∧ l'.running + 1 = l.running := by
  have hne : t ≠ t' := by
    rintro rfl
    simp [Task.hasEnded, hs'] at hopen
  cases h with
  | elsewhere => exact absurd (Option.some.inj (ht.symm.trans ht')) hne
  | task k t₁ b ht₁ hb =>
      by_cases hk : k = i
      · subst hk
        obtain rfl : t₁ = t := Option.some.inj (ht₁.symm.trans ht)
        rw [LevelRun.getElem?_setState ht₁] at ht'
        obtain rfl := Option.some.inj ht'
        have hends := Task.endsWith_of_advance? hb hs'
        have hs' : b.state = .ended result ms := hs'
        refine ⟨hends, ?_⟩
        obtain ⟨started, q, hs, _⟩ := hends
        simpa [Task.isRunning, hs, hs'] using LevelRun.running_setState ht₁ b.state
      · rw [LevelRun.getElem?_setState_ne hk] at ht'
        exact absurd (Option.some.inj (ht.symm.trans ht')) hne

/-- A task that waits can move, unless all permits are held. -/
theorem canMove_of_waiting (hl : w.level? r = some l) (ht : l.tasks[i]? = some t)
    (hs : t.state = .waiting) (hfree : l.hasFreePermit e.config.maxConcurrency = true) :
    w.canMove e (.task r i) = true := by
  obtain ⟨x, c, p, hx, hphase⟩ := getElem?_of_level? hl
  apply canMove_task_of_advance hx
  · simp [hphase, Phase.advanceTask?, ht, Task.advance?, hs, hfree]
  · simp [hphase, Phase.tasks, ht]

theorem exists_move_of_endsWith {result : TaskResult} (hl : w.level? r = some l)
    (ht : l.tasks[i]? = some t)
    (h : t.EndsWith e.timeoutMs w.now (w.isRunCancelled r) result) :
    ∃ w' ms, w.move? e (.task r i) = some w' ∧
      w'.level? r = some (l.setState i (.ended result ms)) := by
  obtain ⟨x, c, p, hx, hphase⟩ := getElem?_of_level? hl
  rw [isRunCancelled_of_getElem? hx] at h
  obtain ⟨b, ms, hb, hs⟩ :=
    Task.exists_advance_of_endsWith h (l.hasFreePermit e.config.maxConcurrency)
  let a : Phase.Advance :=
    ⟨.analyzing c p (some (l.setState i b.state)), b.cancelsRun, b.incidents⟩
  have hadvance : x.phase.advanceTask? e w.now (w.isCancelled x.token) i = some a := by
    simp [hphase, Phase.advanceTask?, ht, hb, a]
  have htask : x.phase.tasks[i]? = some t := by simpa [hphase, Phase.tasks] using ht
  refine ⟨w.carryOut r x (runEvents r i t a.incidents) a, ms, ?_, ?_⟩
  · simp [move?, moveTask?, hx, hadvance, htask]
  · rw [level?_of_phase? (phase?_carryOut hx), ← hs]
    rfl

/-! ## How a level ends -/

theorem Tallied.abandon (h : Tallied r l xs) (ht : l.tasks[i]? = some t) :
    let ys := (abandonEvents r (.analyzing c p (some l))).reverse
    (ys ++ xs).count ⟨r, i, t.analyzer.id, .granted⟩ = t.grants ∧
      (ys ++ xs).count ⟨r, i, t.analyzer.id, .ended⟩ = t.grants := by
  intro ys
  obtain ⟨hgranted, hended⟩ := h i t ht
  have hnone : ⟨r, i, t.analyzer.id, .granted⟩ ∉ ys := fun hmem ↦ by
    cases (of_mem_abandonEvents (List.mem_reverse.1 hmem)).2.1
  have hcount : ys.count ⟨r, i, t.analyzer.id, .ended⟩ = if t.isRunning then 1 else 0 := by
    rw [List.count_reverse, count_abandonEvents ht]
  rw [List.count_append, List.count_append, List.count_eq_zero_of_not_mem hnone, hcount, hgranted,
    hended]
  cases hs : t.state <;> simp [Task.grants, Task.endings, Task.isRunning, hs]

theorem Tallied.once (h : Tallied r l xs) (hover : l.isOver = true)
    (ht : l.tasks[i]? = some t) :
    xs.count ⟨r, i, t.analyzer.id, .granted⟩ = 1 ∧ xs.count ⟨r, i, t.analyzer.id, .ended⟩ = 1 := by
  obtain ⟨hgranted, hended⟩ := h i t ht
  have hend := List.all_eq_true.1 hover t (List.mem_of_getElem? ht)
  obtain ⟨result, ms, hs⟩ := Task.hasEnded_iff.1 hend
  rw [hgranted, hended]
  simp [Task.grants, Task.endings, hs]

/-- How a level comes to its end with the step from `v` to `w`.  Its run is abandoned, and the tasks
that had been granted a permit have ended once; or it is over, all its tasks have ended once, and
each of its analyzers has left one result, in their order. -/
inductive LevelEnd (e : Engine) (r : Nat) (l : LevelRun) (v w : World) : Prop
  | abandoned (l' : LevelRun) (xs ys : List Event) (flight : Flight e r v l' xs)
      (continues : l.Continues l') (after : w.phase? r = some .abandoned)
      (events : w.events = ys ++ v.events)
      (once : ∀ i t, l'.tasks[i]? = some t →
        (ys ++ xs).count ⟨r, i, t.analyzer.id, .granted⟩ = t.grants ∧
          (ys ++ xs).count ⟨r, i, t.analyzer.id, .ended⟩ = t.grants)
  | over (c : ExecutionContext) (p q : Progress) (l' : LevelRun) (xs : List Event)
      (os : List OutcomeRecord) (flight : Flight e r v l' xs) (continues : l.Continues l')
      (before : v.phase? r = some (.analyzing c p (some l')))
      (once : ∀ i t, l'.tasks[i]? = some t →
        xs.count ⟨r, i, t.analyzer.id, .granted⟩ = 1 ∧
          xs.count ⟨r, i, t.analyzer.id, .ended⟩ = 1)
      (after : w.phase? r = some (.analyzing c q none))
      (outcomes : q.outcomes = p.outcomes ++ os)
      (results : os.map OutcomeRecord.visit = l.step.visits)

theorem Flight.levelEnd_of_isOver (h : Flight e r v l' xs) (hc : l.Continues l')
    (hv : v.phase? r = some (.analyzing c p (some l'))) (hover : l'.isOver = true)
    (hw : w.phase? r = some (.analyzing c (p.absorb e.config.analyzerTimeoutMs l') none)) :
    LevelEnd e r l v w := by
  have hstep : l'.step = l.step := by
    rw [← LevelRun.step_unstarted, hc.unstarted, LevelRun.step_unstarted]
  refine .over c p _ l' xs (l'.records e.config.analyzerTimeoutMs p.numbers) h hc hv
    (fun i t ht ↦ h.tallied.once hover ht) hw ?_ ?_
  · rw [Progress.absorb_eq, Progress.outcomes_contributeAll]
    rfl
  · rw [LevelRun.map_visit_records hover, hstep]

/-- Along every history a level stays in flight or comes to its end. -/
theorem Flight.level_or_levelEnd (h : Flight e r w l xs) (hu : u.phase? r = some .starting)
    (huw : Steps e u w) (hws : History e w ws z) :
    (∃ l' ys, Flight e r z l' ys ∧ l.Continues l') ∨
      ∃ v v', [v, v'] <:+: ws ∧ LevelEnd e r l v v' := by
  induction hws with
  | start => exact .inl ⟨l, xs, h, .refl l⟩
  | @step ws v z hpast hstep ih =>
      rcases ih with ⟨l', ys, hflight, hc⟩ | ⟨v₁, v₂, hpair, hend⟩
      · obtain ⟨c, p, hv⟩ := phase?_of_level? hflight.level
        rcases levelMove_or_end hstep hv with ⟨k, zs, hk, hzs, hmove⟩ | ⟨hover, hz⟩ | ⟨hz, hevents⟩
        · refine .inl ⟨k, zs ++ ys, hflight.step hstep (level?_of_phase? hk) hzs, ?_⟩
          exact hc.trans hmove.continues
        · rw [leaveLevel_eq_of_steps hu (huw.trans hpast.steps) hv] at hz
          exact .inr ⟨v, z, hpast.infix_snoc, hflight.levelEnd_of_isOver hc hv hover hz⟩
        · exact .inr ⟨v, z, hpast.infix_snoc, .abandoned l' ys _ hflight hc hz hevents
            fun i t ht ↦ hflight.tallied.abandon ht⟩
      · exact .inr ⟨v₁, v₂, hpair.trans (List.prefix_append _ _).isInfix, hend⟩

theorem Flight.exists_levelEnd (h : Flight e r w l xs)
    (hpermits : e.config.maxConcurrency ≠ some 0) (hu : u.phase? r = some .starting)
    (huw : Steps e u w) (hws : History e w ws z) (hrest : ∀ z', ¬ Step e z z') :
    ∃ v v', [v, v'] <:+: ws ∧ LevelEnd e r l v v' := by
  rcases h.level_or_levelEnd hu huw hws with ⟨l', ys, hflight, _⟩ | hend
  · obtain ⟨z', hstep⟩ := exists_step_of_level hpermits hflight.level
    exact absurd hstep (hrest z')
  · exact hend

/-- After a task has ended there is a free permit. -/
theorem Flight.released {t' : Task} {result : TaskResult} {ms : Nat} (h : Flight e r w l xs)
    (hbound : e.config.maxConcurrency = some n) (hstep : Step e w z) (hl' : z.level? r = some l')
    (ht : l.tasks[i]? = some t) (hopen : t.hasEnded = false) (ht' : l'.tasks[i]? = some t')
    (hs' : t'.state = .ended result ms) :
    t.EndsWith e.timeoutMs w.now (w.isRunCancelled r) result ∧ l'.running + 1 = l.running ∧
      l'.hasFreePermit e.config.maxConcurrency = true := by
  obtain ⟨x, _, _, hx, _⟩ := getElem?_of_level? h.level
  obtain ⟨ys, hevents, _⟩ := exists_tasks_of_new_events hstep hx
  obtain ⟨hends, hrunning⟩ := (h.levelMove hstep hl' hevents).released ht hopen ht' hs'
  have hle := h.running_le hbound
  have hlt : l'.running < n.toNat := by omega
  exact ⟨hends, hrunning, by simpa [LevelRun.hasFreePermit, hbound] using hlt⟩

theorem Flight.granted (h : Flight e r w l xs) (hbound : e.config.maxConcurrency = some n)
    (ht : l.tasks[i]? = some t) (hs : t.state = .waiting) :
    w.canMove e (.task r i) = true ∨ held r l xs = n.toNat := by
  rw [h.tallied.held_eq_running]
  rcases Nat.lt_or_eq_of_le (h.running_le hbound) with hlt | heq
  · left
    apply canMove_of_waiting h.level ht hs
    simpa [LevelRun.hasFreePermit, hbound] using hlt
  · exact .inr heq

/-- A level in flight that keeps to its permits, with the events since its start. -/
structure KeepsPermits (e : Engine) (r : Nat) (n : UInt64) (w : World) (l : LevelRun)
    (xs : List Event) : Prop where
  flight : Flight e r w l xs
  tallied : Tallied r l xs
  bounded : held r l xs ≤ n.toNat
  /-- Whichever way a task ends, its permit is free after it. -/
  released : ∀ (w' : World) (l' : LevelRun), Step e w w' → w'.level? r = some l' →
    ∀ (i : Nat) (t t' : Task) (result : TaskResult) (ms : Nat), l.tasks[i]? = some t →
    t.hasEnded = false → l'.tasks[i]? = some t' → t'.state = .ended result ms →
    t.EndsWith e.timeoutMs w.now (w.isRunCancelled r) result ∧ l'.running + 1 = l.running ∧
      l'.hasFreePermit e.config.maxConcurrency = true
  /-- A task can end as soon as its analyzer has answered or its time is up. -/
  leaves : ∀ (i : Nat) (t : Task) (result : TaskResult), l.tasks[i]? = some t →
    t.EndsWith e.timeoutMs w.now (w.isRunCancelled r) result →
    ∃ w' ms, w.move? e (.task r i) = some w' ∧
      w'.level? r = some (l.setState i (.ended result ms))
  /-- A task waits only while all permits are held. -/
  granted : ∀ (i : Nat) (t : Task), l.tasks[i]? = some t → t.state = .waiting →
    w.canMove e (.task r i) = true ∨ held r l xs = n.toNat
  unstuck : ∃ w', Step e w w'
  /-- Nothing goes on for ever. -/
  finite : Acc (fun v w ↦ Step e w v) w
  ends : ∀ ws z, History e w ws z → (∀ z', ¬ Step e z z') →
    ∃ v v', [v, v'] <:+: ws ∧ LevelEnd e r l v v'

/-- With at least one permit every level of a run keeps to its permits and comes to its end,
whatever its analyzers do and in whatever order its tasks move. -/
theorem level_keepsPermits (hn : n ≠ 0) (hbound : e.config.maxConcurrency = some n)
    (hu : u.phase? r = some .starting) (huw : Steps e u w) (hl : w.level? r = some l) :
    ∃ xs, KeepsPermits e r n w l xs := by
  have hpermits : e.config.maxConcurrency ≠ some 0 := by
    rw [hbound]
    exact fun h ↦ hn (Option.some.inj h)
  obtain ⟨xs, hflight⟩ := exists_flight hu huw hl
  exact ⟨xs, {
    flight := hflight
    tallied := hflight.tallied
    bounded := hflight.held_le hbound
    released := fun w' l' hstep hl' i t t' result ms ht hopen ht' hs' ↦
      hflight.released hbound hstep hl' ht hopen ht' hs'
    leaves := fun i t result ↦ exists_move_of_endsWith hl
    granted := fun i t ↦ hflight.granted hbound
    unstuck := exists_step_of_level hpermits hl
    finite := (wellFounded_step e).apply w
    ends := fun ws z ↦ hflight.exists_levelEnd hpermits hu huw }⟩

end World

/-! ## Two tasks and one permit -/

namespace Desk

def idler : Analyzer :=
  { id := "idler"
    level := .proposal
    analyze := fun _ _ ↦ .awaitCancel (.result (.answered (.ok []))) }

def registry : Registry := ⟨[Payment.breaker, idler], by decide⟩

def oneLevel : Plan :=
  ⟨[⟨.parameter, []⟩, ⟨.call, []⟩, ⟨.batchOperation, []⟩,
    ⟨.proposal, [[Payment.breaker, idler]]⟩]⟩

theorem plan_registry : registry.plan = .ok oneLevel := by
  have horder : Declaration.order [⟨"breaker", []⟩, ⟨"idler", []⟩] = ["idler", "breaker"] := by
    simp [Declaration.order, Declaration.searchAll, Declaration.explore, Declaration.dependents]
  exact Registry.plan_eq_ok_of_proposals rfl rfl rfl
    (Registry.pass_eq_ok_of_order horder (by decide) rfl rfl)

def engine : Engine := Pair.engine (some 1) registry

/-- The second task of the level has taken the only permit. -/
def contended : World :=
  (Pair.world (.planned oneLevel)).after engine (Pair.prelude ++ [.task 0 1])

theorem steps_contended : World.Steps engine (Pair.world .starting) contended :=
  (Pair.steps_planned plan_registry).trans (World.steps_after _ _ _)

theorem level_keepsPermits_of_contended :
    ∃ l xs, contended.level? 0 = some l ∧ World.KeepsPermits engine 0 1 contended l xs ∧
      l.tasks.map Task.isRunning = [false, true] ∧
      contended.canMove engine (.task 0 0) = false := by
  obtain ⟨xs, hkeeps⟩ :=
    World.level_keepsPermits (r := 0) (by decide) rfl rfl steps_contended rfl
  exact ⟨_, xs, rfl, hkeeps, rfl, rfl⟩

end Desk

end Timelock
