import Timelock.Proofs.Permits

/-!
# Cancelled runs

A run that is cancelled while it analyzes winds down.  The level in flight is waited for, no further
level is started, and the run ends as cancelled at the first level that it has not started, or with
its report if there is none.
-/

namespace Timelock

variable {e : Engine} {r i now : Nat} {j : Job} {numbers : TaskNumbers} {cancelled : Bool}
  {plan : Plan} {u v w z : World} {c : ExecutionContext} {p q : Progress} {l l' : LevelRun}
  {l? : Option LevelRun} {t : Task} {ws ws' : List World} {rest : List LevelStep} {φ ψ : Phase}

/-! ## Levels that have been started -/

/-- The step that has been started when no level was in flight before. -/
def entered : Option LevelRun → Option LevelRun → List LevelStep
  | none, some l => [l.step]
  | none, none | some _, _ => []

@[simp] theorem entered_none (l? : Option LevelRun) : entered l? none = [] := by
  cases l? <;> rfl

@[simp] theorem entered_self (l? : Option LevelRun) : entered l? l? = [] := by
  cases l? <;> rfl

namespace World

/-- The steps of its plan that a run has started along a list of worlds. -/
def startedLevels (r : Nat) : List World → List LevelStep
  | v :: w :: ws => entered (v.level? r) (w.level? r) ++ startedLevels r (w :: ws)
  | [] | [_] => []

theorem startedLevels_pair (ws : List World) (v w : World) :
    startedLevels r (ws ++ [v, w]) =
      startedLevels r (ws ++ [v]) ++ entered (v.level? r) (w.level? r) := by
  induction ws with
  | nil => simp [startedLevels]
  | cons a ws ih =>
      cases ws with
      | nil => simp [startedLevels]
      | cons b ws =>
          have ih : startedLevels r (b :: (ws ++ [v, w])) =
              startedLevels r (b :: (ws ++ [v])) ++ entered (v.level? r) (w.level? r) := ih
          simp only [List.cons_append, startedLevels, ih, List.append_assoc]

theorem History.startedLevels_snoc (h : History e u ws v) (w : World) :
    startedLevels r (ws ++ [w]) =
      startedLevels r ws ++ entered (v.level? r) (w.level? r) := by
  obtain ⟨pre, rfl⟩ := h.exists_eq_append
  simpa using startedLevels_pair pre v w

theorem startedLevels_eq_nil (h : ∀ v ∈ ws, v.level? r = none) : startedLevels r ws = [] := by
  induction ws with
  | nil => rfl
  | cons v ws ih =>
      cases ws with
      | nil => rfl
      | cons w ws =>
          have hrest := ih fun z hz ↦ h z (List.mem_cons_of_mem v hz)
          simp [startedLevels, hrest, h w (by simp)]

end World

namespace Phase

/-- The levels that a run has still to start, once it analyzes. -/
def remaining? : Phase → Option (ExecutionContext × List LevelStep)
  | .analyzing c p _ => some (c, p.pending)
  | .finished (.ok rep) => some (rep.context, [])
  | _ => none

/-- A move leaves what was left before but for a level that it starts; a decoder leaves all the
steps of a plan. -/
theorem Moves.remaining (h : Moves e j numbers now cancelled φ ψ)
    (hψ : ψ.remaining? = some (c, rest)) :
    φ.remaining? = some (c, entered φ.level? ψ.level? ++ rest) ∨
      ∃ plan environment q, φ = .decoding plan environment q ∧ ψ.level? = none ∧
        rest = plan.steps (.ofDecoded c.decoded) := by
  cases h with
  | decoded plan environment q d =>
      cases hψ
      exact .inr ⟨plan, environment, q, rfl, rfl, rfl⟩
  | report x p hpending =>
      cases hψ
      exact .inl (by simp [remaining?, level?, hpending])
  | start x p s ss y hpending =>
      cases hψ
      exact .inl (by simp [remaining?, level?, entered, hpending])
  | absorb x p l =>
      cases hψ
      exact .inl (by simp [remaining?, level?, Progress.pending_absorb])
  | _ => cases hψ

/-- What a run has still to start after a step, it had still to start before, and what it has
started with the step besides. -/
theorem Next.remaining (h : Next e j numbers now cancelled φ ψ)
    (hψ : ψ.remaining? = some (c, rest)) :
    φ.remaining? = some (c, entered φ.level? ψ.level? ++ rest) ∨
      ∃ plan environment q, φ = .decoding plan environment q ∧ ψ.level? = none ∧
        rest = plan.steps (.ofDecoded c.decoded) := by
  cases h with
  | stay => exact .inl (by simpa using hψ)
  | advance ha => exact (moves_of_advance ha).remaining hψ
  | task ha =>
      obtain ⟨x, p, l, l', rfl, _, heq⟩ := advanceTask?_eq_some ha
      rw [heq] at hψ ⊢
      cases hψ
      exact .inl rfl
  | abandon => cases hψ

end Phase

namespace World

/-- A run that analyzes, or has finished with a report, has started the steps of its plan from the
first on, up to those that remain. -/
theorem History.steps_eq_startedLevels (h : History e u ws w) (hu : u.phase? r = some .starting)
    (hw : w.phase? r = some φ) (hφ : φ.remaining? = some (c, rest)) :
    ∃ plan, e.registry.plan = .ok plan ∧
      plan.steps (.ofDecoded c.decoded) = startedLevels r ws ++ rest := by
  induction h generalizing φ c rest with
  | start =>
      obtain rfl := Option.some.inj (hu.symm.trans hw)
      cases hφ
  | @step ws v w hpast hstep ih =>
      obtain ⟨ψ, hψ, hacc⟩ := hpast.accounted hu
      obtain ⟨x, hx, rfl⟩ := phase?_eq_some_iff.1 hψ
      obtain ⟨y, hy, hfollows⟩ := exists_follows_of_step hstep hx
      obtain rfl : y.phase = φ :=
        Option.some.inj ((phase?_eq_some_iff.2 ⟨y, hy, rfl⟩).symm.trans hw)
      rw [hpast.startedLevels_snoc, level?_of_phase? hψ, level?_of_phase? hw]
      rcases hfollows.next.remaining hφ with hrem | ⟨plan, environment, q, hdecoding, hnone, rfl⟩
      · obtain ⟨plan, hplan, hsteps⟩ := ih hψ hrem
        exact ⟨plan, hplan, by rw [hsteps, List.append_assoc]⟩
      · rw [hdecoding] at hacc
        exact ⟨plan, hacc.1, by simp [startedLevels_eq_nil hacc.2, hnone]⟩

end World

/-! ## Winding down -/

namespace LevelRun

/-- A level keeps its tasks in their places. -/
theorem Continues.exists_task (h : l.Continues l') (ht : l'.tasks[i]? = some t) :
    ∃ t', l.tasks[i]? = some t' ∧ t'.analyzer = t.analyzer := by
  have htasks : l'.tasks.map Task.unstarted = l.tasks.map Task.unstarted :=
    congrArg LevelRun.tasks h.unstarted
  have hget : (l.tasks.map Task.unstarted)[i]? = some t.unstarted := by simp [← htasks, ht]
  rw [List.getElem?_map, Option.map_eq_some_iff] at hget
  obtain ⟨t', ht', heq⟩ := hget
  exact ⟨t', ht', (Task.eq_of_unstarted_eq heq).1⟩

end LevelRun

namespace Phase

/-- What may become of a run that has been cancelled while it analyzes. -/
inductive Winding (c : ExecutionContext) (p : Progress) (l? : Option LevelRun) : Phase → Prop
  | waiting (q : Progress) (l l' : LevelRun) (flight : l? = some l) (continues : l.Continues l')
      (pending : q.pending = p.pending) : Winding c p l? (.analyzing c q (some l'))
  | between (q : Progress) (pending : q.pending = p.pending) : Winding c p l? (.analyzing c q none)
  | reported (rep : Report) (context : rep.context = c) (pending : p.pending = []) :
      Winding c p l? (.finished (.ok rep))
  | cancelled (s : LevelStep) (ss : List LevelStep) (pending : p.pending = s :: ss) :
      Winding c p l? (.finished (.error (.cancelled (.level s.path))))
  | abandoned : Winding c p l? .abandoned

theorem winding_self (c : ExecutionContext) (p : Progress) (l? : Option LevelRun) :
    Winding c p l? (.analyzing c p l?) := by
  cases l? with
  | none => exact .between p rfl
  | some l => exact .waiting p l l rfl (.refl l) rfl

/-- A run that winds down goes on doing so, and starts no level. -/
theorem Winding.next (h : Winding c p l? φ) (hacc : φ.Accounted e r numbers ws)
    (hnext : Next e j numbers now true φ ψ) :
    Winding c p l? ψ ∧ entered φ.level? ψ.level? = [] := by
  cases h with
  | waiting q l l' hflight hc hpending =>
      refine ⟨?_, rfl⟩
      rcases hnext.of_accounted_level hacc with rfl | ⟨k, hmove, rfl⟩ | ⟨_, rfl⟩ | rfl
      · exact .waiting q l l' hflight hc hpending
      · exact .waiting q l k hflight (hc.trans (.of_taskMove hmove)) hpending
      · exact .between _ ((Progress.pending_absorb _ _ _).trans hpending)
      · exact .abandoned
  | between q hpending =>
      rcases hnext.of_between with rfl | rfl | rfl
      · exact ⟨.between q hpending, rfl⟩
      · unfold nextLevel
        cases hq : q.pending with
        | nil => exact ⟨.reported _ rfl (hpending.symm.trans hq), rfl⟩
        | cons s ss =>
            obtain ⟨plan, ls, hplan, hacc⟩ := hacc
            obtain ⟨y, hy⟩ := World.exists_resolve? hplan hacc hq
            simp only [hy, if_true]
            exact ⟨.cancelled s ss (hpending.symm.trans hq), rfl⟩
      · exact ⟨.abandoned, rfl⟩
  | reported rep hcontext hpending =>
      obtain rfl := hnext.of_settled rfl
      exact ⟨.reported rep hcontext hpending, rfl⟩
  | cancelled s ss hpending =>
      obtain rfl := hnext.of_settled rfl
      exact ⟨.cancelled s ss hpending, rfl⟩
  | abandoned =>
      obtain rfl := hnext.of_settled rfl
      exact ⟨.abandoned, rfl⟩

/-- A run that winds down ends as cancelled at the first step that it has still to start, or with a
report if there is none. -/
theorem Winding.result (h : Winding c p l? φ) (hφ : φ.isSettled = true) (hkept : φ ≠ .abandoned) :
    (∀ s ss, p.pending = s :: ss → φ = .finished (.error (.cancelled (.level s.path)))) ∧
      (p.pending = [] → ∃ rep, φ = .finished (.ok rep) ∧ rep.context = c) := by
  cases h with
  | waiting => cases hφ
  | between => cases hφ
  | reported rep hcontext hpending =>
      refine ⟨fun s ss h ↦ ?_, fun _ ↦ ⟨rep, rfl, hcontext⟩⟩
      cases hpending.symm.trans h
  | cancelled s ss hpending =>
      refine ⟨fun s' ss' h ↦ ?_, fun h ↦ ?_⟩
      · cases hpending.symm.trans h
        rfl
      · cases hpending.symm.trans h
  | abandoned => exact absurd rfl hkept

/-- A run that winds down has no other tasks in flight than it had. -/
theorem Winding.exists_task (h : Winding c p l? φ) (ht : φ.tasks[i]? = some t) :
    ∃ l t', l? = some l ∧ l.tasks[i]? = some t' ∧ t'.analyzer = t.analyzer := by
  cases h with
  | waiting q l l' hflight hc _ =>
      obtain ⟨t', ht', hanalyzer⟩ := hc.exists_task ht
      exact ⟨l, t', hflight, ht', hanalyzer⟩
  | between | reported | cancelled | abandoned => simp [tasks] at ht

end Phase

namespace World

theorem History.winding (hu : u.phase? r = some .starting) (huv : Steps e u v)
    (h : History e v ws w) (hv : v.phase? r = some (.analyzing c p l?))
    (hc : v.isRunCancelled r = true) :
    (∃ φ, w.phase? r = some φ ∧ φ.Winding c p l?) ∧ startedLevels r ws = [] ∧
      ∃ ys, w.events = ys ++ v.events ∧ ∀ y ∈ ys, y.run = r →
        ∃ l t, l? = some l ∧ l.tasks[y.task]? = some t ∧ y.analyzer = t.analyzer.id := by
  induction h with
  | start => exact ⟨⟨_, hv, Phase.winding_self c p l?⟩, rfl, [], rfl, by simp⟩
  | @step ws z w hpast hstep ih =>
      obtain ⟨⟨φ, hφ, hwinding⟩, hstarted, ys, hys, hown⟩ := ih
      obtain ⟨x, hx, rfl⟩ := phase?_eq_some_iff.1 hφ
      obtain ⟨y, hy, hfollows⟩ := exists_follows_of_step hstep hx
      have hw : w.phase? r = some y.phase := phase?_eq_some_iff.2 ⟨y, hy, rfl⟩
      have hnext := hfollows.next
      rw [← isRunCancelled_of_getElem? hx, isRunCancelled_of_steps hpast.steps hc] at hnext
      obtain ⟨_, hacc⟩ := exists_accounted hu (huv.trans hpast.steps) hφ
      rw [numbers_of_getElem? hx] at hacc
      obtain ⟨hwinding', hentered⟩ := hwinding.next hacc hnext
      refine ⟨⟨_, hw, hwinding'⟩, ?_, ?_⟩
      · rw [hpast.startedLevels_snoc, hstarted, level?_of_phase? hφ, level?_of_phase? hw, hentered]
        rfl
      · obtain ⟨zs, hzs, hnew⟩ := exists_tasks_of_new_events hstep hx
        refine ⟨zs ++ ys, by rw [hzs, hys, List.append_assoc], fun y hy hrun ↦ ?_⟩
        rcases List.mem_append.1 hy with hy | hy
        · obtain ⟨t, ht, hid⟩ := hnew y hy hrun
          obtain ⟨l, t', hflight, ht', hanalyzer⟩ := hwinding.exists_task ht
          exact ⟨l, t', hflight, ht', by rw [hid, hanalyzer]⟩
        · exact hown y hy hrun

/-- A report with one record for every analyzer and every node of its level. -/
structure Complete (e : Engine) (plan : Plan) (rep : Report) : Prop where
  visits : rep.outcomes.map OutcomeRecord.visit = plan.visits rep.tree
  unique : ∀ a ∈ e.registry.analyzers, ∀ p : NodePath, p.level = a.level →
    p.exists? rep.tree = true →
    rep.outcomes.countP (fun o ↦ o.analyzer = a.id ∧ o.path = p) = 1

theorem complete_of_finished {rep : Report} (hu : u.phase? r = some .starting)
    (huw : Steps e u w) (hplan : e.registry.plan = .ok plan)
    (hw : w.phase? r = some (.finished (.ok rep))) : Complete e plan rep := by
  obtain ⟨_, plan', _, _, _, hplan', hacc⟩ := exists_account_of_steps hu huw hw
  obtain rfl : plan = plan' := Except.ok.inj (hplan.symm.trans hplan')
  have hvisits := hacc.map_visit_outcomes hplan rfl
  refine ⟨hvisits, fun a ha p hlevel hp ↦ ?_⟩
  apply Report.countP_outcomes_eq_one (Report.map_path_outcomesFor hvisits hplan ha)
  exact hlevel ▸ NodePath.mem_allAt_iff.2 hp

/-- How a run goes on from `v` to `w`, along `ws`, once it has been cancelled with the level `l?` in
flight and the steps `rest` of its plan still to be started. -/
structure WindsDown (e : Engine) (r : Nat) (plan : Plan) (c : ExecutionContext)
    (l? : Option LevelRun) (rest : List LevelStep) (v : World) (ws : List World) (w : World) :
    Prop where
  unstarted : startedLevels r ws = []
  /-- Only tasks of the level in flight go on. -/
  events : ∃ ys, w.events = ys ++ v.events ∧ ∀ y ∈ ys, y.run = r →
    ∃ l t, l? = some l ∧ l.tasks[y.task]? = some t ∧ y.analyzer = t.analyzer.id
  /-- The level in flight is waited for. -/
  awaited : ∀ l, l? = some l → (∃ l', w.level? r = some l' ∧ l.Continues l') ∨
    ∃ v₁ v₂, [v₁, v₂] <:+: ws ∧ LevelEnd e r l v₁ v₂
  /-- Nothing goes on for ever. -/
  finite : Acc (fun v w ↦ Step e w v) w
  /-- A run that can be granted a permit comes to an end. -/
  settles : e.config.maxConcurrency ≠ some 0 → (∀ z, ¬ Step e w z) →
    ∃ φ, w.phase? r = some φ ∧ φ.isSettled = true
  /-- With steps left it ends as cancelled at the first of them. -/
  stopped : ∀ s ss φ, rest = s :: ss → w.phase? r = some φ → φ.isSettled = true → φ ≠ .abandoned →
    ∃ stage, φ = .finished (.error (.cancelled stage)) ∧
      stage.text = s.path.level.name ++ " pass at " ++ s.path.text
  /-- With none left it ends with a report. -/
  reported : ∀ φ, rest = [] → w.phase? r = some φ → φ.isSettled = true → φ ≠ .abandoned →
    ∃ rep, φ = .finished (.ok rep) ∧ rep.context = c ∧ Complete e plan rep

/-- A run that is cancelled while it analyzes has started the first steps of its plan, those that
every run with a report starts, and starts no other. -/
theorem cancelled_run_windsDown (hu : u.phase? r = some .starting) (huv : History e u ws v)
    (hv : v.phase? r = some (.analyzing c p l?)) (hc : v.isRunCancelled r = true)
    (hvw : History e v ws' w) :
    ∃ plan, e.registry.plan = .ok plan ∧
      plan.steps (.ofDecoded c.decoded) = startedLevels r ws ++ p.pending ∧
      (∀ u₂ r₂ ws₂ w₂ rep, u₂.phase? r₂ = some .starting → History e u₂ ws₂ w₂ →
        w₂.phase? r₂ = some (.finished (.ok rep)) → rep.context.decoded = c.decoded →
        startedLevels r₂ ws₂ = startedLevels r ws ++ p.pending) ∧
      WindsDown e r plan c l? p.pending v ws' w := by
  obtain ⟨plan, hplan, hsteps⟩ := huv.steps_eq_startedLevels hu hv rfl
  obtain ⟨⟨φ, hφ, hwinding⟩, hstarted, hevents⟩ := hvw.winding hu huv.steps hv hc
  refine ⟨plan, hplan, hsteps, ?_, hstarted, hevents, ?_, (wellFounded_step e).apply w, ?_, ?_, ?_⟩
  · intro u₂ r₂ ws₂ w₂ rep hu₂ hws₂ hw₂ hdecoded
    obtain ⟨plan₂, hplan₂, hsteps₂⟩ := hws₂.steps_eq_startedLevels hu₂ hw₂ rfl
    obtain rfl : plan = plan₂ := Except.ok.inj (hplan.symm.trans hplan₂)
    rw [← hsteps, ← hdecoded, hsteps₂, List.append_nil]
  · intro l hl
    obtain ⟨xs, hflight⟩ := exists_flight hu huv.steps ((level?_of_phase? hv).trans hl)
    rcases hflight.level_or_levelEnd hu huv.steps hvw with ⟨l', ys, hflight', hcontinues⟩ | hend
    · exact .inl ⟨l', hflight'.level, hcontinues⟩
    · exact .inr hend
  · intro hpermits hrest
    refine ⟨φ, hφ, ?_⟩
    cases hwinding with
    | waiting | between =>
        obtain ⟨z, hz⟩ := exists_step_of_analyzing hpermits hφ
        exact absurd hz (hrest z)
    | reported | cancelled | abandoned => rfl
  · intro s ss ψ hs hψ hsettled hkept
    obtain rfl : φ = ψ := Option.some.inj (hφ.symm.trans hψ)
    exact ⟨.level s.path, (hwinding.result hsettled hkept).1 s ss hs, rfl⟩
  · intro ψ hs hψ hsettled hkept
    obtain rfl : φ = ψ := Option.some.inj (hφ.symm.trans hψ)
    obtain ⟨rep, rfl, hcontext⟩ := (hwinding.result hsettled hkept).2 hs
    exact ⟨rep, rfl, hcontext, complete_of_finished hu (huv.steps.trans hvw.steps) hplan hψ⟩

/-- A cancelled run ends with a report exactly if it had started all its steps before. -/
theorem finished_ok_iff_startedLevels (hu : u.phase? r = some .starting) (huv : History e u ws v)
    (hv : v.phase? r = some (.analyzing c p l?)) (hc : v.isRunCancelled r = true)
    (hvw : History e v ws' w) (hw : w.phase? r = some φ) (hφ : φ.isSettled = true)
    (hkept : φ ≠ .abandoned) :
    (∃ rep, φ = .finished (.ok rep)) ↔
      ∃ plan, e.registry.plan = .ok plan ∧
        plan.steps (.ofDecoded c.decoded) = startedLevels r ws := by
  obtain ⟨plan, hplan, hsteps⟩ := huv.steps_eq_startedLevels hu hv rfl
  obtain ⟨⟨ψ, hψ, hwinding⟩, _⟩ := hvw.winding hu huv.steps hv hc
  obtain rfl : ψ = φ := Option.some.inj (hψ.symm.trans hw)
  obtain ⟨hstopped, hreported⟩ := hwinding.result hφ hkept
  constructor
  · rintro ⟨rep, rfl⟩
    refine ⟨plan, hplan, ?_⟩
    cases hpending : p.pending with
    | nil => rw [hsteps, hpending, List.append_nil]
    | cons s ss => cases hstopped s ss hpending
  · rintro ⟨plan', hplan', hsteps'⟩
    obtain rfl : plan = plan' := Except.ok.inj (hplan.symm.trans hplan')
    have hpending : p.pending = [] := by simpa [hsteps] using hsteps'
    obtain ⟨rep, hrep, _⟩ := hreported hpending
    exact ⟨rep, hrep⟩

theorem step_of_plan {x : Run} (hx : w.runs[r]? = some x) (hstarting : x.phase = .starting)
    (hplan : e.registry.plan = .ok plan) (hc : w.isCancelled x.token = false) :
    Step e w (w.setPhase r (.planned plan)) := by
  refine .move (.run r) _ ?_
  simp only [move?, moveRun?, hx, hstarting, Phase.advance?, hplan, hc, Bool.false_eq_true,
    if_false]
  rfl

end World

/-! ## Cancelled between two levels, and within the last one -/

namespace Alarmed

/-- An alarm may cancel the run at any time. -/
def world (phase : Phase) : World :=
  { Pair.world phase with alarms := [⟨0, .cancel 0, false⟩] }

theorem steps_planned {registry : Registry} {plan : Plan} (hplan : registry.plan = .ok plan) :
    World.Steps (Pair.engine none registry) (world .starting) (world (.planned plan)) := by
  have hstep := World.step_of_plan (e := Pair.engine none registry) (w := world .starting) (r := 0)
    rfl rfl hplan rfl
  exact .single hstep

/-- The first of two levels is in flight when the run is cancelled. -/
def between : World :=
  (world (.planned Pair.twoLevels)).after (Pair.engine none Pair.registry)
    (Pair.prelude ++ [.task 0 0, .alarm 0])

def stopped : World := between.after (Pair.engine none Pair.registry) Pair.level

theorem steps_between :
    World.Steps (Pair.engine none Pair.registry) (world .starting) between :=
  (steps_planned Pair.plan_registry).trans (World.steps_after _ _ _)

theorem cancelled_run_windsDown_of_between :
    ∃ plan l? ws c, between.isRunCancelled 0 = true ∧ Pair.registry.plan = .ok plan ∧
      plan.steps (.ofDecoded ⟨[]⟩) =
        [⟨.proposal, [Pair.writer]⟩, ⟨.proposal, [Pair.reader]⟩] ∧
      World.WindsDown (Pair.engine none Pair.registry) 0 plan c l?
        [⟨.proposal, [Pair.reader]⟩] between ws stopped ∧
      stopped.phase? 0 = some (.finished (.error (.cancelled (.level .proposal)))) := by
  obtain ⟨ws, _, hws⟩ := World.History.start.exists_extend steps_between
  obtain ⟨ws', _, hws'⟩ := World.History.start.exists_extend
    (World.steps_after (Pair.engine none Pair.registry) between Pair.level)
  obtain ⟨plan, hplan, _, _, hwinds⟩ :=
    World.cancelled_run_windsDown (r := 0) rfl hws rfl rfl hws'
  obtain rfl : Pair.twoLevels = plan := Except.ok.inj (Pair.plan_registry.symm.trans hplan)
  exact ⟨_, _, ws', _, rfl, hplan, rfl, hwinds, rfl⟩

/-- Waits for a cancellation and reports it. -/
def waiter : Analyzer :=
  { id := "waiter"
    level := .proposal
    analyze := fun _ _ ↦ .awaitCancel (.result (.answered (.error .cancelled))) }

def registry : Registry := ⟨[waiter], by decide⟩

def oneLevel : Plan :=
  ⟨[⟨.parameter, []⟩, ⟨.call, []⟩, ⟨.batchOperation, []⟩, ⟨.proposal, [[waiter]]⟩]⟩

theorem plan_registry : registry.plan = .ok oneLevel :=
  Registry.plan_eq_ok_of_proposals rfl rfl rfl
    (Registry.pass_eq_ok_of_order (Declaration.order_singleton "waiter") (by decide) rfl rfl)

/-- The only level is in flight when the run is cancelled. -/
def within : World :=
  (world (.planned oneLevel)).after (Pair.engine none registry)
    (Pair.prelude ++ [.task 0 0, .task 0 0, .task 0 0, .alarm 0])

def reported : World :=
  within.after (Pair.engine none registry) [.task 0 0, .task 0 0, .run 0, .run 0]

theorem steps_within : World.Steps (Pair.engine none registry) (world .starting) within :=
  (steps_planned plan_registry).trans (World.steps_after _ _ _)

theorem finished_ok_iff_startedLevels_of_within :
    ∃ ws rep, World.History (Pair.engine none registry) (world .starting) ws within ∧
      within.isRunCancelled 0 = true ∧ reported.phase? 0 = some (.finished (.ok rep)) ∧
      oneLevel.steps (.ofDecoded ⟨[]⟩) = World.startedLevels 0 ws := by
  obtain ⟨ws, _, hws⟩ := World.History.start.exists_extend steps_within
  obtain ⟨ws', _, hws'⟩ := World.History.start.exists_extend
    (World.steps_after (Pair.engine none registry) within
      [.task 0 0, .task 0 0, .run 0, .run 0])
  obtain ⟨plan, hplan, hstarted⟩ := (World.finished_ok_iff_startedLevels (r := 0) rfl hws rfl rfl
    hws' rfl rfl nofun).1 ⟨_, rfl⟩
  obtain rfl : oneLevel = plan := Except.ok.inj (plan_registry.symm.trans hplan)
  exact ⟨ws, _, hws, rfl, rfl, hstarted⟩

/-- A run is cancelled while its only task runs, and ends with a report all the same. -/
theorem exists_report_of_cancelled :
    ∃ l rep, World.Steps (Pair.engine none registry) (world .starting) within ∧
      (world .starting).isRunCancelled 0 = false ∧ within.isRunCancelled 0 = true ∧
      within.level? 0 = some l ∧ l.tasks.map Task.isRunning = [true] ∧
      World.Steps (Pair.engine none registry) within reported ∧
      reported.phase? 0 = some (.finished (.ok rep)) ∧
      rep.outcomes = [⟨"waiter", .proposal, .failed "Analyzer observed cancellation", 0⟩] :=
  ⟨_, _, steps_within, rfl, rfl, rfl, rfl, World.steps_after _ _ _, rfl, rfl⟩

end Alarmed

end Timelock
