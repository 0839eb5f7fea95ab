import Timelock.Proofs.Sessions

/-!
# Isolation

Runs of one engine do not disturb one another.  What a run comes to in a session it comes to alone,
but for the numbers of its tasks, an abandoned run does nothing any more, and permits are counted
for each run by itself.
-/

namespace Timelock

variable {e e' : Engine} {k : Conduct} {j : Job} {numbers : TaskNumbers} {r r' i token now : Nat}
  {u v w s z : World} {x y : Run} {φ ψ : Phase} {l : LevelRun} {t : Task} {n : UInt64}

/-- An engine with the same registrations, the same configuration and the same collaborators. -/
structure Engine.Alike (e e' : Engine) : Prop where
  config : e'.config = e.config
  registry : e'.registry = e.registry
  decoderConfig : e'.decoderConfig = e.decoderConfig
  loader : e'.loader = e.loader
  decoder : e'.decoder = e.decoder

namespace Engine.Alike

theorem exists_renderers (h : e.Alike e') :
    ∃ renderers, e' = { e with renderers := renderers } := by
  cases e
  cases e'
  obtain ⟨rfl, rfl, rfl, rfl, rfl⟩ := h
  exact ⟨_, rfl⟩

theorem step (h : e.Alike e') (hstep : World.Step e v w) : World.Step e' v w := by
  obtain ⟨renderers, rfl⟩ := h.exists_renderers
  cases hstep with
  | move y _ hm => exact .move y w hm
  | wait due hidle hdue => exact .wait due hidle hdue

theorem steps (h : e.Alike e') (hsteps : World.Steps e v w) : World.Steps e' v w :=
  hsteps.lift id fun _ _ ↦ h.step

theorem symm (h : e.Alike e') : e'.Alike e :=
  ⟨h.config.symm, h.registry.symm, h.decoderConfig.symm, h.loader.symm, h.decoder.symm⟩

theorem follows (h : e.Alike e') (hk : e.Follows k) : e'.Follows k := by
  obtain ⟨renderers, rfl⟩ := h.exists_renderers
  exact ⟨hk.loader, hk.decoder, hk.analyzers⟩

theorem result?_eq (h : e.Alike e') (j : Job) (numbers : TaskNumbers) :
    k.result? e' j numbers = k.result? e j numbers := by
  obtain ⟨renderers, rfl⟩ := h.exists_renderers
  rfl

end Engine.Alike

namespace World

/-! ## Runs alone -/

/-- A run that has been executed alone until nothing moves any more. -/
structure Rests (e : Engine) (j : Job) (token : Nat) (numbers : TaskNumbers) (now : Nat)
    (z : World) : Prop where
  steps : Steps e (alone j token numbers now) z
  rest : ∀ z', ¬ Step e z z'
  uncancelled : z.isRunCancelled 0 = false

theorem alarms_of_steps (h : Steps e u z) (hu : u.alarms = []) : z.alarms = [] := by
  induction h with
  | refl => exact hu
  | @tail v w _ hstep ih =>
      cases hstep with
      | move y _ hm =>
          rcases move?_eq_some hm with ⟨k, x, a, events, _, rfl, _⟩ | ⟨k, a, rfl⟩
          · simpa using ih
          · simp [ih]
      | wait => exact ih

/-- Without alarms nothing is abandoned. -/
theorem phase?_ne_abandoned_of_steps (h : Steps e u z) (hu : u.alarms = [])
    (hφ : u.phase? r ≠ some .abandoned) : z.phase? r ≠ some .abandoned := by
  induction h with
  | refl => exact hφ
  | @tail v w hsteps hstep ih =>
      cases hstep with
      | wait => exact ih
      | move y _ hm =>
          cases y with
          | alarm k =>
              simp [move?, moveAlarm?, alarms_of_steps hsteps hu] at hm
          | run k =>
              obtain ⟨x, a, hx, ha, rfl⟩ := moveRun?_eq_some hm
              by_cases hk : k = r
              · subst hk
                rw [phase?_carryOut hx]
                have hmoves := Phase.moves_of_advance ha
                generalize x.phase = χ, a.phase = ψ at hmoves
                cases hmoves <;> simp
              · rwa [phase?_carryOut_ne hk]
          | task k i =>
              obtain ⟨x, a, t, hx, ha, _, rfl⟩ := moveTask?_eq_some hm
              by_cases hk : k = r
              · subst hk
                obtain ⟨_, _, _, _, _, _, heq⟩ := Phase.advanceTask?_eq_some ha
                simp [phase?_carryOut hx, heq]
              · rwa [phase?_carryOut_ne hk]

/-- A run alone that is at rest has the end that is foretold. -/
theorem Rests.result?_eq (h : Rests e j token numbers now z) (hk : e.Follows k) :
    ∃ φ, z.phase? 0 = some φ ∧ k.result? e j numbers = if φ.isSettled then some φ else none := by
  have hu : (alone j token numbers now).runs[0]? = some ⟨j, token, numbers, .starting⟩ := rfl
  obtain ⟨y, hy⟩ := exists_getElem?_of_steps h.steps hu
  have hφ : z.phase? 0 = some y.phase := phase?_eq_some_iff.2 ⟨y, hy, rfl⟩
  have hkept : y.phase ≠ .abandoned := fun habandoned ↦
    phase?_ne_abandoned_of_steps h.steps rfl (by simp [alone, phase?]) (habandoned ▸ hφ)
  refine ⟨y.phase, hφ, ?_⟩
  cases hsettled : y.phase.isSettled with
  | true => exact result?_of_settled hk hu rfl h.steps h.uncancelled hφ hsettled hkept
  | false => exact result?_eq_none_of_rest hk hu rfl h.steps h.uncancelled hφ hsettled h.rest

namespace Lagging

theorem phase?_eq (h : Lagging e w y s) : s.phase? 0 = some y.phase := by
  simp [phase?, h.runs]

theorem isRunCancelled_eq (h : Lagging e w y s) : s.isRunCancelled 0 = false := by
  simpa [isRunCancelled, h.runs] using h.uncancelled

/-- Where nothing moves any more in the session, nothing moves alone. -/
theorem rest (h : Lagging e w y s) (hy : w.runs[r]? = some y)
    (hc : w.isCancelled y.token = false) (hrest : ∀ z, ¬ Step e w z) : ∀ z, ¬ Step e s z := by
  have hidle : ∀ x, w.canMove e x = false := fun x ↦ by
    cases hm : w.canMove e x with
    | false => rfl
    | true =>
        obtain ⟨z, hz⟩ := exists_step_of_canMove hm
        exact absurd hz (hrest z)
  have hnodue : s.dues e = [] := by
    apply List.eq_nil_iff_forall_not_mem.2
    intro due hdue
    rw [dues_of_single h.runs h.alarms] at hdue
    obtain ⟨z, hz⟩ := exists_step_of_mem_dues (e := e) (w := w)
      (List.mem_append_left _ (List.mem_flatMap.2 ⟨y, List.mem_of_getElem? hy, hdue⟩))
    exact hrest z hz
  have hstill : ∀ x, s.canMove e x = false := by
    rcases Nat.lt_or_eq_of_le h.now_le with hlt | heq
    · exact (h.behind hlt).1
    · exact canMove_single h.runs h.alarms h.uncancelled hc hy heq hidle
  exact not_step_of_idle (List.all_eq_true.2 fun x _ ↦ by simp [hstill x]) hnodue

/-- A run with an end has nothing left to do alone. -/
theorem rest_of_settled (h : Lagging e w y s) (hy : y.phase.isSettled = true) :
    ∀ z, ¬ Step e s z := by
  have htasks : y.phase.tasks = [] ∧ y.phase.dues e = [] := by
    cases hphase : y.phase <;> simp_all [Phase.isSettled, Phase.tasks, Phase.dues]
  apply not_step_of_idle
  · simp [threads, h.runs, h.alarms, runThreads, hy]
  · rw [dues_of_single h.runs h.alarms, htasks.2]

end Lagging

/-! ## Permits and abandoned runs in a session -/

theorem running_le_of_session (hbound : e.config.maxConcurrency = some n)
    (hu : u.phase? r = some .starting) (h : Session e u w) :
    ∀ l, w.level? r = some l → l.running ≤ n.toNat := by
  induction h with
  | refl =>
      intro l hl
      cases (level?_of_phase? hu).symm.trans hl
  | tail hsession hstep ih =>
      obtain ⟨x, hx, _⟩ := phase?_eq_some_iff.1 hu
      obtain ⟨y, hy, _⟩ := exists_run_of_session hsession hx
      refine (stepOf_session hstep hy).level ?_ ?_ ?_
      · intro l hfresh
        have hrunning : l.running = 0 := List.countP_eq_zero.2 fun t ht ↦ by
          simp [Task.isRunning, hfresh t ht]
        omega
      · intro l i t b ht hle hb
        exact LevelRun.running_le_of_advance? ht (hbound ▸ hb) hle
      · rwa [← level?_of_phase? (phase?_eq_some_iff.2 ⟨y, hy, rfl⟩)]

/-- Whether a task can have a permit depends on the tasks of its own level alone. -/
theorem canMove_eq_hasFreePermit (hl : w.level? r = some l) (ht : l.tasks[i]? = some t)
    (hs : t.state = .waiting) :
    w.canMove e (.task r i) = l.hasFreePermit e.config.maxConcurrency := by
  cases hfree : l.hasFreePermit e.config.maxConcurrency with
  | true => exact canMove_of_waiting hl ht hs hfree
  | false =>
      obtain ⟨x, c, p, hx, hphase⟩ := getElem?_of_level? hl
      simp [canMove, move?, moveTask?, hx, hphase, Phase.advanceTask?, ht, Task.advance?, hs, hfree]

theorem abandoned_of_session (hv : v.phase? r = some .abandoned) (h : Session e v w) :
    w.phase? r = some .abandoned ∧ ∃ ys, w.events = ys ++ v.events ∧ ∀ y ∈ ys, y.run ≠ r := by
  induction h with
  | refl => exact ⟨hv, [], rfl, by simp⟩
  | @tail z w _ hstep ih =>
      obtain ⟨hz, ys, hys, hothers⟩ := ih
      obtain ⟨x, hx, hφ⟩ := phase?_eq_some_iff.1 hz
      have hkept : ∀ zs, w.phase? r = some .abandoned → w.events = zs ++ z.events →
          (∀ y ∈ zs, y.run ≠ r) → w.phase? r = some .abandoned ∧
            ∃ ys, w.events = ys ++ v.events ∧ ∀ y ∈ ys, y.run ≠ r := by
        intro zs hw hzs hnew
        refine ⟨hw, zs ++ ys, by rw [hzs, hys, List.append_assoc], fun y hy ↦ ?_⟩
        rcases List.mem_append.1 hy with hy | hy
        · exact hnew y hy
        · exact hothers y hy
      cases stepOf_session hstep hx with
      | elsewhere zs hphase hevents hnew => exact hkept zs (hφ ▸ hphase) hevents hnew
      | run a _ ha => rw [hφ] at ha; cases ha
      | task i t a ht => rw [hφ] at ht; simp [Phase.tasks] at ht
      | abandon hopen => rw [hφ] at hopen; cases hopen

/-- What is dropped with a run: the tasks that were running are cut off, and nothing else
follows. -/
theorem abandoned_of_act (hφ : v.phase? r = some φ) (hopen : φ.isSettled = false)
    (h : Session e (v.act (.abandon r)) w) :
    w.phase? r = some .abandoned ∧ ∃ ys, w.events = ys ++ v.events ∧ ∀ y ∈ ys, y.run = r →
      y.incident = .ended ∧ ∃ t, φ.tasks[y.task]? = some t ∧ t.isRunning = true := by
  obtain ⟨x, hx, rfl⟩ := phase?_eq_some_iff.1 hφ
  have hact : v.act (.abandon r) = { v.setPhase r .abandoned with
      events := (abandonEvents r x.phase).reverse ++ v.events } := by
    simp [act, hx, hopen]
  have hdropped : (v.act (.abandon r)).phase? r = some .abandoned := by
    simp [hact, phase?, setPhase, hx, Run.withPhase]
  obtain ⟨hw, ys, hys, hothers⟩ := abandoned_of_session hdropped h
  refine ⟨hw, ys ++ (abandonEvents r x.phase).reverse, by simp [hys, hact], fun y hy hrun ↦ ?_⟩
  rcases List.mem_append.1 hy with hy | hy
  · exact absurd hrun (hothers y hy)
  · obtain ⟨⟨t, i⟩, ht, hdrop⟩ := List.mem_filterMap.1 (List.mem_reverse.1 hy)
    simp only [Option.ite_none_right_eq_some, Option.some.injEq] at hdrop
    obtain ⟨hrunning, rfl⟩ := hdrop
    exact ⟨rfl, t, List.mem_zipIdx_iff_getElem?.1 ht, hrunning⟩

/-! ## Runs of one engine -/

/-- A run of a session that is neither cancelled nor abandoned. -/
structure Kept (r : Nat) (φ : Phase) (w : World) : Prop where
  phase : w.phase? r = some φ
  uncancelled : w.isRunCancelled r = false
  kept : φ ≠ .abandoned

/-- What a session from `u` to `w` keeps from a run that is launched in `u`, compared with an engine
on which the run is alone. -/
structure Isolated (e e' : Engine) (r : Nat) (x : Run) (u w : World) : Prop where
  /-- The run goes as it can go alone from the same moment. -/
  alone : ∀ φ, Kept r φ w → ∃ s, Steps e' (World.alone x.job x.token x.numbers u.now) s ∧
    s.isRunCancelled 0 = false ∧ s.phase? 0 = some φ
  /-- Once it has an end, that is the end of the run alone, which has one then, however the tasks
  are numbered. -/
  same : ∀ φ, Kept r φ w → φ.isSettled = true →
    (∃ z, Rests e' x.job x.token x.numbers u.now z) ∧
      ∀ token numbers now z, Rests e' x.job token numbers now z →
        ∃ ψ, z.phase? 0 = some ψ ∧ φ.SameEnd x.numbers numbers ψ ∧ (numbers = x.numbers → ψ = φ)
  /-- It has an end when nothing moves any more, if the run alone has one. -/
  returns : ∀ φ, Kept r φ w → (∀ w', ¬ Step e w w') →
    ∀ token numbers now z ψ, Rests e' x.job token numbers now z → z.phase? 0 = some ψ →
      ψ.isSettled = true → φ.SameEnd x.numbers numbers ψ ∧ (numbers = x.numbers → ψ = φ)
  /-- An abandoned run goes no further: of its tasks those that were running are cut off, and none
  starts or returns. -/
  dropped : ∀ v φ, Session e u v → v.phase? r = some φ → φ.isSettled = false →
    Session e (v.act (.abandon r)) w →
    w.phase? r = some .abandoned ∧ ∃ ys, w.events = ys ++ v.events ∧ ∀ y ∈ ys, y.run = r →
      y.incident = .ended ∧ ∃ t, φ.tasks[y.task]? = some t ∧ t.isRunning = true
  /-- The tasks of the run keep to the bound, and no other tasks count. -/
  permits : ∀ l, w.level? r = some l →
    (∀ n, e.config.maxConcurrency = some n → l.running ≤ n.toNat) ∧
      ∀ i t, l.tasks[i]? = some t → t.state = .waiting →
        w.canMove e (.task r i) = l.hasFreePermit e.config.maxConcurrency

theorem Kept.exists_lagging (hx : u.runs[r]? = some x) (hstart : x.phase = .starting)
    (h : Session e u w) (hkept : Kept r φ w) :
    ∃ y s, w.runs[r]? = some y ∧ y.phase = φ ∧ w.isCancelled y.token = false ∧
      Steps e (World.alone x.job x.token x.numbers u.now) s ∧ Lagging e w y s := by
  obtain ⟨y, hy, hφ⟩ := phase?_eq_some_iff.1 hkept.phase
  obtain ⟨y', hy', _, htoken, _⟩ := exists_run_of_session h hx
  obtain rfl : y = y' := Option.some.inj (hy.symm.trans hy')
  have hc : w.isCancelled y.token = false := by
    rw [← isRunCancelled_of_getElem? hy]
    exact hkept.uncancelled
  obtain ⟨z, hz, _, _, habandoned | ⟨s, hsteps, hlagging⟩⟩ :=
    exists_alone hx hstart h (htoken ▸ hc)
  · obtain rfl : y = z := Option.some.inj (hy.symm.trans hz)
    exact absurd (hφ.symm.trans habandoned) hkept.kept
  · obtain rfl : y = z := Option.some.inj (hy.symm.trans hz)
    exact ⟨y, s, hy, hφ, hc, hsteps, hlagging⟩

/-- A run of a session that has an end has the one that is foretold. -/
theorem Kept.result?_eq_some (hk : e.Follows k) (hx : u.runs[r]? = some x)
    (hstart : x.phase = .starting) (h : Session e u w) (hkept : Kept r φ w)
    (hφ : φ.isSettled = true) : k.result? e x.job x.numbers = some φ := by
  obtain ⟨y, s, _, rfl, _, hsteps, hlagging⟩ := hkept.exists_lagging hx hstart h
  apply result?_of_settled hk (r := 0) (x := ⟨x.job, x.token, x.numbers, .starting⟩) rfl rfl
    hsteps
  · exact hlagging.isRunCancelled_eq
  · exact hlagging.phase?_eq
  · exact hφ
  · exact hkept.kept

/-- A run of a session that has no end when nothing moves any more has none foretold. -/
theorem Kept.result?_eq_none (hk : e.Follows k) (hx : u.runs[r]? = some x)
    (hstart : x.phase = .starting) (h : Session e u w) (hkept : Kept r φ w)
    (hφ : φ.isSettled = false) (hrest : ∀ w', ¬ Step e w w') :
    k.result? e x.job x.numbers = none := by
  obtain ⟨y, s, hy, rfl, hc, hsteps, hlagging⟩ := hkept.exists_lagging hx hstart h
  apply result?_eq_none_of_rest hk (r := 0) (x := ⟨x.job, x.token, x.numbers, .starting⟩) rfl rfl
    hsteps
  · exact hlagging.isRunCancelled_eq
  · exact hlagging.phase?_eq
  · exact hφ
  · exact hlagging.rest hy hc hrest

end World

/-! ## Two runs, one of them cancelled -/

namespace Pair

def conduct : Conduct where
  loading domain name _ := some (0, .ok ⟨domain, name, .empty, .empty⟩)
  decoding _ _ _ := some (0, .ok ⟨[]⟩)
  analysis a x target := behaviour a x.scope target x.dependencies

theorem follows_conduct (bound : Option UInt64) : (engine bound registry).Follows conduct where
  loader _ _ _ _ := rfl
  decoder _ _ _ _ := rfl
  analyzers := follows_behaviour _

/-- Another run is launched when the first one has a plan. -/
def joined : World :=
  { world (.planned twoLevels) with
    runs := (world (.planned twoLevels)).runs ++ [⟨job, 1, fun _ _ ↦ 1, .starting⟩] }

def crossing : World := joined.after (engine none registry) (prelude ++ level)

/-- The other run is about to load its environment when it is cancelled. -/
def crossed : World := (crossing.setPhase 1 (.planned twoLevels)).act (.cancel 1)

def parted : World := crossed.after (engine none registry) ([.run 1] ++ level ++ [.run 1])

theorem session_parted : World.Session (engine none registry) (world .starting) parted := by
  have hjoined : World.Session (engine none registry) (world .starting) joined :=
    (World.session_of_steps (steps_planned plan_registry)).tail (.launch job 1 _)
  have hcrossing : World.Session (engine none registry) joined crossing :=
    World.session_of_steps (World.steps_after _ _ _)
  have hplanned : World.Step (engine none registry) crossing
      (crossing.setPhase 1 (.planned twoLevels)) :=
    World.step_of_plan (x := ⟨job, 1, fun _ _ ↦ 1, .starting⟩) rfl rfl plan_registry rfl
  have hcrossed : World.Session (engine none registry) crossing crossed :=
    .tail (.single (.of_step hplanned)) (.act (.cancel 1))
  exact (hjoined.trans hcrossing).trans
    (hcrossed.trans (World.session_of_steps (World.steps_after _ _ _)))

end Pair

end Timelock
