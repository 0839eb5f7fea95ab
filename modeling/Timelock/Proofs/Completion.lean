import Timelock.Proofs.Course
import Timelock.Proofs.RunAccount
import Timelock.Proofs.StepOrder

/-!
# Runs that are left to themselves

The tasks of a run that is not cancelled stay on course, whatever else goes on around it.  Once such
a run has begun to analyze, it does not fail, and it is not held up for ever: when nothing moves
any more, it has finished.
-/

namespace Timelock

variable {e : Engine} {r : Nat} {plan : Plan} {c : ExecutionContext} {u v w w' : World}
  {numbers : TaskNumbers} {ws : List World} {ls : List LevelRun} {p : Progress} {l l' : LevelRun}
  {x : Run}

namespace World

/-! ## Tasks on course -/

/-- The tasks in flight are on course, unless their run has been cancelled. -/
def OnCourse (e : Engine) (r : Nat) (w : World) : Prop :=
  w.isRunCancelled r = true ∨
    ∀ l, w.level? r = some l → ∀ t ∈ l.tasks, t.OnCourse e.timeoutMs w.now

theorem foldl_min_le (ds : List Nat) (k : Nat) :
    ds.foldl min k ≤ k ∧ ∀ d ∈ ds, ds.foldl min k ≤ d := by
  induction ds generalizing k with
  | nil => simp
  | cons a as ih =>
      obtain ⟨hk, has⟩ := ih (min k a)
      rw [List.foldl_cons]
      refine ⟨hk.trans (Nat.min_le_left k a), List.forall_mem_cons.2 ⟨?_, has⟩⟩
      exact hk.trans (Nat.min_le_right k a)

theorem le_of_earliest? {ds : List Nat} {m d : Nat} (h : earliest? ds = some m) (hd : d ∈ ds) :
    m ≤ d := by
  cases ds with
  | nil => cases h
  | cons a as =>
      cases h
      rcases List.mem_cons.1 hd with rfl | hd
      · exact (foldl_min_le as d).1
      · exact (foldl_min_le as a).2 d hd

theorem getElem?_of_level? (h : w.level? r = some l) :
    ∃ x c p, w.runs[r]? = some x ∧ x.phase = .analyzing c p (some l) := by
  obtain ⟨φ, hφ, hl⟩ := Option.bind_eq_some_iff.1 h
  obtain ⟨x, hx, rfl⟩ := phase?_eq_some_iff.1 hφ
  obtain ⟨c, p, hphase⟩ := Phase.level?_eq_some hl
  exact ⟨x, c, p, hx, hphase⟩

theorem advance?_eq_none_of_idle {i : Nat} {t : Task} (hidle : ∀ y, w.canMove e y = false)
    (hl : w.level? r = some l) (ht : l.tasks[i]? = some t) :
    t.advance? e.timeoutMs w.now (w.isRunCancelled r) (l.hasFreePermit e.config.maxConcurrency) =
      none := by
  obtain ⟨x, c, p, hx, hphase⟩ := getElem?_of_level? hl
  have hmove : w.moveTask? e r i = none := by
    simpa [canMove, move?] using hidle (.task r i)
  rw [isRunCancelled_of_getElem? hx]
  cases ha : t.advance? e.timeoutMs w.now (w.isCancelled x.token)
      (l.hasFreePermit e.config.maxConcurrency) with
  | none => rfl
  | some b => simp [moveTask?, hx, hphase, Phase.advanceTask?, Phase.tasks, ht, ha] at hmove

theorem mem_dues {t : Task} {due : Nat} (hl : w.level? r = some l) (ht : t ∈ l.tasks)
    (hdue : t.due? e.timeoutMs = some due) : due ∈ w.dues e := by
  obtain ⟨x, c, p, hx, hphase⟩ := getElem?_of_level? hl
  refine List.mem_append_left _ (List.mem_flatMap.2 ⟨x, List.mem_of_getElem? hx, ?_⟩)
  rw [hphase]
  exact List.mem_filterMap.2 ⟨t, ht, hdue⟩

/-- Every step of a world keeps the tasks of a run on course. -/
theorem OnCourse.step (h : OnCourse e r w) (hstep : Step e w w') (hx : w.runs[r]? = some x) :
    OnCourse e r w' := by
  cases hc : w'.isRunCancelled r with
  | true => exact .inl hc
  | false =>
      have hcw : w.isRunCancelled r = false := by
        cases hcw : w.isRunCancelled r with
        | false => rfl
        | true => rw [isRunCancelled_of_step hstep hcw] at hc; exact hc
      have hcourse := h.resolve_left (by simp [hcw])
      right
      intro l' hl' t ht
      cases hstep with
      | wait due hidle hdue =>
          obtain ⟨i, hi⟩ := List.mem_iff_getElem?.1 ht
          have hblocked := advance?_eq_none_of_idle hidle hl' hi
          rw [hcw] at hblocked
          apply (hcourse l' hl' t ht).wait hblocked
          intro d hd
          exact le_of_earliest? hdue (mem_dues hl' ht hd)
      | move y _ hm =>
          obtain ⟨y, hy, hfollows⟩ := exists_follows_of_step (.move y w' hm) hx
          have hφ : w.phase? r = some x.phase := phase?_eq_some_iff.2 ⟨x, hx, rfl⟩
          have hψ : w'.phase? r = some y.phase := phase?_eq_some_iff.2 ⟨y, hy, rfl⟩
          rw [level?_of_phase? hψ] at hl'
          rw [level?_of_phase? hφ] at hcourse
          rw [now_of_move hm]
          rcases hfollows.next.task_cases hl' ht with
            ⟨l, hl, _, ht⟩ | ⟨l, hl, _, k, hk, free, b, hb, rfl⟩ | hs
          · exact hcourse l hl t ht
          · rw [← isRunCancelled_of_getElem? hx, hcw] at hb
            exact (hcourse l hl k hk).advance hb
          · simp [Task.OnCourse, hs]

theorem exists_getElem?_of_steps (h : Steps e w w') (hx : w.runs[r]? = some x) :
    ∃ y, w'.runs[r]? = some y := by
  induction h with
  | refl => exact ⟨x, hx⟩
  | tail _ hstep ih =>
      obtain ⟨y, hy⟩ := ih
      obtain ⟨z, hz, _⟩ := exists_follows_of_step hstep hy
      exact ⟨z, hz⟩

theorem onCourse_of_steps (h : Steps e u w) (hu : u.phase? r = some .starting) :
    OnCourse e r w := by
  obtain ⟨x, hx, _⟩ := phase?_eq_some_iff.1 hu
  induction h with
  | refl => exact .inr fun l hl ↦ by simp [level?, hu, Phase.level?] at hl
  | tail hsteps hstep ih =>
      obtain ⟨y, hy⟩ := exists_getElem?_of_steps hsteps hx
      exact ih.step hstep hy

/-! ## Completion -/

/-- A run that has not been cancelled and has finished well. -/
structure Concluded (e : Engine) (r : Nat) (w : World) (rep : Report) : Prop where
  begun : ∃ u, u.phase? r = some .starting ∧ Steps e u w
  uncancelled : w.isRunCancelled r = false
  finished : w.phase? r = some (.finished (.ok rep))

/-- All tasks of such a run have ended by their own course. -/
theorem Concluded.exists_account {rep : Report} (h : Concluded e r w rep) :
    ∃ plan ws ls node, e.registry.plan = .ok plan ∧
      Account e r (w.numbers r) plan rep.context ws ls
        ⟨w.numbers r, rep.tree, rep.outcomes, node, []⟩ none ∧
      ∀ l ∈ ls, ∀ t ∈ l.tasks, t.EndsByItself e.timeoutMs := by
  obtain ⟨u, hu, huw⟩ := h.begun
  obtain ⟨ws, plan, ls, node, hws, hplan, hacc⟩ := exists_account_of_steps hu huw h.finished
  refine ⟨plan, ws, ls, node, hplan, hacc, ?_⟩
  intro l hl t ht
  obtain ⟨v, hv, hseen⟩ := hacc.seen l hl
  obtain ⟨huv, hvw⟩ := hws.steps_of_mem hv
  have hcourse : t.OnCourse e.timeoutMs v.now := by
    rcases onCourse_of_steps huv hu with hc | hcourse
    · have hcw := isRunCancelled_of_steps hvw hc
      rw [h.uncancelled] at hcw
      cases hcw
    · exact hcourse l hseen t ht
  have hover := hacc.taken.isOver l hl
  obtain ⟨result, ms, hs⟩ := Task.hasEnded_iff.1 (List.all_eq_true.1 hover t ht)
  simp only [Task.OnCourse, hs] at hcourse
  obtain ⟨started, hended⟩ := hcourse
  exact ⟨started, result, ms, hs, hended⟩

/-- A run that has decoded its proposal and is neither cancelled nor abandoned, seen when it is over
or when nothing moves any more. -/
structure Undisturbed (e : Engine) (r : Nat) (d : DecodedProposal) (w : World) : Prop where
  /-- A bound on concurrency lets at least one task run. -/
  permits : e.config.maxConcurrency ≠ some 0
  begun : ∃ u v c p l?, u.phase? r = some .starting ∧ Steps e u v ∧
    v.phase? r = some (.analyzing c p l?) ∧ c.decoded = d ∧ Steps e v w
  rest : (∃ φ, w.phase? r = some φ ∧ φ.isSettled = true) ∨ ∀ v, ¬ Step e w v
  uncancelled : w.isRunCancelled r = false
  kept : w.phase? r ≠ some .abandoned

/-- A run that analyzes, or has finished well, unless it was cancelled or abandoned. -/
def Underway (r : Nat) (c : ExecutionContext) (w : World) : Prop :=
  w.isRunCancelled r = true ∨ w.phase? r = some .abandoned ∨
    (∃ p l?, w.phase? r = some (.analyzing c p l?)) ∨
    ∃ rep : Report, w.phase? r = some (.finished (.ok rep)) ∧ rep.context = c

/-- The node of a step of the plan is found. -/
theorem exists_resolve? {s : LevelStep} {rest : List LevelStep} (hplan : e.registry.plan = .ok plan)
    (h : Account e r numbers plan c ws ls p none) (hp : p.pending = s :: rest) :
    ∃ y, p.resolve? s.path = some y := by
  have hmem : s ∈ plan.steps (.ofDecoded c.decoded) := by
    have hpending := h.taken.pending_eq
    rw [hp] at hpending
    simp only [Progress.initial] at hpending
    simp [hpending]
  have hpath := (Plan.proper_of_mem_steps hplan hmem).mem_allAt
  have hdecoded : p.tree.decoded = (AnalyzedProposal.ofDecoded c.decoded).decoded :=
    h.taken.decoded_eq
  rw [← NodePath.allAt_eq_of_decoded_eq hdecoded] at hpath
  rw [NodePath.mem_allAt_iff, ← NodePath.isSome_resolve, ← h.located.resolve?_eq] at hpath
  exact Option.isSome_iff_exists.1 hpath

theorem Underway.step {φ : Phase} (h : Underway r c w) (hφ : w.phase? r = some φ)
    (hacc : φ.Accounted e r (w.numbers r) ws) (hstep : Step e w w') : Underway r c w' := by
  obtain ⟨x, hx, rfl⟩ := phase?_eq_some_iff.1 hφ
  obtain ⟨y, hy, hfollows⟩ := exists_follows_of_step hstep hx
  have hψ : w'.phase? r = some y.phase := phase?_eq_some_iff.2 ⟨y, hy, rfl⟩
  rcases h with hc | ha | ⟨p, l?, hp⟩ | ⟨rep, hrep, hcontext⟩
  · exact .inl (isRunCancelled_of_step hstep hc)
  · have hphase : x.phase = .abandoned := Option.some.inj (hφ.symm.trans ha)
    have hsame := hfollows.next.of_settled (by rw [hphase]; rfl)
    exact .inr (.inl (by rw [hψ, hsame, hphase]))
  · have hphase : x.phase = .analyzing c p l? := Option.some.inj (hφ.symm.trans hp)
    have hnext := hfollows.next
    rw [numbers_of_getElem? hx] at hacc
    rw [hphase] at hnext hacc
    cases l? with
    | some l =>
        rcases hnext.of_accounted_level hacc with heq | ⟨l', _, heq⟩ | ⟨_, heq⟩ | heq
        · exact .inr (.inr (.inl ⟨p, some l, by rw [hψ, heq]⟩))
        · exact .inr (.inr (.inl ⟨p, some l', by rw [hψ, heq]⟩))
        · exact .inr (.inr (.inl ⟨_, none, by rw [hψ, heq]⟩))
        · exact .inr (.inl (by rw [hψ, heq]))
    | none =>
        rcases hnext.of_between with heq | heq | heq
        · exact .inr (.inr (.inl ⟨p, none, by rw [hψ, heq]⟩))
        · cases hc : w.isCancelled x.token with
          | true =>
              rw [← isRunCancelled_of_getElem? hx] at hc
              exact .inl (isRunCancelled_of_step hstep hc)
          | false =>
              obtain ⟨plan, ls, hplan, hacc⟩ := hacc
              rw [hc, Phase.nextLevel] at heq
              split at heq
              · exact .inr (.inr (.inr ⟨_, by rw [hψ, heq], rfl⟩))
              next s rest hpending =>
                obtain ⟨y, hy⟩ := exists_resolve? hplan hacc hpending
                simp only [hy, Bool.false_eq_true, if_false] at heq
                exact .inr (.inr (.inl ⟨_, _, by rw [hψ, heq]⟩))
        · exact .inr (.inl (by rw [hψ, heq]))
  · have hphase : x.phase = .finished (.ok rep) := Option.some.inj (hφ.symm.trans hrep)
    have hsame := hfollows.next.of_settled (by rw [hphase]; rfl)
    exact .inr (.inr (.inr ⟨rep, by rw [hψ, hsame, hphase], hcontext⟩))

theorem underway_of_steps {l? : Option LevelRun} (hu : u.phase? r = some .starting)
    (huv : Steps e u v) (hv : v.phase? r = some (.analyzing c p l?)) (hvw : Steps e v w) :
    Underway r c w := by
  induction hvw with
  | refl => exact .inr (.inr (.inl ⟨p, l?, hv⟩))
  | tail hsteps hstep ih =>
      obtain ⟨ws, _, hws⟩ := History.start.exists_extend (huv.trans hsteps)
      obtain ⟨φ, hφ, hacc⟩ := hws.accounted hu
      exact ih.step hφ hacc hstep

/-- A level that is not over lets a task move or time pass. -/
theorem exists_step_of_level (hpermits : e.config.maxConcurrency ≠ some 0)
    (hl : w.level? r = some l) : ∃ v, Step e w v := by
  by_contra hrest
  rw [not_exists] at hrest
  have hidle : ∀ y, w.canMove e y = false := by
    intro y
    cases hm : w.move? e y with
    | none => simp [canMove, hm]
    | some v => exact absurd (.move y v hm) (hrest v)
  have hnodue : ∀ due, due ∉ w.dues e := by
    intro due hdue
    cases he : earliest? (w.dues e) with
    | none =>
        cases hds : w.dues e with
        | nil => simp [hds] at hdue
        | cons a as => simp [hds, earliest?] at he
    | some m => exact hrest _ (.wait m hidle he)
  have hwaiting : ∀ t ∈ l.tasks, t.isRunning = false := by
    intro t ht
    cases hs : t.state with
    | waiting => simp [Task.isRunning, hs]
    | ended result ms => simp [Task.isRunning, hs]
    | running started q =>
        obtain ⟨due, hdue⟩ : ∃ due, t.due? e.timeoutMs = some due := by
          simp only [Task.due?, hs]
          cases q.due? <;> exact ⟨_, rfl⟩
        exact absurd (mem_dues hl ht hdue) (hnodue due)
  have hfree : l.hasFreePermit e.config.maxConcurrency = true := by
    have hrunning : l.running = 0 := List.countP_eq_zero.2 fun t ht ↦ by simp [hwaiting t ht]
    unfold LevelRun.hasFreePermit
    cases hbound : e.config.maxConcurrency with
    | none => rfl
    | some n =>
        have hn : n.toNat ≠ 0 := by
          intro hn
          have hzero : n = 0 := UInt64.toNat_inj.1 hn
          exact hpermits (by rw [hbound, hzero])
        simpa [hrunning] using Nat.pos_of_ne_zero hn
  have hover : l.isOver = true := by
    apply List.all_eq_true.2
    intro t ht
    obtain ⟨i, hi⟩ := List.mem_iff_getElem?.1 ht
    have hblocked := advance?_eq_none_of_idle hidle hl hi
    have hnot := hwaiting t ht
    cases hs : t.state with
    | waiting => simp [Task.advance?, hs, hfree] at hblocked
    | running started q => simp [Task.isRunning, hs] at hnot
    | ended result ms => simp [Task.hasEnded, hs]
  obtain ⟨x, c, p, hx, hphase⟩ := getElem?_of_level? hl
  have hmove := hidle (.run r)
  simp [canMove, move?, moveRun?, hx, hphase, Phase.advance?, hover] at hmove

theorem exists_step_of_analyzing {l? : Option LevelRun}
    (hpermits : e.config.maxConcurrency ≠ some 0)
    (hp : w.phase? r = some (.analyzing c p l?)) : ∃ v, Step e w v := by
  cases l? with
  | some l => exact exists_step_of_level hpermits (level?_of_phase? hp)
  | none =>
      obtain ⟨x, hx, hphase⟩ := phase?_eq_some_iff.1 hp
      have hmove : w.move? e (.run r) = some (w.carryOut r x []
          { phase := Phase.nextLevel (w.isCancelled x.token) c p }) := by
        simp [move?, moveRun?, hx, hphase, Phase.advance?]
      exact ⟨_, .move _ _ hmove⟩

namespace Undisturbed

variable {d : DecodedProposal}

/-- A run that is left to itself finishes well. -/
theorem exists_concluded (h : Undisturbed e r d w) :
    ∃ rep, Concluded e r w rep ∧ rep.context.decoded = d := by
  obtain ⟨u, v, c, p, l?, hu, huv, hv, rfl, hvw⟩ := h.begun
  rcases underway_of_steps hu huv hv hvw with hc | ha | ⟨q, k?, hq⟩ | ⟨rep, hrep, hcontext⟩
  · rw [h.uncancelled] at hc
    cases hc
  · exact absurd ha h.kept
  · obtain ⟨v', hstep⟩ := exists_step_of_analyzing h.permits hq
    rcases h.rest with ⟨φ, hφ, hsettled⟩ | hrest
    · obtain rfl := Option.some.inj (hq.symm.trans hφ)
      cases hsettled
    · exact absurd hstep (hrest v')
  · exact ⟨rep, ⟨⟨u, hu, huv.trans hvw⟩, h.uncancelled, hrep⟩, by rw [hcontext]⟩

end Undisturbed

end World

end Timelock
