import Timelock.Proofs.Endings
import Timelock.Proofs.RunTrees
import Timelock.Proofs.Scheduling

/-!
# What a run comes to by itself

Where what the loader, the decoder and the analyzers come to is a function of what they are given,
so is the end of a run: it can be told without a clock, without permits, and without other runs.  A
run that is not disturbed ends as foretold, and it stays without an end only where none is foretold.
-/

namespace Timelock

/-! ## Calls -/

namespace Activity

variable {α : Type}

/-- The activity as it goes on when it is told of no deadline. -/
def untimed : Activity α → Activity α
  | .done r => .done fun m ↦ r { m with deadline := none }
  | .sleep ms next => .sleep ms next.untimed
  | .awaitCancel next => .awaitCancel next.untimed
  | .cancelRun next => .cancelRun next.untimed
  | .branch test yes no =>
      .branch (fun m ↦ test { m with deadline := none }) yes.untimed no.untimed
  | .note mark next => .note mark next.untimed

/-- After how long, and with what, a call ends that is not cancelled; `none` when it waits for
that. -/
def callCourse (started : Nat) (a : Activity α) : Option (Nat × α) :=
  a.untimed.course 0 started 0

end Activity

namespace Position

variable {α : Type} {q q' : Position α} {now now' : Nat} {foretold : Option (Nat × α)}

def untimed : Position α → Position α
  | .ready a => .ready a.untimed
  | .asleep due a => .asleep due a.untimed
  | .awaiting a => .awaiting a.untimed

theorem move?_untimed_of_on {effect : Option Effect} {cancelled : Bool} {deadline : Option Nat}
    (h : q.move? ⟨now, none, cancelled⟩ = some (.on q' effect)) :
    q.untimed.move? ⟨now, deadline, cancelled⟩ = some (.on q'.untimed effect) := by
  cases q with
  | ready a =>
      cases a <;> simp only [move?, Option.some.injEq, Move.on.injEq, reduceCtorEq] at h <;>
        obtain ⟨rfl, rfl⟩ := h
      all_goals simp only [untimed, Activity.untimed, move?]
      all_goals split <;> rfl
  | asleep due a =>
      obtain ⟨hdue, h⟩ := Option.ite_none_right_eq_some.1 h
      cases h
      exact if_pos hdue
  | awaiting a =>
      obtain ⟨hc, h⟩ := Option.ite_none_right_eq_some.1 h
      cases h
      exact if_pos hc

theorem move?_untimed_of_done {y : α} {cancelled : Bool} {deadline : Option Nat}
    (h : q.move? ⟨now, none, cancelled⟩ = some (.done y)) :
    q.untimed.move? ⟨now, deadline, cancelled⟩ = some (.done y) := by
  cases q with
  | ready a =>
      cases a with
      | done r => exact h
      | sleep | awaitCancel | cancelRun | branch | note => cases h
  | asleep due a => simp [move?] at h
  | awaiting a => simp [move?] at h

/-- A call that takes a course that was foretold. -/
def CallOnCourse (now : Nat) (foretold : Option (Nat × α)) (q : Position α) : Prop :=
  ∃ started, q.untimed.OnCourse 0 started now foretold

theorem callOnCourse_ready {a : Activity α} (h : a.callCourse now = foretold) :
    (ready a).CallOnCourse now foretold := ⟨now, 0, rfl, h⟩

theorem CallOnCourse.move {effect : Option Effect} (h : q.CallOnCourse now foretold)
    (hm : q.move? ⟨now, none, false⟩ = some (.on q' effect)) : q'.CallOnCourse now foretold := by
  obtain ⟨started, h⟩ := h
  exact ⟨started, h.move (move?_untimed_of_on hm)⟩

theorem CallOnCourse.done {y : α} (h : q.CallOnCourse now foretold)
    (hm : q.move? ⟨now, none, false⟩ = some (.done y)) : ∃ ms, foretold = some (ms, y) := by
  obtain ⟨started, h⟩ := h
  exact ⟨_, h.done (move?_untimed_of_done hm)⟩

/-- Time may pass until a call can move. -/
theorem CallOnCourse.wait (h : q.CallOnCourse now foretold)
    (hidle : q.move? ⟨now, none, false⟩ = none) (hdue : ∀ due, q.due? = some due → now' ≤ due) :
    q.CallOnCourse now' foretold := by
  cases q with
  | ready a =>
      have hready := isSome_move?_ready ⟨now, none, false⟩ a
      simp [hidle] at hready
  | asleep due a =>
      obtain ⟨started, elapsed, rfl, _, hcourse⟩ := h
      exact ⟨started, elapsed, rfl, hdue _ rfl, hcourse⟩
  | awaiting a => exact h

end Position

/-! ## Foretelling a run -/

/-- What the collaborators of a run come to, and after how long, as functions of what they are
given; `none` where they wait to be cancelled. -/
structure Conduct where
  loading : String → String → Selectors → Option (Nat × Except EnvironmentError Environment)
  decoding : Environment → DecoderConfig → Proposal →
    Option (Nat × Except DecodeError DecodedProposal)
  analysis : Analyzer → AnalyzerContext → Target → Option (Nat × Option Verdict)

/-- The collaborators of an engine do what is foretold, whenever they are called. -/
structure Engine.Follows (e : Engine) (k : Conduct) : Prop where
  loader : ∀ domain name chains started,
    (e.loader domain name chains).callCourse started = k.loading domain name chains
  decoder : ∀ environment tables proposal started,
    (e.decoder environment tables proposal).callCourse started =
      k.decoding environment tables proposal
  analyzers : ∀ a ∈ e.registry.analyzers, ∀ x target started,
    (a.invocation x target).course e.timeoutMs started 0 = k.analysis a x target

namespace Conduct

variable (k : Conduct) (e : Engine) (j : Job) (numbers : TaskNumbers)

/-- What the analyzers come to within one execution. -/
def behaviour (c : ExecutionContext) : Behaviour := fun a scope target store ↦
  k.analysis a ⟨c, scope, store⟩ target

/-- With no permits at all, a single task is enough to hold a run up for ever. -/
def isStuck (plan : Plan) (d : DecodedProposal) : Bool :=
  e.config.maxConcurrency = some 0 ∧
    (plan.steps (.ofDecoded d)).any (fun s ↦ !s.analyzers.isEmpty)

def report (c : ExecutionContext) (plan : Plan) : Report :=
  let p := (Progress.initial numbers plan c.decoded).replay e.config.analyzerTimeoutMs
    (k.behaviour c) (plan.steps (.ofDecoded c.decoded))
  ⟨c, p.tree, p.outcomes⟩

def analyzed? (c : ExecutionContext) (plan : Plan) : Option Phase :=
  if Phase.exceedsPermits e.config.maxConcurrency then some .crashed
  else if isStuck e plan c.decoded then none
  else some (.finished (.ok (k.report e numbers c plan)))

def loaded? (plan : Plan) (environment : Environment) : Option Phase :=
  match k.decoding environment e.decoderConfig j.proposal with
  | none => none
  | some (_, .error y) =>
      some (.finished (.error (.decode j.proposal.description j.proposal.chainSelectors y)))
  | some (_, .ok d) =>
      k.analyzed? e numbers
        ⟨j.domain, j.environmentName, environment, e.decoderConfig, j.proposal, d⟩ plan

/-- The end of a run that is neither cancelled nor abandoned, or `none` if it has none. -/
def result? : Option Phase :=
  match e.registry.plan with
  | .error y => some (.finished (.error (.graph y)))
  | .ok plan =>
      match k.loading j.domain j.environmentName j.proposal.chainSelectors with
      | none => none
      | some (_, .error y) =>
          some (.finished
            (.error (.environment j.domain j.environmentName j.proposal.chainSelectors y)))
      | some (_, .ok environment) => k.loaded? e j numbers plan environment

theorem renumbered_report (numbers numbers' : TaskNumbers) (c : ExecutionContext) (plan : Plan) :
    (k.report e numbers c plan).Renumbered numbers numbers' (k.report e numbers' c plan) := by
  have hreplay := (Progress.renumbered_initial numbers numbers' plan c.decoded).replay
    e.config.analyzerTimeoutMs (k.behaviour c) (plan.steps (.ofDecoded c.decoded))
  have houtcomes := hreplay.outcomes
  rw [Progress.numbers_replay, Progress.numbers_replay] at houtcomes
  exact ⟨rfl, hreplay.tree, houtcomes⟩

/-- The numbers of the tasks of a run have no part in how it ends. -/
theorem sameEnd_result? (numbers numbers' : TaskNumbers) :
    Option.Rel (Phase.SameEnd numbers numbers') (k.result? e j numbers)
      (k.result? e j numbers') := by
  have hanalyzed : ∀ c plan, Option.Rel (Phase.SameEnd numbers numbers')
      (k.analyzed? e numbers c plan) (k.analyzed? e numbers' c plan) := fun c plan ↦ by
    unfold analyzed?
    split
    · exact .some .crashed
    · split
      · exact .none
      · exact .some (.report _ _ (renumbered_report k e numbers numbers' c plan))
  unfold result?
  split
  · exact .some (.error _)
  · split
    · exact .none
    · exact .some (.error _)
    · unfold loaded?
      split
      · exact .none
      · exact .some (.error _)
      · exact hanalyzed _ _

end Conduct

variable {e : Engine} {k : Conduct} {j : Job} {numbers : TaskNumbers} {r now now' : Nat}
  {plan : Plan} {u v w : World} {c : ExecutionContext} {φ ψ : Phase} {x : Run} {l : LevelRun}
  {rep : Report}

namespace Phase

/-- What is known of the end of a run from the phase that it is in. -/
def Foretold (k : Conduct) (e : Engine) (j : Job) (numbers : TaskNumbers) (now : Nat) :
    Phase → Prop
  | .starting | .abandoned | .finished (.error (.missingNode _)) => True
  | .planned plan => e.registry.plan = .ok plan
  | .loading plan q => e.registry.plan = .ok plan ∧
      q.CallOnCourse now (k.loading j.domain j.environmentName j.proposal.chainSelectors)
  | .loaded plan environment => e.registry.plan = .ok plan ∧
      k.result? e j numbers = k.loaded? e j numbers plan environment
  | .decoding plan environment q => e.registry.plan = .ok plan ∧
      k.result? e j numbers = k.loaded? e j numbers plan environment ∧
      q.CallOnCourse now (k.decoding environment e.decoderConfig j.proposal)
  | .analyzing c _ _ | .finished (.ok ⟨c, _, _⟩) => ∃ plan, e.registry.plan = .ok plan ∧
      k.result? e j numbers = k.analyzed? e numbers c plan ∧
      exceedsPermits e.config.maxConcurrency = false
  | .finished (.error y) => k.result? e j numbers = some (.finished (.error y))
  | .crashed => k.result? e j numbers = some .crashed

theorem Moves.foretold (h : Moves e j numbers now false φ ψ) (hk : e.Follows k)
    (hφ : φ.Foretold k e j numbers now) : ψ.Foretold k e j numbers now := by
  cases h with
  | graph y hrefused => simp [Foretold, Conduct.result?, hrefused]
  | cancelled _ _ _ hobserved => cases hobserved
  | plan plan hplan => exact hplan
  | load plan => exact ⟨hφ, Position.callOnCourse_ready (hk.loader _ _ _ now)⟩
  | loading plan q q' effect hm => exact ⟨hφ.1, hφ.2.move hm⟩
  | unloaded plan q y hm =>
      obtain ⟨ms, hms⟩ := hφ.2.done hm
      simp [Foretold, Conduct.result?, hφ.1, hms]
  | loaded plan q environment hm =>
      obtain ⟨ms, hms⟩ := hφ.2.done hm
      exact ⟨hφ.1, by simp [Conduct.result?, hφ.1, hms]⟩
  | decode plan environment =>
      exact ⟨hφ.1, hφ.2, Position.callOnCourse_ready (hk.decoder _ _ _ now)⟩
  | decoding plan environment q q' effect hm => exact ⟨hφ.1, hφ.2.1, hφ.2.2.move hm⟩
  | undecoded plan environment q y hm =>
      obtain ⟨ms, hms⟩ := hφ.2.2.done hm
      simp [Foretold, hφ.2.1, Conduct.loaded?, hms]
  | crashed plan environment q d hm hbound =>
      obtain ⟨ms, hms⟩ := hφ.2.2.done hm
      simp [Foretold, hφ.2.1, Conduct.loaded?, hms, Conduct.analyzed?, hbound]
  | decoded plan environment q d hm hbound =>
      obtain ⟨ms, hms⟩ := hφ.2.2.done hm
      exact ⟨plan, hφ.1, by simp [hφ.2.1, Conduct.loaded?, hms], hbound⟩
  | report | start | absorb => exact hφ
  | missing | lost => trivial

/-- Time may pass until a run can move. -/
theorem Foretold.wait (h : φ.Foretold k e j numbers now)
    (hidle : φ.advance? e j numbers now false = none) (hdue : ∀ due ∈ φ.dues e, now' ≤ due) :
    φ.Foretold k e j numbers now' := by
  have hcall : ∀ {α : Type} {stage : Stage} {q : Position α} {stay : Position α → Phase}
      {leave : α → Phase}, callMove stage now false q stay leave = none →
      q.move? ⟨now, none, false⟩ = none := by
    intro α stage q stay leave hq
    simp only [callMove, Bool.and_false, Bool.false_eq_true, if_false] at hq
    split at hq <;> simp_all
  cases φ with
  | loading plan q =>
      exact ⟨h.1, h.2.wait (hcall hidle) fun due hd ↦ hdue due (Option.mem_toList.2 hd)⟩
  | decoding plan environment q =>
      exact ⟨h.1, h.2.1, h.2.2.wait (hcall hidle) fun due hd ↦ hdue due (Option.mem_toList.2 hd)⟩
  | finished result =>
      rcases result with (_ | _ | _ | _ | _) | _ <;> exact h
  | starting | planned | loaded | analyzing | crashed | abandoned => exact h

theorem Next.foretold (h : Next e j numbers now false φ ψ) (hk : e.Follows k)
    (hφ : φ.Foretold k e j numbers now) : ψ.Foretold k e j numbers now := by
  cases h with
  | stay => exact hφ
  | advance ha => exact (moves_of_advance ha).foretold hk hφ
  | task ha =>
      obtain ⟨_, _, _, _, rfl, _, heq⟩ := advanceTask?_eq_some ha
      rw [heq]
      exact hφ
  | abandon => trivial

end Phase

namespace World

/-- What is known of the end of a run, unless it has been cancelled. -/
def Foretold (k : Conduct) (e : Engine) (r : Nat) (w : World) : Prop :=
  w.isRunCancelled r = true ∨ ∃ x, w.runs[r]? = some x ∧ x.phase.Foretold k e x.job x.numbers w.now

theorem Foretold.step (h : Foretold k e r v) (hk : e.Follows k) (hstep : Step e v w) :
    Foretold k e r w := by
  rcases h with hc | ⟨x, hx, hφ⟩
  · exact .inl (isRunCancelled_of_step hstep hc)
  by_cases hc : v.isRunCancelled r = true
  · exact .inl (isRunCancelled_of_step hstep hc)
  have hc : v.isCancelled x.token = false := by
    rw [← isRunCancelled_of_getElem? hx]
    simpa using hc
  obtain ⟨y, hy, hfollows⟩ := exists_follows_of_step hstep hx
  refine .inr ⟨y, hy, ?_⟩
  rw [hfollows.job, hfollows.numbers]
  cases hstep with
  | move z _ hm =>
      rw [now_of_move hm]
      have hnext := hfollows.next
      rw [hc] at hnext
      exact hnext.foretold hk hφ
  | wait due hidle hdue =>
      obtain rfl : x = y := Option.some.inj (hx.symm.trans hy)
      refine hφ.wait ?_ fun d hd ↦ le_of_earliest? hdue ?_
      · cases ha : x.phase.advance? e x.job x.numbers v.now false with
        | none => rfl
        | some a =>
            have hmove := canMove_run_of_advance (e := e) hx (by rw [hc, ha]; rfl)
            simp [hidle] at hmove
      · exact List.mem_append_left _ (List.mem_flatMap.2 ⟨x, List.mem_of_getElem? hx, hd⟩)

theorem foretold_of_steps (hk : e.Follows k) (hu : u.runs[r]? = some x)
    (hstart : x.phase = .starting) (h : Steps e u w) : Foretold k e r w := by
  induction h with
  | refl => exact .inr ⟨x, hu, by rw [hstart]; trivial⟩
  | tail _ hstep ih => exact ih.step hk hstep

theorem phase_foretold (hk : e.Follows k) (hu : u.runs[r]? = some x)
    (hstart : x.phase = .starting) (h : Steps e u w) (hc : w.isRunCancelled r = false)
    (hw : w.phase? r = some φ) : φ.Foretold k e x.job x.numbers w.now := by
  rcases foretold_of_steps hk hu hstart h with hc' | ⟨y, hy, hφ⟩
  · cases hc.symm.trans hc'
  · obtain rfl : y.phase = φ :=
      Option.some.inj ((phase?_eq_some_iff.2 ⟨y, hy, rfl⟩).symm.trans hw)
    obtain ⟨hjob, hnumbers⟩ := job_and_numbers_of_steps h hu hy
    rwa [hjob, hnumbers] at hφ

/-! ## No permits at all -/

/-- What every step keeps of the level in flight: it holds of a level that has just been started,
and every move of a task keeps it. -/
theorem StepOf.level {P : LevelRun → Prop} (h : StepOf e r x v w)
    (hfresh : ∀ l : LevelRun, (∀ t ∈ l.tasks, t.state = .waiting) → P l)
    (htask : ∀ (l : LevelRun) i t b, l.tasks[i]? = some t → P l →
      t.advance? e.timeoutMs v.now (v.isRunCancelled r)
        (l.hasFreePermit e.config.maxConcurrency) = some b → P (l.setState i b.state))
    (hx : ∀ l, x.phase.level? = some l → P l) : ∀ l, w.level? r = some l → P l := by
  intro l hl
  cases h with
  | elsewhere _ hphase => exact hx l (level?_of_phase? hphase ▸ hl)
  | run a _ ha hphase =>
      rw [level?_of_phase? hphase] at hl
      have hmoves := Phase.moves_of_advance ha
      generalize x.phase = χ, a.phase = ψ at hmoves hl
      cases hmoves with
      | start =>
          cases hl
          refine hfresh _ fun t ht ↦ ?_
          obtain ⟨a, _, rfl⟩ := List.mem_map.1 ht
          rfl
      | _ => cases hl
  | task i t a hmem ha hphase =>
      obtain ⟨c, p, l', _, hx', _⟩ := Phase.advanceTask?_eq_some ha
      rw [hx'] at hmem ha hx
      have ht : l'.tasks[i]? = some t := hmem
      simp only [Phase.advanceTask?, ht] at ha
      split at ha
      · cases ha
      next b hb =>
        cases ha
        rw [level?_of_phase? hphase] at hl
        cases hl
        exact htask l' i t b ht (hx l' rfl) hb
  | abandon _ hphase =>
      rw [level?_of_phase? hphase] at hl
      cases hl

/-- Without permits no task ever leaves its place. -/
theorem waiting_of_steps (hbound : e.config.maxConcurrency = some 0)
    (hu : u.phase? r = some .starting) (h : Steps e u w) :
    ∀ l, w.level? r = some l → ∀ t ∈ l.tasks, t.state = .waiting := by
  induction h with
  | refl =>
      intro l hl
      cases (level?_of_phase? hu).symm.trans hl
  | tail hsteps hstep ih =>
      obtain ⟨x, hx, _⟩ := phase?_eq_some_iff.1 hu
      obtain ⟨y, hy⟩ := exists_getElem?_of_steps hsteps hx
      refine (stepOf_step hstep hy).level (fun _ h ↦ h) ?_ ?_
      · intro l i t b ht hwaiting hb
        simp [Task.advance?, hwaiting t (List.mem_of_getElem? ht), LevelRun.hasFreePermit,
          hbound] at hb
      · rwa [← level?_of_phase? (phase?_eq_some_iff.2 ⟨y, hy, rfl⟩)]

/-- A run that has finished with a report was not held up. -/
theorem not_isStuck_of_finished (hplan : e.registry.plan = .ok plan)
    (hu : u.phase? r = some .starting) (h : Steps e u w)
    (hw : w.phase? r = some (.finished (.ok rep))) :
    Conduct.isStuck e plan rep.context.decoded = false := by
  obtain ⟨_, plan', ls, _, hws, hplan', hacc⟩ := exists_account_of_steps hu h hw
  obtain rfl : plan = plan' := Except.ok.inj (hplan.symm.trans hplan')
  rw [Conduct.isStuck, ← hacc.map_step_eq rfl]
  simp only [decide_eq_false_iff_not, not_and, Bool.not_eq_true]
  intro hbound
  apply List.any_eq_false.2
  intro s hs
  obtain ⟨l, hl, rfl⟩ := List.mem_map.1 hs
  obtain ⟨v, hv, hseen⟩ := hacc.seen l hl
  have hwaiting := waiting_of_steps hbound hu (hws.steps_of_mem hv).1 l hseen
  have hnone : l.tasks = [] := by
    apply List.eq_nil_iff_forall_not_mem.2
    intro t ht
    have hended := List.all_eq_true.1 (hacc.taken.isOver l hl) t ht
    simp [Task.hasEnded, hwaiting t ht] at hended
  simp [LevelRun.step, hnone]

/-! ## Every run ends as foretold -/

/-- A run that has ended, neither cancelled nor abandoned, has ended as foretold. -/
theorem result?_of_settled (hk : e.Follows k) (hu : u.runs[r]? = some x)
    (hstart : x.phase = .starting) (h : Steps e u w) (hc : w.isRunCancelled r = false)
    (hw : w.phase? r = some φ) (hφ : φ.isSettled = true) (hkept : φ ≠ .abandoned) :
    k.result? e x.job x.numbers = some φ := by
  have hu' : u.phase? r = some .starting := phase?_eq_some_iff.2 ⟨x, hu, hstart⟩
  have hforetold := phase_foretold hk hu hstart h hc hw
  cases φ with
  | finished result =>
      cases result with
      | error y =>
          cases y with
          | missingNode q => exact absurd hw ((tree_of_run hu' h .refl).1 q)
          | _ => exact hforetold
      | ok rep =>
          obtain ⟨plan, hplan, hresult, hbound⟩ := hforetold
          have hconcluded : Concluded e r w rep := ⟨⟨u, hu', h⟩, hc, hw⟩
          obtain ⟨plan', ws, ls, _, hplan', hacc, hended⟩ := hconcluded.exists_account
          obtain rfl : plan = plan' := Except.ok.inj (hplan.symm.trans hplan')
          have hreplay := hacc.replay_agree_within (b := k.behaviour rep.context) hplan
            rfl (fun a ha scope store target started ↦ hk.analyzers a ha _ target started) hended
          have hstuck := not_isStuck_of_finished hplan hu' h hw
          rw [numbers_of_steps h hu] at hreplay
          rw [hresult, Conduct.analyzed?, hbound, hstuck]
          simp only [Bool.false_eq_true, if_false, Conduct.report]
          rw [hreplay.tree, hreplay.outcomes]
  | crashed => exact hforetold
  | abandoned => exact absurd rfl hkept
  | starting | planned | loading | loaded | decoding | analyzing => cases hφ

/-- A run that has no end when nothing moves any more has none foretold. -/
theorem result?_eq_none_of_rest (hk : e.Follows k) (hu : u.runs[r]? = some x)
    (hstart : x.phase = .starting) (h : Steps e u w) (hc : w.isRunCancelled r = false)
    (hw : w.phase? r = some φ) (hφ : φ.isSettled = false) (hrest : ∀ v, ¬ Step e w v) :
    k.result? e x.job x.numbers = none := by
  have hu' : u.phase? r = some .starting := phase?_eq_some_iff.2 ⟨x, hu, hstart⟩
  have hforetold := phase_foretold hk hu hstart h hc hw
  rcases exists_step_or_heldUp (e := e) hw hφ with ⟨v, hv⟩ | ⟨hwaits, _⟩ | ⟨l, hl, hbound, htasks⟩
  · exact absurd hv (hrest v)
  · unfold Phase.awaitsCancel at hwaits
    split at hwaits
    · obtain ⟨hplan, _, hnone⟩ := hforetold
      have hloading : k.loading x.job.domain x.job.environmentName x.job.proposal.chainSelectors =
          none := hnone
      simp [Conduct.result?, hplan, hloading]
    next environment a =>
      obtain ⟨_, hresult, _, hnone⟩ := hforetold
      have hdecoding : k.decoding environment e.decoderConfig x.job.proposal = none := hnone
      simp [hresult, Conduct.loaded?, hdecoding]
    · cases hwaits
  · obtain ⟨c, p, rfl⟩ := Phase.level?_eq_some hl
    obtain ⟨plan, hplan, hresult, hexceeds⟩ := hforetold
    obtain ⟨_, hacc⟩ := exists_accounted hu' h hw
    obtain ⟨plan', ls, q, hplan', htaken, _, hahead⟩ := hacc.exists_taken rfl
    obtain rfl : plan = plan' := Except.ok.inj (hplan.symm.trans hplan')
    have hsteps : plan.steps (.ofDecoded c.decoded) = ls.map LevelRun.step ++ q.pending :=
      htaken.pending_eq
    have hstuck : Conduct.isStuck e plan c.decoded = true := by
      simp [Conduct.isStuck, hbound, hsteps, hahead, Phase.ahead, LevelRun.step, htasks]
    simp [hresult, Conduct.analyzed?, hexceeds, hstuck]

end World

end Timelock
