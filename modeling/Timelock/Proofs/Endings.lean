import Timelock.Proofs.Checkpoints
import Timelock.Proofs.UnknownChains

/-!
# How a run ends

A run that is not abandoned ends with an error of its plan, as cancelled, with an error of its
loader or of its decoder, or with a report.  Which of these it is follows from what happens first:
nothing that the analyzers do plays a part, and no stage is entered after one that has failed.
-/

namespace Timelock

variable {e : Engine} {r now : Nat} {j : Job} {numbers : TaskNumbers} {cancelled : Bool}
  {plan : Plan} {u v w z : World} {ws : List World} {φ χ ψ : Phase} {s : Stage} {x : Run}
  {res : Except AnalysisError Report}

/-! ## Answers of the loader and of the decoder -/

namespace Phase

theorem not_isParked_of_done {α : Type} {q : Position α} {m : Moment} {y : α}
    (h : q.move? m = some (.done y)) : q.isParked = false := by
  cases q with
  | ready a => rfl
  | asleep due a => simp [Position.move?] at h
  | awaiting a => simp [Position.move?] at h

theorem callMove_of_done {α : Type} {stage : Stage} {q : Position α} {stay : Position α → Phase}
    {leave : α → Phase} {y : α} (h : q.move? ⟨now, none, cancelled⟩ = some (.done y)) :
    callMove stage now cancelled q stay leave = some { phase := leave y } := by
  simp [callMove, not_isParked_of_done h, h]

end Phase

/-! ## How far a run has come when it ends -/

namespace Stage

/-- The rank of a run that looks for cancellation at a stage, at least. -/
def rank : Stage → Nat
  | .startup => 6
  | .environmentLoading => 4
  | .decoding => 2
  | .level _ => 1

end Stage

namespace Phase

theorem rank_le_of_checkpoint (h : φ.checkpoint? e = some s) : s.rank ≤ φ.rank.1 := by
  cases φ with
  | starting =>
      simp only [checkpoint?] at h
      cases hplan : e.registry.plan <;> simp only [hplan] at h <;> cases h
      exact le_refl 6
  | planned plan =>
      cases h
      exact Nat.le_succ 4
  | loading plan q =>
      obtain ⟨_, hs⟩ := Option.ite_none_right_eq_some.1 h
      cases hs
      exact le_refl 4
  | loaded plan environment =>
      cases h
      exact Nat.le_succ 2
  | decoding plan environment q =>
      obtain ⟨_, hs⟩ := Option.ite_none_right_eq_some.1 h
      cases hs
      exact le_refl 2
  | analyzing c p l? =>
      cases l? with
      | none =>
          obtain ⟨step, _, h⟩ := Option.bind_eq_some_iff.1 h
          obtain ⟨_, _, rfl⟩ := Option.map_eq_some_iff.1 h
          exact le_refl 1
      | some l => cases h
  | finished result => cases h
  | crashed => cases h
  | abandoned => cases h

end Phase

namespace AnalysisError

/-- Whether a run with this error ends before it calls its decoder. -/
def precedesDecoder : AnalysisError → Bool
  | .graph _ | .environment _ _ _ _ => true
  | .cancelled .startup | .cancelled .environmentLoading => true
  | .cancelled .decoding | .cancelled (.level _) | .decode _ _ _ | .missingNode _ => false

/-- Whether a run with this error ends before its first level. -/
def precedesLevels : AnalysisError → Bool
  | .graph _ | .environment _ _ _ _ | .decode _ _ _ => true
  | .cancelled .startup | .cancelled .environmentLoading | .cancelled .decoding => true
  | .cancelled (.level _) | .missingNode _ => false

/-- The rank of a run that ends with an error, at least. -/
def rank : AnalysisError → Nat
  | .graph _ => 6
  | .cancelled s => s.rank
  | .environment _ _ _ _ => 4
  | .decode _ _ _ => 2
  | .missingNode _ => 1

theorem le_rank_of_precedesDecoder {y : AnalysisError} (h : y.precedesDecoder = true) :
    4 ≤ y.rank := by
  cases y with
  | graph => exact (by decide : 4 ≤ 6)
  | cancelled s =>
      cases s with
      | startup => exact (by decide : 4 ≤ 6)
      | environmentLoading => exact le_refl 4
      | decoding => cases h
      | level => cases h
  | environment => exact le_refl 4
  | decode => cases h
  | missingNode => cases h

theorem le_rank_of_precedesLevels {y : AnalysisError} (h : y.precedesLevels = true) :
    2 ≤ y.rank := by
  cases y with
  | graph => exact (by decide : 2 ≤ 6)
  | cancelled s =>
      cases s with
      | startup => exact (by decide : 2 ≤ 6)
      | environmentLoading => exact (by decide : 2 ≤ 4)
      | decoding => exact le_refl 2
      | level => cases h
  | environment => exact (by decide : 2 ≤ 4)
  | decode => exact le_refl 2
  | missingNode => cases h

end AnalysisError

namespace Phase

theorem Moves.rank_le_of_error {y : AnalysisError}
    (h : Moves e j numbers now cancelled φ (.finished (.error y))) : y.rank ≤ φ.rank.1 := by
  cases h with
  | graph => exact le_refl 6
  | cancelled _ s hs => exact rank_le_of_checkpoint hs
  | unloaded => exact le_refl 4
  | undecoded => exact le_refl 2
  | missing | lost => exact le_refl 1

end Phase

namespace World

theorem phase?_of_moveRun (hx : v.runs[r]? = some x) (hm : v.move? e (.run r) = some w) :
    ∃ a, x.phase.advance? e x.job x.numbers v.now (v.isRunCancelled r) = some a ∧
      w.phase? r = some a.phase := by
  obtain ⟨z, a, hz, ha, rfl⟩ := moveRun?_eq_some hm
  obtain rfl : z = x := Option.some.inj (hz.symm.trans hx)
  exact ⟨a, (isRunCancelled_of_getElem? hx).symm ▸ ha, phase?_carryOut hx⟩

/-! ## What happens to a run -/

/-- At some time the run is cancelled where it looks next, at the given stage. -/
def CancelledAt (e : Engine) (r : Nat) (ws : List World) (s : Stage) : Prop :=
  ∃ v ∈ ws, ∃ φ, v.phase? r = some φ ∧ φ.checkpoint? e = some s ∧ v.isRunCancelled r = true

/-- At some time the run is cancelled as it is about to load its environment. -/
def HeldBack (r : Nat) (ws : List World) : Prop :=
  ∃ v ∈ ws, ∃ plan, v.phase? r = some (.planned plan) ∧ v.isRunCancelled r = true

def LoaderCalled (e : Engine) (r : Nat) (j : Job) (ws : List World) : Prop :=
  ∃ v ∈ ws, ∃ plan, v.phase? r =
    some (.loading plan (.ready (e.loader j.domain j.environmentName j.proposal.chainSelectors)))

def LoaderAnswers (e : Engine) (r : Nat) (ws : List World)
    (y : Except EnvironmentError Environment) : Prop :=
  ∃ v w plan q, [v, w] <:+: ws ∧ v.move? e (.run r) = some w ∧
    v.phase? r = some (.loading plan q) ∧
    q.move? ⟨v.now, none, v.isRunCancelled r⟩ = some (.done y)

def DecoderCalled (e : Engine) (r : Nat) (j : Job) (ws : List World) : Prop :=
  ∃ v ∈ ws, ∃ plan environment, v.phase? r =
    some (.decoding plan environment (.ready (e.decoder environment e.decoderConfig j.proposal)))

def DecoderAnswers (e : Engine) (r : Nat) (ws : List World)
    (y : Except DecodeError DecodedProposal) : Prop :=
  ∃ v w plan environment q, [v, w] <:+: ws ∧ v.move? e (.run r) = some w ∧
    v.phase? r = some (.decoding plan environment q) ∧
    q.move? ⟨v.now, none, v.isRunCancelled r⟩ = some (.done y)

/-- What the result of a run tells about its history, and the history about the result. -/
structure Decided (e : Engine) (r : Nat) (j : Job) (ws : List World)
    (res : Except AnalysisError Report) : Prop where
  graph : ∀ y, res = .error (.graph y) ↔ e.registry.plan = .error y
  cancelled : ∀ s, res = .error (.cancelled s) ↔ CancelledAt e r ws s
  environment : ∀ d n cs y, res = .error (.environment d n cs y) ↔
    LoaderAnswers e r ws (.error y) ∧ d = j.domain ∧ n = j.environmentName ∧
      cs = j.proposal.chainSelectors
  decode : ∀ text cs y, res = .error (.decode text cs y) ↔
    DecoderAnswers e r ws (.error y) ∧ text = j.proposal.description ∧
      cs = j.proposal.chainSelectors
  resolved : ∀ p, res ≠ .error (.missingNode p)
  /-- In every other case there is a report. -/
  report : (∃ rep, res = .ok rep) ↔ (∃ plan, e.registry.plan = .ok plan) ∧
    (∀ s, ¬ CancelledAt e r ws s) ∧ (∀ y, ¬ LoaderAnswers e r ws (.error y)) ∧
    ∀ y, ¬ DecoderAnswers e r ws (.error y)
  loaderCalled : LoaderCalled e r j ws ↔
    (∀ y, res ≠ .error (.graph y)) ∧ res ≠ .error (.cancelled .startup) ∧ ¬ HeldBack r ws
  decoderUncalled : ∀ y, res = .error y → y.precedesDecoder = true → ¬ DecoderCalled e r j ws
  unstarted : ∀ y, res = .error y → y.precedesLevels = true → startedLevels r ws = []
  /-- A directory of chains fails exactly if a chain of the proposal is unknown. -/
  unknownChain : ∀ dir : ChainDirectory, e.loader = dir.loader →
    ((∃ y, LoaderAnswers e r ws (.error y)) ↔ LoaderCalled e r j ws ∧
      (dir.unknown j.proposal.chainSelectors).Nonempty) ∧
    ∀ y, LoaderAnswers e r ws (.error y) →
      ∃ k, y = .unknownChain k ∧ IsLeast (dir.unknown j.proposal.chainSelectors) k
  chains : ∀ k, k ∈ j.proposal.chainSelectors.toList ↔
    ∃ b ∈ j.proposal.operations, b.chainSelector = k

section

variable (hws : History e u ws w) (hx : u.runs[r]? = some x) (hstart : x.phase = .starting)
  (hw : w.phase? r = some (.finished res))

include hws hw

theorem eq_of_phase?_eq (hv : v ∈ ws) (hφ : v.phase? r = some φ) (hsettled : φ.isSettled = true) :
    φ = .finished res :=
  Option.some.inj ((phase?_eq_of_settled (hws.steps_of_mem hv).2 hφ hsettled).symm.trans hw)

theorem eq_error_of_cancelledAt (h : CancelledAt e r ws s) : res = .error (.cancelled s) := by
  obtain ⟨v, hv, φ, hφ, hs, hc⟩ := h
  rcases phase?_of_checkpoint (hws.steps_of_mem hv).2 hφ hs hc with heq | heq | heq
  · cases heq.symm.trans hw
    cases hs
  · cases heq.symm.trans hw
    rfl
  · cases heq.symm.trans hw

include hx

/-- The run has the result with which it ends by a move of its own. -/
theorem eq_of_advance {v' : World} {a : Phase.Advance} {res' : Except AnalysisError Report}
    (hpair : [v, v'] <:+: ws) (hmove : v.move? e (.run r) = some v') (hφ : v.phase? r = some φ)
    (ha : φ.advance? e x.job x.numbers v.now (v.isRunCancelled r) = some a)
    (hend : a.phase = .finished res') : res = res' := by
  obtain ⟨z, hz, hphase⟩ := phase?_eq_some_iff.1 hφ
  obtain ⟨a', ha', hv'⟩ := phase?_of_moveRun hz hmove
  have hmem : v ∈ ws := hpair.subset (by simp)
  obtain ⟨hjob, hnumbers⟩ := job_and_numbers_of_steps (hws.steps_of_mem hmem).1 hx hz
  rw [hphase, hjob, hnumbers] at ha'
  obtain rfl : a = a' := Option.some.inj (ha.symm.trans ha')
  rw [hend] at hv'
  cases eq_of_phase?_eq hws hw (hpair.subset (by simp)) hv' rfl
  rfl

theorem eq_error_of_loaderAnswers {y : EnvironmentError} (h : LoaderAnswers e r ws (.error y)) :
    res = .error (.environment x.job.domain x.job.environmentName x.job.proposal.chainSelectors
      y) := by
  obtain ⟨v, v', plan, q, hpair, hmove, hφ, hdone⟩ := h
  exact eq_of_advance hws hx hw hpair hmove hφ (Phase.callMove_of_done hdone) rfl

theorem eq_error_of_decoderAnswers {y : DecodeError} (h : DecoderAnswers e r ws (.error y)) :
    res = .error (.decode x.job.proposal.description x.job.proposal.chainSelectors y) := by
  obtain ⟨v, v', plan, environment, q, hpair, hmove, hφ, hdone⟩ := h
  exact eq_of_advance hws hx hw hpair hmove hφ (Phase.callMove_of_done hdone) rfl

include hstart

theorem eq_error_of_plan {y : PlanError} (h : e.registry.plan = .error y) :
    res = .error (.graph y) := by
  have hu : u.phase? r = some .starting := phase?_eq_some_iff.2 ⟨x, hx, hstart⟩
  rcases phase?_of_fate (ψ := .finished (.error (.graph y))) hws.steps hu rfl
    fun z j _ χ _ hnext ↦ hnext.of_plan_error h with heq | heq | heq
  · cases heq.symm.trans hw
  · cases heq.symm.trans hw
    rfl
  · cases heq.symm.trans hw

end

theorem rank_le_of_mem {v' : World} (hws : History e u ws w) (hpair : [v, v'] <:+: ws)
    (hφ : v.phase? r = some φ) (hv' : v'.phase? r = some (.finished res)) (hz : z ∈ ws)
    (hχ : z.phase? r = some χ) (hopen : χ.isSettled = false) : φ.rank.1 ≤ χ.rank.1 := by
  rcases hws.steps_or_steps hpair hz with hbefore | hafter
  · exact rank_le_of_steps hbefore hχ hφ
  · obtain rfl := Option.some.inj (hχ.symm.trans (phase?_eq_of_settled hafter hv' rfl))
    cases hopen

/-- A run that has finished has left each of its earlier phases by a move of its own. -/
theorem exists_moveRun (hws : History e u ws w) (hx : u.runs[r]? = some x)
    (hw : w.phase? r = some (.finished res)) (hv : v ∈ ws) (hφ : v.phase? r = some φ)
    (hopen : φ.isSettled = false) (hlevel : φ.level? = none) :
    ∃ z z' a, [z, z'] <:+: ws ∧ z.move? e (.run r) = some z' ∧ z.phase? r = some φ ∧
      φ.advance? e x.job x.numbers z.now (z.isRunCancelled r) = some a ∧
      z'.phase? r = some a.phase := by
  have hne : w.phase? r ≠ some φ := fun heq ↦ by
    obtain rfl := Option.some.inj (heq.symm.trans hw)
    cases hopen
  obtain ⟨z, z', hpair, hz, hz'⟩ := hws.exists_exit hv hφ hne
  obtain ⟨y, hy, rfl⟩ := phase?_eq_some_iff.1 hz
  have hmem : z ∈ ws := hpair.subset (by simp)
  cases stepOf_step (hws.step_of_pair hpair) hy with
  | elsewhere _ hphase => exact absurd hphase hz'
  | run a hmove ha hphase =>
      obtain ⟨hjob, hnumbers⟩ := job_and_numbers_of_steps (hws.steps_of_mem hmem).1 hx hy
      rw [hjob, hnumbers] at ha
      exact ⟨z, z', a, hpair, hmove, hz, ha, hphase⟩
  | task i t a _ ha _ =>
      obtain ⟨_, _, l, _, heq, _⟩ := Phase.advanceTask?_eq_some ha
      rw [heq] at hlevel
      cases hlevel
  | abandon _ hphase =>
      cases eq_of_phase?_eq hws hw (hpair.subset (by simp)) hphase rfl

section

variable {dir : ChainDirectory} {q : Position (Except EnvironmentError Environment)}

/-- A directory of chains answers at once. -/
theorem position_of_directory (hdir : e.loader = dir.loader) (huv : Steps e u v)
    (hx : u.runs[r]? = some x) (hstart : x.phase = .starting)
    (hv : v.phase? r = some (.loading plan q)) :
    q = .ready (e.loader x.job.domain x.job.environmentName x.job.proposal.chainSelectors) := by
  let P : Run → Prop := fun y ↦ y.job = x.job ∧ ∀ plan q, y.phase = .loading plan q →
    q = .ready (e.loader x.job.domain x.job.environmentName x.job.proposal.chainSelectors)
  have hfirst : P x := ⟨rfl, fun plan q hq ↦ by rw [hstart] at hq; cases hq⟩
  obtain ⟨y, hy, _, hcall⟩ := exists_run_of_steps huv hx hfirst fun z y y' _ _ hP hfollows ↦ by
    obtain ⟨hjob, hcall⟩ := hP
    refine ⟨hfollows.job.trans hjob, fun plan q hq ↦ ?_⟩
    have hnext := hfollows.next
    generalize y.phase = φ, y'.phase = ψ at hnext hq hcall
    cases hnext with
    | stay => exact hcall plan q hq
    | advance ha =>
        have hmoves := Phase.moves_of_advance ha
        rw [hq] at hmoves
        cases hmoves with
        | load => rw [hjob]
        | loading _ q' _ _ hm =>
            rw [hcall plan q' rfl, hdir] at hm
            cases hm
    | task ha =>
        obtain ⟨_, _, _, _, _, _, heq⟩ := Phase.advanceTask?_eq_some ha
        cases heq.symm.trans hq
    | abandon => cases hq
  obtain ⟨y', hy', hphase⟩ := phase?_eq_some_iff.1 hv
  obtain rfl : y = y' := Option.some.inj (hy.symm.trans hy')
  exact hcall plan q hphase

theorem loaderAnswers_iff_of_directory (hdir : e.loader = dir.loader) (hws : History e u ws w)
    (hx : u.runs[r]? = some x) (hstart : x.phase = .starting)
    (hw : w.phase? r = some (.finished res)) {y : Except EnvironmentError Environment} :
    LoaderAnswers e r ws y ↔ LoaderCalled e r x.job ws ∧
      y = dir.load x.job.domain x.job.environmentName (some x.job.proposal.chainSelectors) := by
  constructor
  · rintro ⟨v, v', plan, q, hpair, _, hφ, hdone⟩
    have hv : v ∈ ws := hpair.subset (by simp)
    obtain rfl := position_of_directory hdir (hws.steps_of_mem hv).1 hx hstart hφ
    refine ⟨⟨v, hv, plan, hφ⟩, ?_⟩
    rw [hdir] at hdone
    cases hdone
    rfl
  · rintro ⟨⟨v, hv, plan, hφ⟩, rfl⟩
    obtain ⟨z, z', a, hpair, hmove, hz, _, _⟩ := exists_moveRun hws hx hw hv hφ rfl rfl
    refine ⟨z, z', plan, _, hpair, hmove, hz, ?_⟩
    rw [hdir]
    rfl

end

/-! ## The result of a run -/

section

variable (hws : History e u ws w) (hx : u.runs[r]? = some x) (hstart : x.phase = .starting)
  (hw : w.phase? r = some (.finished res))

include hws hx hstart hw

theorem exists_ends : ∃ v v' φ, [v, v'] <:+: ws ∧ v.move? e (.run r) = some v' ∧
    v.phase? r = some φ ∧ φ.Moves e x.job x.numbers v.now (v.isRunCancelled r) (.finished res) ∧
    v'.phase? r = some (.finished res) :=
  hws.exists_ends hx (hstart ▸ rfl) hw

theorem eq_error_graph_iff {y : PlanError} :
    res = .error (.graph y) ↔ e.registry.plan = .error y := by
  refine ⟨?_, eq_error_of_plan hws hx hstart hw⟩
  rintro rfl
  obtain ⟨_, _, _, _, _, _, hends, _⟩ := exists_ends hws hx hstart hw
  cases hends
  assumption

theorem eq_error_cancelled_iff : res = .error (.cancelled s) ↔ CancelledAt e r ws s := by
  refine ⟨?_, eq_error_of_cancelledAt hws hw⟩
  rintro rfl
  obtain ⟨v, _, φ, hpair, _, hφ, hends, _⟩ := exists_ends hws hx hstart hw
  cases hends with
  | cancelled _ _ hs hc => exact ⟨v, hpair.subset (by simp), φ, hφ, hs, hc⟩

theorem eq_error_environment_iff {d n : String} {cs : Selectors} {y : EnvironmentError} :
    res = .error (.environment d n cs y) ↔ LoaderAnswers e r ws (.error y) ∧ d = x.job.domain ∧
      n = x.job.environmentName ∧ cs = x.job.proposal.chainSelectors := by
  constructor
  · rintro rfl
    obtain ⟨v, v', _, hpair, hmove, hφ, hends, _⟩ := exists_ends hws hx hstart hw
    cases hends with
    | unloaded plan q _ hdone =>
        exact ⟨⟨v, v', plan, q, hpair, hmove, hφ, hdone⟩, rfl, rfl, rfl⟩
  · rintro ⟨h, rfl, rfl, rfl⟩
    exact eq_error_of_loaderAnswers hws hx hw h

theorem eq_error_decode_iff {text : String} {cs : Selectors} {y : DecodeError} :
    res = .error (.decode text cs y) ↔ DecoderAnswers e r ws (.error y) ∧
      text = x.job.proposal.description ∧ cs = x.job.proposal.chainSelectors := by
  constructor
  · rintro rfl
    obtain ⟨v, v', _, hpair, hmove, hφ, hends, _⟩ := exists_ends hws hx hstart hw
    cases hends with
    | undecoded plan environment q _ hdone =>
        exact ⟨⟨v, v', plan, environment, q, hpair, hmove, hφ, hdone⟩, rfl, rfl⟩
  · rintro ⟨h, rfl, rfl⟩
    exact eq_error_of_decoderAnswers hws hx hw h

/-- The node of every step of a plan exists. -/
theorem ne_missingNode (p : NodePath) : res ≠ .error (.missingNode p) := by
  rintro rfl
  obtain ⟨v, v', φ, hpair, _, hφ, hends, _⟩ := exists_ends hws hx hstart hw
  have hu : u.phase? r = some .starting := phase?_eq_some_iff.2 ⟨x, hx, hstart⟩
  have huv := (hws.steps_of_mem (hpair.subset (by simp) : v ∈ ws)).1
  cases hends with
  | missing c q s rest hpending hnone =>
      obtain ⟨_, plan, ls, hplan, hacc⟩ := exists_accounted hu huv hφ
      obtain ⟨y, hy⟩ := exists_resolve? hplan hacc hpending
      cases hnone.symm.trans hy
  | lost c q l _ hnone =>
      have hleave := leaveLevel_eq_of_steps hu huv hφ e.config.analyzerTimeoutMs
      simp only [Phase.leaveLevel, hnone] at hleave
      cases hleave

theorem exists_ok_iff : (∃ rep, res = .ok rep) ↔ (∃ plan, e.registry.plan = .ok plan) ∧
    (∀ s, ¬ CancelledAt e r ws s) ∧ (∀ y, ¬ LoaderAnswers e r ws (.error y)) ∧
    ∀ y, ¬ DecoderAnswers e r ws (.error y) := by
  constructor
  · rintro ⟨rep, rfl⟩
    refine ⟨?_, fun s h ↦ ?_, fun y h ↦ ?_, fun y h ↦ ?_⟩
    · cases hplan : e.registry.plan with
      | ok plan => exact ⟨plan, rfl⟩
      | error y => cases eq_error_of_plan hws hx hstart hw hplan
    · cases eq_error_of_cancelledAt hws hw h
    · cases eq_error_of_loaderAnswers hws hx hw h
    · cases eq_error_of_decoderAnswers hws hx hw h
  · rintro ⟨⟨plan, hplan⟩, hcancelled, hloader, hdecoder⟩
    cases res with
    | ok rep => exact ⟨rep, rfl⟩
    | error y =>
        exfalso
        cases y with
        | graph y => cases hplan.symm.trans ((eq_error_graph_iff hws hx hstart hw).1 rfl)
        | cancelled s => exact hcancelled s ((eq_error_cancelled_iff hws hx hstart hw).1 rfl)
        | environment d n cs y =>
            exact hloader y ((eq_error_environment_iff hws hx hstart hw).1 rfl).1
        | decode text cs y => exact hdecoder y ((eq_error_decode_iff hws hx hstart hw).1 rfl).1
        | missingNode p => exact ne_missingNode hws hx hstart hw p rfl

theorem rank_le_of_error {y : AnalysisError} (hres : res = .error y) (hz : z ∈ ws)
    (hχ : z.phase? r = some χ) (hopen : χ.isSettled = false) : y.rank ≤ χ.rank.1 := by
  obtain ⟨v, v', φ, hpair, _, hφ, hends, hv'⟩ := exists_ends hws hx hstart hw
  subst hres
  exact hends.rank_le_of_error.trans (rank_le_of_mem hws hpair hφ hv' hz hχ hopen)

/-- A run that has its plan is cancelled as it is about to load its environment, or calls its
loader. -/
theorem exists_leaves_planned (hgraph : ∀ y, res ≠ .error (.graph y))
    (hstartup : res ≠ .error (.cancelled .startup)) :
    ∃ v v' plan, [v, v'] <:+: ws ∧ v.phase? r = some (.planned plan) ∧
      ((v.isRunCancelled r = true ∧
          v'.phase? r = some (.finished (.error (.cancelled .environmentLoading)))) ∨
        (v.isRunCancelled r = false ∧ v'.phase? r = some (.loading plan (.ready
          (e.loader x.job.domain x.job.environmentName x.job.proposal.chainSelectors))))) := by
  have hu : u.phase? r = some .starting := phase?_eq_some_iff.2 ⟨x, hx, hstart⟩
  obtain ⟨y, y', a, hfirst, _, _, ha, hy'⟩ := exists_moveRun hws hx hw hws.first_mem hu rfl rfl
  have hmem : y' ∈ ws := hfirst.subset (by simp)
  simp only [Phase.advance?] at ha
  split at ha
  next z hplan => exact absurd (eq_error_of_plan hws hx hstart hw hplan) (hgraph z)
  next plan _ =>
    split at ha
    · cases ha
      cases eq_of_phase?_eq hws hw hmem hy' rfl
      exact absurd rfl hstartup
    · cases ha
      obtain ⟨v, v', b, hpair, _, hv, hb, hv'⟩ := exists_moveRun hws hx hw hmem hy' rfl rfl
      simp only [Phase.advance?] at hb
      split at hb
      next hc =>
        cases hb
        exact ⟨v, v', plan, hpair, hv, .inl ⟨hc, hv'⟩⟩
      next hc =>
        cases hb
        exact ⟨v, v', plan, hpair, hv, .inr ⟨by simpa using hc, hv'⟩⟩

theorem loaderCalled_iff : LoaderCalled e r x.job ws ↔
    (∀ y, res ≠ .error (.graph y)) ∧ res ≠ .error (.cancelled .startup) ∧ ¬ HeldBack r ws := by
  constructor
  · rintro ⟨z, hz, plan, hχ⟩
    have hgraph : ∀ y, res ≠ .error (.graph y) := fun y hres ↦
      absurd (rank_le_of_error hws hx hstart hw hres hz hχ rfl) (by decide : ¬ 6 ≤ 4)
    have hstartup : res ≠ .error (.cancelled .startup) := fun hres ↦
      absurd (rank_le_of_error hws hx hstart hw hres hz hχ rfl) (by decide : ¬ 6 ≤ 4)
    refine ⟨hgraph, hstartup, ?_⟩
    rintro ⟨y, hy, _, hφ, hc⟩
    obtain ⟨v, v', _, hpair, hv, ⟨_, hv'⟩ | ⟨hnot, hv'⟩⟩ :=
      exists_leaves_planned hws hx hstart hw hgraph hstartup
    · exact absurd (rank_le_of_mem hws hpair hv hv' hz hχ rfl) (by decide : ¬ 5 ≤ 4)
    · rcases hws.steps_or_steps hpair hy with hbefore | hafter
      · rw [isRunCancelled_of_steps hbefore hc] at hnot
        cases hnot
      · exact absurd (rank_le_of_steps hafter hv' hφ) (by decide : ¬ 5 ≤ 4)
  · rintro ⟨hgraph, hstartup, hheld⟩
    obtain ⟨v, v', plan, hpair, hv, ⟨hc, _⟩ | ⟨_, hv'⟩⟩ :=
      exists_leaves_planned hws hx hstart hw hgraph hstartup
    · exact absurd ⟨v, hpair.subset (by simp), plan, hv, hc⟩ hheld
    · exact ⟨v', hpair.subset (by simp), plan, hv'⟩

theorem not_decoderCalled {y : AnalysisError} (hres : res = .error y)
    (hy : y.precedesDecoder = true) : ¬ DecoderCalled e r x.job ws := by
  rintro ⟨z, hz, plan, environment, hχ⟩
  have hrank := rank_le_of_error hws hx hstart hw hres hz hχ rfl
  exact absurd ((AnalysisError.le_rank_of_precedesDecoder hy).trans hrank) (by decide : ¬ 4 ≤ 2)

theorem startedLevels_eq_nil_of_error {y : AnalysisError} (hres : res = .error y)
    (hy : y.precedesLevels = true) : startedLevels r ws = [] := by
  refine startedLevels_eq_nil fun z hz ↦ ?_
  cases hl : z.level? r with
  | none => rfl
  | some l =>
      obtain ⟨c, p, hχ⟩ := phase?_of_level? hl
      have hrank := rank_le_of_error hws hx hstart hw hres hz hχ rfl
      exact absurd ((AnalysisError.le_rank_of_precedesLevels hy).trans hrank)
        (by decide : ¬ 2 ≤ 1)

theorem directory_answers {dir : ChainDirectory} (hdir : e.loader = dir.loader) :
    ((∃ y, LoaderAnswers e r ws (.error y)) ↔ LoaderCalled e r x.job ws ∧
      (dir.unknown x.job.proposal.chainSelectors).Nonempty) ∧
    ∀ y, LoaderAnswers e r ws (.error y) →
      ∃ k, y = .unknownChain k ∧ IsLeast (dir.unknown x.job.proposal.chainSelectors) k := by
  have hanswers := fun y ↦ loaderAnswers_iff_of_directory hdir hws hx hstart hw (y := y)
  constructor
  · have hunknown : (∃ y, dir.load x.job.domain x.job.environmentName
        (some x.job.proposal.chainSelectors) = .error y) ↔
          (dir.unknown x.job.proposal.chainSelectors).Nonempty :=
      ChainDirectory.exists_load_eq_error_iff
    simp only [hanswers, exists_and_left, ← hunknown, eq_comm]
  · intro y h
    exact ChainDirectory.load_eq_error_iff.1 ((hanswers _).1 h).2.symm

theorem decided_of_finished : Decided e r x.job ws res where
  graph _ := eq_error_graph_iff hws hx hstart hw
  cancelled _ := eq_error_cancelled_iff hws hx hstart hw
  environment _ _ _ _ := eq_error_environment_iff hws hx hstart hw
  decode _ _ _ := eq_error_decode_iff hws hx hstart hw
  resolved := ne_missingNode hws hx hstart hw
  report := exists_ok_iff hws hx hstart hw
  loaderCalled := loaderCalled_iff hws hx hstart hw
  decoderUncalled _ := not_decoderCalled hws hx hstart hw
  unstarted _ := startedLevels_eq_nil_of_error hws hx hstart hw
  unknownChain _ := directory_answers hws hx hstart hw
  chains _ := Proposal.mem_chainSelectors

end

/-- Every run that is not abandoned comes to an end, unless its loader or its decoder waits for a
cancellation that does not come, and its end is decided by its plan, its cancellation and the
answers of its loader and its decoder. -/
theorem run_decided (hpermits : e.config.maxConcurrency ≠ some 0)
    (hcount : Phase.exceedsPermits e.config.maxConcurrency = false) (hx : u.runs[r]? = some x)
    (hstart : x.phase = .starting) :
    Acc (fun v w ↦ Step e w v) u ∧ ∀ ws w, History e u ws w →
      ((∃ φ, w.phase? r = some φ ∧ φ.isSettled = true) ∨ ∀ z, ¬ Step e w z) →
      w.phase? r ≠ some .abandoned →
      (∃ φ, w.phase? r = some φ ∧ φ.awaitsCancel = true ∧ w.isRunCancelled r = false) ∨
        ∃ res, w.phase? r = some (.finished res) ∧ Decided e r x.job ws res := by
  refine ⟨(wellFounded_step e).apply u, fun ws w hws hrest hkept ↦ ?_⟩
  have hu : u.phase? r = some .starting := phase?_eq_some_iff.2 ⟨x, hx, hstart⟩
  obtain ⟨φ, hφ, hcrashed⟩ := phase?_of_steps (P := (· ≠ .crashed)) hws.steps hu nofun
    fun z j _ χ ψ _ hχ hnext ↦ hnext.ne_crashed hχ hcount
  by_cases hsettled : φ.isSettled = true
  · right
    cases φ with
    | finished res => exact ⟨res, hφ, decided_of_finished hws hx hstart hφ⟩
    | crashed => exact absurd rfl hcrashed
    | abandoned => exact absurd hφ hkept
    | starting | planned | loading | loaded | decoding | analyzing => cases hsettled
  · left
    rcases hrest with ⟨ψ, hψ, hend⟩ | hrest
    · obtain rfl := Option.some.inj (hφ.symm.trans hψ)
      exact absurd hend hsettled
    · rcases exists_step_of_unsettled hpermits hφ (by simpa using hsettled) with
        ⟨z, hz⟩ | hwaits
      · exact absurd hz (hrest z)
      · exact ⟨φ, hφ, hwaits⟩

/-- A world in which no thread can move and nothing is due stays as it is. -/
theorem not_step_of_idle (hidle : w.threads.all (fun y ↦ !w.canMove e y) = true)
    (hdues : w.dues e = []) : ∀ z, ¬ Step e w z := by
  intro z hz
  cases hz with
  | move y _ hm =>
      have hstays := List.all_eq_true.1 hidle y (mem_threads_of_move hm)
      simp [canMove, hm] at hstays
  | wait due _ hdue =>
      have hmem := mem_of_earliest? hdue
      rw [hdues] at hmem
      cases hmem

end World

/-! ## A proposal on unknown chains -/

namespace Abroad

def directory : ChainDirectory := { chainSelectors := .ofList [2] }

def engine : Engine :=
  { registry := Pair.registry
    loader := directory.loader
    decoder := fun _ _ _ ↦ .result (.ok ⟨[]⟩) }

def job : Job := ⟨"domain", "environment", { operations := [⟨7, []⟩, ⟨2, []⟩, ⟨5, []⟩] }⟩

def world (phase : Phase) : World :=
  { runs := [{ job := job, token := 0, numbers := fun _ _ ↦ 0, phase := phase }] }

def ended : World := (world (.planned Pair.twoLevels)).after engine [.run 0, .run 0]

theorem steps_ended : World.Steps engine (world .starting) ended :=
  .trans (.single (World.step_of_plan (r := 0) rfl rfl Pair.plan_registry rfl))
    (World.steps_after _ _ _)

theorem run_decided_of_abroad :
    ∃ ws, World.History engine (world .starting) ws ended ∧
      World.Decided engine 0 job ws (.error (.environment "domain" "environment"
        job.proposal.chainSelectors (.unknownChain 5))) ∧
      job.proposal.chainSelectors.toList = [2, 5, 7] := by
  obtain ⟨ws, _, hws⟩ := World.History.start.exists_extend steps_ended
  obtain ⟨_, hends⟩ := World.run_decided (e := engine) (u := world .starting) (r := 0) (by decide)
    rfl rfl rfl
  rcases hends ws ended hws (.inl ⟨_, rfl, rfl⟩) nofun with
    ⟨φ, hφ, hwaits, _⟩ | ⟨res, hres, hdecided⟩
  · cases hφ
    cases hwaits
  · cases hres
    exact ⟨ws, hws, hdecided, rfl⟩

end Abroad

/-! ## Other ends, and none -/

namespace Adrift

/-- No analyzer is registered. -/
def noLevels : Plan := ⟨[⟨.parameter, []⟩, ⟨.call, []⟩, ⟨.batchOperation, []⟩, ⟨.proposal, []⟩]⟩

theorem plan_empty : ({} : Registry).plan = .ok noLevels :=
  Registry.plan_eq_ok_of_proposals rfl rfl rfl (Registry.pass_of_ofLevel_eq_nil rfl [])

/-- The decoder cancels its own run, and gives way at no time. -/
def hasty : Engine :=
  { Pair.engine none {} with decoder := fun _ _ _ ↦ .cancelRun (.result (.ok ⟨[]⟩)) }

def decoding : World :=
  (Pair.world (.planned noLevels)).after hasty [.run 0, .run 0, .run 0, .run 0]

def decoded : World := decoding.after hasty [.run 0, .run 0]

theorem steps_decoding : World.Steps hasty (Pair.world .starting) decoding :=
  (Pair.steps_planned plan_empty).trans (World.steps_after _ _ _)

/-- As far as the first level, if the bound allows for one. -/
def bounded (bound : UInt64) : World :=
  (Pair.world (.planned Pair.twoLevels)).after (Pair.engine (some bound) Pair.registry)
    Pair.prelude

theorem steps_bounded (bound : UInt64) :
    World.Steps (Pair.engine (some bound) Pair.registry) (Pair.world .starting) (bounded bound) :=
  (Pair.steps_planned Pair.plan_registry).trans (World.steps_after _ _ _)

/-- The loader answers only when the run is cancelled. -/
def patient : Engine :=
  { Pair.engine none Pair.registry with
    loader := fun _ name _ ↦ .awaitCancel (.result (.error (.notFound name))) }

def waiting : World := (Pair.world (.planned Pair.twoLevels)).after patient [.run 0, .run 0]

theorem steps_waiting : World.Steps patient (Pair.world .starting) waiting :=
  (Pair.steps_planned Pair.plan_registry).trans (World.steps_after _ _ _)

/-- A run that is cancelled while it decodes may end with a report, and one with too large a bound
on concurrency ends without a result.  Without permits, or with a loader that waits for ever, a run
does not end. -/
theorem exists_other_ends :
    (∃ plan environment q rep, World.Steps hasty (Pair.world .starting) decoding ∧
      decoding.phase? 0 = some (.decoding plan environment q) ∧
      decoding.isRunCancelled 0 = true ∧ World.Steps hasty decoding decoded ∧
      decoded.phase? 0 = some (.finished (.ok rep))) ∧
    (World.Steps (Pair.engine (some 0xffffffffffffffff) Pair.registry) (Pair.world .starting)
      (bounded 0xffffffffffffffff) ∧ (bounded 0xffffffffffffffff).phase? 0 = some .crashed) ∧
    (∃ c p l, World.Steps (Pair.engine (some 0) Pair.registry) (Pair.world .starting)
      (bounded 0) ∧ (bounded 0).phase? 0 = some (.analyzing c p (some l)) ∧
      ∀ z, ¬ World.Step (Pair.engine (some 0) Pair.registry) (bounded 0) z) ∧
    ∃ plan q, World.Steps patient (Pair.world .starting) waiting ∧
      waiting.phase? 0 = some (.loading plan q) ∧ ∀ z, ¬ World.Step patient waiting z := by
  refine ⟨⟨_, _, _, _, steps_decoding, rfl, rfl, World.steps_after _ _ _, rfl⟩,
    ⟨steps_bounded _, rfl⟩, ?_, ?_⟩
  · exact ⟨_, _, _, steps_bounded 0, rfl, World.not_step_of_idle rfl rfl⟩
  · exact ⟨_, _, steps_waiting, rfl, World.not_step_of_idle rfl rfl⟩

end Adrift

end Timelock
