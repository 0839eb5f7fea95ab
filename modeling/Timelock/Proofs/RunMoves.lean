import Timelock.Run

/-!
# Moves of a run

What a run itself does with its next move: it ends, goes on with a call, or comes to another stage.
It looks whether it has been cancelled when it has its plan, before it loads its environment, before
it decodes, wherever loading or decoding gives way, and before each level.
-/

namespace Timelock

namespace Phase

/-- The stage at which a run looks whether it has been cancelled, if it does so next. -/
def checkpoint? (e : Engine) : Phase → Option Stage
  | .starting =>
      match e.registry.plan with
      | .ok _ => some .startup
      | .error _ => none
  | .planned _ => some .environmentLoading
  | .loading _ q => if q.isParked then some .environmentLoading else none
  | .loaded _ _ => some .decoding
  | .decoding _ _ q => if q.isParked then some .decoding else none
  | .analyzing _ p none =>
      p.pending.head?.bind fun s ↦ (p.resolve? s.path).map fun _ ↦ .level s.path
  | .analyzing _ _ (some _) | .finished _ | .crashed | .abandoned => none

variable {e : Engine} {j : Job} {numbers : TaskNumbers} {now : Nat} {cancelled : Bool}
  {c : ExecutionContext} {p : Progress} {l : LevelRun} {φ : Phase}

inductive Moves (e : Engine) (j : Job) (numbers : TaskNumbers) (now : Nat) (cancelled : Bool) :
    Phase → Phase → Prop
  | graph (y : PlanError) (refused : e.registry.plan = .error y) :
      Moves e j numbers now cancelled .starting (.finished (.error (.graph y)))
  | cancelled (φ : Phase) (s : Stage) (checkpoint : φ.checkpoint? e = some s)
      (observed : cancelled = true) :
      Moves e j numbers now cancelled φ (.finished (.error (.cancelled s)))
  | plan (plan : Plan) (planned : e.registry.plan = .ok plan) (unobserved : cancelled = false) :
      Moves e j numbers now cancelled .starting (.planned plan)
  | load (plan : Plan) (unobserved : cancelled = false) :
      Moves e j numbers now cancelled (.planned plan)
        (.loading plan (.ready (e.loader j.domain j.environmentName j.proposal.chainSelectors)))
  | loading (plan : Plan) (q q' : Position (Except EnvironmentError Environment))
      (effect : Option Effect) (moved : q.move? ⟨now, none, cancelled⟩ = some (.on q' effect)) :
      Moves e j numbers now cancelled (.loading plan q) (.loading plan q')
  | unloaded (plan : Plan) (q : Position (Except EnvironmentError Environment))
      (y : EnvironmentError) (answer : q.move? ⟨now, none, cancelled⟩ = some (.done (.error y))) :
      Moves e j numbers now cancelled (.loading plan q) (.finished
        (.error (.environment j.domain j.environmentName j.proposal.chainSelectors y)))
  | loaded (plan : Plan) (q : Position (Except EnvironmentError Environment))
      (environment : Environment)
      (answer : q.move? ⟨now, none, cancelled⟩ = some (.done (.ok environment))) :
      Moves e j numbers now cancelled (.loading plan q) (.loaded plan environment)
  | decode (plan : Plan) (environment : Environment) (unobserved : cancelled = false) :
      Moves e j numbers now cancelled (.loaded plan environment) (.decoding plan environment
        (.ready (e.decoder environment e.decoderConfig j.proposal)))
  | decoding (plan : Plan) (environment : Environment)
      (q q' : Position (Except DecodeError DecodedProposal)) (effect : Option Effect)
      (moved : q.move? ⟨now, none, cancelled⟩ = some (.on q' effect)) :
      Moves e j numbers now cancelled (.decoding plan environment q) (.decoding plan environment q')
  | undecoded (plan : Plan) (environment : Environment)
      (q : Position (Except DecodeError DecodedProposal)) (y : DecodeError)
      (answer : q.move? ⟨now, none, cancelled⟩ = some (.done (.error y))) :
      Moves e j numbers now cancelled (.decoding plan environment q) (.finished
        (.error (.decode j.proposal.description j.proposal.chainSelectors y)))
  | crashed (plan : Plan) (environment : Environment)
      (q : Position (Except DecodeError DecodedProposal)) (d : DecodedProposal)
      (answer : q.move? ⟨now, none, cancelled⟩ = some (.done (.ok d)))
      (bound : exceedsPermits e.config.maxConcurrency = true) :
      Moves e j numbers now cancelled (.decoding plan environment q) .crashed
  | decoded (plan : Plan) (environment : Environment)
      (q : Position (Except DecodeError DecodedProposal)) (d : DecodedProposal)
      (answer : q.move? ⟨now, none, cancelled⟩ = some (.done (.ok d)))
      (bound : exceedsPermits e.config.maxConcurrency = false) :
      Moves e j numbers now cancelled (.decoding plan environment q)
        (.analyzing ⟨j.domain, j.environmentName, environment, e.decoderConfig, j.proposal, d⟩
          { numbers := numbers, tree := .ofDecoded d, pending := plan.steps (.ofDecoded d) } none)
  | report (c : ExecutionContext) (p : Progress) (pending : p.pending = []) :
      Moves e j numbers now cancelled (.analyzing c p none)
        (.finished (.ok ⟨c, p.tree, p.outcomes⟩))
  | missing (c : ExecutionContext) (p : Progress) (s : LevelStep) (rest : List LevelStep)
      (pending : p.pending = s :: rest) (unresolved : p.resolve? s.path = none) :
      Moves e j numbers now cancelled (.analyzing c p none)
        (.finished (.error (.missingNode s.path)))
  | start (c : ExecutionContext) (p : Progress) (s : LevelStep) (rest : List LevelStep)
      (y : NodeScope × Target) (pending : p.pending = s :: rest)
      (resolved : p.resolve? s.path = some y) (unobserved : cancelled = false) :
      Moves e j numbers now cancelled (.analyzing c p none)
        (.analyzing c { p with node := some y, pending := rest } (some (.start c p.tree s y.1 y.2)))
  | absorb (c : ExecutionContext) (p : Progress) (l : LevelRun) (ended : l.isOver = true)
      (found : (l.path.handle? p.tree).isSome) :
      Moves e j numbers now cancelled (.analyzing c p (some l))
        (.analyzing c (p.absorb e.config.analyzerTimeoutMs l) none)
  | lost (c : ExecutionContext) (p : Progress) (l : LevelRun) (ended : l.isOver = true)
      (unfound : l.path.handle? p.tree = none) :
      Moves e j numbers now cancelled (.analyzing c p (some l))
        (.finished (.error (.missingNode l.path)))

/-- A call is cut off where it has given way, goes on, or answers. -/
theorem callMove_cases {α : Type} {stage : Stage} {q : Position α} {stay : Position α → Phase}
    {leave : α → Phase} {a : Advance}
    (h : callMove stage now cancelled q stay leave = some a) :
    (q.isParked = true ∧ cancelled = true ∧ a.phase = .finished (.error (.cancelled stage))) ∨
      (∃ q' effect, q.move? ⟨now, none, cancelled⟩ = some (.on q' effect) ∧ a.phase = stay q') ∨
      ∃ y, q.move? ⟨now, none, cancelled⟩ = some (.done y) ∧ a.phase = leave y := by
  unfold callMove at h
  split at h
  next hparked =>
    obtain ⟨hq, hc⟩ := Bool.and_eq_true_iff.1 hparked
    cases h
    exact .inl ⟨hq, hc, rfl⟩
  · split at h
    · cases h
    next q' effect hm =>
      cases h
      exact .inr (.inl ⟨q', effect, hm, rfl⟩)
    next y hm =>
      cases h
      exact .inr (.inr ⟨y, hm, rfl⟩)

theorem moves_nextLevel (e : Engine) (j : Job) (numbers : TaskNumbers) (now : Nat)
    (cancelled : Bool) (c : ExecutionContext) (p : Progress) :
    Moves e j numbers now cancelled (.analyzing c p none) (nextLevel cancelled c p) := by
  unfold nextLevel
  split
  next hp => exact .report c p hp
  next s rest hp =>
    split
    next hy => exact .missing c p s rest hp hy
    next y hy =>
      split
      next hc => exact .cancelled _ _ (by simp [checkpoint?, hp, hy]) hc
      next hc => exact .start c p s rest y hp hy (by simpa using hc)

theorem moves_leaveLevel (e : Engine) (j : Job) (numbers : TaskNumbers) (now : Nat)
    (cancelled : Bool) (c : ExecutionContext) (p : Progress) (ended : l.isOver = true) :
    Moves e j numbers now cancelled (.analyzing c p (some l))
      (leaveLevel e.config.analyzerTimeoutMs c p l) := by
  unfold leaveLevel
  split
  next hk => exact .lost c p l ended hk
  next k hk => exact .absorb c p l ended (by simp [hk])

theorem moves_of_advance {a : Advance} (ha : φ.advance? e j numbers now cancelled = some a) :
    Moves e j numbers now cancelled φ a.phase := by
  cases φ with
  | starting =>
      simp only [advance?] at ha
      split at ha
      next y hplan =>
        cases ha
        exact .graph y hplan
      next plan hplan =>
        split at ha
        next hc =>
          cases ha
          exact .cancelled _ _ (by simp [checkpoint?, hplan]) hc
        next hc =>
          cases ha
          exact .plan plan hplan (by simpa using hc)
  | planned plan =>
      simp only [advance?] at ha
      split at ha
      next hc =>
        cases ha
        exact .cancelled _ _ rfl hc
      next hc =>
        cases ha
        exact .load plan (by simpa using hc)
  | loading plan q =>
      rcases callMove_cases ha with ⟨hq, hc, heq⟩ | ⟨q', effect, hm, heq⟩ | ⟨y, hm, heq⟩ <;>
        rw [heq]
      · exact .cancelled _ _ (by simp [checkpoint?, hq]) hc
      · exact .loading plan q q' effect hm
      · cases y with
        | error y => exact .unloaded plan q y hm
        | ok environment => exact .loaded plan q environment hm
  | loaded plan environment =>
      simp only [advance?] at ha
      split at ha
      next hc =>
        cases ha
        exact .cancelled _ _ rfl hc
      next hc =>
        cases ha
        exact .decode plan environment (by simpa using hc)
  | decoding plan environment q =>
      rcases callMove_cases ha with ⟨hq, hc, heq⟩ | ⟨q', effect, hm, heq⟩ | ⟨y, hm, heq⟩ <;>
        rw [heq]
      · exact .cancelled _ _ (by simp [checkpoint?, hq]) hc
      · exact .decoding plan environment q q' effect hm
      · cases y with
        | error y => exact .undecoded plan environment q y hm
        | ok d =>
            simp only [leaveDecoding, ofDecoded]
            split
            next hbound => exact .crashed plan environment q d hm hbound
            next hbound => exact .decoded plan environment q d hm (by simpa using hbound)
  | analyzing c p l? =>
      cases l? with
      | none =>
          cases ha
          exact moves_nextLevel e j numbers now cancelled c p
      | some l =>
          obtain ⟨hover, ha⟩ := Option.ite_none_right_eq_some.1 ha
          rw [Config.wholeMilliseconds_analyzerTimeout] at ha
          cases ha
          exact moves_leaveLevel e j numbers now cancelled c p hover
  | finished result => cases ha
  | crashed => cases ha
  | abandoned => cases ha

end Phase

end Timelock
