import Timelock.Engine
import Timelock.NodePath.Handle
import Timelock.Run.Level

/-!
# Runs

A run plans its levels, loads an environment, decodes its proposal and then goes through the
levels one at a time.  It looks for cancellation at the start, before loading and decoding and
wherever these give way to others, and before each level; the level in flight is always waited
for.
-/

namespace Timelock

structure Job where
  domain : String
  environmentName : String
  proposal : Proposal
  deriving DecidableEq

inductive Phase where
  | starting
  | planned (plan : Plan)
  | loading (plan : Plan) (position : Position (Except EnvironmentError Environment))
  | loaded (plan : Plan) (environment : Environment)
  | decoding (plan : Plan) (environment : Environment)
      (position : Position (Except DecodeError DecodedProposal))
  | analyzing (execution : ExecutionContext) (progress : Progress) (level : Option LevelRun)
  | finished (result : Except AnalysisError Report)
  /-- The bound on concurrency is beyond what a run can count. -/
  | crashed
  | abandoned

namespace Phase

def isSettled : Phase → Bool
  | .finished _ | .crashed | .abandoned => true
  | .starting | .planned _ | .loading _ _ | .loaded _ _ | .decoding _ _ _
  | .analyzing _ _ _ => false

def tasks : Phase → List Task
  | .analyzing _ _ (some l) => l.tasks
  | _ => []

structure Advance where
  phase : Phase
  cancelsRun : Bool := false
  incidents : List Incident := []

def failed (e : AnalysisError) : Advance := { phase := .finished (.error e) }

/-- The largest bound on concurrency with which a run can begin to analyze. -/
def maxPermits : Nat := 0x1fffffffffffffff

def exceedsPermits (bound : Option UInt64) : Bool :=
  match bound with
  | none => false
  | some n => maxPermits < n.toNat

def ofDecoded (e : Engine) (j : Job) (numbers : TaskNumbers) (plan : Plan)
    (environment : Environment) (d : DecodedProposal) : Phase :=
  if exceedsPermits e.config.maxConcurrency then .crashed
  else
    let tree := AnalyzedProposal.ofDecoded d
    .analyzing ⟨j.domain, j.environmentName, environment, e.decoderConfig, j.proposal, d⟩
      { numbers := numbers, tree := tree, pending := plan.steps tree } none

/-- A move of the loader or of the decoder; cancellation counts where it has given way. -/
def callMove {α : Type} (stage : Stage) (now : Nat) (cancelled : Bool) (p : Position α)
    (stay : Position α → Phase) (leave : α → Phase) : Option Advance :=
  if p.isParked && cancelled then some (failed (.cancelled stage))
  else
    match p.move? ⟨now, none, cancelled⟩ with
    | none => none
    | some (.on q effect) => some { phase := stay q, cancelsRun := effect = some .cancelRun }
    | some (.done a) => some { phase := leave a }

def leaveLoading (j : Job) (plan : Plan) : Except EnvironmentError Environment → Phase
  | .error x =>
      .finished (.error
        (.environment j.domain j.environmentName j.proposal.chainSelectors x))
  | .ok environment => .loaded plan environment

def leaveDecoding (e : Engine) (j : Job) (numbers : TaskNumbers) (plan : Plan)
    (environment : Environment) : Except DecodeError DecodedProposal → Phase
  | .error x =>
      .finished (.error (.decode j.proposal.description j.proposal.chainSelectors x))
  | .ok d => ofDecoded e j numbers plan environment d

def nextLevel (cancelled : Bool) (x : ExecutionContext) (p : Progress) : Phase :=
  match p.pending with
  | [] => .finished (.ok ⟨x, p.tree, p.outcomes⟩)
  | s :: rest =>
      match p.resolve? s.path with
      | none => .finished (.error (.missingNode s.path))
      | some y =>
          if cancelled then .finished (.error (.cancelled (.level s.path)))
          else
            .analyzing x { p with node := some y, pending := rest }
              (some (.start x p.tree s y.1 y.2))

/-- Go on from a level that is over, whose results go to its node. -/
def leaveLevel (timeoutMs : UInt64) (x : ExecutionContext) (p : Progress) (l : LevelRun) : Phase :=
  match l.path.handle? p.tree with
  | none => .finished (.error (.missingNode l.path))
  | some _ => .analyzing x (p.absorb timeoutMs l) none

/-- The next move of the run itself, or `none` while it waits. -/
def advance? (e : Engine) (j : Job) (numbers : TaskNumbers) (now : Nat) (cancelled : Bool) :
    Phase → Option Advance
  | .starting =>
      match e.registry.plan with
      | .error x => some (failed (.graph x))
      | .ok plan =>
          if cancelled then some (failed (.cancelled .startup))
          else some { phase := .planned plan }
  | .planned plan =>
      if cancelled then some (failed (.cancelled .environmentLoading))
      else
        let call := e.loader j.domain j.environmentName j.proposal.chainSelectors
        some { phase := .loading plan (.ready call) }
  | .loading plan p =>
      callMove .environmentLoading now cancelled p (.loading plan) (leaveLoading j plan)
  | .loaded plan environment =>
      if cancelled then some (failed (.cancelled .decoding))
      else
        let call := e.decoder environment e.decoderConfig j.proposal
        some { phase := .decoding plan environment (.ready call) }
  | .decoding plan environment p =>
      callMove .decoding now cancelled p (.decoding plan environment)
        (leaveDecoding e j numbers plan environment)
  | .analyzing x p none => some { phase := nextLevel cancelled x p }
  | .analyzing x p (some l) =>
      if l.isOver then
        some { phase := leaveLevel e.config.analyzerTimeout.wholeMilliseconds x p l }
      else none
  | .finished _ | .crashed | .abandoned => none

/-- The next move of one task of the level in flight, or `none` while it is held up. -/
def advanceTask? (e : Engine) (now : Nat) (cancelled : Bool) (i : Nat) : Phase → Option Advance
  | .analyzing x p (some l) =>
      match l.tasks[i]? with
      | none => none
      | some t =>
          match t.advance? e.timeoutMs now cancelled
              (l.hasFreePermit e.config.maxConcurrency) with
          | none => none
          | some a => some {
              phase := .analyzing x p (some (l.setState i a.state))
              cancelsRun := a.cancelsRun
              incidents := a.incidents }
  | _ => none

def dues (e : Engine) : Phase → List Nat
  | .loading _ p => p.due?.toList
  | .decoding _ _ p => p.due?.toList
  | .analyzing _ _ (some l) => l.tasks.filterMap (Task.due? e.timeoutMs)
  | .starting | .planned _ | .loaded _ _ | .analyzing _ _ none | .finished _ | .crashed
  | .abandoned => []

def deadline? (e : Engine) (i : Nat) (p : Phase) : Option Nat :=
  p.tasks[i]?.bind (Task.deadline? e.timeoutMs)

/-- Stages, then levels, then moves that are left. -/
def rank : Phase → Nat × Nat × Nat
  | .starting => (6, 0, 0)
  | .planned _ => (5, 0, 0)
  | .loading _ p => (4, 0, p.weight)
  | .loaded _ _ => (3, 0, 0)
  | .decoding _ _ p => (2, 0, p.weight)
  | .analyzing _ p none => (1, 2 * p.pending.length, 0)
  | .analyzing _ p (some l) => (1, 2 * p.pending.length + 1, l.weight)
  | .finished _ | .crashed | .abandoned => (0, 0, 0)

abbrev RankLess : Nat × Nat × Nat → Nat × Nat × Nat → Prop :=
  Prod.Lex (· < ·) (Prod.Lex (· < ·) (· < ·))

theorem rankLess_of_fst {a b : Nat × Nat × Nat} (h : a.1 < b.1) : RankLess a b :=
  Prod.Lex.left _ _ h

theorem rankLess_of_snd {k : Nat} {a b : Nat × Nat} (h : a.1 < b.1) :
    RankLess (k, a) (k, b) :=
  Prod.Lex.right _ (Prod.Lex.left _ _ h)

theorem rankLess_of_weight {k l m n : Nat} (h : m < n) : RankLess (k, l, m) (k, l, n) :=
  Prod.Lex.right _ (Prod.Lex.right _ h)

theorem rankLess_of_callMove {α : Type} {stage : Stage} {now : Nat} {cancelled : Bool}
    {p : Position α} {stay : Position α → Phase} {leave : α → Phase} {a : Advance} {k : Nat}
    (h : callMove stage now cancelled p stay leave = some a)
    (hk : 0 < k) (hstay : ∀ q, (stay q).rank = (k, 0, q.weight))
    (hleave : ∀ x, (leave x).rank.1 < k) :
    RankLess a.phase.rank (k, 0, p.weight) := by
  simp only [callMove] at h
  split at h
  · cases h
    exact rankLess_of_fst hk
  · split at h
    next => simp at h
    next q effect hm =>
      cases h
      simp only [hstay]
      exact rankLess_of_weight (Position.weight_lt_of_move hm)
    next x hm =>
      cases h
      exact rankLess_of_fst (hleave x)

theorem rank_leaveLoading (j : Job) (plan : Plan) (r : Except EnvironmentError Environment) :
    (leaveLoading j plan r).rank.1 < 4 := by
  cases r <;> simp [leaveLoading, rank]

theorem rank_leaveDecoding (e : Engine) (j : Job) (numbers : TaskNumbers) (plan : Plan)
    (environment : Environment) (r : Except DecodeError DecodedProposal) :
    (leaveDecoding e j numbers plan environment r).rank.1 < 2 := by
  cases r with
  | error => simp [leaveDecoding, rank]
  | ok d =>
      simp only [leaveDecoding, ofDecoded]
      split <;> simp [rank]

theorem rank_nextLevel (cancelled : Bool) (x : ExecutionContext) (p : Progress) :
    RankLess (nextLevel cancelled x p).rank (1, 2 * p.pending.length, 0) := by
  unfold nextLevel
  split
  · exact rankLess_of_fst (by simp [rank])
  next s rest hp =>
    split
    · exact rankLess_of_fst (by simp [rank])
    · split
      · exact rankLess_of_fst (by simp [rank])
      · refine rankLess_of_snd ?_
        simp only [hp, List.length_cons]
        omega

theorem rank_leaveLevel (timeoutMs : UInt64) (x : ExecutionContext) (p : Progress)
    (l : LevelRun) : RankLess (leaveLevel timeoutMs x p l).rank
      (1, 2 * p.pending.length + 1, l.weight) := by
  unfold leaveLevel
  split
  · exact rankLess_of_fst (by simp [rank])
  · refine rankLess_of_snd ?_
    simp [Progress.pending_absorb]

/-- Every move of a run lowers its rank. -/
theorem rankLess_of_advance {e : Engine} {j : Job} {numbers : TaskNumbers} {now : Nat}
    {cancelled : Bool} {p : Phase} {a : Advance}
    (h : p.advance? e j numbers now cancelled = some a) : RankLess a.phase.rank p.rank := by
  unfold advance? at h
  split at h
  · split at h
    · cases h
      exact rankLess_of_fst (by simp [rank, failed])
    · split at h <;> cases h <;> exact rankLess_of_fst (by simp [rank, failed])
  next plan =>
    split at h <;> cases h <;> exact rankLess_of_fst (by simp [rank, failed])
  next plan q =>
    exact rankLess_of_callMove h (by omega) (fun _ ↦ rfl) (rank_leaveLoading j plan)
  next plan environment =>
    split at h <;> cases h <;> exact rankLess_of_fst (by simp [rank, failed])
  next plan environment q =>
    exact rankLess_of_callMove h (by omega) (fun _ ↦ rfl)
      (rank_leaveDecoding e j numbers plan environment)
  next x q =>
    cases h
    exact rank_nextLevel cancelled x q
  next x q l =>
    simp only [Option.ite_none_right_eq_some, Option.some.injEq] at h
    obtain ⟨_, rfl⟩ := h
    exact rank_leaveLevel _ x q l
  all_goals cases h

theorem rankLess_of_advanceTask {e : Engine} {now : Nat} {cancelled : Bool} {i : Nat} {p : Phase}
    {a : Advance} (h : p.advanceTask? e now cancelled i = some a) :
    RankLess a.phase.rank p.rank := by
  unfold advanceTask? at h
  split at h
  next x q l =>
    split at h
    · cases h
    next t ht =>
      split at h
      · cases h
      next b hb =>
        cases h
        exact rankLess_of_weight (LevelRun.weight_setState_lt ht (Task.weight_lt_of_advance hb))
  next => cases h

end Phase

end Timelock
