import Timelock.Proofs.Completion
import Timelock.Proofs.PlanPart
import Timelock.Proofs.Provenance
import Timelock.Proofs.TaskNumbers

/-!
# Scheduling

Where the work of every analyzer is a function of what it is told, a run can be replayed step by
step without a clock, without permits and without other tasks.  Every run that is left to itself
gives what the replay gives, so the order in which tasks start and end leaves no trace but the
numbers that the tasks get.
-/

namespace Timelock

open Annotation

/-- After how long, and with what, the invocations of analyzers end by themselves, as a function of
analyzer, scope, target and store. -/
abbrev Behaviour := Analyzer → NodeScope → Target → DependencyStore → Option (Nat × Option Verdict)

/-- The invocations of an analyzer take the course that the behaviour foretells, whenever they
start. -/
def Analyzer.Follows (timeoutMs : Nat) (b : Behaviour) (a : Analyzer) : Prop :=
  ∀ x target started,
    (a.invocation x target).course timeoutMs started 0 = b a x.scope target x.dependencies

/-- The invocations within one execution take the course that is foretold. -/
def Analyzer.FollowsWithin (timeoutMs : Nat) (b : Behaviour) (x : ExecutionContext)
    (a : Analyzer) : Prop :=
  ∀ scope store target started,
    (a.invocation ⟨x, scope, store⟩ target).course timeoutMs started 0 = b a scope target store

theorem Analyzer.Follows.within {timeoutMs : Nat} {b : Behaviour} {a : Analyzer}
    (h : a.Follows timeoutMs b) (x : ExecutionContext) : a.FollowsWithin timeoutMs b x :=
  fun scope store target started ↦ h ⟨x, scope, store⟩ target started

namespace Behaviour

def ending (timeoutMs : Nat) (b : Behaviour) (t : AnalyzedProposal) (p : NodePath)
    (scope : NodeScope) (target : Target) (a : Analyzer) : TaskResult × Nat :=
  Task.ending timeoutMs (b a scope target (.collect t p a.dependencies))

def contributions (timeoutMs : Nat) (b : Behaviour) (t : AnalyzedProposal) (s : LevelStep) :
    List Contribution :=
  match NodeScope.resolve t s.path with
  | none => []
  | some (scope, target) => s.analyzers.map fun a ↦
      let own := b.ending timeoutMs t s.path scope target a
      ⟨a.id, own.1, own.2⟩

end Behaviour

variable {e e' : Engine} {r r' : Nat} {plan : Plan} {c : ExecutionContext} {w w' : World}
  {ws : List World} {ls : List LevelRun} {base p : Progress} {l : LevelRun} {t : Task}
  {b : Behaviour} {d : DecodedProposal} {timeoutMs : UInt64} {keep : String → Bool}
  {numbers : TaskNumbers} {tree tree' : AnalyzedProposal} {q : Progress}

namespace LevelRun

theorem filter_contributions (l : LevelRun) (keep : String → Bool) :
    l.contributions.filter (fun x ↦ keep x.analyzer) =
      (l.tasks.filter (fun t ↦ keep t.analyzer.id)).filterMap Task.contribution? := by
  rw [contributions, List.filter_filterMap, List.filterMap_filter]
  apply List.filterMap_congr
  intro t _
  cases hc : t.contribution? with
  | none => simp
  | some x => simp [Option.filter, Task.analyzer_of_contribution? hc]

/-- The contributions of the analyzers that are kept, foretold from any tree that gives them the
same stores. -/
theorem filter_contributions_eq (keep : String → Bool) {s : LevelStep}
    (hstart : start? c tree s = some l.unstarted)
    (hfollows : ∀ a ∈ s.analyzers, keep a.id = true → a.FollowsWithin timeoutMs.toNat b c)
    (hended : ∀ t ∈ l.tasks, keep t.analyzer.id = true → t.EndsByItself timeoutMs.toNat)
    (htree : tree'.decoded = tree.decoded)
    (hstore : ∀ a ∈ s.analyzers, keep a.id = true →
      DependencyStore.collect tree' s.path a.dependencies =
        DependencyStore.collect tree s.path a.dependencies) :
    l.contributions.filter (fun x ↦ keep x.analyzer) =
      b.contributions timeoutMs.toNat tree' (s.restrict keep) := by
  obtain ⟨scope, target, hresolve, _⟩ := start?_eq_some_iff.1 hstart
  have hs : s.analyzers = l.tasks.map Task.analyzer := by rw [← step_of_start? hstart]; rfl
  rw [← NodePath.resolve_eq_of_decoded_eq htree] at hresolve
  rw [filter_contributions, Behaviour.contributions, LevelStep.restrict, hresolve]
  simp only [hs, keptOf, List.filter_map, List.map_map]
  rw [← List.filterMap_eq_map]
  apply List.filterMap_congr
  intro t ht
  obtain ⟨ht, hkeep⟩ := List.mem_filter.1 ht
  have hmem : t.analyzer ∈ s.analyzers := hs ▸ List.mem_map_of_mem ht
  obtain ⟨scope', target', hresolve', hcontext, hinvocation⟩ := task_of_start? hstart ht
  rw [← NodePath.resolve_eq_of_decoded_eq htree, hresolve] at hresolve'
  cases hresolve'
  obtain ⟨started, result, ms, hstate, hend⟩ := hended t ht hkeep
  have hcourse := hfollows _ hmem hkeep scope (.collect tree s.path t.analyzer.dependencies) target
    started
  rw [← hcontext, ← hinvocation, ← hstore _ hmem hkeep] at hcourse
  rw [hcourse] at hend
  rw [Task.contribution?_of_state hstate]
  simp only [Function.comp_apply, Behaviour.ending, ← hend]

end LevelRun

namespace Progress

/-- Take steps one after another, each analyzer by itself. -/
def replay (timeoutMs : UInt64) (b : Behaviour) (p : Progress) (steps : List LevelStep) :
    Progress :=
  steps.foldl
    (fun p s ↦ p.contributeAll timeoutMs s.path (b.contributions timeoutMs.toNat p.tree s)) p

theorem replay_concat (p : Progress) (steps : List LevelStep) (s : LevelStep) :
    p.replay timeoutMs b (steps ++ [s]) =
      (p.replay timeoutMs b steps).contributeAll timeoutMs s.path
        (b.contributions timeoutMs.toNat (p.replay timeoutMs b steps).tree s) := by
  simp [replay]

@[simp] theorem numbers_replay (p : Progress) (steps : List LevelStep) :
    (p.replay timeoutMs b steps).numbers = p.numbers := by
  induction steps generalizing p with
  | nil => rfl
  | cons s steps ih => exact (ih _).trans (numbers_contributeAll ..)

theorem Renumbered.replay {p' : Progress} (h : Renumbered p p') (timeoutMs : UInt64)
    (b : Behaviour) (steps : List LevelStep) :
    Renumbered (p.replay timeoutMs b steps) (p'.replay timeoutMs b steps) := by
  induction steps generalizing p p' with
  | nil => exact h
  | cons s steps ih =>
      refine ih ?_
      simp only [h.tree]
      exact h.contributeAll _

/-- Levels whose tasks end by themselves are replayed exactly. -/
theorem Taken.replay_agree (h : Taken timeoutMs c base ls p)
    (hfollows : ∀ l ∈ ls, ∀ t ∈ l.tasks, t.analyzer.FollowsWithin timeoutMs.toNat b c)
    (hended : ∀ l ∈ ls, ∀ t ∈ l.tasks, t.EndsByItself timeoutMs.toNat) :
    (base.replay timeoutMs b (ls.map LevelRun.step)).Agree p := by
  induction h with
  | nil => exact ⟨rfl, rfl, rfl⟩
  | @snoc ls p s rest l _ _ hstart _ ih =>
      have hbefore := ih (fun l hl ↦ hfollows l (List.mem_append_left _ hl))
        fun l hl ↦ hended l (List.mem_append_left _ hl)
      have hl : l ∈ ls ++ [l] := by simp
      obtain rfl := LevelRun.step_of_start? hstart
      have hall : l.contributions.filter (fun _ ↦ true) =
          b.contributions timeoutMs.toNat p.tree (l.step.restrict (fun _ ↦ true)) := by
        refine LevelRun.filter_contributions_eq (fun _ ↦ true) hstart ?_
          (fun t ht _ ↦ hended l hl t ht) rfl fun _ _ _ ↦ rfl
        intro a ha _
        obtain ⟨t, ht, rfl⟩ := List.mem_map.1 ha
        exact hfollows l hl t ht
      rw [LevelStep.restrict, keptOf, List.filter_true, List.filter_true] at hall
      rw [List.map_append, List.map_singleton, replay_concat, hbefore.tree, absorb_eq, hall]
      have hagree : (base.replay timeoutMs b (ls.map LevelRun.step)).Agree
          { p with node := NodeScope.resolve p.tree l.step.path, pending := rest } :=
        ⟨hbefore.numbers, hbefore.tree, hbefore.outcomes⟩
      exact hagree.contributeAll _

end Progress

/-! ## Every run gives what the replay gives -/

/-- An invocation is cut off exactly when it would take longer than the timeout by itself. -/
theorem outcome_ending_eq_timedOut_iff {number : Nat}
    {foretold : Option (Nat × Option Verdict)} :
    (Task.ending timeoutMs.toNat foretold).1.outcome timeoutMs number = .timedOut timeoutMs ↔
      ∀ total v, foretold = some (total, v) → timeoutMs.toNat < total := by
  cases foretold with
  | none => simp [Task.ending, TaskResult.outcome]
  | some y =>
      obtain ⟨total, v⟩ := y
      by_cases hle : total ≤ timeoutMs.toNat
      · rcases v with _ | ⟨_ | _⟩ | _ <;>
          simp [Task.ending, hle, Task.concluded, Task.resultOf, TaskResult.outcome]
      · simp [Task.ending, hle, TaskResult.outcome, Nat.lt_of_not_le hle]

theorem Account.replay_agree_within (hplan : e.registry.plan = .ok plan)
    (h : Account e r numbers plan c ws ls q none) (hq : q.pending = [])
    (hfollows : ∀ a ∈ e.registry.analyzers, a.FollowsWithin e.timeoutMs b c)
    (hended : ∀ l ∈ ls, ∀ t ∈ l.tasks, t.EndsByItself e.timeoutMs) :
    ((Progress.initial numbers plan c.decoded).replay e.config.analyzerTimeoutMs b
      (plan.steps (.ofDecoded c.decoded))).Agree q := by
  rw [← h.map_step_eq hq]
  refine h.taken.replay_agree ?_ hended
  intro l hl t ht
  have ha := (Plan.mem_levelsOf hplan).1 (h.analyzer_mem_levelsOf hplan hq hl ht)
  exact hfollows _ ha.1

theorem Account.replay_agree (hplan : e.registry.plan = .ok plan)
    (h : Account e r numbers plan c ws ls q none) (hq : q.pending = [])
    (hfollows : ∀ a ∈ e.registry.analyzers, a.Follows e.timeoutMs b)
    (hended : ∀ l ∈ ls, ∀ t ∈ l.tasks, t.EndsByItself e.timeoutMs) :
    ((Progress.initial numbers plan c.decoded).replay e.config.analyzerTimeoutMs b
      (plan.steps (.ofDecoded c.decoded))).Agree q :=
  h.replay_agree_within hplan hq (fun a ha ↦ (hfollows a ha).within c) hended

/-- A record and the annotations beside it tell what the analyzer comes to by itself. -/
theorem Account.exists_own (hplan : e.registry.plan = .ok plan)
    (h : Account e r numbers plan c ws ls q none) (hq : q.pending = [])
    (hfollows : ∀ a ∈ e.registry.analyzers, a.Follows e.timeoutMs b)
    (hended : ∀ l ∈ ls, ∀ t ∈ l.tasks, t.EndsByItself e.timeoutMs) {o : OutcomeRecord}
    (ho : o ∈ q.outcomes) :
    ∃ a ∈ e.registry.analyzers, ∃ scope target, a.id = o.analyzer ∧ a.level = o.path.level ∧
      NodeScope.resolve q.tree o.path = some (scope, target) ∧
      let own := (b.ending e.timeoutMs q.tree o.path scope target a).1
      o.outcome = own.outcome e.config.analyzerTimeoutMs (numbers o.path a.id) ∧
        fromAnalyzer ((o.path.annotations? q.tree).getD []) a.id =
          own.annotations.map (fun n ↦ n.producedBy a.id) := by
  obtain ⟨l, hl, t, ht, result, ms, hs, rfl⟩ := h.mem_outcomes_iff.1 ho
  have ha := h.analyzer_mem_levelsOf hplan hq hl ht
  obtain ⟨hreg, hlevel⟩ := (Plan.mem_levelsOf hplan).1 ha
  obtain ⟨hstore, target, hresolve, hinvocation⟩ := h.dependencies_eq hplan hq hl ht
  obtain ⟨started, result', ms', hs', hend⟩ := hended l hl t ht
  rw [hs] at hs'
  cases hs'
  have hown :
      b.ending e.timeoutMs q.tree l.path t.context.scope target t.analyzer = (result, ms) := by
    rw [hend, hinvocation, hfollows _ hreg, hstore]
    rfl
  refine ⟨t.analyzer, hreg, t.context.scope, target, rfl, hlevel, hresolve, ?_⟩
  simp only [hown, true_and]
  have hexists : (l.path.annotations? q.tree).isSome := by
    rw [← NodePath.isSome_resolve, hresolve]
    rfl
  obtain ⟨as, has⟩ := Option.isSome_iff_exists.1 hexists
  obtain ⟨result', ms', hs', hret⟩ := h.returned?_eq hplan hq hl ht
  rw [hs] at hs'
  cases hs'
  rw [has, Option.getD_some, h.annotations?_eq hplan hq has,
    fromAnalyzer_flatMap_stampedOutput hplan ha, stampedOutput, hret]
  rfl

namespace Pair

def behaviour : Behaviour := fun a _ target store ↦
  let answer :=
    if target.level = a.level then
      if a.id = "writer" then
        .ok [{ Annotation.valueType "text" with analyzer := some "reader" }]
      else .ok store.annotations
    else .error (.kindMismatch a.level target.level)
  some (0, some (.answered answer))

theorem follows_behaviour (timeoutMs : Nat) :
    ∀ a ∈ registry.analyzers, a.Follows timeoutMs behaviour := by
  intro a ha x target started
  simp only [registry, List.mem_cons, List.not_mem_nil, or_false] at ha
  rcases ha with rfl | rfl <;> cases target <;> rfl

theorem steps_ended (bound : Option UInt64) :
    World.Steps (engine bound registry) (writing bound) (ended bound) :=
  (World.steps_after _ _ level).trans (World.steps_after _ _ level)

theorem undisturbed_none : World.Undisturbed (engine none registry) 0 ⟨[]⟩ (ended none) where
  permits := by decide
  begun := ⟨_, writing none, _, _, _, rfl, steps_writing none, rfl, rfl, steps_ended none⟩
  rest := .inl ⟨_, rfl, rfl⟩
  uncancelled := rfl
  kept := nofun

theorem undisturbed_one :
    World.Undisturbed (engine (some 1) registry) 0 ⟨[]⟩ (ended (some 1)) where
  permits := by decide
  begun := ⟨_, writing (some 1), _, _, _, rfl, steps_writing (some 1), rfl, rfl,
    steps_ended (some 1)⟩
  rest := .inl ⟨_, rfl, rfl⟩
  uncancelled := rfl
  kept := nofun

end Pair

end Timelock
