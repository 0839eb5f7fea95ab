import Timelock.Proofs.TreeShape
import Timelock.Run.Level

/-!
# Levels that have been absorbed

What a level leaves behind is a list of contributions, one for each of its tasks.  The levels that
a run has taken determine what it has appended to every node and which outcomes it has recorded.
-/

namespace Timelock

structure Contribution where
  analyzer : String
  result : TaskResult
  elapsedMs : Nat

namespace Contribution

def stamped (c : Contribution) : List Annotation :=
  c.result.annotations.map (fun n ↦ n.producedBy c.analyzer)

def record (timeoutMs : UInt64) (numbers : TaskNumbers) (path : NodePath) (c : Contribution) :
    OutcomeRecord :=
  ⟨c.analyzer, path, c.result.outcome timeoutMs (numbers path c.analyzer), c.elapsedMs⟩

theorem analyzer_of_mem_stamped {c : Contribution} {n : Annotation} (h : n ∈ c.stamped) :
    n.analyzer = some c.analyzer := by
  obtain ⟨m, _, rfl⟩ := List.mem_map.1 h
  rfl

end Contribution

namespace Progress

variable {timeoutMs : UInt64} {path : NodePath}

def contribute (timeoutMs : UInt64) (path : NodePath) (p : Progress) (c : Contribution) :
    Progress :=
  { p with
    tree := path.append p.tree c.stamped
    outcomes := p.outcomes ++ [c.record timeoutMs p.numbers path] }

def contributeAll (timeoutMs : UInt64) (path : NodePath) (p : Progress) (cs : List Contribution) :
    Progress :=
  cs.foldl (contribute timeoutMs path) p

@[simp] theorem contributeAll_nil (p : Progress) : p.contributeAll timeoutMs path [] = p := rfl

@[simp] theorem contributeAll_cons (p : Progress) (c : Contribution) (cs : List Contribution) :
    p.contributeAll timeoutMs path (c :: cs) =
      (p.contribute timeoutMs path c).contributeAll timeoutMs path cs := rfl

@[simp] theorem numbers_contributeAll (p : Progress) (cs : List Contribution) :
    (p.contributeAll timeoutMs path cs).numbers = p.numbers := by
  induction cs generalizing p with
  | nil => rfl
  | cons c cs ih => exact ih _

@[simp] theorem node_contributeAll (p : Progress) (cs : List Contribution) :
    (p.contributeAll timeoutMs path cs).node = p.node := by
  induction cs generalizing p with
  | nil => rfl
  | cons c cs ih => exact ih _

@[simp] theorem decoded_contributeAll (p : Progress) (cs : List Contribution) :
    (p.contributeAll timeoutMs path cs).tree.decoded = p.tree.decoded := by
  induction cs generalizing p with
  | nil => rfl
  | cons c cs ih =>
      rw [contributeAll_cons, ih]
      exact NodePath.decoded_append _ _ _

theorem outcomes_contributeAll (p : Progress) (cs : List Contribution) :
    (p.contributeAll timeoutMs path cs).outcomes =
      p.outcomes ++ cs.map (Contribution.record timeoutMs p.numbers path) := by
  induction cs generalizing p with
  | nil => simp
  | cons c cs ih =>
      rw [contributeAll_cons, ih]
      simp [contribute]

theorem annotations?_contributeAll (p : Progress) (cs : List Contribution) (q : NodePath) :
    q.annotations? (p.contributeAll timeoutMs path cs).tree =
      (q.annotations? p.tree).map
        (fun old ↦ if path = q then old ++ cs.flatMap Contribution.stamped else old) := by
  induction cs generalizing p with
  | nil => simp
  | cons c cs ih =>
      rw [contributeAll_cons, ih, contribute, NodePath.annotations?_append, Option.map_map]
      congr 1
      funext old
      by_cases h : path = q <;> simp [h]

/-- Two progresses that differ at most in what is pending and in the node at hand. -/
structure Agree (p q : Progress) : Prop where
  numbers : p.numbers = q.numbers
  tree : p.tree = q.tree
  outcomes : p.outcomes = q.outcomes

theorem Agree.refl (p : Progress) : Agree p p := ⟨rfl, rfl, rfl⟩

theorem Agree.contributeAll {p q : Progress} (h : Agree p q) (cs : List Contribution) :
    Agree (p.contributeAll timeoutMs path cs) (q.contributeAll timeoutMs path cs) := by
  induction cs generalizing p q with
  | nil => exact h
  | cons c cs ih =>
      exact ih ⟨h.numbers, by simp [contribute, h.tree],
        by simp [contribute, h.outcomes, h.numbers]⟩

end Progress

namespace Task

def contribution? (t : Task) : Option Contribution :=
  match t.state with
  | .ended r ms => some ⟨t.analyzer.id, r, ms⟩
  | .waiting | .running _ _ => none

def unstarted (t : Task) : Task := { t with state := .waiting }

/-- Nothing but its state sets a task apart from its start. -/
theorem eq_of_unstarted_eq {t t' : Task} (h : t.unstarted = t'.unstarted) :
    t.analyzer = t'.analyzer ∧ t.context = t'.context ∧ t.invocation = t'.invocation := by
  cases t
  cases t'
  simpa [unstarted] using h

theorem hasEnded_iff {t : Task} : t.hasEnded = true ↔ ∃ r ms, t.state = .ended r ms := by
  cases h : t.state <;> simp [hasEnded, h]

theorem contribution?_of_state {t : Task} {r : TaskResult} {ms : Nat} (h : t.state = .ended r ms) :
    t.contribution? = some ⟨t.analyzer.id, r, ms⟩ := by
  simp [contribution?, h]

theorem analyzer_of_contribution? {t : Task} {c : Contribution} (h : t.contribution? = some c) :
    c.analyzer = t.analyzer.id := by
  unfold contribution? at h
  split at h
  · cases h
    rfl
  · cases h
  · cases h

end Task

namespace LevelRun

variable {x : ExecutionContext} {t : AnalyzedProposal} {s : LevelStep} {l l' : LevelRun}

/-- The tasks at the start of a level, or `none` if its node does not exist. -/
def start? (x : ExecutionContext) (t : AnalyzedProposal) (s : LevelStep) : Option LevelRun :=
  (NodeScope.resolve t s.path).map fun y ↦ start x t s y.1 y.2

def step (l : LevelRun) : LevelStep := ⟨l.path, l.tasks.map Task.analyzer⟩

def unstarted (l : LevelRun) : LevelRun := { l with tasks := l.tasks.map Task.unstarted }

def contributions (l : LevelRun) : List Contribution := l.tasks.filterMap Task.contribution?

def stamped (l : LevelRun) : List Annotation := l.contributions.flatMap Contribution.stamped

@[simp] theorem step_unstarted (l : LevelRun) : l.unstarted.step = l.step := by
  simp [unstarted, step, Function.comp_def, Task.unstarted]

@[simp] theorem path_step (l : LevelRun) : l.step.path = l.path := rfl

@[simp] theorem unstarted_setState (l : LevelRun) (i : Nat) (s : TaskState) :
    (l.setState i s).unstarted = l.unstarted := by
  have h : ∀ t : Task, Task.unstarted { t with state := s } = t.unstarted := fun _ ↦ rfl
  simp [unstarted, setState, map_modify_of_forall h]

theorem start?_eq_some_iff :
    start? x t s = some l ↔ ∃ scope target, NodeScope.resolve t s.path = some (scope, target) ∧
      l = start x t s scope target := by
  simp [start?, Option.map_eq_some_iff, eq_comm (a := l)]

theorem start?_of_resolve {y : NodeScope × Target} (h : NodeScope.resolve t s.path = some y) :
    start? x t s = some (start x t s y.1 y.2) := by
  simp [start?, h]

@[simp] theorem unstarted_start (scope : NodeScope) (target : Target) :
    (start x t s scope target).unstarted = start x t s scope target := by
  simp [start, unstarted, Function.comp_def, taskFor, Task.unstarted]

@[simp] theorem step_start (scope : NodeScope) (target : Target) :
    (start x t s scope target).step = s := by
  simp [start, step, Function.comp_def, taskFor]

theorem step_of_start? (h : start? x t s = some l.unstarted) : l.step = s := by
  obtain ⟨scope, target, _, hl⟩ := start?_eq_some_iff.1 h
  rw [← step_unstarted, hl, step_start]

/-- A task is told of the tree as it was at the start of its level. -/
theorem task_of_start? (h : start? x t s = some l.unstarted) {k : Task} (hk : k ∈ l.tasks) :
    ∃ scope target, NodeScope.resolve t s.path = some (scope, target) ∧
      k.context = ⟨x, scope, .collect t s.path k.analyzer.dependencies⟩ ∧
      k.invocation = k.analyzer.invocation k.context target := by
  obtain ⟨scope, target, hr, hl⟩ := start?_eq_some_iff.1 h
  have hmem : k.unstarted ∈ l.unstarted.tasks := List.mem_map_of_mem hk
  rw [hl, start] at hmem
  obtain ⟨a, _, ha⟩ := List.mem_map.1 hmem
  have htask : (taskFor x t s.path scope target a).unstarted = k.unstarted := ha
  obtain ⟨hanalyzer, hcontext, hinvocation⟩ := Task.eq_of_unstarted_eq htask
  subst hanalyzer
  refine ⟨scope, target, hr, hcontext.symm, hinvocation.symm.trans ?_⟩
  exact congrArg (fun c ↦ k.analyzer.invocation c target) hcontext

theorem analyzer_of_mem_stamped {n : Annotation} (h : n ∈ l.stamped) :
    ∃ a ∈ l.step.analyzers, n.analyzer = some a.id := by
  obtain ⟨c, hc, hn⟩ := List.mem_flatMap.1 h
  obtain ⟨k, hk, hkc⟩ := List.mem_filterMap.1 hc
  refine ⟨k.analyzer, List.mem_map_of_mem hk, ?_⟩
  rw [Contribution.analyzer_of_mem_stamped hn, Task.analyzer_of_contribution? hkc]

end LevelRun

namespace Progress

variable {timeoutMs : UInt64} {x : ExecutionContext} {base p : Progress} {l : LevelRun}
  {ls : List LevelRun}

theorem absorbTask_eq (path : NodePath) (p : Progress) (t : Task) :
    absorbTask timeoutMs path p t = p.contributeAll timeoutMs path t.contribution?.toList := by
  cases h : t.state <;> simp [absorbTask, Task.contribution?, h, contribute, Contribution.stamped,
    Contribution.record]

theorem absorb_eq (p : Progress) (l : LevelRun) :
    p.absorb timeoutMs l = p.contributeAll timeoutMs l.path l.contributions := by
  unfold absorb LevelRun.contributions
  induction l.tasks generalizing p with
  | nil => rfl
  | cons t ts ih =>
      rw [List.foldl_cons, ih, absorbTask_eq]
      cases h : t.contribution? <;> simp [h]

@[simp] theorem numbers_absorb (p : Progress) (l : LevelRun) :
    (p.absorb timeoutMs l).numbers = p.numbers := by simp [absorb_eq]

@[simp] theorem node_absorb (p : Progress) (l : LevelRun) :
    (p.absorb timeoutMs l).node = p.node := by simp [absorb_eq]

/-- The node at hand is one of the tree. -/
def Located (p : Progress) : Prop := ∀ y ∈ p.node, NodeScope.resolve p.tree y.1.path = some y

theorem Located.resolve?_eq (h : p.Located) (path : NodePath) :
    p.resolve? path = NodeScope.resolve p.tree path := by
  unfold resolve?
  split
  next y hy =>
    obtain ⟨hnode, hpath⟩ := Option.filter_eq_some_iff.1 hy
    rw [← h y hnode, of_decide_eq_true hpath]
  next => rfl

/-- Levels taken one after another from the pending steps of a base, each of them over. -/
inductive Taken (timeoutMs : UInt64) (x : ExecutionContext) (base : Progress) :
    List LevelRun → Progress → Prop
  | nil : Taken timeoutMs x base [] base
  | snoc {ls : List LevelRun} {p : Progress} {s : LevelStep} {rest : List LevelStep}
      {l : LevelRun} (taken : Taken timeoutMs x base ls p) (next : p.pending = s :: rest)
      (start : LevelRun.start? x p.tree s = some l.unstarted) (ended : l.isOver = true) :
      Taken timeoutMs x base (ls ++ [l])
        ({ p with node := NodeScope.resolve p.tree s.path, pending := rest }.absorb timeoutMs l)

namespace Taken

theorem pending_eq (h : Taken timeoutMs x base ls p) :
    base.pending = ls.map LevelRun.step ++ p.pending := by
  induction h with
  | nil => simp
  | snoc _ hnext hstart _ ih => simp [ih, hnext, pending_absorb, LevelRun.step_of_start? hstart]

theorem decoded_eq (h : Taken timeoutMs x base ls p) : p.tree.decoded = base.tree.decoded := by
  induction h with
  | nil => rfl
  | snoc _ _ _ _ ih => simpa [absorb_eq] using ih

theorem numbers_eq (h : Taken timeoutMs x base ls p) : p.numbers = base.numbers := by
  induction h with
  | nil => rfl
  | snoc _ _ _ _ ih => simpa using ih

/-- Only annotations are added to the tree, so the node at hand stays one of it. -/
theorem located (h : Taken timeoutMs x base ls p) (hbase : base.Located) : p.Located := by
  induction h with
  | nil => exact hbase
  | @snoc ls p s rest l _ _ _ _ _ =>
      intro y hy
      have hy : NodeScope.resolve p.tree s.path = some y := by simpa using hy
      have hdecoded : ({ p with node := NodeScope.resolve p.tree s.path, pending := rest }.absorb
          timeoutMs l).tree.decoded = p.tree.decoded := by simp [absorb_eq]
      rw [NodePath.resolve_eq_of_decoded_eq hdecoded,
        (NodeScope.path_and_level_of_resolve hy).1, hy]

theorem isOver (h : Taken timeoutMs x base ls p) : ∀ l ∈ ls, l.isOver = true := by
  induction h with
  | nil => simp
  | snoc _ _ _ hover ih =>
      intro l hl
      rcases List.mem_append.1 hl with hl | hl
      · exact ih l hl
      · exact List.mem_singleton.1 hl ▸ hover

theorem outcomes_eq (h : Taken timeoutMs x base ls p) :
    p.outcomes = base.outcomes ++
      ls.flatMap (fun l ↦
        l.contributions.map (Contribution.record timeoutMs base.numbers l.path)) := by
  induction h with
  | nil => simp
  | snoc htaken _ _ _ ih => simp [absorb_eq, outcomes_contributeAll, ih, htaken.numbers_eq]

/-- A node has got what the levels on it have left, in their order. -/
theorem annotations?_eq (h : Taken timeoutMs x base ls p) (q : NodePath) :
    q.annotations? p.tree = (q.annotations? base.tree).map
      (· ++ (ls.filter (fun l ↦ l.path = q)).flatMap LevelRun.stamped) := by
  induction h with
  | nil => simp
  | @snoc ls _ _ _ l _ _ _ _ ih =>
      rw [absorb_eq, annotations?_contributeAll, ih, Option.map_map]
      congr 1
      funext old
      by_cases hq : l.path = q <;> simp [hq, LevelRun.stamped]

/-- The levels from one of those taken on start where that one did. -/
theorem split {ls' : List LevelRun} (h : Taken timeoutMs x base (ls ++ l :: ls') p) :
    ∃ q, Taken timeoutMs x base ls q ∧ LevelRun.start? x q.tree l.step = some l.unstarted ∧
      Taken timeoutMs x q (l :: ls') p := by
  generalize hall : ls ++ l :: ls' = all at h
  induction h generalizing ls' with
  | nil => simp at hall
  | @snoc ms q s rest k htaken hnext hstart hover ih =>
      rcases List.eq_nil_or_concat ls' with rfl | ⟨ls'', k', rfl⟩
      · obtain ⟨rfl, hk⟩ := List.append_inj' hall rfl
        obtain rfl := List.singleton_inj.1 hk
        refine ⟨q, htaken, ?_, by simpa using Taken.nil.snoc hnext hstart hover⟩
        rwa [LevelRun.step_of_start? hstart]
      · have hall' : (ls ++ l :: ls'') ++ [k'] = ms ++ [k] := by simpa using hall
        obtain ⟨hms, hk⟩ := List.append_inj' hall' rfl
        obtain rfl := List.singleton_inj.1 hk
        obtain ⟨q', hbefore, hstart', hafter⟩ := ih hms
        exact ⟨q', hbefore, hstart', by simpa using hafter.snoc hnext hstart hover⟩

end Taken

end Progress

end Timelock
