import Mathlib.Data.List.Forall2
import Timelock.Proofs.RunAccount

/-!
# Numbers of tasks

How the tasks of a run are numbered shows in the texts on those that panicked, and nowhere else.
Records of the same results are the same but for these numbers, and where the numbers are the same
they are equal.
-/

namespace Timelock

variable {numbers numbers' : TaskNumbers} {timeoutMs : UInt64} {path : NodePath} {n n' : Nat}
  {p p' : Progress}

namespace Outcome

variable {o o' : Outcome}

/-- The same outcome of a task with one number and of a task with another. -/
inductive Renumbered (n n' : Nat) : Outcome → Outcome → Prop
  | same (o : Outcome) : Renumbered n n' o o
  | panicked (message : Option String) :
      Renumbered n n' (.failed (Task.panicText n message)) (.failed (Task.panicText n' message))

theorem Renumbered.eq (h : Renumbered n n o o') : o' = o := by
  cases h <;> rfl

theorem renumbered_outcome (result : TaskResult) (timeoutMs : UInt64) (n n' : Nat) :
    Renumbered n n' (result.outcome timeoutMs n) (result.outcome timeoutMs n') := by
  cases result with
  | panicked message => exact .panicked message
  | annotated | skipped | failed | timedOut => exact .same _

end Outcome

namespace OutcomeRecord

/-- Records of one analyzer on one node that differ in the number of its task at most. -/
structure Renumbered (numbers numbers' : TaskNumbers) (o o' : OutcomeRecord) : Prop where
  analyzer : o'.analyzer = o.analyzer
  path : o'.path = o.path
  durationMs : o'.durationMs = o.durationMs
  outcome : o.outcome.Renumbered (numbers o.path o.analyzer) (numbers' o.path o.analyzer) o'.outcome

theorem Renumbered.eq {o o' : OutcomeRecord} (h : Renumbered numbers numbers o o') : o' = o := by
  cases o
  cases o'
  obtain ⟨rfl, rfl, rfl, houtcome⟩ := h
  cases houtcome.eq
  rfl

theorem eq_of_renumbered {os os' : List OutcomeRecord}
    (h : List.Forall₂ (Renumbered numbers numbers) os os') : os' = os := by
  induction h with
  | nil => rfl
  | cons ho _ ih => rw [ho.eq, ih]

theorem renumbered_map_record (cs : List Contribution) :
    List.Forall₂ (Renumbered numbers numbers') (cs.map (Contribution.record timeoutMs numbers path))
      (cs.map (Contribution.record timeoutMs numbers' path)) := by
  rw [List.forall₂_map_left_iff, List.forall₂_map_right_iff, List.forall₂_same]
  exact fun c _ ↦ ⟨rfl, rfl, rfl, Outcome.renumbered_outcome c.result timeoutMs _ _⟩

end OutcomeRecord

namespace Progress

/-- The same progress of runs whose tasks are numbered differently. -/
structure Renumbered (p p' : Progress) : Prop where
  tree : p'.tree = p.tree
  outcomes : List.Forall₂ (OutcomeRecord.Renumbered p.numbers p'.numbers) p.outcomes p'.outcomes

theorem renumbered_initial (numbers numbers' : TaskNumbers) (plan : Plan) (d : DecodedProposal) :
    Renumbered (initial numbers plan d) (initial numbers' plan d) := ⟨rfl, .nil⟩

theorem Renumbered.congr {q q' : Progress} (h : Renumbered p p') (hq : p.Agree q)
    (hq' : p'.Agree q') : Renumbered q q' where
  tree := hq'.tree ▸ hq.tree ▸ h.tree
  outcomes := hq'.outcomes ▸ hq.outcomes ▸ hq'.numbers ▸ hq.numbers ▸ h.outcomes

theorem tree_contributeAll (h : p'.tree = p.tree) (cs : List Contribution) :
    (p'.contributeAll timeoutMs path cs).tree = (p.contributeAll timeoutMs path cs).tree := by
  induction cs generalizing p p' with
  | nil => exact h
  | cons c cs ih => exact ih (congrArg (path.append · c.stamped) h)

theorem Renumbered.contributeAll (h : Renumbered p p') (cs : List Contribution) :
    Renumbered (p.contributeAll timeoutMs path cs) (p'.contributeAll timeoutMs path cs) where
  tree := tree_contributeAll h.tree cs
  outcomes := by
    rw [outcomes_contributeAll, outcomes_contributeAll, numbers_contributeAll,
      numbers_contributeAll]
    exact List.rel_append h.outcomes (OutcomeRecord.renumbered_map_record cs)

end Progress

/-! ## Ends of runs -/

/-- Reports of one execution that differ in the numbers of its tasks at most. -/
structure Report.Renumbered (numbers numbers' : TaskNumbers) (rep rep' : Report) : Prop where
  context : rep'.context = rep.context
  tree : rep'.tree = rep.tree
  outcomes : List.Forall₂ (OutcomeRecord.Renumbered numbers numbers') rep.outcomes rep'.outcomes

theorem Report.Renumbered.eq {rep rep' : Report} (h : rep.Renumbered numbers numbers rep') :
    rep' = rep := by
  cases rep
  cases rep'
  obtain ⟨rfl, rfl, houtcomes⟩ := h
  cases OutcomeRecord.eq_of_renumbered houtcomes
  rfl

namespace Phase

/-- The same end of a run with some numbers of its tasks and of a run with others. -/
inductive SameEnd (numbers numbers' : TaskNumbers) : Phase → Phase → Prop
  | report (rep rep' : Report) (renumbered : rep.Renumbered numbers numbers' rep') :
      SameEnd numbers numbers' (.finished (.ok rep)) (.finished (.ok rep'))
  | error (y : AnalysisError) :
      SameEnd numbers numbers' (.finished (.error y)) (.finished (.error y))
  | crashed : SameEnd numbers numbers' .crashed .crashed

theorem SameEnd.eq {φ ψ : Phase} (h : φ.SameEnd numbers numbers ψ) : ψ = φ := by
  cases h with
  | report _ _ hrenumbered => rw [hrenumbered.eq]
  | error | crashed => rfl

end Phase

end Timelock
