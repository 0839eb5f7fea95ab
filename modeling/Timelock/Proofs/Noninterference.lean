import Timelock.Proofs.Scheduling

/-!
# Analyzers that do not depend on each other

A part of a registry that contains the dependencies of its members runs as if the other analyzers
were not there, whatever those do.  The run of the whole registry and the run of the part go on in
lockstep: what the whole one has, without the other analyzers, is what the part has, but for the
numbers of the tasks.
-/

namespace Timelock

open Annotation

variable {e e' : Engine} {r r' : Nat} {plan : Plan} {c : ExecutionContext} {w w' : World}
  {ls : List LevelRun} {base base' p p' : Progress} {b : Behaviour} {d : DecodedProposal}
  {timeoutMs : UInt64} {keep : String → Bool} {path : NodePath}

namespace Annotation

def isKept (keep : String → Bool) (n : Annotation) : Bool := n.analyzer.any keep

theorem filter_isKept_stamped (cs : List Contribution) :
    (cs.flatMap Contribution.stamped).filter (isKept keep) =
      (cs.filter (fun x ↦ keep x.analyzer)).flatMap Contribution.stamped := by
  induction cs with
  | nil => rfl
  | cons x cs ih =>
      have hkept : ∀ n ∈ x.stamped, isKept keep n = keep x.analyzer := fun n hn ↦ by
        simp [isKept, Contribution.analyzer_of_mem_stamped hn]
      rw [List.flatMap_cons, List.filter_append, ih]
      cases hk : keep x.analyzer with
      | true =>
          rw [List.filter_eq_self.2 fun n hn ↦ (hkept n hn).trans hk]
          simp [hk]
      | false =>
          rw [List.filter_eq_nil_iff.2 fun n hn ↦ by simp [hkept n hn, hk]]
          simp [hk]

end Annotation

namespace Progress

/-- The progress of a part is that of the whole without the analyzers that are not kept. -/
structure Part (keep : String → Bool) (p p' : Progress) : Prop where
  numbers : p'.numbers = p.numbers
  decoded : p'.tree.decoded = p.tree.decoded
  annotations : ∀ q : NodePath, q.annotations? p'.tree =
    (q.annotations? p.tree).map (List.filter (isKept keep))
  outcomes : p'.outcomes = p.outcomes.filter (fun o ↦ keep o.analyzer)

namespace Part

theorem initial (numbers : TaskNumbers) (plan plan' : Plan) (d : DecodedProposal) :
    Part keep (Progress.initial numbers plan d) (Progress.initial numbers plan' d) := by
  refine ⟨rfl, rfl, ?_, rfl⟩
  intro q
  cases hq : q.annotations? (.ofDecoded d) with
  | none => simp [Progress.initial, hq]
  | some as =>
      obtain rfl := NodePath.annotations?_ofDecoded hq
      simp [Progress.initial, hq]

theorem contributeAll (h : Part keep p p') (cs : List Contribution) :
    Part keep (p.contributeAll timeoutMs path cs)
      (p'.contributeAll timeoutMs path (cs.filter (fun x ↦ keep x.analyzer))) := by
  refine ⟨by simp [h.numbers], by simp [h.decoded], ?_, ?_⟩
  · intro q
    rw [annotations?_contributeAll, annotations?_contributeAll, h.annotations, Option.map_map,
      Option.map_map]
    congr 1
    funext old
    by_cases hq : path = q <;> simp [hq, filter_isKept_stamped]
  · rw [outcomes_contributeAll, outcomes_contributeAll, h.outcomes, h.numbers,
      List.filter_append, List.filter_map]
    rfl

/-- Whoever depends on analyzers that are kept sees the same store in both runs. -/
theorem collect_eq (h : Part keep p p') {deps : List String}
    (hdeps : ∀ y ∈ deps, keep y = true) :
    DependencyStore.collect p'.tree path deps = DependencyStore.collect p.tree path deps := by
  apply DependencyStore.collect_congr h.decoded
  intro q _
  rw [h.annotations]
  cases q.annotations? p.tree with
  | none => rfl
  | some as =>
      simp only [Option.map_some, Option.getD_some, List.filter_filter]
      apply List.filter_congr
      intro n _
      cases hallowed : DependencyStore.allowed deps n with
      | false => rfl
      | true =>
          obtain ⟨id, hid, hanalyzer⟩ := DependencyStore.allowed_iff.1 hallowed
          simp [isKept, hanalyzer, hdeps id hid]

/-- While the whole takes its levels, the part takes the same ones by replay. -/
theorem taken (h : Part keep base base') (ht : Taken timeoutMs c base ls p)
    (hclosed : ∀ l ∈ ls, Closed keep l.step.analyzers)
    (hfollows : ∀ l ∈ ls, ∀ a ∈ l.step.analyzers, keep a.id = true →
      a.Follows timeoutMs.toNat b)
    (hended : ∀ l ∈ ls, ∀ t ∈ l.tasks, keep t.analyzer.id = true →
      t.EndsByItself timeoutMs.toNat) :
    Part keep p
      (base'.replay timeoutMs b ((ls.map LevelRun.step).map (LevelStep.restrict keep))) := by
  induction ht with
  | nil => exact h
  | @snoc ls p s rest l _ _ hstart _ ih =>
      have hbefore := ih (fun l hl ↦ hclosed l (List.mem_append_left _ hl))
        (fun l hl ↦ hfollows l (List.mem_append_left _ hl))
        fun l hl ↦ hended l (List.mem_append_left _ hl)
      have hl : l ∈ ls ++ [l] := by simp
      obtain rfl := LevelRun.step_of_start? hstart
      have hkept := LevelRun.filter_contributions_eq keep hstart
        (fun a ha hkeep ↦ (hfollows l hl a ha hkeep).within c) (hended l hl) hbefore.decoded
        fun a ha hkeep ↦ hbefore.collect_eq (hclosed l hl a ha hkeep)
      have hpart : Part keep
          { p with node := NodeScope.resolve p.tree l.step.path, pending := rest }
          (base'.replay timeoutMs b ((ls.map LevelRun.step).map (LevelStep.restrict keep))) :=
        ⟨hbefore.numbers, hbefore.decoded, hbefore.annotations, hbefore.outcomes⟩
      rw [List.map_append, List.map_append, List.map_singleton, List.map_singleton, replay_concat,
        ← hkept, absorb_eq]
      exact hpart.contributeAll _

end Part

theorem replay_filter (p : Progress) (steps : List LevelStep) :
    p.replay timeoutMs b (steps.filter (fun s ↦ !s.analyzers.isEmpty)) =
      p.replay timeoutMs b steps := by
  induction steps generalizing p with
  | nil => rfl
  | cons s steps ih =>
      cases hs : s.analyzers.isEmpty with
      | false =>
          rw [List.filter_cons_of_pos (by simp [hs])]
          exact ih _
      | true =>
          rw [List.filter_cons_of_neg (by simp [hs]), ih]
          have hnone : b.contributions timeoutMs.toNat p.tree s = [] := by
            unfold Behaviour.contributions
            split
            · rfl
            · simp [List.isEmpty_iff.1 hs]
          simp [replay, hnone]

end Progress

namespace Pair

def isWriter (id : String) : Bool := id = "writer"

theorem closed_isWriter : Closed isWriter registry.analyzers := by
  intro a ha hkeep y hy
  simp only [registry, List.mem_cons, List.not_mem_nil, or_false] at ha
  rcases ha with rfl | rfl
  · exact absurd hkeep (by decide)
  · simp [writer] at hy

def endedWriter : World :=
  (world (.planned (twoLevels.restrict isWriter))).after
    (engine none (registry.restrict isWriter)) (prelude ++ level)

end Pair

end Timelock
