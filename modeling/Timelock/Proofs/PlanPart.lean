import Timelock.Proofs.StepOrder

/-!
# Plans of a part of a registry

A part of a registry that contains the dependencies of its members has a plan: the plan of the
whole registry without the other analyzers, and without the levels that are left empty.
-/

namespace Timelock

open DependencyGraph Relation

variable {keep : String → Bool} {r : Registry} {l : Level} {resolved : List String}
  {as : List Analyzer} {lv lv' : String → Nat} {t : AnalyzedProposal} {plan : Plan}

def keptOf (keep : String → Bool) (as : List Analyzer) : List Analyzer :=
  as.filter (fun a ↦ keep a.id)

@[simp] theorem mem_keptOf {a : Analyzer} : a ∈ keptOf keep as ↔ a ∈ as ∧ keep a.id = true :=
  List.mem_filter

/-- Dependencies of analyzers that are kept are kept. -/
def Closed (keep : String → Bool) (as : List Analyzer) : Prop :=
  ∀ a ∈ as, keep a.id = true → ∀ y ∈ a.dependencies, keep y = true

namespace LevelStep

def restrict (keep : String → Bool) (s : LevelStep) : LevelStep :=
  { s with analyzers := keptOf keep s.analyzers }

end LevelStep

namespace Pass

def restrict (keep : String → Bool) (x : Pass) : Pass :=
  { x with levels := (x.levels.map (keptOf keep)).filter (fun as ↦ !as.isEmpty) }

theorem steps_restrict (x : Pass) (t : AnalyzedProposal) :
    (x.restrict keep).steps t =
      ((x.steps t).map (LevelStep.restrict keep)).filter (fun s ↦ !s.analyzers.isEmpty) := by
  simp only [steps, List.map_flatMap, List.filter_flatMap]
  apply List.flatMap_congr
  intro p _
  simp only [stepsAt, restrict, List.map_map, List.filter_map]
  rfl

end Pass

namespace Plan

def restrict (keep : String → Bool) (plan : Plan) : Plan := ⟨plan.passes.map (Pass.restrict keep)⟩

/-- The steps of a part are those of the whole, without steps that are left empty. -/
theorem steps_restrict (plan : Plan) (t : AnalyzedProposal) :
    (plan.restrict keep).steps t =
      ((plan.steps t).map (LevelStep.restrict keep)).filter (fun s ↦ !s.analyzers.isEmpty) := by
  simp only [steps_eq_flatMap, restrict, List.flatMap_map, List.map_flatMap, List.filter_flatMap]
  exact List.flatMap_congr fun x _ ↦ Pass.steps_restrict x t

end Plan

namespace Registry

def restrict (keep : String → Bool) (r : Registry) : Registry :=
  ⟨keptOf keep r.analyzers, r.distinct.sublist (List.filter_sublist.map _)⟩

theorem ofLevel_restrict (r : Registry) (l : Level) :
    (r.restrict keep).ofLevel l = keptOf keep (r.ofLevel l) :=
  List.filter_comm _ _ _

/-! ## Levels of a part -/

theorem IsLeveling.unique (h : IsLeveling as lv) (h' : IsLeveling as lv') :
    ∀ a ∈ as, lv a.id = lv' a.id := by
  have hids : ∀ lv, IsLeveling as lv →
      DependencyGraph.IsLeveling (inside (as.map Analyzer.declaration)) lv := by
    intro lv h
    apply isLeveling_inside.2
    intro d hd
    obtain ⟨a, ha, rfl⟩ := List.mem_map.1 hd
    rw [List.map_map]
    exact h a ha
  intro a ha
  refine (hids lv h).unique (hids lv' h') ?_ a.id ?_
  · intro d hd y hy
    rw [map_id_inside]
    exact (declares_inside.1 ⟨d, hd, rfl, hy⟩).2
  · rw [map_id_inside]
    exact List.mem_map.2 ⟨_, List.mem_map_of_mem ha, rfl⟩

/-- In a closed part every analyzer keeps its level. -/
theorem IsLeveling.keptOf (h : IsLeveling as lv) (hclosed : Closed keep as) :
    IsLeveling (keptOf keep as) lv := by
  intro a ha
  obtain ⟨ha, hkeep⟩ := mem_keptOf.1 ha
  rw [h a ha]
  apply levelAbove_eq_of_mem_iff
  intro y
  simp only [List.mem_filter, List.contains_iff_mem, List.mem_map, mem_keptOf]
  refine and_congr_right fun hy ↦ ⟨?_, ?_⟩
  · rintro ⟨b, hb, rfl⟩
    exact ⟨b, ⟨hb, hclosed a ha hkeep _ hy⟩, rfl⟩
  · rintro ⟨b, ⟨hb, _⟩, rfl⟩
    exact ⟨b, hb, rfl⟩

/-- The levels of a part are those of the whole that are not left empty. -/
theorem layers_keptOf (h : IsLeveling (keptOf keep as) lv) :
    layers (keptOf keep as) lv =
      ((layers as lv).map (keptOf keep)).filter (fun as ↦ !as.isEmpty) := by
  obtain ⟨n, hn⟩ : ∃ n, levelAbove lv (as.map Analyzer.id) =
      levelAbove lv ((keptOf keep as).map Analyzer.id) + n := by
    refine Nat.exists_eq_add_of_le (levelAbove_le_iff.2 fun y hy ↦ lt_levelAbove ?_)
    obtain ⟨a, ha, rfl⟩ := List.mem_map.1 hy
    exact List.mem_map_of_mem (mem_keptOf.1 ha).1
  have hlayer : ∀ k, keptOf keep (as.filter (fun a ↦ lv a.id = k)) =
      (keptOf keep as).filter (fun a ↦ lv a.id = k) := fun k ↦ List.filter_comm _ _ _
  have hlow : ∀ k ∈ List.range (levelAbove lv ((keptOf keep as).map Analyzer.id)),
      (keptOf keep as).filter (fun a ↦ lv a.id = k) ≠ [] := by
    intro k hk hnil
    have hpos : 0 < levelAbove lv ((keptOf keep as).map Analyzer.id) :=
      Nat.zero_lt_of_lt (List.mem_range.1 hk)
    obtain ⟨y, hy, hlv⟩ := exists_of_levelAbove_pos hpos
    obtain ⟨a, ha, rfl⟩ := List.mem_map.1 hy
    have hle : k ≤ lv a.id := by
      have hlt := List.mem_range.1 hk
      omega
    obtain ⟨b, hb, hbk⟩ := h.exists_level ha hle
    exact List.filter_eq_nil_iff.1 hnil b hb (by simpa using hbk)
  have hhigh : ∀ k, (keptOf keep as).filter
      (fun a ↦ lv a.id = levelAbove lv ((keptOf keep as).map Analyzer.id) + k) = [] := by
    intro k
    apply List.filter_eq_nil_iff.2
    intro a ha hk
    have hlt : lv a.id < _ := lt_levelAbove (List.mem_map_of_mem ha)
    simp only [decide_eq_true_eq] at hk
    omega
  rw [layers, layers, List.map_map, hn, List.range_add, List.map_append, List.filter_append,
    List.map_map]
  simp only [Function.comp_def, hlayer, hhigh]
  have hempty : ((List.range n).map fun _ ↦ ([] : List Analyzer)).filter (fun as ↦ !as.isEmpty) =
      [] := List.filter_eq_nil_iff.2 fun as has ↦ by
    obtain ⟨_, _, rfl⟩ := List.mem_map.1 has
    simp
  rw [hempty, List.append_nil, List.filter_eq_self.2]
  intro as has
  obtain ⟨k, hk, rfl⟩ := List.mem_map.1 has
  simpa [List.isEmpty_iff] using hlow k hk

/-! ## The plan of a part -/

theorem declarations_restrict (r : Registry) (l : Level) :
    (r.restrict keep).declarations l = (r.declarations l).filter (fun d ↦ keep d.id) := by
  rw [declarations, ofLevel_restrict, keptOf, declarations, List.filter_map]
  rfl

theorem wellFormed_filter {ds : List Declaration} (h : WellFormed ds resolved)
    (hclosed : ∀ d ∈ ds, keep d.id = true → ∀ y ∈ d.dependencies, keep y = true) :
    WellFormed (ds.filter (fun d ↦ keep d.id)) (resolved.filter keep) := by
  refine ⟨h.distinct.sublist (List.filter_sublist.map _), ?_, ?_⟩
  · intro d hd y hy
    obtain ⟨hd, hkeep⟩ := List.mem_filter.1 hd
    have hkeepy := hclosed d hd hkeep y hy
    obtain ⟨hne, hmem⟩ := h.proper d hd y hy
    refine ⟨hne, hmem.imp ?_ fun hmem ↦ List.mem_filter.2 ⟨hmem, hkeepy⟩⟩
    intro hmem
    obtain ⟨d', hd', rfl⟩ := List.mem_map.1 hmem
    exact List.mem_map_of_mem (List.mem_filter.2 ⟨hd', hkeepy⟩)
  · intro x hx
    refine h.acyclic x (TransGen.mono ?_ x x hx)
    intro _ _ hd
    obtain ⟨d, hd, hid, hy⟩ := hd
    exact ⟨d, (List.mem_filter.1 hd).1, hid, hy⟩

theorem pass_restrict {x : Pass} (hclosed : Closed keep r.analyzers)
    (h : r.pass resolved l = .ok x) :
    (r.restrict keep).pass (resolved.filter keep) l = .ok (x.restrict keep) := by
  obtain ⟨hwf, rfl⟩ := pass_eq_ok_iff.1 h
  have hlevel : Closed keep (r.ofLevel l) := fun a ha ↦ hclosed a (mem_ofLevel.1 ha).1
  have hwf' : WellFormed ((r.restrict keep).declarations l) (resolved.filter keep) := by
    rw [declarations_restrict]
    apply wellFormed_filter hwf
    intro d hd
    obtain ⟨a, ha, rfl⟩ := List.mem_map.1 hd
    exact hlevel a ha
  refine pass_eq_ok_iff.2 ⟨hwf', ?_⟩
  obtain ⟨lv, hlv, hlevels⟩ := exists_leveling hwf
  obtain ⟨lv', hlv', hlevels'⟩ := exists_leveling hwf'
  rw [ofLevel_restrict] at hlv' hlevels'
  have hkept := hlv.keptOf hlevel
  rw [Pass.restrict, ofLevel_restrict, hlevels, hlevels', layers_congr (hlv'.unique hkept),
    layers_keptOf hkept]

theorem passes_restrict {ls : List Level} {xs : List Pass} (hclosed : Closed keep r.analyzers)
    (h : r.passes resolved ls = .ok xs) :
    (r.restrict keep).passes (resolved.filter keep) ls = .ok (xs.map (Pass.restrict keep)) := by
  induction ls generalizing resolved xs with
  | nil =>
      simp only [passes, Except.ok.injEq] at h
      simp [← h, passes]
  | cons l ls ih =>
      obtain ⟨x, ys, rfl, hx, hys⟩ := passes_cons_eq_ok_iff.1 h
      refine passes_cons_eq_ok_iff.2 ⟨x.restrict keep, _, rfl, pass_restrict hclosed hx, ?_⟩
      have hids : ((r.restrict keep).ofLevel l).map Analyzer.id =
          ((r.ofLevel l).map Analyzer.id).filter keep := by
        rw [ofLevel_restrict, keptOf, List.filter_map]
        rfl
      rw [hids, ← List.filter_append]
      exact ih hys

/-- A closed part of a registry has the plan of the whole without the other analyzers. -/
theorem plan_restrict (hclosed : Closed keep r.analyzers) (h : r.plan = .ok plan) :
    (r.restrict keep).plan = .ok (plan.restrict keep) :=
  plan_eq_ok_iff.2 (passes_restrict hclosed (plan_eq_ok_iff.1 h))

end Registry

end Timelock
