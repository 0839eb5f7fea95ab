import Timelock.Proofs.PlanOrder
import Timelock.Proofs.TreePaths
import Timelock.Run.Level

/-!
# The order of steps

A run takes the steps of its plan one after another.  A step sees annotations at its path and
below it, and none of its analyzers depends on an analyzer of the same or of a later step that
could leave annotations there.
-/

namespace Timelock

theorem filter_flatMap_eq_of_nodup {α β : Type} {f : α → List β} {q : β → Bool} {xs : List α}
    {x : α}
    (hn : xs.Nodup) (hx : x ∈ xs) (h : ∀ y ∈ xs, y ≠ x → (f y).filter q = []) :
    (xs.flatMap f).filter q = (f x).filter q := by
  obtain ⟨pre, post, rfl⟩ := List.append_of_mem hx
  rw [List.nodup_middle, List.nodup_cons] at hn
  have hnil : ∀ zs : List α, (∀ y ∈ zs, y ∈ pre ++ post) → (zs.flatMap f).filter q = [] := by
    intro zs hzs
    rw [List.filter_flatMap]
    refine List.flatMap_eq_nil_iff.2 fun y hy ↦ h y ?_ fun hyx ↦ hn.1 (hyx ▸ hzs y hy)
    rcases List.mem_append.1 (hzs y hy) with hy | hy
    · exact List.mem_append_left _ hy
    · exact List.mem_append_right _ (List.mem_cons_of_mem _ hy)
  rw [List.flatMap_append, List.flatMap_cons, List.filter_append, List.filter_append,
    hnil pre fun y hy ↦ List.mem_append_left _ hy, hnil post fun y hy ↦ List.mem_append_right _ hy,
    List.nil_append, List.append_nil]

variable {t : AnalyzedProposal} {plan : Plan}

namespace LevelStep

/-- What a plan promises of a step and a later one. -/
structure Before (t : AnalyzedProposal) (s s' : LevelStep) : Prop where
  unseen : s'.path ∈ s.path.subtree t →
    ∀ a ∈ s.analyzers, ∀ b ∈ s'.analyzers, b.id ∉ a.dependencies
  apart : s.path = s'.path → ∀ a ∈ s.analyzers, ∀ b ∈ s'.analyzers, a.id ≠ b.id

/-- What a plan promises of a single step. -/
structure Proper (r : Registry) (t : AnalyzedProposal) (s : LevelStep) : Prop where
  mem_allAt : s.path ∈ NodePath.allAt t s.path.level
  registered : ∀ a ∈ s.analyzers, a ∈ r.analyzers ∧ a.level = s.path.level
  sublist : s.analyzers.Sublist r.analyzers
  independent : ∀ a ∈ s.analyzers, ∀ b ∈ s.analyzers, b.id ∉ a.dependencies

theorem Proper.nodup {r : Registry} {s : LevelStep} (h : s.Proper r t) :
    (s.analyzers.map Analyzer.id).Nodup :=
  r.distinct.sublist (h.sublist.map _)

/-- Nothing below a path stands on a level that is further up. -/
theorem before_of_rank_lt {s s' : LevelStep} (h : s'.path.level.rank < s.path.level.rank) :
    Before t s s' := by
  constructor
  · intro hmem
    rcases NodePath.eq_or_rank_lt_of_mem_subtree hmem with heq | hlt
    · exact absurd (heq ▸ h) (Nat.lt_irrefl _)
    · exact absurd h (Nat.lt_asymm hlt)
  · intro heq
    exact absurd (heq ▸ h) (Nat.lt_irrefl _)

theorem before_of_ne {s s' : LevelStep} (hl : s.path.level = s'.path.level)
    (hp : s.path ≠ s'.path) : Before t s s' := by
  constructor
  · intro hmem
    rcases NodePath.eq_or_rank_lt_of_mem_subtree hmem with heq | hlt
    · exact absurd heq.symm hp
    · exact absurd (hl ▸ hlt) (Nat.lt_irrefl _)
  · intro heq
    exact absurd heq hp

end LevelStep

namespace Pass

def stepsAt (x : Pass) (p : NodePath) : List LevelStep := x.levels.map (fun as ↦ ⟨p, as⟩)

@[simp] theorem path_of_mem_stepsAt {x : Pass} {p : NodePath} {s : LevelStep}
    (h : s ∈ x.stepsAt p) : s.path = p := by
  obtain ⟨as, _, rfl⟩ := List.mem_map.1 h
  rfl

def steps (x : Pass) (t : AnalyzedProposal) : List LevelStep :=
  (NodePath.allAt t x.level).flatMap x.stepsAt

theorem level_of_mem_steps {x : Pass} {s : LevelStep} (h : s ∈ x.steps t) :
    s.path.level = x.level ∧ s.path ∈ NodePath.allAt t x.level := by
  obtain ⟨p, hp, hs⟩ := List.mem_flatMap.1 h
  rw [path_of_mem_stepsAt hs]
  exact ⟨NodePath.level_of_mem_allAt hp, hp⟩

variable {r : Registry} {x : Pass}

theorem proper_of_mem_steps (h : r.Arranges x) {s : LevelStep} (hs : s ∈ x.steps t) :
    s.Proper r t := by
  obtain ⟨hlevel, hpath⟩ := level_of_mem_steps hs
  obtain ⟨p, _, hs⟩ := List.mem_flatMap.1 hs
  obtain ⟨as, has, rfl⟩ := List.mem_map.1 hs
  obtain ⟨lv, hlv, hlevels⟩ := h.exists_leveling
  obtain ⟨k, _, rfl⟩ := Registry.mem_layers (hlevels ▸ has)
  refine ⟨hlevel ▸ hpath, ?_, ?_, ?_⟩
  · intro a ha
    obtain ⟨hreg, hl⟩ := Registry.mem_ofLevel.1 (List.mem_filter.1 ha).1
    exact ⟨hreg, hl.trans hlevel.symm⟩
  · exact List.filter_sublist.trans List.filter_sublist
  · intro a ha b hb hdep
    obtain ⟨ha, hka⟩ := List.mem_filter.1 ha
    obtain ⟨hb, hkb⟩ := List.mem_filter.1 hb
    have hlt := hlv.lt ha hb hdep
    simp only [decide_eq_true_eq] at hka hkb
    omega

theorem pairwise_stepsAt (h : r.Arranges x) (p : NodePath) :
    (x.stepsAt p).Pairwise (LevelStep.Before t) := by
  obtain ⟨lv, hlv, hlevels⟩ := h.exists_leveling
  rw [stepsAt, hlevels, Registry.layers, List.pairwise_map, List.pairwise_map]
  apply List.pairwise_lt_range.imp
  intro k m hkm
  constructor
  · intro _ a ha b hb hdep
    obtain ⟨ha, hka⟩ := List.mem_filter.1 ha
    obtain ⟨hb, hkb⟩ := List.mem_filter.1 hb
    simp only [decide_eq_true_eq] at hka hkb
    have hlt := hlv.lt ha hb hdep
    omega
  · intro _ a ha b hb hid
    obtain ⟨ha, hka⟩ := List.mem_filter.1 ha
    obtain ⟨hb, hkb⟩ := List.mem_filter.1 hb
    simp only [decide_eq_true_eq] at hka hkb
    rw [hid] at hka
    omega

theorem pairwise_steps (h : r.Arranges x) : (x.steps t).Pairwise (LevelStep.Before t) := by
  rw [steps, List.pairwise_flatMap]
  refine ⟨fun p _ ↦ pairwise_stepsAt h p, ?_⟩
  apply (NodePath.nodup_allAt t x.level).imp_of_mem
  intro p q hp hq hne s hs s' hs'
  rw [← path_of_mem_stepsAt hs, ← path_of_mem_stepsAt hs'] at hne
  refine LevelStep.before_of_ne ?_ hne
  rw [path_of_mem_stepsAt hs, path_of_mem_stepsAt hs', NodePath.level_of_mem_allAt hp,
    NodePath.level_of_mem_allAt hq]

theorem filter_path_steps {p : NodePath} (hp : p ∈ NodePath.allAt t x.level) :
    (x.steps t).filter (fun s ↦ s.path = p) = x.stepsAt p := by
  rw [steps, filter_flatMap_eq_of_nodup (NodePath.nodup_allAt t x.level) hp]
  · exact List.filter_eq_self.2 fun s hs ↦ by simp [path_of_mem_stepsAt hs]
  · intro q _ hq
    exact List.filter_eq_nil_iff.2 fun s hs ↦ by simp [path_of_mem_stepsAt hs, hq]

end Pass

namespace Plan

theorem steps_eq_flatMap (plan : Plan) (t : AnalyzedProposal) :
    plan.steps t = plan.passes.flatMap (Pass.steps · t) := rfl

variable {r : Registry}

theorem map_level_passes (h : r.plan = .ok plan) : plan.passes.map Pass.level = Level.passOrder :=
  (Registry.arranges_of_passes (Registry.plan_eq_ok_iff.1 h)).1

theorem arranges_of_mem_passes (h : r.plan = .ok plan) {x : Pass} (hx : x ∈ plan.passes) :
    r.Arranges x :=
  (Registry.arranges_of_passes (Registry.plan_eq_ok_iff.1 h)).2 x hx

theorem proper_of_mem_steps (h : r.plan = .ok plan) {s : LevelStep} (hs : s ∈ plan.steps t) :
    s.Proper r t := by
  obtain ⟨x, hx, hs⟩ := List.mem_flatMap.1 hs
  exact Pass.proper_of_mem_steps (arranges_of_mem_passes h hx) hs

theorem pairwise_passes (h : r.plan = .ok plan) :
    plan.passes.Pairwise (fun x y ↦ y.level.rank < x.level.rank) := by
  have horder : Level.passOrder.Pairwise (fun l m ↦ m.rank < l.rank) := by decide
  rwa [← map_level_passes h, List.pairwise_map] at horder

/-- No step sees what itself or a later step contributes for its dependencies. -/
theorem pairwise_steps (h : r.plan = .ok plan) (t : AnalyzedProposal) :
    (plan.steps t).Pairwise (LevelStep.Before t) := by
  rw [steps_eq_flatMap, List.pairwise_flatMap]
  refine ⟨fun x hx ↦ Pass.pairwise_steps (arranges_of_mem_passes h hx), ?_⟩
  apply (pairwise_passes h).imp
  intro x y hxy s hs s' hs'
  apply LevelStep.before_of_rank_lt
  rwa [(Pass.level_of_mem_steps hs).1, (Pass.level_of_mem_steps hs').1]

theorem exists_pass (h : r.plan = .ok plan) (l : Level) :
    ∃ pre x post, plan.passes = pre ++ x :: post ∧ x.level = l ∧ plan.levelsOf l = x.levels ∧
      ∀ y ∈ pre ++ post, y.level ≠ l := by
  have hmem : l ∈ plan.passes.map Pass.level := by
    rw [map_level_passes h]
    cases l <;> decide
  obtain ⟨x, hx, rfl⟩ := List.mem_map.1 hmem
  obtain ⟨pre, post, hsplit⟩ := List.append_of_mem hx
  have hn : (plan.passes.map Pass.level).Nodup := by
    rw [map_level_passes h]
    decide
  rw [hsplit, List.map_append, List.map_cons, List.nodup_middle, ← List.map_append,
    List.nodup_cons] at hn
  have hout : ∀ y ∈ pre ++ post, y.level ≠ x.level := fun y hy heq ↦
    hn.1 (List.mem_map.2 ⟨y, hy, heq⟩)
  refine ⟨pre, x, post, hsplit, rfl, ?_, hout⟩
  have hnone : pre.find? (fun y ↦ y.level = x.level) = none :=
    List.find?_eq_none.2 fun y hy ↦ by simp [hout y (List.mem_append_left _ hy)]
  simp [levelsOf, hsplit, List.find?_append, hnone]

theorem exists_layers (h : r.plan = .ok plan) (l : Level) :
    ∃ lv, plan.levelsOf l = Registry.layers (r.ofLevel l) lv := by
  obtain ⟨pre, x, post, hsplit, rfl, hlevels, _⟩ := exists_pass h l
  have hmem : x ∈ plan.passes := by simp [hsplit]
  obtain ⟨lv, _, hx⟩ := (arranges_of_mem_passes h hmem).exists_leveling
  exact ⟨lv, hlevels.trans hx⟩

theorem mem_levelsOf (h : r.plan = .ok plan) {l : Level} {a : Analyzer} :
    a ∈ (plan.levelsOf l).flatten ↔ a ∈ r.analyzers ∧ a.level = l := by
  obtain ⟨lv, hlevels⟩ := exists_layers h l
  rw [hlevels, Registry.mem_flatten_layers, Registry.mem_ofLevel]

/-- Within a level the analyzers stand as they were registered. -/
theorem sublist_of_mem_levelsOf (h : r.plan = .ok plan) {l : Level} {as : List Analyzer}
    (has : as ∈ plan.levelsOf l) : as.Sublist r.analyzers := by
  obtain ⟨lv, hlevels⟩ := exists_layers h l
  obtain ⟨k, _, rfl⟩ := Registry.mem_layers (hlevels ▸ has)
  exact List.filter_sublist.trans List.filter_sublist

theorem nodup_levelsOf (h : r.plan = .ok plan) (l : Level) : (plan.levelsOf l).flatten.Nodup := by
  obtain ⟨lv, hlevels⟩ := exists_layers h l
  have hn : (r.ofLevel l).Nodup := (r.nodup_ofLevel l).of_map
  rw [hlevels, Registry.layers, List.nodup_flatten, List.pairwise_map]
  refine ⟨?_, List.pairwise_lt_range.imp ?_⟩
  · intro as has
    obtain ⟨k, _, rfl⟩ := List.mem_map.1 has
    exact hn.filter _
  · intro k m hkm a hak ham
    have hk := (List.mem_filter.1 hak).2
    have hm := (List.mem_filter.1 ham).2
    simp only [decide_eq_true_eq] at hk hm
    omega

theorem filter_steps_eq_nil {xs : List Pass} {p : NodePath} (h : ∀ x ∈ xs, x.level ≠ p.level) :
    (xs.flatMap (Pass.steps · t)).filter (fun s ↦ s.path = p) = [] := by
  apply List.filter_eq_nil_iff.2
  intro s hs
  obtain ⟨x, hx, hs⟩ := List.mem_flatMap.1 hs
  have hlevel := (Pass.level_of_mem_steps hs).1
  simp only [decide_eq_true_eq]
  rintro rfl
  exact h x hx hlevel.symm

/-- The steps on a node are the levels of the plan for its kind. -/
theorem filter_path_steps (h : r.plan = .ok plan) {p : NodePath} (hp : (p.annotations? t).isSome) :
    (plan.steps t).filter (fun s ↦ s.path = p) =
      (plan.levelsOf p.level).map (fun as ↦ ⟨p, as⟩) := by
  obtain ⟨pre, x, post, hsplit, hlevel, hlevels, hout⟩ := exists_pass h p.level
  have hmem : p ∈ NodePath.allAt t x.level := hlevel ▸ NodePath.mem_allAt_iff.2 hp
  have hpre := filter_steps_eq_nil (t := t) fun y hy ↦ hout y (List.mem_append_left _ hy)
  have hpost := filter_steps_eq_nil (t := t) fun y hy ↦ hout y (List.mem_append_right _ hy)
  rw [steps_eq_flatMap, hsplit, List.flatMap_append, List.flatMap_cons, List.filter_append,
    List.filter_append, hpre, hpost, Pass.filter_path_steps hmem, hlevels]
  simp [Pass.stepsAt]

end Plan

end Timelock
