import Mathlib.Data.List.Perm.Basic
import Timelock.Proofs.GraphErrors
import Timelock.Proofs.LevelPositions
import Timelock.Proofs.StepOrder

/-!
# Plans as schedules

A registry has a plan exactly when its dependencies can be scheduled.  The plan then holds every
analyzer once, after all that it depends on; otherwise the first pass that cannot be scheduled is
reported.
-/

namespace Timelock

open DependencyGraph Relation

namespace Level

/-- Nodes of the first level are visited in an earlier pass than nodes of the second. -/
def RunsBefore (k l : Level) : Prop := passOrder.idxOf k < passOrder.idxOf l

theorem nodup_passOrder : passOrder.Nodup := by decide

theorem mem_passOrder (l : Level) : l ∈ passOrder := by
  cases l <;> decide

theorem eq_of_not_runsBefore {k l : Level} (h : ¬ k.RunsBefore l) (h' : ¬ l.RunsBefore k) :
    k = l := by
  have hidx : passOrder.idxOf k = passOrder.idxOf l :=
    Nat.le_antisymm (Nat.not_lt.1 h') (Nat.not_lt.1 h)
  exact (List.idxOf_inj (mem_passOrder k)).1 hidx

theorem mem_before_iff {before after : List Level} {k l : Level}
    (h : passOrder = before ++ l :: after) : k ∈ before ↔ k.RunsBefore l := by
  have hn : (before ++ l :: after).Nodup := h ▸ nodup_passOrder
  have hl : l ∉ before := fun hl ↦ (List.nodup_append.1 hn).2.2 l hl l List.mem_cons_self rfl
  have hidx : (before ++ l :: after).idxOf l = before.length := by
    rw [List.idxOf_append_of_notMem hl, List.idxOf_cons_self, Nat.add_zero]
  rw [RunsBefore, h, hidx]
  constructor
  · intro hk
    rw [List.idxOf_append_of_mem hk]
    exact List.idxOf_lt_length_iff.2 hk
  · intro hlt
    by_contra hk
    rw [List.idxOf_append_of_notMem hk] at hlt
    omega

end Level

namespace Registry

variable {r : Registry} {resolved : List String} {l : Level} {ls : List Level} {a b : Analyzer}
  {x : PlanError}

/-! ## What can be scheduled -/

/-- Within a level, the first analyzer depends on the second. -/
def DependsWithin (r : Registry) (l : Level) (a b : Analyzer) : Prop :=
  a ∈ r.ofLevel l ∧ b ∈ r.ofLevel l ∧ b.id ∈ a.dependencies

/-- The dependencies of a level are other analyzers of the registry, no later pass is needed for
them, and within the level they have no cycle. -/
structure Schedulable (r : Registry) (l : Level) : Prop where
  resolved : ∀ a ∈ r.analyzers, a.level = l → ∀ y ∈ a.dependencies,
    ∃ b ∈ r.analyzers, b.id = y ∧ b.id ≠ a.id ∧ (b.level = l ∨ b.level.RunsBefore l)
  acyclic : ∀ a, ¬ TransGen (r.DependsWithin l) a a

theorem declares_declarations_iff {y z : String} :
    Declaration.Declares (r.declarations l) y z ↔
      ∃ a ∈ r.ofLevel l, a.id = y ∧ z ∈ a.dependencies := by
  simp [Declaration.Declares, declarations, Analyzer.declaration]

theorem transGen_dependsWithin {y z : String}
    (h : TransGen (Declaration.Declares (r.declarations l)) y z) (ha : a ∈ r.ofLevel l)
    (hay : a.id = y) (hb : b ∈ r.ofLevel l) (hbz : b.id = z) :
    TransGen (r.DependsWithin l) a b := by
  have hstep : ∀ {c d}, c ∈ r.ofLevel l → d ∈ r.ofLevel l →
      Declaration.Declares (r.declarations l) c.id d.id → r.DependsWithin l c d := by
    intro c d hc hd hdeclares
    obtain ⟨c', hc', hid, hdep⟩ := declares_declarations_iff.1 hdeclares
    obtain rfl := eq_of_id_eq (mem_ofLevel.1 hc').1 (mem_ofLevel.1 hc).1 hid
    exact ⟨hc, hd, hdep⟩
  subst hay
  induction h generalizing b with
  | single hd =>
      subst hbz
      exact .single (hstep ha hb hd)
  | tail _ hd ih =>
      subst hbz
      obtain ⟨c, hc, rfl, _⟩ := declares_declarations_iff.1 hd
      exact (ih hc rfl).tail (hstep hc hb hd)

theorem acyclic_declarations_iff :
    Declaration.Acyclic (r.declarations l) ↔ ∀ a, ¬ TransGen (r.DependsWithin l) a a := by
  constructor
  · intro h a ha
    have hle : r.DependsWithin l ≤
        Function.onFun (Declaration.Declares (r.declarations l)) Analyzer.id := by
      rintro b c ⟨hb, _, hdep⟩
      exact declares_declarations_iff.2 ⟨b, hb, rfl, hdep⟩
    exact h a.id (TransGen.lift Analyzer.id hle a a ha)
  · intro h y hy
    -- A name on a cycle declares the next one, so it belongs to an analyzer.
    obtain ⟨z, hd, _⟩ := TransGen.head'_iff.1 hy
    obtain ⟨a, ha, hay, _⟩ := declares_declarations_iff.1 hd
    exact h a (transGen_dependsWithin hy ha hay ha hay)

/-! ## Passes -/

/-- The names of the analyzers of some levels. -/
def idsOf (r : Registry) (ls : List Level) : List String :=
  ls.flatMap fun l ↦ (r.ofLevel l).map Analyzer.id

theorem mem_idsOf {y : String} :
    y ∈ r.idsOf ls ↔ ∃ b ∈ r.analyzers, b.id = y ∧ b.level ∈ ls := by
  simp only [idsOf, List.mem_flatMap, List.mem_map, mem_ofLevel]
  constructor
  · rintro ⟨l, hl, b, ⟨hb, rfl⟩, rfl⟩
    exact ⟨b, hb, rfl, hl⟩
  · rintro ⟨b, hb, rfl, hl⟩
    exact ⟨b.level, hl, b, ⟨hb, rfl⟩, rfl⟩

theorem idsOf_append_singleton (r : Registry) (ls : List Level) (l : Level) :
    r.idsOf (ls ++ [l]) = r.idsOf ls ++ (r.ofLevel l).map Analyzer.id := by
  simp [idsOf]

theorem schedulable_iff {before after : List Level}
    (h : Level.passOrder = before ++ l :: after) :
    r.Schedulable l ↔ WellFormed (r.declarations l) (r.idsOf before) := by
  have hnamed : ∀ y, y ∈ (r.declarations l).map Declaration.id ∨ y ∈ r.idsOf before ↔
      ∃ b ∈ r.analyzers, b.id = y ∧ (b.level = l ∨ b.level.RunsBefore l) := by
    intro y
    simp only [map_id_declarations, List.mem_map, mem_ofLevel, mem_idsOf, Level.mem_before_iff h]
    constructor
    · rintro (⟨b, ⟨hb, hl⟩, hid⟩ | ⟨b, hb, hid, hl⟩)
      · exact ⟨b, hb, hid, .inl hl⟩
      · exact ⟨b, hb, hid, .inr hl⟩
    · rintro ⟨b, hb, hid, hl | hl⟩
      · exact .inl ⟨b, ⟨hb, hl⟩, hid⟩
      · exact .inr ⟨b, hb, hid, hl⟩
  constructor
  · rintro ⟨hresolved, hacyclic⟩
    refine ⟨?_, ?_, acyclic_declarations_iff.2 hacyclic⟩
    · rw [map_id_declarations]
      exact r.nodup_ofLevel l
    · intro d hd y hy
      obtain ⟨a, ha, rfl⟩ := List.mem_map.1 hd
      obtain ⟨ha, hal⟩ := mem_ofLevel.1 ha
      obtain ⟨b, hb, rfl, hne, hl⟩ := hresolved a ha hal y hy
      exact ⟨hne, (hnamed b.id).2 ⟨b, hb, rfl, hl⟩⟩
  · rintro ⟨_, hproper, hacyclic⟩
    refine ⟨?_, acyclic_declarations_iff.1 hacyclic⟩
    intro a ha hal y hy
    have hd : a.declaration ∈ r.declarations l :=
      List.mem_map_of_mem (mem_ofLevel.2 ⟨ha, hal⟩)
    obtain ⟨hne, hy⟩ := hproper a.declaration hd y hy
    obtain ⟨b, hb, rfl, hl⟩ := (hnamed y).1 hy
    exact ⟨b, hb, rfl, hne, hl⟩

theorem pass_eq_error_iff {e : GraphError} :
    r.pass resolved l = .error ⟨l, e⟩ ↔ build (r.declarations l) resolved = .error e := by
  simp only [pass]
  rw [← declarations]
  cases build (r.declarations l) resolved <;> simp

theorem pass_eq_error_of_not_wellFormed (h : ¬ WellFormed (r.declarations l) resolved) :
    ∃ e, r.pass resolved l = .error ⟨l, e⟩ ∧ ∀ id, e ≠ .duplicateAnalyzer id := by
  have hn : ((r.declarations l).map Declaration.id).Nodup := by
    rw [map_id_declarations]
    exact r.nodup_ofLevel l
  cases hb : build (r.declarations l) resolved with
  | ok g => exact absurd (build_eq_ok_iff.1 hb).1 h
  | error e =>
      refine ⟨e, pass_eq_error_iff.2 hb, ?_⟩
      rintro id rfl
      exact build_ne_duplicateAnalyzer hn hb

/-- From any pass on, either all levels can be scheduled or the first that cannot is reported. -/
theorem passes_cases {done : List Level} (h : Level.passOrder = done ++ ls) :
    (∃ ps, r.passes (r.idsOf done) ls = .ok ps ∧ ∀ l ∈ ls, r.Schedulable l) ∨
    ∃ before l after e, ls = before ++ l :: after ∧ (∀ k ∈ before, r.Schedulable k) ∧
      ¬ r.Schedulable l ∧ r.passes (r.idsOf done) ls = .error ⟨l, e⟩ ∧
      ∀ id, e ≠ .duplicateAnalyzer id := by
  induction ls generalizing done with
  | nil => exact .inl ⟨[], rfl, by simp⟩
  | cons l ls ih =>
      by_cases hl : r.Schedulable l
      · have hpass := pass_eq_ok_iff.2 ⟨(schedulable_iff h).1 hl, rfl⟩
        have hsplit : Level.passOrder = (done ++ [l]) ++ ls := by simpa using h
        have hrest := ih hsplit
        rw [idsOf_append_singleton] at hrest
        rcases hrest with ⟨ps, hps, hall⟩ | ⟨before, m, after, e, rfl, hbefore, hm, he, hne⟩
        · exact .inl ⟨_, passes_cons_eq_ok_iff.2 ⟨_, ps, rfl, hpass, hps⟩,
            List.forall_mem_cons.2 ⟨hl, hall⟩⟩
        · refine .inr ⟨l :: before, m, after, e, rfl, List.forall_mem_cons.2 ⟨hl, hbefore⟩, hm, ?_,
            hne⟩
          simp only [passes, hpass, he]
      · obtain ⟨e, he, hne⟩ := pass_eq_error_of_not_wellFormed (mt (schedulable_iff h).2 hl)
        exact .inr ⟨[], l, ls, e, rfl, by simp, hl, by simp only [passes, he], hne⟩

/-! ## What is reported -/

theorem plan_eq_error_iff :
    r.plan = .error x ↔ r.passes [] Level.passOrder = .error x := by
  simp only [plan]
  cases r.passes [] Level.passOrder <;> simp

theorem plan_cases (r : Registry) :
    (∃ plan, r.plan = .ok plan ∧ ∀ l, r.Schedulable l) ∨
    ∃ l e, r.plan = .error ⟨l, e⟩ ∧ ¬ r.Schedulable l ∧
      (∀ k, k.RunsBefore l → r.Schedulable k) ∧ ∀ id, e ≠ .duplicateAnalyzer id := by
  have hsplit : Level.passOrder = [] ++ Level.passOrder := rfl
  rcases passes_cases (r := r) hsplit with
    ⟨ps, hps, hall⟩ | ⟨before, l, after, e, hl, hbefore, hnot, he, hne⟩
  · exact .inl ⟨⟨ps⟩, plan_eq_ok_iff.2 hps, fun l ↦ hall l (Level.mem_passOrder l)⟩
  · exact .inr ⟨l, e, plan_eq_error_iff.2 he, hnot,
      fun k hk ↦ hbefore k ((Level.mem_before_iff hl).2 hk), hne⟩

theorem exists_plan_iff : (∃ plan, r.plan = .ok plan) ↔ ∀ l, r.Schedulable l := by
  rcases r.plan_cases with ⟨plan, hplan, hall⟩ | ⟨l, e, hplan, hl, _⟩
  · exact iff_of_true ⟨plan, hplan⟩ hall
  · refine iff_of_false ?_ fun hall ↦ hl (hall l)
    rintro ⟨plan, hok⟩
    simp [hplan] at hok

theorem exists_plan_error_iff :
    (∃ e, r.plan = .error ⟨l, e⟩) ↔ ¬ r.Schedulable l ∧ ∀ k, k.RunsBefore l → r.Schedulable k := by
  rcases r.plan_cases with ⟨plan, hplan, hall⟩ | ⟨m, e, hplan, hm, hearlier, _⟩
  · refine iff_of_false ?_ fun h ↦ h.1 (hall l)
    simp [hplan]
  · constructor
    · rintro ⟨e', he'⟩
      obtain ⟨rfl, _⟩ : m = l ∧ e = e' := by simpa [hplan] using he'
      exact ⟨hm, hearlier⟩
    · rintro ⟨hl, hlearlier⟩
      obtain rfl : m = l := Level.eq_of_not_runsBefore (fun h ↦ hm (hlearlier m h))
        fun h ↦ hl (hearlier l h)
      exact ⟨e, hplan⟩

theorem error_ne_duplicateAnalyzer (h : r.plan = .error x) (id : String) :
    x.error ≠ .duplicateAnalyzer id := by
  rcases r.plan_cases with ⟨plan, hplan, _⟩ | ⟨l, e, hplan, _, _, hne⟩
  · simp [hplan] at h
  · obtain rfl : ⟨l, e⟩ = x := by simpa [hplan] using h
    exact hne id

end Registry

namespace Plan

variable {r : Registry} {plan : Plan} {a b : Analyzer}

/-! ## Places in a plan -/

/-- An analyzer stands in a level of a pass, both counted from 0. -/
def Places (plan : Plan) (i k : Nat) (a : Analyzer) : Prop :=
  ∃ x as, plan.passes[i]? = some x ∧ x.levels[k]? = some as ∧ a ∈ as

/-- The first analyzer stands in an earlier pass than the second, or in an earlier level of the
same pass. -/
def Precedes (plan : Plan) (a b : Analyzer) : Prop :=
  ∃ i k j m, plan.Places i k a ∧ plan.Places j m b ∧ (i < j ∨ i = j ∧ k < m)

/-- A plan that holds every analyzer of a registry once, in the pass of its level and after all
that it depends on. -/
structure Schedules (plan : Plan) (r : Registry) : Prop where
  perm : plan.analyzers.Perm r.analyzers
  nodup : (plan.analyzers.map Analyzer.id).Nodup
  size_eq : plan.size = r.size
  pass_eq : ∀ i k a, plan.Places i k a → Level.passOrder[i]? = some a.level
  precedes : ∀ a ∈ r.analyzers, ∀ y ∈ a.dependencies,
    ∃ b ∈ r.analyzers, b.id = y ∧ plan.Precedes b a

theorem flatten_levels_perm {x : Pass} (h : r.Arranges x) :
    x.levels.flatten.Perm (r.ofLevel x.level) := by
  obtain ⟨lv, _, hlevels⟩ := h.exists_leveling
  rw [hlevels]
  exact flatMap_filter_perm (fun a : Analyzer ↦ lv a.id) List.nodup_range fun a ha ↦
    List.mem_range.2 (lt_levelAbove (List.mem_map_of_mem ha))

theorem analyzers_perm (h : r.plan = .ok plan) : plan.analyzers.Perm r.analyzers := by
  have hpasses : plan.analyzers.Perm (plan.passes.flatMap fun x ↦ r.ofLevel x.level) :=
    List.Perm.flatMap_left _ fun x hx ↦ flatten_levels_perm (arranges_of_mem_passes h hx)
  have hlevels : (plan.passes.flatMap fun x ↦ r.ofLevel x.level) =
      Level.passOrder.flatMap r.ofLevel := by
    rw [← map_level_passes h, List.flatMap_map]
  have hkinds : (Level.passOrder.flatMap r.ofLevel).Perm r.analyzers :=
    flatMap_filter_perm Analyzer.level Level.nodup_passOrder fun a _ ↦ Level.mem_passOrder a.level
  exact hpasses.trans (hlevels ▸ hkinds)

theorem level_of_places (h : r.plan = .ok plan) {i k : Nat} (ha : plan.Places i k a) :
    Level.passOrder[i]? = some a.level := by
  obtain ⟨x, as, hx, has, ha⟩ := ha
  have hmem : a ∈ x.levels.flatten := List.mem_flatten.2 ⟨as, List.mem_of_getElem? has, ha⟩
  have hperm := flatten_levels_perm (arranges_of_mem_passes h (List.mem_of_getElem? hx))
  have hlevel := (Registry.mem_ofLevel.1 (hperm.mem_iff.1 hmem)).2
  rw [← map_level_passes h, List.getElem?_map, hx, hlevel]
  rfl

/-- The levels of a plan follow one equation in each pass. -/
theorem exists_leveling_places (h : r.plan = .ok plan) (l : Level) :
    ∃ lv, Registry.IsLeveling (r.ofLevel l) lv ∧
      ∀ a ∈ r.ofLevel l, plan.Places (Level.passOrder.idxOf l) (lv a.id) a := by
  have hpass : (plan.passes.map Pass.level)[Level.passOrder.idxOf l]? = some l := by
    rw [map_level_passes h]
    exact List.getElem?_idxOf (Level.mem_passOrder l)
  rw [List.getElem?_map, Option.map_eq_some_iff] at hpass
  obtain ⟨x, hx, rfl⟩ := hpass
  obtain ⟨lv, hlv, hlevels⟩ := (arranges_of_mem_passes h (List.mem_of_getElem? hx)).exists_leveling
  refine ⟨lv, hlv, fun a ha ↦ ⟨x, (r.ofLevel x.level).filter (fun b ↦ lv b.id = lv a.id), hx, ?_,
    List.mem_filter.2 ⟨ha, by simp⟩⟩⟩
  have hlt : lv a.id < levelAbove lv ((r.ofLevel x.level).map Analyzer.id) :=
    lt_levelAbove (List.mem_map_of_mem ha)
  rw [hlevels, Registry.layers, List.getElem?_map, List.getElem?_range hlt]
  rfl

theorem schedules (h : r.plan = .ok plan) : plan.Schedules r := by
  have hperm := analyzers_perm h
  refine ⟨hperm, ?_, hperm.length_eq, fun i k a ↦ level_of_places h, ?_⟩
  · exact (hperm.map Analyzer.id).nodup_iff.2 r.distinct
  · intro a ha y hy
    have hschedulable := Registry.exists_plan_iff.1 ⟨plan, h⟩ a.level
    obtain ⟨b, hb, rfl, _, hl⟩ := hschedulable.resolved a ha rfl y hy
    refine ⟨b, hb, rfl, ?_⟩
    obtain ⟨lv, hlv, hplaces⟩ := exists_leveling_places h a.level
    have hma := Registry.mem_ofLevel.2 ⟨ha, rfl⟩
    rcases hl with hl | hl
    · have hmb := Registry.mem_ofLevel.2 ⟨hb, hl⟩
      exact ⟨_, _, _, _, hplaces b hmb, hplaces a hma, .inr ⟨rfl, hlv.lt hma hmb hy⟩⟩
    · obtain ⟨lv', _, hplaces'⟩ := exists_leveling_places h b.level
      have hmb := Registry.mem_ofLevel.2 ⟨hb, rfl⟩
      exact ⟨_, _, _, _, hplaces' b hmb, hplaces a hma, .inl hl⟩

end Plan

namespace Registry

/-- A registry has a plan exactly when all its levels can be scheduled, and the plan is a schedule
of it.  Otherwise the first level that cannot be scheduled is reported. -/
theorem plan_schedules_or_reports (r : Registry) :
    ((∃ plan, r.plan = .ok plan) ↔ ∀ l, r.Schedulable l) ∧
    (∀ plan, r.plan = .ok plan → plan.Schedules r) ∧
    (∀ l, (∃ e, r.plan = .error ⟨l, e⟩) ↔
      ¬ r.Schedulable l ∧ ∀ k, k.RunsBefore l → r.Schedulable k) ∧
    ∀ x, r.plan = .error x → ∀ id, x.error ≠ .duplicateAnalyzer id :=
  ⟨exists_plan_iff, fun _ h ↦ Plan.schedules h, fun _ ↦ exists_plan_error_iff,
    fun _ h ↦ error_ne_duplicateAnalyzer h⟩

end Registry

end Timelock
