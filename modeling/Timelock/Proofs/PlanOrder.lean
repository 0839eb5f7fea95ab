import Timelock.Proofs.Leveling
import Timelock.Registry

/-!
# Plans

The passes of a plan follow the pass order, and each of them holds all analyzers of its level, every
analyzer above those that it depends on.
-/

namespace Timelock

open DependencyGraph

namespace Registry

/-! ## Layers of analyzers -/

def layers (as : List Analyzer) (lv : String → Nat) : List (List Analyzer) :=
  (List.range (levelAbove lv (as.map Analyzer.id))).map fun k ↦ as.filter (fun a ↦ lv a.id = k)

/-- An analyzer stands one level above the highest of its dependencies in the list. -/
def IsLeveling (as : List Analyzer) (lv : String → Nat) : Prop :=
  ∀ a ∈ as, lv a.id = levelAbove lv (a.dependencies.filter (as.map Analyzer.id).contains)

variable {as bs : List Analyzer} {lv lv' : String → Nat}

theorem IsLeveling.lt (h : IsLeveling as lv) {a b : Analyzer} (ha : a ∈ as) (hb : b ∈ as)
    (hdep : b.id ∈ a.dependencies) : lv b.id < lv a.id := by
  rw [h a ha]
  refine lt_levelAbove (List.mem_filter.2 ⟨hdep, ?_⟩)
  simpa using ⟨b, hb, rfl⟩

theorem mem_layers {l : List Analyzer} (h : l ∈ layers as lv) :
    ∃ k < levelAbove lv (as.map Analyzer.id), l = as.filter (fun a ↦ lv a.id = k) := by
  obtain ⟨k, hk, rfl⟩ := List.mem_map.1 h
  exact ⟨k, List.mem_range.1 hk, rfl⟩

theorem mem_flatten_layers {a : Analyzer} : a ∈ (layers as lv).flatten ↔ a ∈ as := by
  rw [List.mem_flatten]
  constructor
  · rintro ⟨l, hl, ha⟩
    obtain ⟨k, _, rfl⟩ := mem_layers hl
    exact (List.mem_filter.1 ha).1
  · intro ha
    have hk : lv a.id < levelAbove lv (as.map Analyzer.id) :=
      lt_levelAbove (List.mem_map_of_mem ha)
    exact ⟨_, List.mem_map_of_mem (List.mem_range.2 hk), List.mem_filter.2 ⟨ha, by simp⟩⟩

theorem layers_congr (h : ∀ a ∈ as, lv a.id = lv' a.id) : layers as lv = layers as lv' := by
  have hids : ∀ x ∈ as.map Analyzer.id, lv x = lv' x := by
    intro x hx
    obtain ⟨a, ha, rfl⟩ := List.mem_map.1 hx
    exact h a ha
  rw [layers, layers, levelAbove_congr hids]
  refine List.map_congr_left fun k _ ↦ List.filter_congr fun a ha ↦ ?_
  rw [h a ha]

/-- The equation for analyzers is the one for their declarations. -/
theorem isLeveling_iff : IsLeveling as lv ↔
    DependencyGraph.IsLeveling (inside (as.map Analyzer.declaration)) lv := by
  rw [isLeveling_inside, List.forall_mem_map, List.map_map]
  rfl

/-- Below every level that is taken all levels are taken. -/
theorem IsLeveling.exists_level (h : IsLeveling as lv) {k : Nat} {a : Analyzer} (ha : a ∈ as)
    (hk : k ≤ lv a.id) : ∃ b ∈ as, lv b.id = k := by
  have hids : (inside (as.map Analyzer.declaration)).map Declaration.id = as.map Analyzer.id := by
    rw [map_id_inside, List.map_map]
    rfl
  have hex := (isLeveling_iff.1 h).exists_level mem_of_mem_inside
    (hids ▸ List.mem_map_of_mem ha) hk
  rw [hids] at hex
  simpa using hex

theorem named_map_id (hn : (as.map Analyzer.id).Nodup) (hsub : ∀ b ∈ bs, b ∈ as) :
    named as (bs.map Analyzer.id) = bs := by
  induction bs with
  | nil => rfl
  | cons b bs ih =>
      have hfind : as.find? (fun a ↦ a.id == b.id) = some b := by
        cases hf : as.find? (fun a ↦ a.id == b.id) with
        | none => simpa using List.find?_eq_none.1 hf b (hsub b List.mem_cons_self)
        | some a =>
            have hid : a.id = b.id := by simpa using List.find?_some hf
            rw [List.inj_on_of_nodup_map hn (List.mem_of_find?_eq_some hf)
              (hsub b List.mem_cons_self) hid]
      have hbs := ih fun a ha ↦ hsub a (List.mem_cons_of_mem _ ha)
      simp only [named] at hbs
      simp only [named, List.map_cons, List.filterMap_cons, hfind, hbs]

/-! ## Passes -/

theorem nodup_ofLevel (r : Registry) (l : Level) : ((r.ofLevel l).map Analyzer.id).Nodup :=
  r.distinct.sublist (List.filter_sublist.map _)

theorem mem_ofLevel {r : Registry} {l : Level} {a : Analyzer} :
    a ∈ r.ofLevel l ↔ a ∈ r.analyzers ∧ a.level = l := by
  simp [ofLevel]

theorem eq_of_id_eq {r : Registry} {a b : Analyzer} (ha : a ∈ r.analyzers) (hb : b ∈ r.analyzers)
    (h : a.id = b.id) : a = b :=
  List.inj_on_of_nodup_map r.distinct ha hb h

def declarations (r : Registry) (l : Level) : List Declaration :=
  (r.ofLevel l).map Analyzer.declaration

@[simp] theorem map_id_declarations (r : Registry) (l : Level) :
    (r.declarations l).map Declaration.id = (r.ofLevel l).map Analyzer.id := by
  simp [declarations, Analyzer.declaration, Function.comp_def]

theorem exists_leveling {r : Registry} {resolved : List String} {l : Level}
    (h : WellFormed (r.declarations l) resolved) :
    ∃ lv, IsLeveling (r.ofLevel l) lv ∧
      (arranged (r.declarations l)).levels.map (named (r.ofLevel l)) = layers (r.ofLevel l) lv := by
  obtain ⟨lv, hlv, hlevels⟩ := exists_layers h
  refine ⟨lv, isLeveling_iff.2 hlv, ?_⟩
  rw [hlevels, map_id_declarations, DependencyGraph.layers, layers, List.map_map]
  apply List.map_congr_left
  intro k _
  rw [Function.comp_apply, List.filter_map]
  exact named_map_id (r.nodup_ofLevel l) fun b hb ↦ (List.mem_filter.1 hb).1

theorem pass_eq_ok_iff {r : Registry} {resolved : List String} {l : Level} {p : Pass} :
    r.pass resolved l = .ok p ↔ WellFormed (r.declarations l) resolved ∧
      p = ⟨l, (arranged (r.declarations l)).levels.map (named (r.ofLevel l))⟩ := by
  simp only [pass]
  rw [← declarations]
  cases hb : build (r.declarations l) resolved with
  | error e =>
      simp only [reduceCtorEq, false_iff, not_and]
      intro hwf
      simp [build_eq_ok_iff.2 ⟨hwf, rfl⟩] at hb
  | ok g =>
      obtain ⟨hwf, rfl⟩ := build_eq_ok_iff.1 hb
      simp only [Except.ok.injEq]
      exact ⟨fun hp ↦ ⟨hwf, hp.symm⟩, fun hp ↦ hp.2.symm⟩

/-- A pass can be read off the order in which the search has listed its analyzers. -/
theorem pass_eq_ok_of_order {r : Registry} {resolved xs : List String} {l : Level} {p : Pass}
    (horder : Declaration.order (inside (r.declarations l)) = xs)
    (hproper : ∀ d ∈ r.declarations l, ∀ y ∈ d.dependencies,
      y ≠ d.id ∧ (y ∈ (r.declarations l).map Declaration.id ∨ y ∈ resolved))
    (hback : Declaration.firstBackward? (inside (r.declarations l)) [] xs = none)
    (hp : p = ⟨l, (groupByLevel ((r.declarations l).map Declaration.id)
      (assignLevels (inside (r.declarations l)) xs)).map (named (r.ofLevel l))⟩) :
    r.pass resolved l = .ok p := by
  have hn : ((r.declarations l).map Declaration.id).Nodup := by
    rw [map_id_declarations]
    exact r.nodup_ofLevel l
  refine pass_eq_ok_iff.2 ⟨.of_order horder hn hproper hback, ?_⟩
  rw [hp, ← horder]
  rfl

theorem passes_cons_eq_ok_iff {r : Registry} {resolved : List String} {l : Level}
    {ls : List Level} {ps : List Pass} :
    r.passes resolved (l :: ls) = .ok ps ↔ ∃ p qs, ps = p :: qs ∧ r.pass resolved l = .ok p ∧
      r.passes (resolved ++ (r.ofLevel l).map Analyzer.id) ls = .ok qs := by
  simp only [passes]
  cases r.pass resolved l with
  | error e => simp
  | ok p =>
      cases r.passes (resolved ++ (r.ofLevel l).map Analyzer.id) ls with
      | error e => simp
      | ok qs => simp [eq_comm]

theorem pass_of_ofLevel_eq_nil {r : Registry} {l : Level} (h : r.ofLevel l = [])
    (resolved : List String) : r.pass resolved l = .ok ⟨l, []⟩ := by
  simp only [pass, h]
  rfl

/-- A registry without analyzers below proposals has one pass with levels. -/
theorem plan_eq_ok_of_proposals {r : Registry} {x : Pass} (hparameter : r.ofLevel .parameter = [])
    (hcall : r.ofLevel .call = []) (hbatch : r.ofLevel .batchOperation = [])
    (hproposal : r.pass [] .proposal = .ok x) :
    r.plan = .ok ⟨[⟨.parameter, []⟩, ⟨.call, []⟩, ⟨.batchOperation, []⟩, x]⟩ := by
  simp [plan, passes, Level.passOrder, pass_of_ofLevel_eq_nil, hparameter, hcall, hbatch,
    hproposal]

/-- A pass holds the analyzers of its level, in layers. -/
structure Arranges (r : Registry) (p : Pass) : Prop where
  exists_leveling : ∃ lv, IsLeveling (r.ofLevel p.level) lv ∧
    p.levels = layers (r.ofLevel p.level) lv

theorem arranges_of_passes {r : Registry} {resolved : List String} {ls : List Level}
    {ps : List Pass} (h : r.passes resolved ls = .ok ps) :
    ps.map Pass.level = ls ∧ ∀ p ∈ ps, r.Arranges p := by
  induction ls generalizing resolved ps with
  | nil =>
      simp only [passes, Except.ok.injEq] at h
      simp [← h]
  | cons l ls ih =>
      obtain ⟨p, qs, rfl, hp, hqs⟩ := passes_cons_eq_ok_iff.1 h
      obtain ⟨hwf, rfl⟩ := pass_eq_ok_iff.1 hp
      obtain ⟨hlevels, hall⟩ := ih hqs
      refine ⟨by simp [hlevels], List.forall_mem_cons.2 ⟨⟨exists_leveling hwf⟩, hall⟩⟩

theorem plan_eq_ok_iff {r : Registry} {plan : Plan} :
    r.plan = .ok plan ↔ r.passes [] Level.passOrder = .ok plan.passes := by
  simp only [Registry.plan]
  cases r.passes [] Level.passOrder with
  | error e => simp
  | ok ps => cases plan; simp

end Registry

end Timelock
