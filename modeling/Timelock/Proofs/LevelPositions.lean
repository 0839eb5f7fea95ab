import Mathlib.Order.Bounds.Defs
import Timelock.Proofs.Leveling

/-!
# Positions in the levels of a graph

Every name of an accepted list stands in exactly one level, the one that its dependencies in the
list demand.  No level is empty, and within a level the names stand as they were declared.
-/

namespace Timelock

/-- Sorting a list into the classes of a key neither loses nor repeats anything. -/
theorem flatMap_filter_perm {α κ : Type} [DecidableEq κ] (key : α → κ) {ks : List κ}
    {xs : List α} (hn : ks.Nodup) (h : ∀ x ∈ xs, key x ∈ ks) :
    (ks.flatMap fun k ↦ xs.filter (fun x ↦ key x = k)).Perm xs := by
  induction ks generalizing xs with
  | nil =>
      have hnil : xs = [] := List.eq_nil_iff_forall_not_mem.2 fun x hx ↦ by simpa using h x hx
      simp [hnil]
  | cons k ks ih =>
      obtain ⟨hk, hn⟩ := List.nodup_cons.1 hn
      have hrest : ∀ x ∈ xs.filter (fun x ↦ !(key x = k : Bool)), key x ∈ ks := by
        intro x hx
        obtain ⟨hx, hne⟩ := List.mem_filter.1 hx
        exact (List.mem_cons.1 (h x hx)).resolve_left (by simpa using hne)
      have hclasses : ks.flatMap (fun m ↦ xs.filter (fun x ↦ key x = m)) =
          ks.flatMap (fun m ↦ (xs.filter (fun x ↦ !(key x = k : Bool))).filter (key · = m)) := by
        apply List.flatMap_congr
        intro m hm
        rw [List.filter_filter]
        apply List.filter_congr
        intro x _
        by_cases hx : key x = m
        · have hne : m ≠ k := fun hmk ↦ hk (hmk ▸ hm)
          simp [hx, hne]
        · simp [hx]
      rw [List.flatMap_cons, hclasses]
      exact ((ih hn hrest).append_left _).trans (List.filter_append_perm _ xs)

namespace DependencyGraph

open Declaration

variable {ds : List Declaration} {resolved ids : List String} {lv : String → Nat}
  {g : DependencyGraph} {x : String}

theorem flatten_layers_perm (ids : List String) (lv : String → Nat) :
    (layers ids lv).flatten.Perm ids :=
  flatMap_filter_perm lv List.nodup_range fun _ hx ↦ List.mem_range.2 (lt_levelAbove hx)

theorem findIdx?_layers (hx : x ∈ ids) :
    (layers ids lv).findIdx? (fun l ↦ l.contains x) = some (lv x) := by
  rw [List.findIdx?_eq_some_iff_getElem]
  refine ⟨by simpa [layers] using lt_levelAbove hx, by simp [layers, hx], ?_⟩
  intro j hj
  simp [layers, Nat.ne_of_gt hj]

/-- What determines the levels of an accepted list. -/
theorem exists_levels_eq (h : build ds resolved = .ok g) :
    ∃ lv, IsLeveling (inside ds) lv ∧ g.levels = layers (ds.map Declaration.id) lv := by
  obtain ⟨hwf, rfl⟩ := build_eq_ok_iff.1 h
  exact exists_layers hwf

theorem ne_nil_of_mem_layers (h : IsLeveling (inside ds) lv) {l : List String}
    (hl : l ∈ layers (ds.map Declaration.id) lv) : l ≠ [] := by
  obtain ⟨k, hk, rfl⟩ := List.mem_map.1 hl
  have hk : k < levelAbove lv (ds.map Declaration.id) := List.mem_range.1 hk
  obtain ⟨x, hx, htop⟩ := exists_of_levelAbove_pos (Nat.zero_lt_of_lt hk)
  rw [← map_id_inside] at hx
  obtain ⟨y, hy, hlv⟩ := h.exists_level mem_of_mem_inside hx (k := k) (by omega)
  rw [map_id_inside] at hy
  exact List.ne_nil_of_mem (List.mem_filter.2 ⟨hy, by simpa using hlv⟩)

theorem levelOf?_eq_some (h : g.levels = layers ids lv) (hx : x ∈ ids) :
    g.levelOf? x = some (lv x) := by
  rw [levelOf?, h, findIdx?_layers hx]

/-- A name that depends on others of the list stands next above the highest of them. -/
theorem exists_highest (h : IsLeveling (inside ds) lv) {d : Declaration} (hd : d ∈ ds)
    (hin : ∃ y ∈ d.dependencies, y ∈ ds.map Declaration.id) :
    ∃ y ∈ d.dependencies, y ∈ ds.map Declaration.id ∧ lv d.id = lv y + 1 ∧
      ∀ z ∈ d.dependencies, z ∈ ds.map Declaration.id → lv z ≤ lv y := by
  have hequation := isLeveling_inside.1 h d hd
  have hlt : ∀ z ∈ d.dependencies, z ∈ ds.map Declaration.id → lv z < lv d.id := by
    intro z hz hzin
    rw [hequation]
    exact lt_levelAbove (List.mem_filter.2 ⟨hz, by simpa using hzin⟩)
  obtain ⟨z, hz, hzin⟩ := hin
  obtain ⟨y, hy, htop⟩ :=
    exists_of_levelAbove_pos (hequation ▸ Nat.zero_lt_of_lt (hlt z hz hzin))
  obtain ⟨hy, hyin⟩ := List.mem_filter.1 hy
  rw [← hequation] at htop
  refine ⟨y, hy, List.contains_iff_mem.1 hyin, htop.symm, ?_⟩
  intro w hw hwin
  have hbelow := hlt w hw hwin
  omega

/-- Every name has exactly one place: in the first level if it depends on no name of the list, and
otherwise one level above the highest that it depends on. -/
theorem levels_perm_and_isGreatest (h : build ds resolved = .ok g) :
    g.levels.flatten.Perm (ds.map Declaration.id) ∧ g.levels.flatten.Nodup ∧
    (∀ d ∈ ds, (∀ y ∈ d.dependencies, y ∉ ds.map Declaration.id) → g.levelOf? d.id = some 0) ∧
    (∀ d ∈ ds, (∃ y ∈ d.dependencies, y ∈ ds.map Declaration.id) →
      ∃ k, IsGreatest {m | ∃ y ∈ d.dependencies, y ∈ ds.map Declaration.id ∧
        g.levelOf? y = some m} k ∧ g.levelOf? d.id = some (k + 1)) ∧
    ∀ l ∈ g.levels, l.Sublist (ds.map Declaration.id) ∧ l ≠ [] := by
  obtain ⟨lv, hlv, hlevels⟩ := exists_levels_eq h
  have hperm : g.levels.flatten.Perm (ds.map Declaration.id) := hlevels ▸ flatten_layers_perm _ lv
  have hn : (ds.map Declaration.id).Nodup := (build_eq_ok_iff.1 h).1.distinct
  refine ⟨hperm, hperm.nodup_iff.2 hn, ?_, ?_, ?_⟩
  · intro d hd hout
    have hnil : d.dependencies.filter (ds.map Declaration.id).contains = [] :=
      List.filter_eq_nil_iff.2 fun y hy ↦ by simpa using hout y hy
    rw [levelOf?_eq_some hlevels (List.mem_map_of_mem hd), isLeveling_inside.1 hlv d hd, hnil]
    rfl
  · intro d hd hin
    obtain ⟨y, hy, hyin, hnext, htop⟩ := exists_highest hlv hd hin
    refine ⟨lv y, ⟨⟨y, hy, hyin, levelOf?_eq_some hlevels hyin⟩, ?_⟩, ?_⟩
    · rintro m ⟨z, hz, hzin, hm⟩
      rw [levelOf?_eq_some hlevels hzin, Option.some.injEq] at hm
      exact hm ▸ htop z hz hzin
    · rw [levelOf?_eq_some hlevels (List.mem_map_of_mem hd), hnext]
  · intro l hl
    rw [hlevels] at hl
    refine ⟨?_, ne_nil_of_mem_layers hlv hl⟩
    obtain ⟨k, _, rfl⟩ := List.mem_map.1 hl
    exact List.filter_sublist

/-- Declared from the top down, with a repeated dependency and with one that has been resolved. -/
def diamond : List Declaration :=
  [⟨"report", ["risk", "earlier", "diff", "risk"]⟩, ⟨"risk", ["seen"]⟩,
    ⟨"diff", ["earlier", "seen"]⟩, ⟨"seen", []⟩]

def diamondGraph : DependencyGraph where
  internal := [⟨"report", ["risk", "diff"]⟩, ⟨"risk", ["seen"]⟩, ⟨"diff", ["seen"]⟩, ⟨"seen", []⟩]
  external := [⟨"report", ["earlier"]⟩, ⟨"risk", []⟩, ⟨"diff", ["earlier"]⟩, ⟨"seen", []⟩]
  levels := [["seen"], ["risk", "diff"], ["report"]]

theorem build_diamond : build diamond ["earlier"] = .ok diamondGraph := by
  have hinside : inside diamond = diamondGraph.internal := rfl
  have horder : order (inside diamond) = ["seen", "diff", "risk", "report"] := by
    rw [hinside]
    simp [diamondGraph, order, searchAll, explore, dependents]
  refine build_eq_ok_iff.2 ⟨.of_order horder (by decide) (by decide) rfl, ?_⟩
  rw [arranged, horder]
  rfl

theorem levels_perm_and_isGreatest_of_diamond :
    build diamond ["earlier"] = .ok diamondGraph ∧
      diamondGraph.levels.flatten.Perm ["report", "risk", "diff", "seen"] ∧
      diamondGraph.levelOf? "seen" = some 0 ∧
      ∃ k, IsGreatest {m | ∃ y ∈ ["risk", "earlier", "diff", "risk"],
        y ∈ diamond.map Declaration.id ∧ diamondGraph.levelOf? y = some m} k ∧
        diamondGraph.levelOf? "report" = some (k + 1) := by
  obtain ⟨hperm, _, hlowest, hnext, _⟩ := levels_perm_and_isGreatest build_diamond
  have hreport := hnext ⟨"report", ["risk", "earlier", "diff", "risk"]⟩ (by decide)
    ⟨"risk", by decide, by decide⟩
  exact ⟨build_diamond, hperm, hlowest ⟨"seen", []⟩ (by decide) (by simp), hreport⟩

end DependencyGraph

end Timelock
