import Timelock.DependencyGraph
import Timelock.Proofs.SearchOrder

/-!
# Levels of a dependency graph

A list of declarations is accepted exactly when it is well formed.  The levels are then determined
by one equation: a name stands one level above the highest of its dependencies in the list.
-/

namespace Timelock

namespace DependencyGraph

open Declaration Relation

/-! ## One more than a maximum -/

/-- One more than the highest level among the names, or 0 for none. -/
def levelAbove (lv : String → Nat) : List String → Nat
  | [] => 0
  | y :: ys => max (lv y + 1) (levelAbove lv ys)

variable {lv lv' : String → Nat} {xs ys : List String}

theorem levelAbove_le_iff {n : Nat} : levelAbove lv xs ≤ n ↔ ∀ x ∈ xs, lv x + 1 ≤ n := by
  induction xs with
  | nil => simp [levelAbove]
  | cons x xs ih => rw [levelAbove, Nat.max_le, ih, List.forall_mem_cons]

theorem lt_levelAbove {x : String} (h : x ∈ xs) : lv x < levelAbove lv xs :=
  levelAbove_le_iff.1 (Nat.le_refl _) x h

theorem levelAbove_congr (h : ∀ x ∈ xs, lv x = lv' x) : levelAbove lv xs = levelAbove lv' xs := by
  induction xs with
  | nil => rfl
  | cons x xs ih =>
      have hx : lv x = lv' x := h x List.mem_cons_self
      have hxs := ih fun y hy ↦ h y (List.mem_cons_of_mem _ hy)
      simp only [levelAbove, hx, hxs]

theorem levelAbove_eq_of_mem_iff (h : ∀ x, x ∈ xs ↔ x ∈ ys) :
    levelAbove lv xs = levelAbove lv ys := by
  apply Nat.le_antisymm
  · exact levelAbove_le_iff.2 fun x hx ↦ lt_levelAbove ((h x).1 hx)
  · exact levelAbove_le_iff.2 fun x hx ↦ lt_levelAbove ((h x).2 hx)

theorem exists_of_levelAbove_pos (h : 0 < levelAbove lv xs) :
    ∃ x ∈ xs, lv x + 1 = levelAbove lv xs := by
  induction xs with
  | nil => simp [levelAbove] at h
  | cons x xs ih =>
      rcases Nat.le_total (levelAbove lv xs) (lv x + 1) with hle | hle
      · exact ⟨x, List.mem_cons_self, (Nat.max_eq_left hle).symm⟩
      · obtain ⟨y, hy, hlv⟩ := ih (Nat.lt_of_lt_of_le (Nat.succ_pos _) hle)
        exact ⟨y, List.mem_cons_of_mem _ hy, hlv.trans (Nat.max_eq_right hle).symm⟩

theorem foldl_max_succ (m : Nat) (ks : List Nat) :
    ks.foldl (fun m l ↦ max m (l + 1)) m = max m (ks.foldl (fun m l ↦ max m (l + 1)) 0) := by
  induction ks generalizing m with
  | nil => simp
  | cons k ks ih =>
      rw [List.foldl_cons, ih, List.foldl_cons, ih (max 0 (k + 1))]
      omega

theorem foldl_max_eq_levelAbove (lv : String → Nat) (xs : List String) :
    (xs.map lv).foldl (fun m l ↦ max m (l + 1)) 0 = levelAbove lv xs := by
  induction xs with
  | nil => rfl
  | cons x xs ih =>
      rw [List.map_cons, List.foldl_cons, foldl_max_succ, ih, levelAbove]
      omega

/-! ## Levels along an order -/

/-- Every name stands one level above the highest of its dependencies. -/
def IsLeveling (ds : List Declaration) (lv : String → Nat) : Prop :=
  ∀ d ∈ ds, lv d.id = levelAbove lv d.dependencies

structure FoundLevels (ds : List Declaration) (lv : String → Nat) (before : List String)
    (levels : List (String × Nat)) : Prop where
  keys : levels.map Prod.fst = before.reverse
  entries : ∀ e ∈ levels, e.2 = lv e.1
  closed : ∀ z ∈ before, ∀ y ∈ Declaration.dependenciesOf ds z, y ∈ before
  equation : ∀ z ∈ before, lv z = levelAbove lv (Declaration.dependenciesOf ds z)

theorem FoundLevels.levelIn_eq {ds : List Declaration} {before : List String}
    {levels : List (String × Nat)} (h : FoundLevels ds lv before levels) {z : String}
    (hz : z ∈ before) : levelIn levels z = some (lv z) := by
  have hkey : z ∈ levels.map Prod.fst := by simpa [h.keys] using hz
  cases hl : levels.lookup z with
  | none =>
      obtain ⟨e, he, rfl⟩ := List.mem_map.1 hkey
      simpa using List.lookup_eq_none_iff.1 hl e he
  | some k =>
      obtain ⟨pre, post, rfl, _⟩ := List.lookup_eq_some_iff.1 hl
      have hk : k = lv z := h.entries (z, k) (by simp)
      rw [levelIn, hl, hk]

theorem nextLevel_eq_levelAbove {levels : List (String × Nat)}
    (h : ∀ y ∈ ys, levelIn levels y = some (lv y)) : nextLevel levels ys = levelAbove lv ys := by
  have hmap : ys.filterMap (levelIn levels) = ys.map lv := by
    rw [← List.filterMap_eq_map]
    exact List.filterMap_congr fun y hy ↦ h y hy
  rw [nextLevel, hmap, foldl_max_eq_levelAbove]

theorem FoundLevels.snoc {ds : List Declaration} {before : List String} {x : String}
    {levels : List (String × Nat)} (h : FoundLevels ds lv before levels) (hx : x ∉ before)
    (hdep : ∀ y ∈ Declaration.dependenciesOf ds x, y ∈ before) :
    ∃ lv', FoundLevels ds lv' (before ++ [x])
      ((x, nextLevel levels (Declaration.dependenciesOf ds x)) :: levels) := by
  let k := nextLevel levels (Declaration.dependenciesOf ds x)
  let lv' : String → Nat := fun z ↦ if z = x then k else lv z
  have hold : ∀ z ∈ before, lv z = lv' z := by
    intro z hz
    have hne : z ≠ x := fun hzx ↦ hx (hzx ▸ hz)
    simp [lv', hne]
  have hk : k = levelAbove lv (Declaration.dependenciesOf ds x) :=
    nextLevel_eq_levelAbove fun y hy ↦ h.levelIn_eq (hdep y hy)
  refine ⟨lv', ⟨by simp [h.keys], ?_, ?_, ?_⟩⟩
  · intro e he
    rcases List.mem_cons.1 he with rfl | he
    · simp [lv', k]
    · have hmem : e.1 ∈ before := by
        rw [← List.mem_reverse, ← h.keys]
        exact List.mem_map_of_mem he
      rw [h.entries e he, hold _ hmem]
  · intro z hz y hy
    rcases List.mem_append.1 hz with hz | hz
    · exact List.mem_append_left _ (h.closed z hz y hy)
    · obtain rfl := List.mem_singleton.1 hz
      exact List.mem_append_left _ (hdep y hy)
  · intro z hz
    rcases List.mem_append.1 hz with hz | hz
    · rw [← hold z hz, h.equation z hz]
      exact levelAbove_congr fun y hy ↦ hold y (h.closed z hz y hy)
    · obtain rfl := List.mem_singleton.1 hz
      have hz' : lv' z = k := by simp [lv']
      rw [hz', hk]
      exact levelAbove_congr fun y hy ↦ hold y (hdep y hy)

theorem exists_foundLevels {ds : List Declaration} {before xs : List String}
    {levels : List (String × Nat)} (h : FoundLevels ds lv before levels)
    (hn : (before ++ xs).Nodup)
    (hdep : ∀ pre x post, xs = pre ++ x :: post →
      ∀ y ∈ Declaration.dependenciesOf ds x, y ∈ pre ∨ y ∈ before) :
    ∃ lv', FoundLevels ds lv' (before ++ xs)
      (xs.foldl (fun levels x ↦ (x, nextLevel levels (Declaration.dependenciesOf ds x)) :: levels)
        levels) := by
  induction xs generalizing before levels lv with
  | nil => exact ⟨lv, by simpa using h⟩
  | cons x xs ih =>
      have hx : x ∉ before := fun hx ↦
        (List.nodup_append.1 hn).2.2 x hx x List.mem_cons_self rfl
      obtain ⟨lv₁, h₁⟩ := h.snoc hx fun y hy ↦ by simpa using hdep [] x xs rfl y hy
      have hn' : ((before ++ [x]) ++ xs).Nodup := by simpa using hn
      obtain ⟨lv₂, h₂⟩ := ih h₁ hn' fun pre z post hs y hy ↦ by
        rcases hdep (x :: pre) z post (by rw [hs, List.cons_append]) y hy with hp | hb
        · rcases List.mem_cons.1 hp with rfl | hp
          · exact .inr (by simp)
          · exact .inl hp
        · exact .inr (List.mem_append_left _ hb)
      exact ⟨lv₂, by simpa using h₂⟩

theorem foldl_max_snd {levels : List (String × Nat)}
    (h : ∀ e ∈ levels, e.2 = lv e.1) :
    levels.foldl (fun m e ↦ max m (e.2 + 1)) 0 = levelAbove lv (levels.map Prod.fst) := by
  have hmap : levels.map Prod.snd = (levels.map Prod.fst).map lv := by
    rw [List.map_map]
    exact List.map_congr_left fun e he ↦ h e he
  rw [← foldl_max_eq_levelAbove, ← hmap, List.foldl_map]

def layers (ids : List String) (lv : String → Nat) : List (List String) :=
  (List.range (levelAbove lv ids)).map fun k ↦ ids.filter (fun id ↦ lv id = k)

/-- What the search order gives: levels by the one equation. -/
theorem exists_isLeveling {ds : List Declaration} (hn : (ds.map Declaration.id).Nodup)
    (hb : firstBackward? ds [] (order ds) = none) :
    ∃ lv, IsLeveling ds lv ∧
      groupByLevel (ds.map Declaration.id) (assignLevels ds (order ds)) =
        layers (ds.map Declaration.id) lv := by
  have h₀ : FoundLevels ds (fun _ ↦ 0) [] [] := ⟨rfl, by simp, by simp, by simp⟩
  obtain ⟨lv, h⟩ := exists_foundLevels h₀ (by simpa using nodup_order hn)
    (firstBackward?_eq_none_iff.1 hb)
  change FoundLevels ds lv (order ds) (assignLevels ds (order ds)) at h
  refine ⟨lv, ?_, ?_⟩
  · intro d hd
    rw [h.equation d.id ((mem_order hn).2 (List.mem_map_of_mem hd)), dependenciesOf_eq hn hd]
  · have hdepth : (assignLevels ds (order ds)).foldl (fun m e ↦ max m (e.2 + 1)) 0 =
        levelAbove lv (ds.map Declaration.id) := by
      rw [foldl_max_snd h.entries, h.keys]
      exact levelAbove_eq_of_mem_iff fun x ↦ by rw [List.mem_reverse, mem_order hn]
    simp only [groupByLevel, layers, hdepth]
    refine List.map_congr_left fun k _ ↦ List.filter_congr fun id hid ↦ ?_
    rw [h.levelIn_eq ((mem_order hn).2 hid)]
    simp

/-- Two levelings agree on the declared names. -/
theorem IsLeveling.unique {ds : List Declaration} (h : IsLeveling ds lv) (h' : IsLeveling ds lv')
    (hin : ∀ d ∈ ds, ∀ y ∈ d.dependencies, y ∈ ds.map Declaration.id) :
    ∀ x ∈ ds.map Declaration.id, lv x = lv' x := by
  intro x hx
  induction hk : lv x using Nat.strongRecOn generalizing x with
  | ind k ih =>
      obtain ⟨d, hd, rfl⟩ := List.mem_map.1 hx
      rw [← hk, h d hd, h' d hd]
      apply levelAbove_congr
      intro y hy
      have hlt : lv y < k := by
        rw [← hk, h d hd]
        exact lt_levelAbove hy
      exact ih (lv y) hlt y (hin d hd y hy) rfl

/-- Below every level that is taken all levels are taken. -/
theorem IsLeveling.exists_level {ds : List Declaration} (h : IsLeveling ds lv)
    (hin : ∀ d ∈ ds, ∀ y ∈ d.dependencies, y ∈ ds.map Declaration.id) {k : Nat} {x : String}
    (hx : x ∈ ds.map Declaration.id) (hk : k ≤ lv x) : ∃ y ∈ ds.map Declaration.id, lv y = k := by
  induction hn : lv x using Nat.strongRecOn generalizing x with
  | ind n ih =>
      rcases Nat.eq_or_lt_of_le hk with hk | hk
      · exact ⟨x, hx, hk.symm⟩
      · obtain ⟨d, hd, rfl⟩ := List.mem_map.1 hx
        obtain ⟨y, hy, hlv⟩ := exists_of_levelAbove_pos (h d hd ▸ Nat.zero_lt_of_lt hk)
        rw [← h d hd] at hlv
        exact ih (lv y) (by omega) (hin d hd y hy) (by omega) rfl

/-! ## Which lists of declarations are accepted -/

/-- Names are declared once, no name declares itself or an unknown one, and there is no cycle. -/
structure WellFormed (ds : List Declaration) (resolved : List String) : Prop where
  distinct : (ds.map Declaration.id).Nodup
  proper : ∀ d ∈ ds, ∀ y ∈ d.dependencies,
    y ≠ d.id ∧ (y ∈ ds.map Declaration.id ∨ y ∈ resolved)
  acyclic : Acyclic ds

theorem firstRepeated?_eq_none_iff {seen : List String} :
    firstRepeated? seen xs = none ↔ xs.Nodup ∧ ∀ x ∈ xs, x ∉ seen := by
  induction xs generalizing seen with
  | nil => simp [firstRepeated?]
  | cons x xs ih =>
      by_cases hx : x ∈ seen
      · simp [firstRepeated?, hx]
      · simp only [firstRepeated?, List.contains_iff_mem, hx, if_false, ih, List.nodup_cons,
          List.mem_cons, forall_eq_or_imp, not_or, not_false_eq_true, true_and]
        constructor
        · rintro ⟨hn, hs⟩
          exact ⟨⟨fun hm ↦ (hs x hm).1 rfl, hn⟩, fun y hy ↦ (hs y hy).2⟩
        · rintro ⟨⟨hm, hn⟩, hs⟩
          exact ⟨hn, fun y hy ↦ ⟨fun hyx ↦ hm (hyx ▸ hy), hs y hy⟩⟩

theorem findSome?_declarationError?_eq_none_iff {ds : List Declaration}
    {ids resolved : List String} :
    ds.findSome? (declarationError? ids resolved) = none ↔
      ∀ d ∈ ds, ∀ y ∈ d.dependencies, y ≠ d.id ∧ (y ∈ ids ∨ y ∈ resolved) := by
  simp only [List.findSome?_eq_none_iff, declarationError?, dependencyError?]
  refine forall₂_congr fun d _ ↦ forall₂_congr fun y _ ↦ ?_
  by_cases hy : y = d.id
  · simp [hy]
  · by_cases hm : y ∈ ids ∨ y ∈ resolved <;> simp [hy, hm]

theorem mem_distinct {seen : List String} {x : String} :
    x ∈ distinct seen xs ↔ x ∈ xs ∧ x ∉ seen := by
  induction xs generalizing seen with
  | nil => simp [distinct]
  | cons z xs ih =>
      by_cases hz : z ∈ seen
      · simp only [distinct, List.contains_iff_mem, hz, if_true, ih, List.mem_cons]
        apply and_congr_left
        intro hx
        exact ⟨.inr, fun h ↦ h.resolve_left fun hxz ↦ hx (hxz ▸ hz)⟩
      · by_cases hxz : x = z
        · simp [distinct, hz, hxz]
        · simp [distinct, hz, hxz, ih]

def inside (ds : List Declaration) : List Declaration :=
  let ids := ds.map Declaration.id
  ds.map fun d ↦ { d with dependencies := distinct [] (d.dependencies.filter ids.contains) }

@[simp] theorem map_id_inside (ds : List Declaration) :
    (inside ds).map Declaration.id = ds.map Declaration.id := by
  simp [inside]

theorem declares_inside {ds : List Declaration} {x y : String} :
    Declares (inside ds) x y ↔ Declares ds x y ∧ y ∈ ds.map Declaration.id := by
  simp only [Declares, inside, List.mem_map]
  constructor
  · rintro ⟨_, ⟨d, hd, rfl⟩, rfl, hy⟩
    obtain ⟨hy, hmem⟩ := List.mem_filter.1 (mem_distinct.1 hy).1
    exact ⟨⟨d, hd, rfl, hy⟩, by simpa using hmem⟩
  · rintro ⟨⟨d, hd, rfl, hy⟩, hmem⟩
    refine ⟨_, ⟨d, hd, rfl⟩, rfl, mem_distinct.2 ⟨List.mem_filter.2 ⟨hy, ?_⟩, by simp⟩⟩
    simpa using hmem

/-- A cycle stays inside the list, for each of its names declares the next. -/
theorem acyclic_inside {ds : List Declaration} : Acyclic (inside ds) ↔ Acyclic ds := by
  refine ⟨?_, fun h x hx ↦
    h x (TransGen.mono (fun _ _ hd ↦ (declares_inside.1 hd).1) x x hx)⟩
  intro h x hx
  have hlift : ∀ {z}, TransGen (Declares ds) x z → z ∈ ds.map Declaration.id →
      TransGen (Declares (inside ds)) x z := by
    intro z hz
    induction hz with
    | single hd => exact fun hmem ↦ .single (declares_inside.2 ⟨hd, hmem⟩)
    | tail _ hd ih => exact fun hmem ↦ (ih hd.id_mem).tail (declares_inside.2 ⟨hd, hmem⟩)
  obtain ⟨y, hxy, _⟩ := TransGen.head'_iff.1 hx
  exact h x (hlift hx hxy.id_mem)

theorem mem_of_mem_inside {ds : List Declaration} :
    ∀ d ∈ inside ds, ∀ y ∈ d.dependencies, y ∈ (inside ds).map Declaration.id := by
  intro d hd y hy
  rw [map_id_inside]
  exact (declares_inside.1 ⟨d, hd, rfl, hy⟩).2

theorem isLeveling_inside {ds : List Declaration} :
    IsLeveling (inside ds) lv ↔ ∀ d ∈ ds,
      lv d.id = levelAbove lv (d.dependencies.filter (ds.map Declaration.id).contains) := by
  simp only [IsLeveling, inside, List.forall_mem_map]
  apply forall₂_congr
  intro d _
  rw [levelAbove_eq_of_mem_iff fun x ↦ mem_distinct.trans (and_iff_left (by simp))]

theorem firstBackward?_inside_eq_none_iff {ds : List Declaration}
    (hn : (ds.map Declaration.id).Nodup) :
    firstBackward? (inside ds) [] (order (inside ds)) = none ↔ Acyclic ds := by
  rw [firstBackward?_order_eq_none_iff (by simpa using hn), acyclic_inside]
  intro x y h
  simpa using (declares_inside.1 h).2

/-- A list is well-formed if the search has listed every name after its dependencies. -/
theorem WellFormed.of_order {ds : List Declaration} {resolved : List String}
    (horder : order (inside ds) = xs) (hn : (ds.map Declaration.id).Nodup)
    (hproper : ∀ d ∈ ds, ∀ y ∈ d.dependencies,
      y ≠ d.id ∧ (y ∈ ds.map Declaration.id ∨ y ∈ resolved))
    (hback : firstBackward? (inside ds) [] xs = none) : WellFormed ds resolved := by
  subst horder
  exact ⟨hn, hproper, (firstBackward?_inside_eq_none_iff hn).1 hback⟩

def arranged (ds : List Declaration) : DependencyGraph where
  internal := inside ds
  external := ds.map (keepDependencies (fun x ↦ !(ds.map Declaration.id).contains x))
  levels := groupByLevel (ds.map Declaration.id) (assignLevels (inside ds) (order (inside ds)))

/-- Exactly the well-formed lists are accepted. -/
theorem build_eq_ok_iff {ds : List Declaration} {resolved : List String} {g : DependencyGraph} :
    build ds resolved = .ok g ↔ WellFormed ds resolved ∧ g = arranged ds := by
  simp only [build]
  cases hrep : firstRepeated? [] (ds.map Declaration.id) with
  | some x =>
      simp only [reduceCtorEq, false_iff, not_and]
      intro hwf
      have hnone : firstRepeated? [] (ds.map Declaration.id) = none :=
        firstRepeated?_eq_none_iff.2 ⟨hwf.distinct, by simp⟩
      simp [hnone] at hrep
  | none =>
      have hn := (firstRepeated?_eq_none_iff.1 hrep).1
      cases herr : ds.findSome? (declarationError? (ds.map Declaration.id) resolved) with
      | some e =>
          simp only [reduceCtorEq, false_iff, not_and]
          intro hwf
          simp [findSome?_declarationError?_eq_none_iff.2 hwf.proper] at herr
      | none =>
          have hproper := findSome?_declarationError?_eq_none_iff.1 herr
          have hac := firstBackward?_inside_eq_none_iff hn
          simp only
          split
          next x hback =>
            have hsome : firstBackward? (inside ds) [] (order (inside ds)) = some x := hback
            simp only [reduceCtorEq, false_iff, not_and]
            intro hwf
            simp [hac.2 hwf.acyclic] at hsome
          next hback =>
            have hacyclic : Acyclic ds := hac.1 hback
            rw [Except.ok.injEq]
            exact ⟨fun hg ↦ ⟨⟨hn, hproper, hacyclic⟩, hg.symm⟩, fun hg ↦ hg.2.symm⟩

theorem exists_layers {ds : List Declaration} {resolved : List String}
    (h : WellFormed ds resolved) :
    ∃ lv, IsLeveling (inside ds) lv ∧ (arranged ds).levels = layers (ds.map Declaration.id) lv := by
  have hn : ((inside ds).map Declaration.id).Nodup := by simpa using h.distinct
  have hback := (firstBackward?_inside_eq_none_iff h.distinct).2 h.acyclic
  obtain ⟨lv, hlv, hlevels⟩ := exists_isLeveling hn hback
  rw [map_id_inside] at hlevels
  exact ⟨lv, hlv, hlevels⟩

end DependencyGraph

end Timelock
