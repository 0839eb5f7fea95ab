import Mathlib.Logic.Relation
import Mathlib.Data.List.Nodup
import Timelock.DependencyGraph.Order

/-!
# The order of the depth-first search

A name is finished after all names that depend on it, except for those on which it depends itself.
So a dependency that the search lists behind a name that declares it lies on a cycle, and there is
none exactly when the declarations have no cycle.
-/

namespace Timelock

namespace Declaration

open Relation

variable {ds : List Declaration}

/-- The first name declares a dependency on the second. -/
def Declares (ds : List Declaration) (x y : String) : Prop :=
  ∃ d ∈ ds, d.id = x ∧ y ∈ d.dependencies

/-- No name depends on itself, however indirectly. -/
def Acyclic (ds : List Declaration) : Prop := ∀ x, ¬ TransGen (Declares ds) x x

theorem mem_dependents {x y : String} : x ∈ dependents ds y ↔ Declares ds x y := by
  simp only [dependents, List.mem_reverse, List.mem_map, List.mem_filter, List.contains_iff_mem,
    Declares]
  constructor
  · rintro ⟨d, ⟨hd, hy⟩, rfl⟩
    exact ⟨d, hd, rfl, hy⟩
  · rintro ⟨d, hd, rfl, hy⟩
    exact ⟨d, ⟨hd, hy⟩, rfl⟩

theorem Declares.id_mem {x y : String} (h : Declares ds x y) : x ∈ ds.map Declaration.id := by
  obtain ⟨d, hd, rfl, _⟩ := h
  exact List.mem_map_of_mem hd

theorem eq_of_id_eq (hn : (ds.map Declaration.id).Nodup) {d d' : Declaration} (h : d ∈ ds)
    (h' : d' ∈ ds) (hid : d.id = d'.id) : d = d' :=
  List.inj_on_of_nodup_map hn h h' hid

theorem dependenciesOf_eq (hn : (ds.map Declaration.id).Nodup) {d : Declaration} (h : d ∈ ds) :
    dependenciesOf ds d.id = d.dependencies := by
  unfold dependenciesOf
  split
  next d' hd' =>
    have hid : d'.id = d.id := by simpa using List.find?_some hd'
    rw [eq_of_id_eq hn (List.mem_of_find?_eq_some hd') h hid]
  next hnone =>
    simpa using List.find?_eq_none.1 hnone d h

theorem mem_dependenciesOf (hn : (ds.map Declaration.id).Nodup) {x y : String} :
    y ∈ dependenciesOf ds x ↔ Declares ds x y := by
  constructor
  · intro h
    unfold dependenciesOf at h
    split at h
    next d hd =>
      exact ⟨d, List.mem_of_find?_eq_some hd, by simpa using List.find?_some hd, h⟩
    next => simp at h
  · rintro ⟨d, hd, rfl, hy⟩
    rwa [dependenciesOf_eq hn hd]

/-! ## The invariant of the search -/

/-- Newest first, every name stands before all that depend on it, except for those on which it
depends itself. -/
def Returning (ds : List Declaration) : List String → Prop
  | [] => True
  | x :: xs => (∀ y ∈ dependents ds x, y ∈ xs ∨ TransGen (Declares ds) x y) ∧ Returning ds xs

/-- A discovered name that is not finished stands on the stack.  What is above it depends on it,
and all that depends on it is discovered or above it. -/
structure Search (ds : List Declaration) (stack fresh finished : List String) : Prop where
  known : ∀ x ∈ stack, x ∈ ds.map Declaration.id
  finishedKnown : ∀ x ∈ finished, x ∈ ds.map Declaration.id
  freshNodup : fresh.Nodup
  finishedNodup : finished.Nodup
  trail : ∀ g ∈ ds.map Declaration.id, g ∉ fresh → g ∉ finished →
    ∃ above below, stack = above ++ g :: below ∧ g ∉ above ∧
      (∀ y ∈ dependents ds g, y ∈ fresh → y ∈ above) ∧
        ∀ z ∈ above, TransGen (Declares ds) z g
  returning : Returning ds finished

namespace Search

variable {x g : String} {stack rest fresh finished : List String}

theorem open_mem (h : Search ds stack fresh finished) (hg : g ∈ ds.map Declaration.id)
    (hgf : g ∉ fresh) (hgd : g ∉ finished) : g ∈ stack := by
  obtain ⟨above, below, rfl, _⟩ := h.trail g hg hgf hgd
  simp

/-- The newest name is the one on top, or it stands below the top, which depends on it. -/
theorem trail_cons (h : Search ds (x :: rest) fresh finished) (hg : g ∈ ds.map Declaration.id)
    (hgf : g ∉ fresh) (hgd : g ∉ finished) :
    (g = x ∧ ∀ y ∈ dependents ds g, y ∉ fresh) ∨
      (g ≠ x ∧ TransGen (Declares ds) x g ∧ ∃ above below, rest = above ++ g :: below ∧
        g ∉ above ∧ (∀ y ∈ dependents ds g, y ∈ fresh → y = x ∨ y ∈ above) ∧
          ∀ z ∈ above, TransGen (Declares ds) z g) := by
  obtain ⟨above, below, hs, hnot, hdep, htrail⟩ := h.trail g hg hgf hgd
  cases above with
  | nil =>
      refine .inl ⟨(List.cons.inj hs).1.symm, fun y hy hyf ↦ ?_⟩
      simpa using hdep y hy hyf
  | cons z above =>
      obtain ⟨rfl, rfl⟩ := List.cons.inj hs
      rw [List.mem_cons, not_or] at hnot
      exact .inr ⟨hnot.1, htrail x List.mem_cons_self, above, below, rfl, hnot.2,
        fun y hy hyf ↦ List.mem_cons.1 (hdep y hy hyf),
        fun z hz ↦ htrail z (List.mem_cons_of_mem _ hz)⟩

theorem discover (h : Search ds (x :: rest) fresh finished) (hx : x ∈ fresh) :
    Search ds (((dependents ds x).filter (fresh.erase x).contains).reverse ++ x :: rest)
      (fresh.erase x) finished := by
  have hpushed : ∀ z ∈ ((dependents ds x).filter (fresh.erase x).contains).reverse,
      Declares ds z x ∧ z ≠ x ∧ z ∈ fresh := by
    intro z hz
    obtain ⟨hdep, hleft⟩ := List.mem_filter.1 (List.mem_reverse.1 hz)
    exact ⟨mem_dependents.1 hdep, h.freshNodup.mem_erase_iff.1 (by simpa using hleft)⟩
  refine ⟨?_, h.finishedKnown, h.freshNodup.erase x, h.finishedNodup, ?_, h.returning⟩
  · intro z hz
    rcases List.mem_append.1 hz with hz | hz
    · exact (hpushed z hz).1.id_mem
    · exact h.known z hz
  · intro g hg hgf hgd
    by_cases hne : g = x
    · subst hne
      refine ⟨_, rest, rfl, fun hmem ↦ (hpushed g hmem).2.1 rfl, ?_, ?_⟩
      · intro y hy hyf
        exact List.mem_reverse.2 (List.mem_filter.2 ⟨hy, by simpa using hyf⟩)
      · exact fun z hz ↦ .single (hpushed z hz).1
    · have hopen : g ∉ fresh := fun hf ↦ hgf (h.freshNodup.mem_erase_iff.2 ⟨hne, hf⟩)
      rcases h.trail_cons hg hopen hgd with
        ⟨heq, _⟩ | ⟨_, hxg, above, below, rfl, hnot, hdep, htrail⟩
      · exact absurd heq hne
      refine ⟨((dependents ds x).filter (fresh.erase x).contains).reverse ++ x :: above, below,
        by simp, ?_, ?_, ?_⟩
      · rw [List.mem_append, List.mem_cons, not_or, not_or]
        exact ⟨fun hmem ↦ hopen (hpushed g hmem).2.2, hne, hnot⟩
      · intro y hy hyf
        refine List.mem_append_right _ (List.mem_cons.2 ?_)
        exact hdep y hy (h.freshNodup.mem_erase_iff.1 hyf).2
      · intro z hz
        rcases List.mem_append.1 hz with hz | hz
        · exact .head (hpushed z hz).1 hxg
        · rcases List.mem_cons.1 hz with rfl | hz
          · exact hxg
          · exact htrail z hz

theorem finish (h : Search ds (x :: rest) fresh finished) (hx : x ∉ fresh) :
    Search ds rest fresh (if finished.contains x then finished else x :: finished) := by
  have hx' : x ∈ ds.map Declaration.id := h.known x List.mem_cons_self
  have hmem : ∀ y, y ∈ (if finished.contains x then finished else x :: finished) ↔
      y = x ∨ y ∈ finished := by
    intro y
    split
    next hc => exact ⟨.inr, fun hy ↦ hy.elim (fun heq ↦ heq ▸ by simpa using hc) fun hd ↦ hd⟩
    next => exact List.mem_cons
  refine ⟨fun z hz ↦ h.known z (List.mem_cons_of_mem _ hz), ?_, h.freshNodup, ?_, ?_, ?_⟩
  · intro y hy
    rcases (hmem y).1 hy with rfl | hy
    · exact hx'
    · exact h.finishedKnown y hy
  · split
    next => exact h.finishedNodup
    next hc => exact List.nodup_cons.2 ⟨by simpa using hc, h.finishedNodup⟩
  · intro g hg hgf hgd
    rw [hmem, not_or] at hgd
    rcases h.trail_cons hg hgf hgd.2 with ⟨heq, _⟩ | ⟨_, _, above, below, hs, hnot, hdep, htrail⟩
    · exact absurd heq hgd.1
    · refine ⟨above, below, hs, hnot, fun y hy hyf ↦ (hdep y hy hyf).resolve_left ?_, htrail⟩
      rintro rfl
      exact hx hyf
  · split
    next => exact h.returning
    next hc =>
      have hxd : x ∉ finished := by simpa using hc
      refine ⟨fun y hy ↦ ?_, h.returning⟩
      -- What depends on the finished name has been discovered.  It is finished as well, or it
      -- stands on the stack, where the finished name has been above it.
      have hdiscovered : y ∉ fresh := by
        rcases h.trail_cons hx' hx hxd with ⟨_, hdep⟩ | ⟨hne, _⟩
        · exact hdep y hy
        · exact absurd rfl hne
      by_cases hyd : y ∈ finished
      · exact .inl hyd
      · have hdec : Declares ds y x := mem_dependents.1 hy
        rcases h.trail_cons hdec.id_mem hdiscovered hyd with ⟨rfl, _⟩ | ⟨_, hxy, _⟩
        · exact .inr (.single hdec)
        · exact .inr hxy

theorem start (h : Search ds [] fresh finished) (hx : x ∈ ds.map Declaration.id) :
    Search ds [x] fresh finished where
  known := by simpa using hx
  finishedKnown := h.finishedKnown
  freshNodup := h.freshNodup
  finishedNodup := h.finishedNodup
  trail g hg hgf hgd := absurd (h.open_mem hg hgf hgd) (by simp)
  returning := h.returning

end Search

theorem explore_spec {stack fresh finished : List String} (h : Search ds stack fresh finished) :
    Search ds [] (explore ds stack fresh finished).1 (explore ds stack fresh finished).2 ∧
      (∀ x ∈ (explore ds stack fresh finished).1, x ∈ fresh) ∧
        ∀ x ∈ stack, x ∉ (explore ds stack fresh finished).1 := by
  fun_induction explore ds stack fresh finished with
  | case1 fresh finished => exact ⟨h, fun _ hx ↦ hx, by simp⟩
  | case2 fresh finished x rest hx left above ih =>
      obtain ⟨hs, hsub, hleft⟩ := ih (h.discover hx)
      refine ⟨hs, fun y hy ↦ List.mem_of_mem_erase (hsub y hy), ?_⟩
      intro y hy
      exact hleft y (List.mem_append_right _ hy)
  | case3 fresh finished x rest hx ih =>
      obtain ⟨hs, hsub, hleft⟩ := ih (h.finish hx)
      refine ⟨hs, hsub, ?_⟩
      intro y hy
      rcases List.mem_cons.1 hy with rfl | hy
      · exact fun hf ↦ hx (hsub y hf)
      · exact hleft y hy

theorem search_searchAll {xs : List String} (hxs : ∀ x ∈ xs, x ∈ ds.map Declaration.id)
    {fresh finished : List String} (h : Search ds [] fresh finished) :
    ∃ left, Search ds [] left (searchAll ds xs (fresh, finished)) ∧
      (∀ x ∈ left, x ∈ fresh) ∧ ∀ x ∈ xs, x ∉ left := by
  induction xs generalizing fresh finished with
  | nil => exact ⟨fresh, h, fun _ hx ↦ hx, by simp⟩
  | cons x xs ih =>
      -- A name that is discovered already is passed over.
      obtain ⟨fresh', finished', heq, hs, hsub, hgone⟩ : ∃ fresh' finished',
          searchAll ds (x :: xs) (fresh, finished) = searchAll ds xs (fresh', finished') ∧
            Search ds [] fresh' finished' ∧ (∀ y ∈ fresh', y ∈ fresh) ∧ x ∉ fresh' := by
        by_cases hx : x ∈ fresh
        · obtain ⟨hs, hsub, hgone⟩ := explore_spec (h.start (hxs x List.mem_cons_self))
          exact ⟨_, _, by simp [searchAll, hx], hs, hsub, hgone x List.mem_cons_self⟩
        · exact ⟨fresh, finished, by simp [searchAll, hx], h, fun _ hy ↦ hy, hx⟩
      obtain ⟨left, hleft, hlsub, hlgone⟩ := ih (fun y hy ↦ hxs y (List.mem_cons_of_mem _ hy)) hs
      refine ⟨left, heq ▸ hleft, fun y hy ↦ hsub y (hlsub y hy), ?_⟩
      intro y hy
      rcases List.mem_cons.1 hy with rfl | hy
      · exact fun hl ↦ hgone (hlsub y hl)
      · exact hlgone y hy

/-! ## The order found -/

section Order

variable (hn : (ds.map Declaration.id).Nodup)

include hn

theorem search_order :
    ∃ left, Search ds [] left (order ds) ∧ ∀ x ∈ ds.map Declaration.id, x ∉ left := by
  have h : Search ds [] (ds.map Declaration.id) [] :=
    ⟨by simp, by simp, hn, by simp, fun g hg hgf _ ↦ absurd hg hgf, trivial⟩
  obtain ⟨left, hs, _, hgone⟩ := search_searchAll (fun x hx ↦ hx) h
  exact ⟨left, hs, hgone⟩

theorem nodup_order : (order ds).Nodup := by
  obtain ⟨_, hs, _⟩ := search_order hn
  exact hs.finishedNodup

theorem mem_order {x : String} : x ∈ order ds ↔ x ∈ ds.map Declaration.id := by
  obtain ⟨left, hs, hgone⟩ := search_order hn
  refine ⟨hs.finishedKnown x, ?_⟩
  intro hx
  by_contra hno
  simpa using hs.open_mem hx (hgone x hx) hno

theorem returning_order : Returning ds (order ds) := by
  obtain ⟨_, hs, _⟩ := search_order hn
  exact hs.returning

end Order

theorem Returning.of_append {before : List String} {x : String} {after : List String}
    (h : Returning ds (before ++ x :: after)) :
    ∀ y ∈ dependents ds x, y ∈ after ∨ TransGen (Declares ds) x y := by
  induction before with
  | nil => exact h.1
  | cons z before ih => exact ih h.2

/-! ## Dependencies that point backward -/

theorem exists_of_firstBackward?_eq_some {before xs : List String} {y : String}
    (h : firstBackward? ds before xs = some y) :
    ∃ pre x post, xs = pre ++ x :: post ∧ y ∈ dependenciesOf ds x ∧ y ∉ pre ∧ y ∉ before := by
  induction xs generalizing before with
  | nil => simp [firstBackward?] at h
  | cons z xs ih =>
      simp only [firstBackward?] at h
      split at h
      next d hd =>
        obtain rfl : d = y := Option.some.inj h
        exact ⟨[], z, xs, rfl, List.mem_of_find?_eq_some hd, by simp,
          by simpa using List.find?_some hd⟩
      next =>
        obtain ⟨pre, x, post, rfl, hy, hpre, hbefore⟩ := ih h
        rw [List.mem_cons, not_or] at hbefore
        refine ⟨z :: pre, x, post, rfl, hy, ?_, hbefore.2⟩
        rw [List.mem_cons, not_or]
        exact ⟨hbefore.1, hpre⟩

/-- No name of the list stands before one of its dependencies. -/
theorem firstBackward?_eq_none_iff {before xs : List String} :
    firstBackward? ds before xs = none ↔
      ∀ pre x post, xs = pre ++ x :: post → ∀ y ∈ dependenciesOf ds x, y ∈ pre ∨ y ∈ before := by
  induction xs generalizing before with
  | nil => simp [firstBackward?]
  | cons z xs ih =>
      simp only [firstBackward?]
      split
      next d hd =>
        simp only [reduceCtorEq, false_iff]
        intro h
        have hb : d ∉ before := by simpa using List.find?_some hd
        simpa [hb] using h [] z xs rfl d (List.mem_of_find?_eq_some hd)
      next hnone =>
        rw [ih]
        constructor
        · intro h pre x post hs y hy
          cases pre with
          | nil =>
              obtain ⟨rfl, rfl⟩ := List.cons.inj hs
              exact .inr (by simpa using List.find?_eq_none.1 hnone y hy)
          | cons w pre =>
              obtain ⟨rfl, rfl⟩ := List.cons.inj hs
              rcases h pre x post rfl y hy with hp | hb
              · exact .inl (List.mem_cons_of_mem _ hp)
              · rcases List.mem_cons.1 hb with rfl | hb
                · exact .inl List.mem_cons_self
                · exact .inr hb
        · rintro h pre x post rfl y hy
          rcases h (z :: pre) x post rfl y hy with hp | hb
          · rcases List.mem_cons.1 hp with rfl | hp
            · exact .inr List.mem_cons_self
            · exact .inl hp
          · exact .inr (List.mem_cons_of_mem _ hb)

/-- Along a list in which nothing points backward, dependencies have smaller positions. -/
theorem idxOf_lt_of_declares (hn : (ds.map Declaration.id).Nodup)
    (hb : firstBackward? ds [] (order ds) = none) {x y : String} (h : Declares ds x y) :
    (order ds).idxOf y < (order ds).idxOf x := by
  obtain ⟨pre, post, hs⟩ := List.append_of_mem ((mem_order hn).2 h.id_mem)
  have hy : y ∈ pre := by
    simpa using firstBackward?_eq_none_iff.1 hb pre x post hs y ((mem_dependenciesOf hn).2 h)
  have hx : x ∉ pre := by
    have hnd := nodup_order hn
    rw [hs, List.nodup_append] at hnd
    exact fun hx ↦ hnd.2.2 x hx x List.mem_cons_self rfl
  rw [hs, List.idxOf_append_of_mem hy, List.idxOf_append_of_notMem hx]
  exact Nat.lt_of_lt_of_le (List.idxOf_lt_length_iff.2 hy) (Nat.le_add_right _ _)

/-- A dependency that points backward lies on a cycle: it has finished before a name that depends on
it, so it depends on that name in turn. -/
theorem transGen_of_firstBackward?_order (hn : (ds.map Declaration.id).Nodup)
    (hin : ∀ x y, Declares ds x y → y ∈ ds.map Declaration.id) {y : String}
    (h : firstBackward? ds [] (order ds) = some y) : TransGen (Declares ds) y y := by
  obtain ⟨pre, x, post, hs, hy, hpre, _⟩ := exists_of_firstBackward?_eq_some h
  have hdec : Declares ds x y := (mem_dependenciesOf hn).1 hy
  have hmem : y ∈ pre ++ x :: post := hs ▸ (mem_order hn).2 (hin x y hdec)
  rcases List.mem_cons.1 ((List.mem_append.1 hmem).resolve_left hpre) with rfl | hpost
  · exact .single hdec
  obtain ⟨mid, rest, rfl⟩ := List.append_of_mem hpost
  have hreturning : Returning ds ((pre ++ x :: mid) ++ y :: rest) := by
    simpa [hs] using returning_order hn
  refine ((hreturning.of_append x (mem_dependents.2 hdec)).resolve_left fun hrest ↦ ?_).tail hdec
  have hnd := nodup_order hn
  rw [hs, List.nodup_append, List.nodup_cons] at hnd
  exact hnd.2.1.1 (List.mem_append_right _ (List.mem_cons_of_mem _ hrest))

/-- The search finds nothing that points backward exactly when there is no cycle. -/
theorem firstBackward?_order_eq_none_iff (hn : (ds.map Declaration.id).Nodup)
    (hin : ∀ x y, Declares ds x y → y ∈ ds.map Declaration.id) :
    firstBackward? ds [] (order ds) = none ↔ Acyclic ds := by
  constructor
  · intro hb x hx
    have hlt : ∀ {y}, TransGen (Declares ds) x y → (order ds).idxOf y < (order ds).idxOf x := by
      intro y hy
      induction hy with
      | single h => exact idxOf_lt_of_declares hn hb h
      | tail _ h ih => exact Nat.lt_trans (idxOf_lt_of_declares hn hb h) ih
    exact Nat.lt_irrefl _ (hlt hx)
  · intro hac
    refine Option.eq_none_iff_forall_ne_some.2 fun y hy ↦ ?_
    exact hac y (transGen_of_firstBackward?_order hn hin hy)

/-! ## Short lists -/

theorem order_singleton (x : String) : order [⟨x, []⟩] = [x] := by
  simp [order, searchAll, explore, dependents]

theorem order_pair {x y : String} (h : x ≠ y) : order [⟨x, [y]⟩, ⟨y, []⟩] = [y, x] := by
  simp [order, searchAll, explore, dependents, h, h.symm]

end Declaration

end Timelock
