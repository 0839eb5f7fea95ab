import Mathlib.Data.Set.Basic
import Mathlib.Order.Bounds.Defs
import Timelock.Environment
import Timelock.Proposal

/-!
# Unknown chains

A directory loads an environment for the chains that are asked for, unless it does not know one of
them.  Of the chains that it does not know it reports the smallest.
-/

namespace Timelock

variable {dir : ChainDirectory} {cs : Selectors} {k : UInt64}

namespace Selectors

theorem mem_insertAscending_iff {a b : UInt64} {bs : List UInt64} :
    b ∈ insertAscending a bs ↔ b = a ∨ b ∈ bs :=
  mem_insertAscending fun _ _ hab hba ↦
    UInt64.le_antisymm (UInt64.not_lt.1 hba) (UInt64.not_lt.1 hab)

theorem mem_ofList {ks : List UInt64} : k ∈ (ofList ks).toList ↔ k ∈ ks := by
  have hfold : ∀ s : Selectors, k ∈ (ks.foldl insert s).toList ↔ k ∈ s.toList ∨ k ∈ ks := by
    induction ks with
    | nil => simp
    | cons a ks ih =>
        intro s
        rw [List.foldl_cons, ih]
        simp only [insert, mem_insertAscending_iff, List.mem_cons]
        exact or_assoc.trans or_left_comm
  rw [ofList, hfold]
  simp [empty]

end Selectors

namespace Proposal

/-- The chains of a proposal, each once and in ascending order. -/
theorem mem_chainSelectors {p : Proposal} :
    k ∈ p.chainSelectors.toList ↔ ∃ b ∈ p.operations, b.chainSelector = k := by
  rw [chainSelectors, Selectors.mem_ofList, List.mem_map]

end Proposal

namespace ChainDirectory

/-- The chains asked for that a directory does not know. -/
def unknown (dir : ChainDirectory) (cs : Selectors) : Set UInt64 :=
  {k | k ∈ cs.toList ∧ k ∉ dir.chainSelectors.toList}

theorem mem_unknown_iff : k ∈ dir.unknown cs ↔ k ∈ cs.toList ∧ !dir.chainSelectors.contains k := by
  simp [unknown, Selectors.contains]

theorem isLeast_of_find? (h : cs.toList.find? (fun c ↦ !dir.chainSelectors.contains c) = some k) :
    IsLeast (dir.unknown cs) k := by
  obtain ⟨hk, as, bs, hsplit, hbefore⟩ := List.find?_eq_some_iff_append.1 h
  refine ⟨mem_unknown_iff.2 ⟨by simp [hsplit], hk⟩, fun k' hk' ↦ ?_⟩
  obtain ⟨hmem, hunknown⟩ := mem_unknown_iff.1 hk'
  have hascending := cs.ascending
  rw [hsplit] at hmem hascending
  rcases List.mem_append.1 hmem with hmem | hmem
  · simpa [hunknown] using hbefore k' hmem
  · rcases List.mem_cons.1 hmem with rfl | hmem
    · exact UInt64.le_refl _
    · have hafter := (List.pairwise_append.1 hascending).2.1
      exact UInt64.le_of_lt ((List.pairwise_cons.1 hafter).1 k' hmem)

/-- Loading fails exactly if a chain is unknown, and reports the smallest such chain. -/
theorem load_eq_error_iff {domain name : String} {y : EnvironmentError} :
    dir.load domain name (some cs) = .error y ↔
      ∃ k, y = .unknownChain k ∧ IsLeast (dir.unknown cs) k := by
  simp only [load]
  cases hfind : cs.toList.find? (fun c ↦ !dir.chainSelectors.contains c) with
  | none =>
      simp only [reduceCtorEq, false_iff, not_exists, not_and]
      rintro k rfl hk
      obtain ⟨hmem, hunknown⟩ := mem_unknown_iff.1 hk.1
      simpa [hunknown] using List.find?_eq_none.1 hfind k hmem
  | some m =>
      have hm := isLeast_of_find? hfind
      simp only [Except.error.injEq]
      constructor
      · rintro rfl
        exact ⟨m, rfl, hm⟩
      · rintro ⟨k, rfl, hk⟩
        rw [UInt64.le_antisymm (hm.2 hk.1) (hk.2 hm.1)]

theorem exists_load_eq_error_iff {domain name : String} :
    (∃ y, dir.load domain name (some cs) = .error y) ↔ (dir.unknown cs).Nonempty := by
  constructor
  · rintro ⟨y, hy⟩
    obtain ⟨k, _, hk⟩ := load_eq_error_iff.1 hy
    exact ⟨k, hk.1⟩
  · rintro ⟨k, hk⟩
    obtain ⟨hmem, hunknown⟩ := mem_unknown_iff.1 hk
    cases hload : dir.load domain name (some cs) with
    | error y => exact ⟨y, rfl⟩
    | ok environment =>
        simp only [load] at hload
        split at hload
        · cases hload
        next hfind => simpa [hunknown] using List.find?_eq_none.1 hfind k hmem

end ChainDirectory

end Timelock
