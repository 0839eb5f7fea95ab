import Timelock.Proofs.TreeShape

/-!
# Paths and the nodes they reach

The paths listed for a level are exactly those that reach a node of that level, each of them once,
so there are as many as the level has nodes.  Below a node there are only nodes of deeper levels.
-/

namespace Timelock

/-- A walk along the positions of a list that only looks at what stands there. -/
theorem flatMap_zipIdx {α β : Type} (f : α → List β) (xs : List α) :
    xs.zipIdx.flatMap (fun x ↦ f x.1) = xs.flatMap f := by
  rw [← List.flatMap_map Prod.fst f, List.zipIdx_map_fst]

namespace DecodedProposal

/-- The number of nodes of a level. -/
def nodeCount (d : DecodedProposal) : Level → Nat
  | .proposal => 1
  | .batchOperation => d.batches.length
  | .call => d.callCount
  | .parameter => d.parameterCount

end DecodedProposal

namespace NodePath

variable {t : AnalyzedProposal} {p q : NodePath} {l : Level}

/-! ## Which paths are listed -/

theorem mem_sidePaths {b c n : Nat} {d : Direction} :
    p ∈ sidePaths b c d n ↔ ∃ i < n, p = .parameter b c d i := by
  simp [sidePaths, eq_comm]

theorem mem_parameterPaths {b c : Nat} {x : AnalyzedCall} :
    p ∈ parameterPaths b c x ↔ ∃ d i, i < (x.node.side d).length ∧ p = .parameter b c d i := by
  simp only [parameterPaths, List.mem_append, mem_sidePaths]
  constructor
  · rintro (⟨i, hi, rfl⟩ | ⟨i, hi, rfl⟩)
    · exact ⟨.input, i, hi, rfl⟩
    · exact ⟨.output, i, hi, rfl⟩
  · rintro ⟨d, i, hi, rfl⟩
    cases d with
    | input => exact .inl ⟨i, hi, rfl⟩
    | output => exact .inr ⟨i, hi, rfl⟩

theorem mem_callPaths {b : Nat} {x : AnalyzedBatch} :
    p ∈ callPaths b x ↔ ∃ c < x.node.calls.length, p = .call b c := by
  simp [callPaths, eq_comm]

theorem level_of_mem_allAt (h : p ∈ allAt t l) : p.level = l := by
  cases l with
  | proposal => simp [allAt] at h; subst h; rfl
  | batchOperation =>
      simp only [allAt, List.mem_map] at h
      obtain ⟨b, _, rfl⟩ := h
      rfl
  | call =>
      simp only [allAt, List.mem_flatMap, mem_callPaths] at h
      obtain ⟨_, _, _, _, rfl⟩ := h
      rfl
  | parameter =>
      simp only [allAt, List.mem_flatMap, mem_parameterPaths] at h
      obtain ⟨_, _, _, _, _, _, _, rfl⟩ := h
      rfl

/-- The paths of a level are those that reach a node. -/
theorem mem_allAt_iff : p ∈ allAt t p.level ↔ (p.annotations? t).isSome := by
  cases p with
  | proposal => simp [allAt, annotations?, level]
  | batch b => simp [allAt, annotations?, level, batchAt?]
  | call b c =>
      simp only [allAt, level, List.mem_flatMap, mem_callPaths, call.injEq, annotations?,
        Option.isSome_map, callAt?, batchAt?, Option.bind_eq_bind]
      constructor
      · rintro ⟨⟨x, b'⟩, hx, c', hc, rfl, rfl⟩
        rw [List.mem_zipIdx_iff_getElem?] at hx
        simpa [hx] using hc
      · intro h
        cases hx : t.node.batches[b]? with
        | none => simp [hx] at h
        | some x =>
            refine ⟨(x, b), List.mem_zipIdx_iff_getElem?.2 hx, c, ?_, rfl, rfl⟩
            simpa [hx] using h
  | parameter b c d i =>
      simp only [allAt, level, List.mem_flatMap, mem_parameterPaths, parameter.injEq,
        annotations?, Option.isSome_map, parameterAt?, callAt?, batchAt?, Option.bind_eq_bind]
      constructor
      · rintro ⟨⟨x, b'⟩, hx, ⟨y, c'⟩, hy, d', i', hi, rfl, rfl, rfl, rfl⟩
        rw [List.mem_zipIdx_iff_getElem?] at hx hy
        simp only at hx hy
        simpa [hx, hy] using hi
      · intro h
        cases hx : t.node.batches[b]? with
        | none => simp [hx] at h
        | some x =>
            cases hy : x.node.calls[c]? with
            | none => simp [hx, hy] at h
            | some y =>
                refine ⟨(x, b), List.mem_zipIdx_iff_getElem?.2 hx, (y, c),
                  List.mem_zipIdx_iff_getElem?.2 hy, d, i, ?_, rfl, rfl, rfl, rfl⟩
                simpa [hx, hy] using h

theorem nodup_sidePaths (b c n : Nat) (d : Direction) : (sidePaths b c d n).Nodup :=
  List.nodup_range.map fun i j h ↦ by simpa using h

theorem nodup_parameterPaths (b c : Nat) (x : AnalyzedCall) : (parameterPaths b c x).Nodup := by
  refine List.nodup_append.2 ⟨nodup_sidePaths .., nodup_sidePaths .., ?_⟩
  intro p hp q hq h
  obtain ⟨i, _, rfl⟩ := mem_sidePaths.1 hp
  obtain ⟨j, _, rfl⟩ := mem_sidePaths.1 hq
  cases h

theorem nodup_callPaths (b : Nat) (x : AnalyzedBatch) : (callPaths b x).Nodup :=
  List.nodup_range.map fun i j h ↦ by simpa using h

/-- The indices of a list are distinct, so lists that mention them share nothing. -/
theorem nodup_flatMap_zipIdx {α : Type} (xs : List α) (f : α × Nat → List NodePath)
    (hf : ∀ x, (f x).Nodup) (hd : ∀ x y p, p ∈ f x → p ∈ f y → x.2 = y.2) :
    (xs.zipIdx.flatMap f).Nodup := by
  refine List.nodup_flatMap.2 ⟨fun x _ ↦ hf x, ?_⟩
  have hi : (xs.zipIdx.map Prod.snd).Nodup := by
    rw [List.zipIdx_map_snd]
    exact List.nodup_range'
  rw [List.Nodup, List.pairwise_map] at hi
  exact hi.imp fun hne p hx hy ↦ hne (hd _ _ p hx hy)

theorem nodup_allAt (t : AnalyzedProposal) (l : Level) : (allAt t l).Nodup := by
  cases l with
  | proposal => simp [allAt]
  | batchOperation => exact List.nodup_range.map fun i j h ↦ by simpa using h
  | call =>
      refine nodup_flatMap_zipIdx _ _ (fun x ↦ nodup_callPaths x.2 x.1) ?_
      intro x y p hx hy
      obtain ⟨_, _, rfl⟩ := mem_callPaths.1 hx
      obtain ⟨_, _, h⟩ := mem_callPaths.1 hy
      exact (call.inj h).1
  | parameter =>
      refine nodup_flatMap_zipIdx _ _ ?_ ?_
      · intro x
        refine nodup_flatMap_zipIdx _ _ (fun y ↦ nodup_parameterPaths x.2 y.2 y.1) ?_
        intro y z p hy hz
        obtain ⟨_, _, _, rfl⟩ := mem_parameterPaths.1 hy
        obtain ⟨_, _, _, h⟩ := mem_parameterPaths.1 hz
        exact (parameter.inj h).2.1
      · intro x y p hx hy
        obtain ⟨_, _, hx⟩ := List.mem_flatMap.1 hx
        obtain ⟨_, _, hy⟩ := List.mem_flatMap.1 hy
        obtain ⟨_, _, _, rfl⟩ := mem_parameterPaths.1 hx
        obtain ⟨_, _, _, h⟩ := mem_parameterPaths.1 hy
        exact (parameter.inj h).1

/-! ## How many paths are listed -/

theorem length_flatMap_zipIdx {α β γ : Type} {xs : List α} {f : α → List γ} {g : α × Nat → List β}
    (h : ∀ x i, (g (x, i)).length = (f x).length) :
    (xs.zipIdx.flatMap g).length = (xs.flatMap f).length := by
  have hg : (fun x ↦ (g x).length) = (fun x ↦ (f x).length) ∘ Prod.fst :=
    funext fun x ↦ h x.1 x.2
  rw [List.length_flatMap, List.length_flatMap, hg, ← List.map_map, List.zipIdx_map_fst]

theorem calls_decoded (t : AnalyzedProposal) :
    DecodedProposal.calls t.decoded = t.node.batches.flatMap fun x ↦ x.decoded.calls := by
  simp [DecodedProposal.calls, AnalyzedProposal.decoded, CallTree.map, List.flatMap_map]

/-- Every node of a level has one path. -/
theorem length_allAt (t : AnalyzedProposal) (l : Level) :
    (allAt t l).length = t.decoded.nodeCount l := by
  cases l with
  | proposal => rfl
  | batchOperation =>
      simp [allAt, DecodedProposal.nodeCount, AnalyzedProposal.decoded, CallTree.map]
  | call =>
      rw [DecodedProposal.nodeCount, DecodedProposal.callCount, calls_decoded]
      refine length_flatMap_zipIdx fun x b ↦ ?_
      simp [callPaths, AnalyzedBatch.decoded, CallBatch.map]
  | parameter =>
      rw [DecodedProposal.nodeCount, DecodedProposal.parameterCount, calls_decoded,
        List.flatMap_assoc]
      refine length_flatMap_zipIdx fun x b ↦ ?_
      rw [AnalyzedBatch.decoded, CallBatch.map, List.flatMap_map]
      refine length_flatMap_zipIdx fun y c ↦ ?_
      simp [parameterPaths, sidePaths, AnalyzedCall.decoded, Call.map]

/-! ## What a path resolves to -/

theorem isSome_resolve (t : AnalyzedProposal) (p : NodePath) :
    (NodeScope.resolve t p).isSome = (p.annotations? t).isSome := by
  cases p with
  | proposal => rfl
  | batch b => cases h : batchAt? t b <;> simp [NodeScope.resolve, annotations?, h]
  | call b c =>
      cases h : batchAt? t b <;> cases hc : callAt? t b c <;>
        simp_all [NodeScope.resolve, annotations?, callAt?]
  | parameter b c d i =>
      cases h : batchAt? t b <;> cases hc : callAt? t b c <;> cases hp : parameterAt? t b c d i <;>
        simp_all [NodeScope.resolve, annotations?, callAt?, parameterAt?]

/-! ## What lies below a path -/

theorem rank_level_of_mem_callSubtree {b c : Nat} (h : q ∈ callSubtree t b c) :
    q = .call b c ∨ q.level = .parameter := by
  unfold callSubtree at h
  split at h
  next x _ =>
    rcases List.mem_append.1 h with h | h
    · obtain ⟨d, i, _, rfl⟩ := mem_parameterPaths.1 h
      exact .inr rfl
    · exact .inl (List.mem_singleton.1 h)
  next => exact .inl (List.mem_singleton.1 h)

theorem rank_level_of_mem_batchSubtree {b : Nat} (h : q ∈ batchSubtree t b) :
    q = .batch b ∨ Level.batchOperation.rank < q.level.rank := by
  unfold batchSubtree at h
  split at h
  next x _ =>
    rcases List.mem_append.1 h with h | h
    · obtain ⟨c, _, h⟩ := List.mem_flatMap.1 h
      rcases rank_level_of_mem_callSubtree h with rfl | h
      · exact .inr Nat.one_lt_two
      · exact .inr (by rw [h]; decide)
    · exact .inl (List.mem_singleton.1 h)
  next => exact .inl (List.mem_singleton.1 h)

/-- Below a path there are only paths of deeper levels. -/
theorem eq_or_rank_lt_of_mem_subtree (h : q ∈ p.subtree t) :
    q = p ∨ p.level.rank < q.level.rank := by
  cases p with
  | proposal =>
      rcases List.mem_append.1 h with h | h
      · obtain ⟨b, _, h⟩ := List.mem_flatMap.1 h
        rcases rank_level_of_mem_batchSubtree h with rfl | h
        · exact .inr Nat.zero_lt_one
        · exact .inr (Nat.lt_trans Nat.zero_lt_one h)
      · exact .inl (List.mem_singleton.1 h)
  | batch b => exact rank_level_of_mem_batchSubtree h
  | call b c =>
      rcases rank_level_of_mem_callSubtree h with rfl | h
      · exact .inl rfl
      · exact .inr (h ▸ Nat.lt_succ_self 2)
  | parameter b c d i => exact .inl (List.mem_singleton.1 h)

end NodePath

end Timelock
