import Timelock.Proofs.TreePaths

/-!
# The nodes of a tree in post-order

The nodes of a tree are listed with descendants first.  Each level is listed in the same order, and
what stands at a node and below it is one contiguous part of the list.
-/

namespace Timelock

section Lists

variable {α β : Type}

/-- A walk along the positions of a list, with a look-up at each, is a walk along the list. -/
theorem flatMap_range_length {xs : List α} {f : Nat → List β} {g : α × Nat → List β}
    (h : ∀ i x, xs[i]? = some x → f i = g (x, i)) :
    (List.range xs.length).flatMap f = xs.zipIdx.flatMap g := by
  have hrange : List.range xs.length = xs.zipIdx.map Prod.snd := by
    rw [List.zipIdx_map_snd, List.range_eq_range']
  rw [hrange, List.flatMap_map]
  exact List.flatMap_congr fun x hx ↦ h x.2 x.1 (List.mem_zipIdx_iff_getElem?.1 hx)

theorem map_range_length (f : Nat → β) (xs : List α) :
    (List.range xs.length).map f = xs.zipIdx.map (fun x ↦ f x.2) := by
  rw [List.range_eq_range', ← List.zipIdx_map_snd, List.map_map]
  rfl

theorem isInfix_flatMap {xs : List α} {x : α} (h : x ∈ xs) (f : α → List β) :
    f x <:+: xs.flatMap f := by
  obtain ⟨before, after, rfl⟩ := List.append_of_mem h
  exact ⟨before.flatMap f, after.flatMap f, by simp⟩

/-- A contiguous part without repetition is cut out by its members. -/
theorem filter_eq_of_part {xs ys : List α} {p : α → Bool} (h : ys <:+: xs) (hn : xs.Nodup)
    (hp : ∀ x ∈ xs, p x = true ↔ x ∈ ys) : xs.filter p = ys := by
  obtain ⟨before, after, rfl⟩ := h
  rw [List.nodup_append, List.nodup_append] at hn
  have hbefore : before.filter p = [] := by
    refine List.filter_eq_nil_iff.2 fun x hx hpx ↦ ?_
    exact hn.1.2.2 x hx x ((hp x (by simp [hx])).1 hpx) rfl
  have hafter : after.filter p = [] := by
    refine List.filter_eq_nil_iff.2 fun x hx hpx ↦ ?_
    exact hn.2.2 x (List.mem_append_right _ ((hp x (by simp [hx])).1 hpx)) x hx rfl
  have hys : ys.filter p = ys :=
    List.filter_eq_self.2 fun y hy ↦ (hp y (by simp [hy])).2 hy
  rw [List.filter_append, List.filter_append, hbefore, hys, hafter, List.nil_append,
    List.append_nil]

end Lists

/-! ## The nodes with their annotations -/

namespace AnalyzedCall

def sideNodes (b c : Nat) (d : Direction) (ps : List AnalyzedParameter) :
    List (NodePath × List Annotation) :=
  ps.zipIdx.map fun (p, i) ↦ (.parameter b c d i, p.annotations)

def nodes (b c : Nat) (x : AnalyzedCall) : List (NodePath × List Annotation) :=
  sideNodes b c .input x.node.inputs ++ sideNodes b c .output x.node.outputs ++
    [(.call b c, x.annotations)]

end AnalyzedCall

namespace AnalyzedBatch

def nodes (b : Nat) (x : AnalyzedBatch) : List (NodePath × List Annotation) :=
  x.node.calls.zipIdx.flatMap (fun (y, c) ↦ AnalyzedCall.nodes b c y) ++
    [(.batch b, x.annotations)]

end AnalyzedBatch

namespace AnalyzedProposal

/-- Every node of a tree with its annotations, each node behind its descendants. -/
def nodes (t : AnalyzedProposal) : List (NodePath × List Annotation) :=
  t.node.batches.zipIdx.flatMap (fun (x, b) ↦ AnalyzedBatch.nodes b x) ++
    [(.proposal, t.annotations)]

end AnalyzedProposal

namespace NodePath

variable {t : AnalyzedProposal} {p q : NodePath} {l : Level} {b c : Nat}

theorem map_fst_callNodes (b c : Nat) (x : AnalyzedCall) :
    (AnalyzedCall.nodes b c x).map Prod.fst = parameterPaths b c x ++ [.call b c] := by
  have hside : ∀ d ps, (AnalyzedCall.sideNodes b c d ps).map Prod.fst =
      sidePaths b c d ps.length := fun d ps ↦ by
    rw [AnalyzedCall.sideNodes, List.map_map, sidePaths, map_range_length]
    rfl
  rw [AnalyzedCall.nodes, List.map_append, List.map_append, hside, hside]
  rfl

theorem callSubtree_eq {x : AnalyzedCall} (h : callAt? t b c = some x) :
    callSubtree t b c = (AnalyzedCall.nodes b c x).map Prod.fst := by
  rw [map_fst_callNodes, callSubtree, h]

theorem batchSubtree_eq {x : AnalyzedBatch} (h : batchAt? t b = some x) :
    batchSubtree t b = (AnalyzedBatch.nodes b x).map Prod.fst := by
  simp only [batchSubtree, h, AnalyzedBatch.nodes, List.map_append, List.map_flatMap]
  rw [flatMap_range_length (g := fun y ↦ (AnalyzedCall.nodes b y.2 y.1).map Prod.fst)
    fun c y hy ↦ callSubtree_eq (by simp [callAt?, h, hy])]
  rfl

/-- From the root, the paths listed are those of the nodes of the tree. -/
theorem subtree_proposal (t : AnalyzedProposal) :
    subtree t .proposal = t.nodes.map Prod.fst := by
  simp only [subtree, AnalyzedProposal.nodes, List.map_append, List.map_flatMap]
  rw [flatMap_range_length (g := fun x ↦ (AnalyzedBatch.nodes x.2 x.1).map Prod.fst)
    fun b x hx ↦ batchSubtree_eq hx]
  rfl

theorem annotations?_of_mem_nodes {n : NodePath × List Annotation} (h : n ∈ t.nodes) :
    n.1.annotations? t = some n.2 := by
  rcases List.mem_append.1 h with h | h
  · obtain ⟨⟨x, b⟩, hx, h⟩ := List.mem_flatMap.1 h
    rw [List.mem_zipIdx_iff_getElem?] at hx
    have hbatch : batchAt? t b = some x := hx
    rcases List.mem_append.1 h with h | h
    · obtain ⟨⟨y, c⟩, hy, h⟩ := List.mem_flatMap.1 h
      rw [List.mem_zipIdx_iff_getElem?] at hy
      have hcall : callAt? t b c = some y := by simpa [callAt?, hbatch] using hy
      simp only [AnalyzedCall.nodes, AnalyzedCall.sideNodes, List.mem_append, List.mem_map,
        List.mem_singleton] at h
      rcases h with (⟨⟨z, i⟩, hz, rfl⟩ | ⟨⟨z, i⟩, hz, rfl⟩) | rfl
      · rw [List.mem_zipIdx_iff_getElem?] at hz
        simp_all [annotations?, parameterAt?, Call.side]
      · rw [List.mem_zipIdx_iff_getElem?] at hz
        simp_all [annotations?, parameterAt?, Call.side]
      · simp [annotations?, hcall]
    · obtain rfl := List.mem_singleton.1 h
      simp [annotations?, hbatch]
  · obtain rfl := List.mem_singleton.1 h
    rfl

/-! ## The levels of the list -/

@[simp] theorem level_proposal : level .proposal = .proposal := rfl

@[simp] theorem level_batch (b : Nat) : (batch b).level = .batchOperation := rfl

@[simp] theorem level_call (b c : Nat) : (call b c).level = .call := rfl

@[simp] theorem level_parameter (b c : Nat) (d : Direction) (i : Nat) :
    (parameter b c d i).level = .parameter := rfl

theorem filter_level_parameterPaths (b c : Nat) (x : AnalyzedCall) (l : Level) :
    (parameterPaths b c x).filter (fun q ↦ q.level = l) =
      if l = .parameter then parameterPaths b c x else [] := by
  cases l <;> simp [parameterPaths, sidePaths, List.filter_map, Function.comp_def]

theorem filter_level_batchNodes (b : Nat) (x : AnalyzedBatch) (l : Level) :
    ((AnalyzedBatch.nodes b x).map Prod.fst).filter (fun q ↦ q.level = l) =
      match l with
      | .proposal => []
      | .batchOperation => [.batch b]
      | .call => callPaths b x
      | .parameter => x.node.calls.zipIdx.flatMap fun (y, c) ↦ parameterPaths b c y := by
  have hcalls : callPaths b x = x.node.calls.zipIdx.flatMap fun y ↦ [.call b y.2] := by
    rw [callPaths, map_range_length, List.map_eq_flatMap]
  cases l <;>
    simp [AnalyzedBatch.nodes, List.map_flatMap, map_fst_callNodes, List.filter_flatMap,
      filter_level_parameterPaths, hcalls]

/-- Each level is listed in the order of the whole tree. -/
theorem allAt_eq_filter (t : AnalyzedProposal) (l : Level) :
    allAt t l = (subtree t .proposal).filter (fun q ↦ q.level = l) := by
  have hbatches : (List.range t.node.batches.length).map batch =
      t.node.batches.zipIdx.flatMap fun x ↦ [.batch x.2] := by
    rw [map_range_length, List.map_eq_flatMap]
  rw [subtree_proposal]
  cases l <;>
    simp [allAt, hbatches, AnalyzedProposal.nodes, List.map_flatMap, List.filter_flatMap,
      filter_level_batchNodes]

theorem mem_subtree_proposal_iff : q ∈ subtree t .proposal ↔ (q.annotations? t).isSome := by
  rw [← mem_allAt_iff, allAt_eq_filter]
  simp

/-- No path is listed twice, for none is listed twice at its level. -/
theorem nodup_subtree_proposal (t : AnalyzedProposal) : (subtree t .proposal).Nodup := by
  refine List.nodup_iff_count_le_one.2 fun q ↦ ?_
  have hlevel := List.nodup_iff_count_le_one.1 (nodup_allAt t q.level) q
  rwa [allAt_eq_filter, List.count_filter (by simp)] at hlevel

/-! ## The part below a node -/

/-- The indices that lead from the root to a node. -/
def address : NodePath → List (Option Direction × Nat)
  | .proposal => []
  | .batch b => [(none, b)]
  | .call b c => [(none, b), (none, c)]
  | .parameter b c d i => [(none, b), (none, c), (some d, i)]

/-- A path is within another one if it starts with all of its indices: it is the same or below. -/
def Within (q p : NodePath) : Prop := p.address <+: q.address

instance : DecidableRel Within := fun q p ↦ inferInstanceAs (Decidable (p.address <+: q.address))

/-- A node ends what is listed below it. -/
theorem exists_subtree_eq_append (t : AnalyzedProposal) (p : NodePath) :
    ∃ below, p.subtree t = below ++ [p] := by
  cases p with
  | proposal => exact ⟨_, rfl⟩
  | batch b =>
      simp only [subtree, batchSubtree]
      split
      · exact ⟨_, rfl⟩
      · exact ⟨[], rfl⟩
  | call b c =>
      simp only [subtree, callSubtree]
      split
      · exact ⟨_, rfl⟩
      · exact ⟨[], rfl⟩
  | parameter b c d i => exact ⟨[], rfl⟩

theorem self_mem_subtree (t : AnalyzedProposal) (p : NodePath) : p ∈ p.subtree t := by
  obtain ⟨below, h⟩ := exists_subtree_eq_append t p
  simp [h]

theorem within_of_mem_callSubtree (h : q ∈ callSubtree t b c) : q.Within (.call b c) := by
  simp only [callSubtree] at h
  split at h
  · rcases List.mem_append.1 h with h | h
    · obtain ⟨d, i, _, rfl⟩ := mem_parameterPaths.1 h
      simp [Within, address]
    · exact List.mem_singleton.1 h ▸ List.prefix_rfl
  · exact List.mem_singleton.1 h ▸ List.prefix_rfl

theorem within_of_mem_batchSubtree (h : q ∈ batchSubtree t b) : q.Within (.batch b) := by
  simp only [batchSubtree] at h
  split at h
  · rcases List.mem_append.1 h with h | h
    · obtain ⟨c, _, h⟩ := List.mem_flatMap.1 h
      have hcall : (NodePath.call b c).Within (.batch b) := by simp [Within, address]
      exact hcall.trans (within_of_mem_callSubtree h)
    · exact List.mem_singleton.1 h ▸ List.prefix_rfl
  · exact List.mem_singleton.1 h ▸ List.prefix_rfl

theorem within_of_mem_subtree (h : q ∈ p.subtree t) : q.Within p := by
  cases p with
  | proposal => exact List.nil_prefix
  | batch b => exact within_of_mem_batchSubtree h
  | call b c => exact within_of_mem_callSubtree h
  | parameter b c d i => exact List.mem_singleton.1 h ▸ List.prefix_rfl

section Parts

variable {d : Direction} {i : Nat}

theorem isInfix_batchSubtree (h : ((NodePath.batch b).annotations? t).isSome) :
    batchSubtree t b <:+: subtree t .proposal := by
  have hb : b < t.node.batches.length := by simpa [annotations?, batchAt?] using h
  exact (isInfix_flatMap (List.mem_range.2 hb) (batchSubtree t)).trans
    (List.prefix_append _ _).isInfix

theorem isInfix_callSubtree (h : ((NodePath.call b c).annotations? t).isSome) :
    callSubtree t b c <:+: batchSubtree t b := by
  cases hx : batchAt? t b with
  | none => simp [annotations?, callAt?, hx] at h
  | some x =>
      have hc : c < x.node.calls.length := by simpa [annotations?, callAt?, hx] using h
      rw [batchSubtree, hx]
      exact (isInfix_flatMap (List.mem_range.2 hc) (callSubtree t b)).trans
        (List.prefix_append _ _).isInfix

theorem isInfix_parameter (h : ((NodePath.parameter b c d i).annotations? t).isSome) :
    [.parameter b c d i] <:+: callSubtree t b c := by
  cases hx : callAt? t b c with
  | none => simp [annotations?, parameterAt?, hx] at h
  | some x =>
      have hi : i < (x.node.side d).length := by simpa [annotations?, parameterAt?, hx] using h
      rw [callSubtree, hx]
      have hmem : .parameter b c d i ∈ parameterPaths b c x := mem_parameterPaths.2 ⟨d, i, hi, rfl⟩
      obtain ⟨before, after, hs⟩ := List.append_of_mem hmem
      exact ⟨before, after ++ [.call b c], by simp [hs]⟩

theorem batch_isSome_of_call (h : ((NodePath.call b c).annotations? t).isSome) :
    ((NodePath.batch b).annotations? t).isSome := by
  cases hx : batchAt? t b <;> simp_all [annotations?, callAt?]

theorem call_isSome_of_parameter (h : ((NodePath.parameter b c d i).annotations? t).isSome) :
    ((NodePath.call b c).annotations? t).isSome := by
  cases hx : callAt? t b c <;> simp_all [annotations?, parameterAt?]

end Parts

theorem within_proposal_iff : Within .proposal p ↔ p = .proposal := by
  cases p <;> simp [Within, address]

theorem within_batch_iff : (batch b).Within p ↔ p = .proposal ∨ p = .batch b := by
  cases p <;> simp [Within, address]

theorem within_call_iff :
    (call b c).Within p ↔ p = .proposal ∨ p = .batch b ∨ p = .call b c := by
  cases p <;> simp [Within, address]

theorem within_parameter_iff {d : Direction} {i : Nat} :
    (parameter b c d i).Within p ↔
      p = .proposal ∨ p = .batch b ∨ p = .call b c ∨ p = .parameter b c d i := by
  cases p <;> simp [Within, address]

/-- What is listed for a node is a part of what is listed for each of its ancestors. -/
theorem isInfix_subtree_of_within (hq : (q.annotations? t).isSome) (h : q.Within p) :
    q.subtree t <:+: p.subtree t := by
  cases q with
  | proposal =>
      obtain rfl := within_proposal_iff.1 h
      exact List.infix_rfl
  | batch b =>
      rcases within_batch_iff.1 h with rfl | rfl
      · exact isInfix_batchSubtree hq
      · exact List.infix_rfl
  | call b c =>
      rcases within_call_iff.1 h with rfl | rfl | rfl
      · exact (isInfix_callSubtree hq).trans (isInfix_batchSubtree (batch_isSome_of_call hq))
      · exact isInfix_callSubtree hq
      · exact List.infix_rfl
  | parameter b c d i =>
      have hcall := call_isSome_of_parameter hq
      rcases within_parameter_iff.1 h with rfl | rfl | rfl | rfl
      · exact (isInfix_parameter hq).trans ((isInfix_callSubtree hcall).trans
          (isInfix_batchSubtree (batch_isSome_of_call hcall)))
      · exact (isInfix_parameter hq).trans (isInfix_callSubtree hcall)
      · exact isInfix_parameter hq
      · exact List.infix_rfl

/-- Below a path without a node there is nothing. -/
theorem subtree_eq_singleton (hp : p.annotations? t = none) : p.subtree t = [p] := by
  cases p with
  | proposal => simp [annotations?] at hp
  | batch b =>
      have hb : batchAt? t b = none := by simpa [annotations?] using hp
      simp [subtree, batchSubtree, hb]
  | call b c =>
      have hc : callAt? t b c = none := by simpa [annotations?] using hp
      simp [subtree, callSubtree, hc]
  | parameter b c d i => rfl

theorem isSome_of_within (hq : (q.annotations? t).isSome) (h : q.Within p) :
    (p.annotations? t).isSome := by
  cases hp : p.annotations? t with
  | some as => rfl
  | none =>
      have hmem : q ∈ p.subtree t := (isInfix_subtree_of_within hq h).subset (self_mem_subtree t q)
      rw [subtree_eq_singleton hp, List.mem_singleton] at hmem
      simp [hmem, hp] at hq

theorem isInfix_subtree (hp : (p.annotations? t).isSome) : p.subtree t <:+: subtree t .proposal :=
  isInfix_subtree_of_within hp List.nil_prefix

theorem mem_subtree_iff (hp : (p.annotations? t).isSome) :
    q ∈ p.subtree t ↔ (q.annotations? t).isSome ∧ q.Within p := by
  constructor
  · intro h
    exact ⟨mem_subtree_proposal_iff.1 ((isInfix_subtree hp).subset h), within_of_mem_subtree h⟩
  · rintro ⟨hq, h⟩
    exact (isInfix_subtree_of_within hq h).subset (self_mem_subtree t q)

/-- What is listed for a node is what stands at it or below it in the list of the whole tree. -/
theorem subtree_eq_filter (hp : (p.annotations? t).isSome) :
    p.subtree t = (subtree t .proposal).filter (fun q ↦ q.Within p) := by
  refine (filter_eq_of_part (isInfix_subtree hp) (nodup_subtree_proposal t) fun q hq ↦ ?_).symm
  rw [mem_subtree_iff hp, decide_eq_true_eq, and_iff_right (mem_subtree_proposal_iff.1 hq)]

/-! ## The enumerations together -/

/-- The paths are those of the nodes of a tree, without repetition, and each stands behind all that
is below it. -/
structure ListsNodes (t : AnalyzedProposal) (ps : List NodePath) : Prop where
  complete : ∀ q, q ∈ ps ↔ q.exists? t
  nodup : ps.Nodup
  descendants_first : ∀ before q after, ps = before ++ q :: after →
    ∀ r, r.exists? t → r ≠ q → r.Within q → r ∈ before

theorem listsNodes_subtree (t : AnalyzedProposal) : ListsNodes t (subtree t .proposal) where
  complete _ := mem_subtree_proposal_iff
  nodup := nodup_subtree_proposal t
  descendants_first before q after hs r hr hne hwithin := by
    have hq : (q.annotations? t).isSome := mem_subtree_proposal_iff.1 (by simp [hs])
    obtain ⟨below, hbelow⟩ := exists_subtree_eq_append t q
    obtain ⟨start, rest, hparts⟩ := isInfix_subtree hq
    -- The path occurs only once, so the part listed for it ends just where it stands.
    have hsplit : before = start ++ below := by
      have hn : (before ++ q :: after).Nodup := hs ▸ nodup_subtree_proposal t
      have heq : before ++ q :: after = (start ++ below) ++ q :: rest := by
        rw [← hs, ← hparts, hbelow]
        simp
      rw [List.nodup_append, List.nodup_cons] at hn
      have hbefore : q ∉ before := fun hmem ↦ hn.2.2 q hmem q List.mem_cons_self rfl
      exact ((List.append_cons_inj_of_notMem hbefore hn.2.1.1).1 heq).1
    have hmem : r ∈ below ++ [q] := hbelow ▸ (mem_subtree_iff hq).2 ⟨hr, hwithin⟩
    rw [hsplit]
    exact List.mem_append_right _ ((List.mem_append.1 hmem).resolve_right (by simpa using hne))

/-- The two ways of listing paths agree with each other and with the counts of the decoded
proposal. -/
theorem enumerations_agree (t : AnalyzedProposal) :
    ListsNodes t (subtree t .proposal) ∧
    (∀ l, allAt t l = (subtree t .proposal).filter (fun q ↦ q.level = l)) ∧
    ((allAt t .batchOperation).length = t.decoded.batches.length ∧
      (allAt t .call).length = t.decoded.callCount ∧
      (allAt t .parameter).length = t.decoded.parameterCount) ∧
    ∀ p, p.exists? t →
      p.subtree t <:+: subtree t .proposal ∧
      p.subtree t = (subtree t .proposal).filter (fun q ↦ q.Within p) ∧
      (p.subtree t).Nodup ∧ (p.subtree t).getLast? = some p := by
  refine ⟨listsNodes_subtree t, allAt_eq_filter t,
    ⟨length_allAt t .batchOperation, length_allAt t .call, length_allAt t .parameter⟩,
    fun p hp ↦ ⟨isInfix_subtree hp, subtree_eq_filter hp, ?_, ?_⟩⟩
  · exact (nodup_subtree_proposal t).sublist (isInfix_subtree hp).sublist
  · obtain ⟨below, hbelow⟩ := exists_subtree_eq_append t p
    simp [hbelow]

end NodePath

/-! ## A tree with an empty batch -/

namespace Sparse

def burn : DecodedCall :=
  { address := "0x1", method := "burn", outputs := [⟨"left", "uint256", .nat 3⟩] }

def tree : AnalyzedProposal := .ofDecoded ⟨[⟨1, []⟩, ⟨2, [burn]⟩]⟩

theorem enumerations_agree_of_sparse :
    NodePath.subtree tree .proposal =
        [.batch 0, .parameter 1 0 .output 0, .call 1 0, .batch 1, .proposal] ∧
      (NodePath.batch 1).exists? tree ∧
      (NodePath.batch 1).subtree tree <:+: NodePath.subtree tree .proposal := by
  have hexists : (NodePath.batch 1).exists? tree := rfl
  exact ⟨rfl, hexists, ((NodePath.enumerations_agree tree).2.2.2 (.batch 1) hexists).1⟩

end Sparse

end Timelock
