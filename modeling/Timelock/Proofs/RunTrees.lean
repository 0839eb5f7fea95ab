import Timelock.Proofs.Endings
import Timelock.Proofs.TreeGrowth

/-!
# The tree of a run

From the start of the analysis on, a run has a tree that has grown from the bare tree of its decoded
proposal.  It grows only at the nodes of the steps that are ahead, and these come from the leaves
up, so nothing below the node at work grows any more.
-/

namespace Timelock

variable {e : Engine} {r now : Nat} {j : Job} {numbers : TaskNumbers} {cancelled : Bool}
  {plan : Plan} {u v w : World} {ws : List World} {c c' : ExecutionContext}
  {t t' : AnalyzedProposal} {φ χ ψ : Phase} {p : Progress} {l : LevelRun} {q : NodePath}

namespace Analyzer

/-- The work on a node whose kind is not looked at: the analyzer is asked, or begins at once. -/
def attendance (a : Analyzer) (x : AnalyzerContext) (y : Target) : Activity (Option Verdict) :=
  match a.consult with
  | none => a.work x y
  | some ask =>
      .note .consulted ((ask x y).continueIf Consent.isAccepted (a.work x y) Consent.refusal)

theorem invocation_eq_attendance {a : Analyzer} {y : Target} (h : y.level = a.level)
    (x : AnalyzerContext) : a.invocation x y = a.attendance x y := by
  rw [invocation, if_pos h]
  rfl

end Analyzer

namespace Phase

/-- The context and the tree of a run that analyzes, or has finished with a report. -/
def analysis? : Phase → Option (ExecutionContext × AnalyzedProposal)
  | .analyzing c p _ => some (c, p.tree)
  | .finished (.ok rep) => some (rep.context, rep.tree)
  | _ => none

/-- The step that is in flight, and those that are still to be started. -/
def ahead : Phase → List LevelStep
  | .analyzing _ p l? => l?.toList.map LevelRun.step ++ p.pending
  | _ => []

/-- The node at work: that of the level in flight, or of the next one. -/
def visited? (φ : Phase) : Option NodePath := φ.ahead.head?.map LevelStep.path

def IsAhead (φ : Phase) (q : NodePath) : Prop := q ∈ φ.ahead.map LevelStep.path

/-- What becomes of a run that has begun to analyze: steps are taken off, and the tree grows at
their nodes. -/
structure Proceeds (φ ψ : Phase) : Prop where
  begun : ψ.rank.1 ≤ 1
  ahead : ψ.ahead <:+ φ.ahead
  analysis : ∀ c t', ψ.analysis? = some (c, t') →
    ∃ t, φ.analysis? = some (c, t) ∧ t.Grows φ.IsAhead t'

theorem Proceeds.refl (h : φ.rank.1 ≤ 1) : Proceeds φ φ :=
  ⟨h, List.suffix_rfl, fun _ t ht ↦ ⟨t, ht, .refl⟩⟩

theorem Proceeds.trans (h : Proceeds φ χ) (h' : Proceeds χ ψ) : Proceeds φ ψ := by
  refine ⟨h'.begun, h'.ahead.trans h.ahead, fun c t'' hψ ↦ ?_⟩
  obtain ⟨t', hχ, hlast⟩ := h'.analysis c t'' hψ
  obtain ⟨t, hφ, hfirst⟩ := h.analysis c t' hχ
  exact ⟨t, hφ, hfirst.trans (hlast.mono fun q hq ↦ (h.ahead.map _).subset hq)⟩

end Phase

namespace Progress

theorem grows_contributeAll {timeoutMs : UInt64} {P : NodePath → Prop} (p : Progress)
    (cs : List Contribution) (hq : P q) :
    p.tree.Grows P (p.contributeAll timeoutMs q cs).tree := by
  induction cs generalizing p with
  | nil => exact .refl
  | cons c cs ih =>
      have hfirst : p.tree.Grows P (p.contribute timeoutMs q c).tree :=
        .append .refl q hq c.stamped
      exact hfirst.trans (ih _)

end Progress

namespace Phase

/-- A level that is over is taken off, and has grown the tree at its node. -/
theorem proceeds_absorb (timeoutMs : UInt64) (c : ExecutionContext) (p : Progress) (l : LevelRun) :
    Proceeds (.analyzing c p (some l)) (.analyzing c (p.absorb timeoutMs l) none) where
  begun := le_refl 1
  ahead := by simp [ahead, Progress.pending_absorb]
  analysis := by
    rintro _ _ ⟨⟩
    refine ⟨p.tree, rfl, ?_⟩
    rw [Progress.absorb_eq]
    exact Progress.grows_contributeAll p l.contributions (by simp [IsAhead, ahead])

theorem proceeds_nextLevel (cancelled : Bool) (c : ExecutionContext) (p : Progress) :
    Proceeds (.analyzing c p none) (nextLevel cancelled c p) := by
  unfold nextLevel
  split
  next hpending =>
    refine ⟨Nat.zero_le 1, List.nil_suffix, ?_⟩
    rintro _ _ ⟨⟩
    exact ⟨p.tree, rfl, .refl⟩
  next s rest hpending =>
    split
    · exact ⟨Nat.zero_le 1, List.nil_suffix, nofun⟩
    · split
      · exact ⟨Nat.zero_le 1, List.nil_suffix, nofun⟩
      · refine ⟨le_refl 1, by simp [ahead, hpending, LevelRun.step_start], ?_⟩
        rintro _ _ ⟨⟩
        exact ⟨p.tree, rfl, .refl⟩

theorem proceeds_taskMove {l' : LevelRun} (c : ExecutionContext) (p : Progress)
    (h : TaskMove e now cancelled l l') :
    Proceeds (.analyzing c p (some l)) (.analyzing c p (some l')) where
  begun := le_refl 1
  ahead := by
    have hstep : l'.step = l.step := by
      rw [← LevelRun.step_unstarted, (LevelRun.Continues.of_taskMove h).unstarted,
        LevelRun.step_unstarted]
    simp [ahead, hstep]
  analysis := by
    rintro _ _ ⟨⟩
    exact ⟨p.tree, rfl, .refl⟩

theorem Next.proceeds (h : Next e j numbers now cancelled φ ψ)
    (hacc : φ.Accounted e r numbers ws) (hφ : φ.rank.1 ≤ 1) : Proceeds φ ψ := by
  have habandoned : Proceeds φ .abandoned := ⟨Nat.zero_le 1, List.nil_suffix, nofun⟩
  cases φ with
  | analyzing c p l? =>
      cases l? with
      | none =>
          rcases h.of_between with rfl | rfl | rfl
          · exact .refl hφ
          · exact proceeds_nextLevel cancelled c p
          · exact habandoned
      | some l =>
          rcases h.of_accounted_level hacc with rfl | ⟨l', hmove, rfl⟩ | ⟨_, rfl⟩ | rfl
          · exact .refl hφ
          · exact proceeds_taskMove c p hmove
          · exact proceeds_absorb _ c p l
          · exact habandoned
  | finished | crashed | abandoned =>
      obtain rfl := h.of_settled rfl
      exact .refl hφ
  | starting | planned | loading | loaded | decoding => simp [rank] at hφ

/-- What is known of a run that has a tree: the levels that it has taken and the steps ahead make up
its plan. -/
theorem Accounted.exists_taken (h : φ.Accounted e r numbers ws) (hφ : φ.analysis? = some (c, t)) :
    ∃ plan ls p, e.registry.plan = .ok plan ∧
      Progress.Taken e.config.analyzerTimeoutMs c (.initial numbers plan c.decoded) ls p ∧
      p.tree = t ∧ p.pending = φ.ahead := by
  cases φ with
  | analyzing x p l? =>
      cases hφ
      cases l? with
      | none =>
          obtain ⟨plan, ls, hplan, hacc⟩ := h
          exact ⟨plan, ls, p, hplan, hacc.taken, rfl, rfl⟩
      | some l =>
          obtain ⟨plan, ls, s, _, hplan, hstart, _, hacc⟩ := h
          refine ⟨plan, ls, _, hplan, hacc.taken, rfl, ?_⟩
          simp [ahead, LevelRun.step_of_start? hstart]
  | finished result =>
      cases result with
      | error y => cases hφ
      | ok rep =>
          cases hφ
          obtain ⟨plan, ls, _, hplan, hacc⟩ := h
          exact ⟨plan, ls, _, hplan, hacc.taken, rfl, rfl⟩
  | _ => cases hφ

theorem rank_le_one_of_analysis? (hφ : φ.analysis? = some (c, t)) : φ.rank.1 ≤ 1 := by
  cases φ with
  | analyzing x p l? => cases l? <;> exact le_refl 1
  | finished => exact Nat.zero_le 1
  | _ => cases hφ

theorem Accounted.start?_eq_some (h : φ.Accounted e r numbers ws) (hφ : φ.analysis? = some (c, t))
    (hl : φ.level? = some l) : LevelRun.start? c t l.step = some l.unstarted := by
  obtain ⟨x, p, rfl⟩ := level?_eq_some hl
  cases hφ
  obtain ⟨_, _, s, _, _, hstart, _⟩ := h
  rwa [LevelRun.step_of_start? hstart]

end Phase

namespace Progress

theorem Taken.grows {timeoutMs : UInt64} {base : Progress} {ls : List LevelRun}
    (h : Taken timeoutMs c base ls p) : base.tree.Grows (fun _ ↦ True) p.tree := by
  induction h with
  | nil => exact .refl
  | @snoc _ p s rest l _ _ _ _ ih =>
      rw [absorb_eq]
      exact ih.trans (grows_contributeAll
        { p with node := NodeScope.resolve p.tree s.path, pending := rest } l.contributions trivial)

end Progress

/-- The steps of a plan come from the leaves up. -/
theorem Plan.pairwise_rank_steps (h : e.registry.plan = .ok plan) (t : AnalyzedProposal) :
    (plan.steps t).Pairwise (fun s s' ↦ s'.path.level.rank ≤ s.path.level.rank) := by
  rw [steps_eq_flatMap, List.pairwise_flatMap]
  constructor
  · intro x _
    apply List.pairwise_of_forall_mem_list
    intro s hs s' hs'
    rw [(Pass.level_of_mem_steps hs).1, (Pass.level_of_mem_steps hs').1]
  · apply (pairwise_passes h).imp
    intro x y hxy s hs s' hs'
    rw [(Pass.level_of_mem_steps hs).1, (Pass.level_of_mem_steps hs').1]
    exact hxy.le

/-! ## Every state of a run -/

namespace World

/-- What holds of the tree of a run in a single state. -/
structure TreeState (φ : Phase) (d : DecodedProposal) (t : AnalyzedProposal) : Prop where
  grown : (AnalyzedProposal.ofDecoded d).Grows (fun _ ↦ True) t
  mirrors : t.Mirrors d
  /-- Whatever path is listed for a level leads to a node that can be added to, and to a target of
  that level. -/
  reached : ∀ lv, ∀ q ∈ NodePath.allAt t lv, q.exists? t = true ∧
    (q.handle? t).isSome ∧ ∃ scope target, NodeScope.resolve t q = some (scope, target) ∧
      scope.path = q ∧ target.level = lv
  /-- The steps ahead stand on listed paths, with analyzers of their level. -/
  listed : ∀ s ∈ φ.ahead, s.path ∈ NodePath.allAt t s.path.level ∧
    ∀ a ∈ s.analyzers, a.level = s.path.level
  /-- The tasks in flight work on the node that they were started for, and never on one of another
  kind. -/
  attended : ∀ l, φ.level? = some l → ∀ k ∈ l.tasks, ∃ target,
    NodeScope.resolve t l.path = some (k.context.scope, target) ∧
      target.level = k.analyzer.level ∧ k.invocation = k.analyzer.attendance k.context target

/-- What becomes of the tree `t` of a run in phase `φ`, up to the later tree `t'`. -/
structure TreeGrowth (φ : Phase) (t t' : AnalyzedProposal) : Prop where
  /-- Every list of annotations begins with the earlier one. -/
  kept : ∀ (q : NodePath) as, q.annotations? t = some as →
    ∃ new, q.annotations? t' = some (as ++ new)
  /-- Nothing is added below the node at work. -/
  settled : ∀ q q', φ.visited? = some q → q' ∈ q.subtree t → q' ≠ q →
    q'.annotations? t' = q'.annotations? t

theorem reached_of_mem_allAt {lv : Level} (hq : q ∈ NodePath.allAt t lv) :
    q.exists? t = true ∧ (q.handle? t).isSome ∧ ∃ scope target,
      NodeScope.resolve t q = some (scope, target) ∧ scope.path = q ∧ target.level = lv := by
  obtain rfl := NodePath.level_of_mem_allAt hq
  have hexists := NodePath.mem_allAt_iff.1 hq
  rw [← NodePath.isSome_resolve, Option.isSome_iff_exists] at hexists
  obtain ⟨⟨scope, target⟩, hresolve⟩ := hexists
  have hhandle : (q.handle? t).isSome := by rw [NodePath.isSome_handle?, hresolve]; rfl
  refine ⟨NodePath.mem_allAt_iff.1 hq, hhandle, scope, target, hresolve, ?_⟩
  exact NodeScope.path_and_level_of_resolve hresolve

theorem treeState_of_accounted (h : φ.Accounted e r numbers ws) (hφ : φ.analysis? = some (c, t)) :
    TreeState φ c.decoded t := by
  obtain ⟨plan, ls, p, hplan, htaken, rfl, hahead⟩ := h.exists_taken hφ
  have hsteps : plan.steps (.ofDecoded c.decoded) = ls.map LevelRun.step ++ p.pending :=
    htaken.pending_eq
  have hgrown := htaken.grows
  have hmirrors : p.tree.Mirrors c.decoded := hgrown.mirrors
  have hproper : ∀ s ∈ φ.ahead, s.Proper e.registry (.ofDecoded c.decoded) := fun s hs ↦ by
    apply Plan.proper_of_mem_steps hplan
    rw [hsteps, hahead]
    exact List.mem_append_right _ hs
  refine ⟨hgrown, hmirrors, fun lv q hq ↦ reached_of_mem_allAt hq, fun s hs ↦ ?_,
    fun l hl k hk ↦ ?_⟩
  · rw [hmirrors.listed]
    exact ⟨(hproper s hs).mem_allAt, fun a ha ↦ ((hproper s hs).registered a ha).2⟩
  · have hstart := h.start?_eq_some hφ hl
    obtain ⟨scope, target, hresolve, hcontext, hinvocation⟩ := LevelRun.task_of_start? hstart hk
    obtain ⟨x, q, rfl⟩ := Phase.level?_eq_some hl
    have hlevel : target.level = k.analyzer.level := by
      have hmem : l.step ∈ (Phase.analyzing x q (some l)).ahead := by simp [Phase.ahead]
      rw [(NodeScope.path_and_level_of_resolve hresolve).2]
      exact (((hproper _ hmem).registered k.analyzer (List.mem_map_of_mem hk)).2).symm
    refine ⟨target, ?_, hlevel, ?_⟩
    · rw [hcontext]
      exact hresolve
    · rw [hinvocation, Analyzer.invocation_eq_attendance hlevel]

/-- Nothing is ahead below the node at work. -/
theorem not_isAhead_of_mem_subtree {q' : NodePath} (h : φ.Accounted e r numbers ws)
    (hφ : φ.analysis? = some (c, t)) (hq : φ.visited? = some q) (hq' : q' ∈ q.subtree t)
    (hne : q' ≠ q) : ¬ φ.IsAhead q' := by
  obtain ⟨plan, ls, p, hplan, htaken, rfl, hahead⟩ := h.exists_taken hφ
  obtain ⟨s, hs, rfl⟩ := Option.map_eq_some_iff.1 hq
  obtain ⟨rest, hrest⟩ := List.head?_eq_some_iff.1 hs
  have hpairs := Plan.pairwise_rank_steps hplan (.ofDecoded c.decoded)
  have hsplit : plan.steps (.ofDecoded c.decoded) = ls.map LevelRun.step ++ p.pending :=
    htaken.pending_eq
  rw [hsplit, hahead, hrest, List.pairwise_append, List.pairwise_cons] at hpairs
  have hlt := (NodePath.eq_or_rank_lt_of_mem_subtree hq').resolve_left hne
  intro hmem
  obtain ⟨s', hs', rfl⟩ := List.mem_map.1 hmem
  rw [hrest] at hs'
  rcases List.mem_cons.1 hs' with rfl | hs'
  · exact Nat.lt_irrefl _ hlt
  · exact absurd hlt (hpairs.2.1.1 s' hs').not_gt

theorem proceeds_of_steps (hu : u.phase? r = some .starting) (huv : Steps e u v)
    (hvw : Steps e v w) (hv : v.phase? r = some φ) (hφ : φ.rank.1 ≤ 1)
    (hw : w.phase? r = some ψ) : φ.Proceeds ψ := by
  obtain ⟨x, hx, rfl⟩ := phase?_eq_some_iff.1 hv
  obtain ⟨y, hy, hproceeds⟩ := exists_run_of_steps (P := fun y ↦ x.phase.Proceeds y.phase) hvw hx
    (.refl hφ) fun z y y' hvz hz hproceeds hfollows ↦ by
      obtain ⟨_, hacc⟩ :=
        exists_accounted hu (huv.trans hvz) (phase?_eq_some_iff.2 ⟨y, hz, rfl⟩)
      rw [numbers_of_getElem? hz] at hacc
      exact hproceeds.trans (hfollows.next.proceeds hacc hproceeds.begun)
  obtain rfl : y.phase = ψ :=
    Option.some.inj ((phase?_eq_some_iff.2 ⟨y, hy, rfl⟩).symm.trans hw)
  exact hproceeds

/-- In every state of a run the tree mirrors the decoded proposal and leads every step ahead to a
node of its kind; from one state to a later one it grows, but not below the node at work.  The same
holds of the trees between two appends. -/
theorem tree_of_run (hu : u.phase? r = some .starting) (huv : Steps e u v) (hvw : Steps e v w) :
    (∀ q, w.phase? r ≠ some (.finished (.error (.missingNode q)))) ∧
      ∀ φ c t, v.phase? r = some φ → φ.analysis? = some (c, t) →
        TreeState φ c.decoded t ∧
          ∀ ψ c' t', w.phase? r = some ψ → ψ.analysis? = some (c', t') →
            c' = c ∧ t.Grows (fun _ ↦ True) t' ∧
              ∀ t₁, t.Grows (fun _ ↦ True) t₁ → t₁.Grows (fun _ ↦ True) t' →
                t₁.Mirrors c.decoded ∧ TreeGrowth φ t t₁ ∧ TreeGrowth φ t₁ t' := by
  constructor
  · intro q hw
    obtain ⟨x, hx, hstart⟩ := phase?_eq_some_iff.1 hu
    obtain ⟨ws, _, hws⟩ := History.start.exists_extend (huv.trans hvw)
    exact ne_missingNode hws hx hstart hw q rfl
  intro φ c t hv hφ
  obtain ⟨ws, hacc⟩ := exists_accounted hu huv hv
  have hstate := treeState_of_accounted hacc hφ
  refine ⟨hstate, fun ψ c' t' hw hψ ↦ ?_⟩
  obtain ⟨t'', ht'', hahead⟩ :=
    (proceeds_of_steps hu huv hvw hv (Phase.rank_le_one_of_analysis? hφ) hw).analysis c' t' hψ
  obtain ⟨rfl, rfl⟩ := Prod.mk.inj (Option.some.inj (hφ.symm.trans ht''))
  refine ⟨rfl, hahead.mono fun _ _ ↦ trivial, fun t₁ hfirst hlast ↦ ?_⟩
  have hsettled : ∀ q q', φ.visited? = some q → q' ∈ q.subtree t → q' ≠ q →
      q'.annotations? t' = q'.annotations? t := fun q q' hq hq' hne ↦
    hahead.annotations?_eq_of_not (not_isAhead_of_mem_subtree hacc hφ hq hq' hne)
  refine ⟨(hstate.grown.trans hfirst).mirrors, ⟨?_, ?_⟩, ?_, ?_⟩
  · intro q as has
    obtain ⟨new, hnew⟩ := hfirst.exists_annotations? q
    exact ⟨new, by rw [hnew, has]; rfl⟩
  · intro q q' hq hq' hne
    exact hfirst.annotations?_eq_between hlast (hsettled q q' hq hq' hne)
  · intro q as has
    obtain ⟨new, hnew⟩ := hlast.exists_annotations? q
    exact ⟨new, by rw [hnew, has]; rfl⟩
  · intro q q' hq hq' hne
    rw [NodePath.subtree_eq_of_decoded_eq hfirst.decoded_eq] at hq'
    have h := hsettled q q' hq hq' hne
    rw [h, hfirst.annotations?_eq_between hlast h]

theorem after_append (w : World) (xs ys : List Thread) :
    w.after e (xs ++ ys) = (w.after e xs).after e ys := List.foldl_append

end World

/-! ## A call whose parameters have been analyzed -/

namespace Payment

/-- The level on the call is in flight. -/
def asking : World :=
  (Pair.world (.planned fourPasses)).after engine
    (Pair.prelude ++ (List.replicate 4 level).flatten)

theorem steps_asking : World.Steps engine (Pair.world .starting) asking :=
  (Pair.steps_planned plan_registry).trans (World.steps_after _ _ _)

theorem steps_asking_ended : World.Steps engine asking ended := by
  have hsplit : Pair.prelude ++ (List.replicate 6 level).flatten =
      (Pair.prelude ++ (List.replicate 4 level).flatten) ++ (List.replicate 2 level).flatten := rfl
  rw [ended, hsplit, World.after_append]
  exact World.steps_after engine asking (List.replicate 2 level).flatten

/-- The lists of the parameters are complete when the call is looked at. -/
theorem tree_of_run_of_asking :
    ∃ φ c t, asking.phase? 0 = some φ ∧ φ.analysis? = some (c, t) ∧
      φ.visited? = some (.call 0 0) ∧ ended.phase? 0 = some (.finished (.ok report)) ∧
      t.Mirrors ⟨[⟨1, [call]⟩]⟩ ∧ ∀ d,
        (NodePath.parameter 0 0 d 0).annotations? report.tree =
          (NodePath.parameter 0 0 d 0).annotations? t := by
  obtain ⟨_, hstates⟩ := World.tree_of_run (r := 0) rfl steps_asking steps_asking_ended
  obtain ⟨hstate, hlater⟩ := hstates _ _ _ rfl rfl
  obtain ⟨_, hgrows, hbetween⟩ := hlater _ _ _ phase_ended rfl
  obtain ⟨_, hgrowth, _⟩ := hbetween _ hgrows .refl
  refine ⟨_, _, _, rfl, rfl, rfl, phase_ended, hstate.mirrors, fun d ↦ ?_⟩
  apply hgrowth.settled (.call 0 0) (.parameter 0 0 d 0) rfl _ nofun
  cases d <;> decide

end Payment

end Timelock
