import Timelock.Proofs.LevelLog
import Timelock.Proofs.RunHistory
import Timelock.Proofs.TreeHandles

/-!
# The account of a run

An account of a run lists the levels that the run has absorbed.  Each of them has been seen in
flight as it was in the end, and every level that was ever seen in flight is either listed or in
flight still, with the tasks that had ended unchanged.
-/

namespace Timelock

variable {e : Engine} {r : Nat} {numbers : TaskNumbers} {plan : Plan} {c : ExecutionContext}
  {u v w : World} {ws : List World} {ls : List LevelRun} {p : Progress} {l l' : LevelRun}
  {l? : Option LevelRun} {now : Nat} {cancelled : Bool}

namespace Progress

def initial (numbers : TaskNumbers) (plan : Plan) (d : DecodedProposal) : Progress :=
  { numbers := numbers, tree := .ofDecoded d, pending := plan.steps (.ofDecoded d) }

theorem located_initial (numbers : TaskNumbers) (plan : Plan) (d : DecodedProposal) :
    (initial numbers plan d).Located := fun _ hy ↦ nomatch hy

end Progress

/-! ## Later states of one level -/

namespace LevelRun

/-- The same level later on: tasks that have ended do not change. -/
structure Continues (l l' : LevelRun) : Prop where
  unstarted : l'.unstarted = l.unstarted
  ended : ∀ t ∈ l.tasks, t.hasEnded = true → t ∈ l'.tasks

theorem Continues.refl (l : LevelRun) : Continues l l := ⟨rfl, fun _ ht _ ↦ ht⟩

theorem Continues.trans {l l' l'' : LevelRun} (h : Continues l l') (h' : Continues l' l'') :
    Continues l l'' :=
  ⟨h'.unstarted.trans h.unstarted, fun t ht hend ↦ h'.ended t (h.ended t ht hend) hend⟩

theorem Continues.path_eq (h : Continues l l') : l'.path = l.path := by
  have hpath : l'.unstarted.path = l.unstarted.path := congrArg LevelRun.path h.unstarted
  exact hpath

theorem hasEnded_eq_false_of_advance? {t : Task} {timeoutMs : Nat} {free : Bool}
    {b : Task.Advance} (h : t.advance? timeoutMs now cancelled free = some b) :
    t.hasEnded = false := by
  cases hs : t.state <;> simp [Task.advance?, Task.hasEnded, hs] at h ⊢

theorem Continues.of_taskMove (h : Phase.TaskMove e now cancelled l l') : Continues l l' := by
  obtain ⟨i, t, free, b, ht, hb, rfl⟩ := h
  refine ⟨unstarted_setState l i b.state, ?_⟩
  intro k hk hend
  obtain ⟨n, hn⟩ := List.mem_iff_getElem?.1 hk
  have hne : i ≠ n := by
    rintro rfl
    obtain rfl : t = k := Option.some.inj (ht.symm.trans hn)
    simp [hasEnded_eq_false_of_advance? hb] at hend
  exact List.mem_iff_getElem?.2 ⟨n, by simp [setState, hne, hn]⟩

end LevelRun

/-! ## Accounts -/

/-- An account of a run that has come from the start of a plan to `p`, with a level in flight or
none. -/
structure Account (e : Engine) (r : Nat) (numbers : TaskNumbers) (plan : Plan)
    (c : ExecutionContext) (ws : List World) (ls : List LevelRun) (p : Progress)
    (l? : Option LevelRun) : Prop where
  taken : Progress.Taken e.config.analyzerTimeoutMs c (.initial numbers plan c.decoded) ls p
  seen : ∀ l ∈ ls, ∃ v ∈ ws, v.level? r = some l
  kept : ∀ v ∈ ws, ∀ k, v.level? r = some k → ∃ l ∈ ls ++ l?.toList, k.Continues l

namespace Account

theorem initial (h : ∀ v ∈ ws, v.level? r = none) :
    Account e r numbers plan c ws [] (.initial numbers plan c.decoded) none :=
  ⟨.nil, by simp, fun v hv k hk ↦ by simp [h v hv] at hk⟩

theorem observe (h : Account e r numbers plan c ws ls p l?) (hw : w.level? r = l?) :
    Account e r numbers plan c (ws ++ [w]) ls p l? := by
  refine ⟨h.taken, ?_, ?_⟩
  · intro l hl
    obtain ⟨v, hv, hseen⟩ := h.seen l hl
    exact ⟨v, List.mem_append_left _ hv, hseen⟩
  · intro v hv k hk
    rcases List.mem_append.1 hv with hv | hv
    · exact h.kept v hv k hk
    · obtain rfl := List.mem_singleton.1 hv
      exact ⟨k, by simp [← hw, hk], .refl k⟩

theorem enter (h : Account e r numbers plan c ws ls p none) (l : LevelRun) :
    Account e r numbers plan c ws ls p (some l) := by
  refine ⟨h.taken, h.seen, ?_⟩
  intro v hv k hk
  obtain ⟨l', hl', hc⟩ := h.kept v hv k hk
  exact ⟨l', List.mem_append_left _ (by simpa using hl'), hc⟩

theorem proceed (h : Account e r numbers plan c ws ls p (some l)) (hc : l.Continues l') :
    Account e r numbers plan c ws ls p (some l') := by
  refine ⟨h.taken, h.seen, ?_⟩
  intro v hv k hk
  obtain ⟨m, hm, hkm⟩ := h.kept v hv k hk
  rcases List.mem_append.1 hm with hm | hm
  · exact ⟨m, List.mem_append_left _ hm, hkm⟩
  · obtain rfl : m = l := by simpa using hm
    exact ⟨l', by simp, hkm.trans hc⟩

theorem located (h : Account e r numbers plan c ws ls p l?) : p.Located :=
  h.taken.located (Progress.located_initial numbers plan c.decoded)

theorem absorb {s : LevelStep} {node : Option (NodeScope × Target)}
    (h : Account e r numbers plan c ws ls { p with node := node, pending := s :: p.pending }
      (some l))
    (hstart : LevelRun.start? c p.tree s = some l.unstarted)
    (hnode : p.node = NodeScope.resolve p.tree s.path) (hover : l.isOver = true)
    (hseen : ∃ v ∈ ws, v.level? r = some l) :
    Account e r numbers plan c ws (ls ++ [l]) (p.absorb e.config.analyzerTimeoutMs l) none := by
  refine ⟨?_, ?_, ?_⟩
  · have htaken := h.taken.snoc rfl hstart hover
    simp only [← hnode] at htaken
    exact htaken
  · intro k hk
    rcases List.mem_append.1 hk with hk | hk
    · exact h.seen k hk
    · exact List.mem_singleton.1 hk ▸ hseen
  · intro v hv k hk
    simpa using h.kept v hv k hk

end Account

namespace Phase

/-- What is known of the phase of a run after a history. -/
def Accounted (e : Engine) (r : Nat) (numbers : TaskNumbers) (ws : List World) : Phase → Prop
  | .starting => ∀ v ∈ ws, v.level? r = none
  | .planned plan | .loading plan _ | .loaded plan _ | .decoding plan _ _ =>
      e.registry.plan = .ok plan ∧ ∀ v ∈ ws, v.level? r = none
  | .analyzing c p none =>
      ∃ plan ls, e.registry.plan = .ok plan ∧ Account e r numbers plan c ws ls p none
  | .analyzing c p (some l) =>
      ∃ plan ls s node, e.registry.plan = .ok plan ∧
        LevelRun.start? c p.tree s = some l.unstarted ∧
        p.node = NodeScope.resolve p.tree s.path ∧
        Account e r numbers plan c ws ls { p with node := node, pending := s :: p.pending } (some l)
  | .finished (.ok rep) =>
      ∃ plan ls node, e.registry.plan = .ok plan ∧
        Account e r numbers plan rep.context ws ls ⟨numbers, rep.tree, rep.outcomes, node, []⟩ none
  | .finished (.error _) | .crashed | .abandoned => True

variable {j : Job} {φ ψ : Phase}

theorem forall_mem_snoc {P : World → Prop} (h : ∀ v ∈ ws, P v) (hw : P w) :
    ∀ v ∈ ws ++ [w], P v := by
  intro v hv
  rcases List.mem_append.1 hv with hv | hv
  · exact h v hv
  · exact List.mem_singleton.1 hv ▸ hw

/-- Before the analysis only a plan is known. -/
theorem accounted_of_advance {a : Advance} (hw : w.phase? r = some a.phase)
    (h : φ.Accounted e r numbers ws) (hφ : φ.rank.1 ≠ 1)
    (ha : φ.advance? e j numbers now cancelled = some a) :
    a.phase.Accounted e r numbers (ws ++ [w]) := by
  have hsnoc : (∀ v ∈ ws, v.level? r = none) → ∀ v ∈ ws ++ [w], v.level? r = none := fun hidle ↦
    forall_mem_snoc hidle ((World.level?_of_phase? hw).trans (level?_of_advance ha hφ))
  have hmoves := moves_of_advance ha
  generalize a.phase = ψ at hmoves ⊢
  cases hmoves with
  | plan plan hplan => exact ⟨hplan, hsnoc h⟩
  | load | loading | loaded | decode | decoding => exact ⟨h.1, hsnoc h.2⟩
  | decoded plan => exact ⟨plan, [], h.1, .initial (hsnoc h.2)⟩
  | graph | cancelled | unloaded | undecoded | crashed => trivial
  | report | missing | start | absorb | lost => exact absurd rfl hφ

theorem accounted_nextLevel (hw : w.phase? r = some (nextLevel cancelled c p))
    (h : (Phase.analyzing c p none).Accounted e r numbers ws) :
    (nextLevel cancelled c p).Accounted e r numbers (ws ++ [w]) := by
  obtain ⟨plan, ls, hplan, hacc⟩ := h
  have hlevel := World.level?_of_phase? hw
  unfold nextLevel at hlevel ⊢
  split
  next hpending =>
    rw [hpending] at hlevel
    have hnumbers : p.numbers = numbers := hacc.taken.numbers_eq
    cases p
    cases hpending
    cases hnumbers
    exact ⟨plan, ls, _, hplan, hacc.observe hlevel⟩
  next s rest hpending =>
    rw [hpending] at hlevel
    split
    · trivial
    next y hy =>
      split
      · trivial
      next hcancelled =>
        have hresolve := hacc.located.resolve?_eq s.path ▸ hy
        simp only [hy, hcancelled, Bool.false_eq_true, if_false] at hlevel
        refine ⟨plan, ls, s, p.node, hplan, ?_, hresolve.symm, ?_⟩
        · rw [LevelRun.unstarted_start, LevelRun.start?_of_resolve hresolve]
        · cases p
          cases hpending
          exact (hacc.enter _).observe hlevel

/-- The node of a level in flight is there still when the level is over. -/
theorem Accounted.leaveLevel_eq (h : (Phase.analyzing c p (some l)).Accounted e r numbers ws)
    (timeoutMs : UInt64) :
    leaveLevel timeoutMs c p l = .analyzing c (p.absorb timeoutMs l) none := by
  obtain ⟨_, _, s, _, _, hstart, _, _⟩ := h
  obtain ⟨scope, target, hresolve, _⟩ := LevelRun.start?_eq_some_iff.1 hstart
  have hfound : (l.path.handle? p.tree).isSome := by
    rw [NodePath.isSome_handle?, ← LevelRun.path_step, LevelRun.step_of_start? hstart, hresolve]
    rfl
  obtain ⟨k, hk⟩ := Option.isSome_iff_exists.1 hfound
  simp [leaveLevel, hk]

/-- With a level in flight a run stays, moves a task, or absorbs the level when it is over. -/
theorem Next.of_accounted_level (h : Next e j numbers now cancelled (.analyzing c p (some l)) φ)
    (hacc : (Phase.analyzing c p (some l)).Accounted e r numbers ws) :
    φ = .analyzing c p (some l) ∨
      (∃ l', TaskMove e now cancelled l l' ∧ φ = .analyzing c p (some l')) ∨
      (l.isOver = true ∧ φ = .analyzing c (p.absorb e.config.analyzerTimeoutMs l) none) ∨
      φ = .abandoned := hacc.leaveLevel_eq e.config.analyzerTimeoutMs ▸ h.of_level

theorem Accounted.observe (h : φ.Accounted e r numbers ws) (hlevel : w.level? r = φ.level?) :
    φ.Accounted e r numbers (ws ++ [w]) := by
  cases φ with
  | starting => exact forall_mem_snoc h hlevel
  | planned plan => exact ⟨h.1, forall_mem_snoc h.2 hlevel⟩
  | loading plan q => exact ⟨h.1, forall_mem_snoc h.2 hlevel⟩
  | loaded plan environment => exact ⟨h.1, forall_mem_snoc h.2 hlevel⟩
  | decoding plan environment q => exact ⟨h.1, forall_mem_snoc h.2 hlevel⟩
  | analyzing c p l? =>
      cases l? with
      | none =>
          obtain ⟨plan, ls, hplan, hacc⟩ := h
          exact ⟨plan, ls, hplan, hacc.observe hlevel⟩
      | some l =>
          obtain ⟨plan, ls, s, node, hplan, hstart, hnode, hacc⟩ := h
          exact ⟨plan, ls, s, node, hplan, hstart, hnode, hacc.observe hlevel⟩
  | finished result =>
      cases result with
      | error x => trivial
      | ok rep =>
          obtain ⟨plan, ls, node, hplan, hacc⟩ := h
          exact ⟨plan, ls, node, hplan, hacc.observe hlevel⟩
  | crashed => trivial
  | abandoned => trivial

/-- Every step of a run keeps its account. -/
theorem Next.accounted (h : Next e j numbers now cancelled φ ψ) (hφ : φ.Accounted e r numbers ws)
    (hseen : ∀ l, φ.level? = some l → ∃ v ∈ ws, v.level? r = some l)
    (hw : w.phase? r = some ψ) : ψ.Accounted e r numbers (ws ++ [w]) := by
  have hlevel := World.level?_of_phase? hw
  by_cases hrank : φ.rank.1 = 1
  · obtain ⟨c, p, l?, rfl⟩ : ∃ c p l?, φ = .analyzing c p l? := by
      cases φ <;> simp [rank] at hrank ⊢
    cases l? with
    | none =>
        rcases h.of_between with rfl | rfl | rfl
        · exact hφ.observe hlevel
        · exact accounted_nextLevel hw hφ
        · trivial
    | some l =>
        rcases h.of_accounted_level hφ with rfl | ⟨l', hmove, rfl⟩ | ⟨hover, rfl⟩ | rfl
        · exact hφ.observe hlevel
        · obtain ⟨plan, ls, s, node, hplan, hstart, hnode, hacc⟩ := hφ
          have hc := LevelRun.Continues.of_taskMove hmove
          exact ⟨plan, ls, s, node, hplan, hc.unstarted ▸ hstart, hnode,
            (hacc.proceed hc).observe hlevel⟩
        · obtain ⟨plan, ls, s, node, hplan, hstart, hnode, hacc⟩ := hφ
          exact ⟨plan, _, hplan, (hacc.absorb hstart hnode hover (hseen l rfl)).observe hlevel⟩
        · trivial
  · cases h with
    | stay => exact hφ.observe hlevel
    | advance ha => exact accounted_of_advance hw hφ hrank ha
    | task ha =>
        obtain ⟨c, p, l, l', rfl, _⟩ := advanceTask?_eq_some ha
        exact absurd rfl hrank
    | abandon => trivial

end Phase

namespace World.History

theorem accounted (h : History e u ws w) (hu : u.phase? r = some .starting) :
    ∃ φ, w.phase? r = some φ ∧ φ.Accounted e r (w.numbers r) ws := by
  induction h with
  | start =>
      refine ⟨.starting, hu, ?_⟩
      intro v hv
      obtain rfl := List.mem_singleton.1 hv
      exact World.level?_of_phase? hu
  | @step ws v w hpast hstep ih =>
      obtain ⟨φ, hφ, hacc⟩ := ih
      obtain ⟨x, hx, rfl⟩ := World.phase?_eq_some_iff.1 hφ
      obtain ⟨y, hy, hnext⟩ := World.exists_follows_of_step hstep hx
      have hw : w.phase? r = some y.phase := World.phase?_eq_some_iff.2 ⟨y, hy, rfl⟩
      rw [World.numbers_of_getElem? hx] at hacc
      rw [World.numbers_of_getElem? hy, hnext.numbers]
      refine ⟨y.phase, hw, hnext.next.accounted hacc ?_ hw⟩
      intro l hl
      exact ⟨v, hpast.last_mem, (World.level?_of_phase? hφ).trans hl⟩

/-- A finished run has an account that lists all steps of its plan. -/
theorem exists_account {rep : Report} (h : History e u ws w) (hu : u.phase? r = some .starting)
    (hw : w.phase? r = some (.finished (.ok rep))) :
    ∃ plan ls node, e.registry.plan = .ok plan ∧ Account e r (w.numbers r) plan rep.context ws ls
      ⟨w.numbers r, rep.tree, rep.outcomes, node, []⟩ none := by
  obtain ⟨φ, hφ, hacc⟩ := h.accounted hu
  obtain rfl : φ = .finished (.ok rep) := Option.some.inj (hφ.symm.trans hw)
  exact hacc

end World.History

namespace World

theorem exists_accounted {φ : Phase} (hu : u.phase? r = some .starting) (huw : Steps e u w)
    (hw : w.phase? r = some φ) : ∃ ws, φ.Accounted e r (w.numbers r) ws := by
  obtain ⟨ws, _, hws⟩ := History.start.exists_extend huw
  obtain ⟨ψ, hψ, hacc⟩ := hws.accounted hu
  obtain rfl : ψ = φ := Option.some.inj (hψ.symm.trans hw)
  exact ⟨ws, hacc⟩

theorem exists_account_of_steps {rep : Report} (hu : u.phase? r = some .starting)
    (huw : Steps e u w) (hw : w.phase? r = some (.finished (.ok rep))) :
    ∃ ws plan ls node, History e u ws w ∧ e.registry.plan = .ok plan ∧
      Account e r (w.numbers r) plan rep.context ws ls
        ⟨w.numbers r, rep.tree, rep.outcomes, node, []⟩ none := by
  obtain ⟨ws, _, hws⟩ := History.start.exists_extend huw
  obtain ⟨plan, ls, node, hplan, hacc⟩ := hws.exists_account hu hw
  exact ⟨ws, plan, ls, node, hws, hplan, hacc⟩

/-- A run that leaves a level goes on behind it. -/
theorem leaveLevel_eq_of_steps (hu : u.phase? r = some .starting) (huv : Steps e u v)
    (hv : v.phase? r = some (.analyzing c p (some l))) (timeoutMs : UInt64) :
    Phase.leaveLevel timeoutMs c p l = .analyzing c (p.absorb timeoutMs l) none := by
  obtain ⟨ws, hacc⟩ := exists_accounted hu huv hv
  exact hacc.leaveLevel_eq timeoutMs

end World

end Timelock
