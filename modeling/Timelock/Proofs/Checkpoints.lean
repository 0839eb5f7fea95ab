import Timelock.Proofs.Cancellation

/-!
# Where a run looks for cancellation

Once a run is cancelled at a point at which it looks, nothing but its being abandoned keeps it from
ending there.  Every run that has ended did so by a move of its own.
-/

namespace Timelock

variable {e : Engine} {r now : Nat} {j : Job} {numbers : TaskNumbers} {cancelled : Bool}
  {plan : Plan} {u v w z : World} {c : ExecutionContext} {p : Progress} {l : LevelRun}
  {ws : List World} {φ ψ : Phase} {s : Stage} {x : Run} {res : Except AnalysisError Report}

namespace Phase

theorem callMove_of_isParked {α : Type} {stage : Stage} {q : Position α}
    {stay : Position α → Phase} {leave : α → Phase} (h : q.isParked = true) :
    callMove stage now true q stay leave = some (failed (.cancelled stage)) := by
  simp [callMove, h]

theorem advance?_of_checkpoint (h : φ.checkpoint? e = some s) :
    φ.advance? e j numbers now true = some (failed (.cancelled s)) := by
  unfold checkpoint? at h
  split at h
  · split at h
    next plan hplan =>
      cases h
      simp [advance?, hplan]
    · cases h
  · cases h
    rfl
  · simp only [Option.ite_none_right_eq_some, Option.some.injEq] at h
    obtain ⟨hq, rfl⟩ := h
    exact callMove_of_isParked hq
  · cases h
    rfl
  · simp only [Option.ite_none_right_eq_some, Option.some.injEq] at h
    obtain ⟨hq, rfl⟩ := h
    exact callMove_of_isParked hq
  next x p =>
    obtain ⟨step, hstep, h⟩ := Option.bind_eq_some_iff.1 h
    obtain ⟨y, hy, rfl⟩ := Option.map_eq_some_iff.1 h
    obtain ⟨rest, hp⟩ := List.head?_eq_some_iff.1 hstep
    simp [advance?, nextLevel, hp, hy, failed]
  all_goals cases h

/-! ## What one step leaves open -/

/-- A run that is cancelled at a point at which it looks stays there, or ends there. -/
theorem Next.of_checkpoint (h : Next e j numbers now true φ ψ) (hs : φ.checkpoint? e = some s) :
    ψ = φ ∨ ψ = .finished (.error (.cancelled s)) ∨ ψ = .abandoned := by
  cases h with
  | stay => exact .inl rfl
  | advance ha =>
      rw [advance?_of_checkpoint hs] at ha
      cases ha
      exact .inr (.inl rfl)
  | task ha =>
      obtain ⟨_, _, _, _, rfl, _⟩ := advanceTask?_eq_some ha
      cases hs
  | abandon => exact .inr (.inr rfl)

theorem Next.of_plan_error {y : PlanError} (h : Next e j numbers now cancelled .starting ψ)
    (hplan : e.registry.plan = .error y) :
    ψ = .starting ∨ ψ = .finished (.error (.graph y)) ∨ ψ = .abandoned := by
  cases h with
  | stay => exact .inl rfl
  | advance ha =>
      simp only [advance?, hplan] at ha
      cases ha
      exact .inr (.inl rfl)
  | task ha =>
      obtain ⟨_, _, _, _, heq, _⟩ := advanceTask?_eq_some ha
      cases heq
  | abandon => exact .inr (.inr rfl)

theorem rank_fst_le {a b : Nat × Nat × Nat} (h : RankLess a b) : a.1 ≤ b.1 := by
  cases h with
  | left _ _ hlt => exact hlt.le
  | right => exact le_refl _

/-- A run does not go back to an earlier stage. -/
theorem Next.rank_le (h : Next e j numbers now cancelled φ ψ) : ψ.rank.1 ≤ φ.rank.1 := by
  cases h with
  | stay => exact le_refl _
  | advance ha => exact rank_fst_le (rankLess_of_advance ha)
  | task ha => exact rank_fst_le (rankLess_of_advanceTask ha)
  | abandon => exact Nat.zero_le _

theorem Next.ne_crashed (h : Next e j numbers now cancelled φ ψ) (hφ : φ ≠ .crashed)
    (hbound : exceedsPermits e.config.maxConcurrency = false) : ψ ≠ .crashed := by
  cases h with
  | stay => exact hφ
  | task ha =>
      obtain ⟨_, _, _, _, _, _, heq⟩ := advanceTask?_eq_some ha
      simp [heq]
  | abandon => nofun
  | @advance a ha =>
      have hmoves := moves_of_advance ha
      generalize a.phase = ψ at hmoves ⊢
      cases hmoves with
      | crashed _ _ _ _ _ hexceeds => cases hexceeds.symm.trans hbound
      | _ => nofun

end Phase

namespace World

/-! ## What a history leaves open -/

/-- What every step of a run keeps. -/
theorem exists_run_of_steps {P : Run → Prop} (h : Steps e v w) (hx : v.runs[r]? = some x) (hP : P x)
    (hnext : ∀ (z : World) (y y' : Run), Steps e v z → z.runs[r]? = some y → P y →
      Follows e z y y' → P y') : ∃ y, w.runs[r]? = some y ∧ P y := by
  induction h with
  | refl => exact ⟨x, hx, hP⟩
  | tail hsteps hstep ih =>
      obtain ⟨y, hy, hPy⟩ := ih
      obtain ⟨y', hy', hfollows⟩ := exists_follows_of_step hstep hy
      exact ⟨y', hy', hnext _ y y' hsteps hy hPy hfollows⟩

theorem job_and_numbers_of_steps {y : Run} (h : Steps e u w) (hx : u.runs[r]? = some x)
    (hy : w.runs[r]? = some y) : y.job = x.job ∧ y.numbers = x.numbers := by
  obtain ⟨y', hy', hkept⟩ :=
    exists_run_of_steps (P := fun y ↦ y.job = x.job ∧ y.numbers = x.numbers) h hx ⟨rfl, rfl⟩
      fun z y y' _ _ hkept hfollows ↦
        ⟨hfollows.job.trans hkept.1, hfollows.numbers.trans hkept.2⟩
  rwa [Option.some.inj (hy.symm.trans hy')]

theorem numbers_of_steps (h : Steps e u w) (hx : u.runs[r]? = some x) :
    w.numbers r = x.numbers := by
  obtain ⟨y, hy⟩ := exists_getElem?_of_steps h hx
  rw [numbers_of_getElem? hy, (job_and_numbers_of_steps h hx hy).2]

/-- What every step keeps of the phase of a run. -/
theorem phase?_of_steps {P : Phase → Prop} (h : Steps e v w) (hv : v.phase? r = some φ) (hφ : P φ)
    (hnext : ∀ (z : World) (j : Job) (numbers : TaskNumbers) (χ ψ : Phase), Steps e v z → P χ →
      χ.Next e j numbers z.now (z.isRunCancelled r) ψ → P ψ) :
    ∃ ψ, w.phase? r = some ψ ∧ P ψ := by
  obtain ⟨x, hx, rfl⟩ := phase?_eq_some_iff.1 hv
  obtain ⟨y, hy, hP⟩ := exists_run_of_steps (P := fun y ↦ P y.phase) h hx hφ
    fun z y y' hz hy hP hfollows ↦ by
      have hstep := hfollows.next
      rw [← isRunCancelled_of_getElem? hy] at hstep
      exact hnext z _ _ _ _ hz hP hstep
  exact ⟨y.phase, phase?_eq_some_iff.2 ⟨y, hy, rfl⟩, hP⟩

theorem phase?_eq_of_settled (h : Steps e v w) (hv : v.phase? r = some φ)
    (hφ : φ.isSettled = true) : w.phase? r = some φ := by
  obtain ⟨ψ, hψ, rfl⟩ := phase?_of_steps (P := fun χ ↦ χ = φ) h hv rfl
    fun z j _ χ ψ _ hχ hnext ↦ by
      subst hχ
      exact hnext.of_settled hφ
  exact hψ

theorem rank_le_of_steps (h : Steps e v w) (hv : v.phase? r = some φ) (hw : w.phase? r = some ψ) :
    ψ.rank.1 ≤ φ.rank.1 := by
  obtain ⟨χ, hχ, hle⟩ := phase?_of_steps (P := fun χ ↦ χ.rank.1 ≤ φ.rank.1) h hv (le_refl _)
    fun z j _ χ ψ _ hχ hnext ↦ hnext.rank_le.trans hχ
  obtain rfl : χ = ψ := Option.some.inj (hχ.symm.trans hw)
  exact hle

/-- A phase out of which a run can only end in one way, unless it is abandoned. -/
theorem phase?_of_fate (h : Steps e v w) (hv : v.phase? r = some φ) (hψ : ψ.isSettled = true)
    (hfate : ∀ (z : World) (j : Job) (numbers : TaskNumbers) (χ : Phase), Steps e v z →
      φ.Next e j numbers z.now (z.isRunCancelled r) χ → χ = φ ∨ χ = ψ ∨ χ = .abandoned) :
    w.phase? r = some φ ∨ w.phase? r = some ψ ∨ w.phase? r = some .abandoned := by
  obtain ⟨χ, hχ, hcases⟩ := phase?_of_steps (P := fun χ ↦ χ = φ ∨ χ = ψ ∨ χ = .abandoned) h hv
    (.inl rfl) fun z j numbers χ χ' hz hχ hnext ↦ by
      rcases hχ with rfl | rfl | rfl
      · exact hfate z j numbers χ' hz hnext
      · exact .inr (.inl (hnext.of_settled hψ))
      · exact .inr (.inr (hnext.of_settled rfl))
  rcases hcases with rfl | rfl | rfl
  · exact .inl hχ
  · exact .inr (.inl hχ)
  · exact .inr (.inr hχ)

theorem phase?_of_checkpoint (h : Steps e v w) (hv : v.phase? r = some φ)
    (hs : φ.checkpoint? e = some s) (hc : v.isRunCancelled r = true) :
    w.phase? r = some φ ∨ w.phase? r = some (.finished (.error (.cancelled s))) ∨
      w.phase? r = some .abandoned :=
  phase?_of_fate h hv rfl fun z j _ χ hz hnext ↦ by
    rw [isRunCancelled_of_steps hz hc] at hnext
    exact hnext.of_checkpoint hs

namespace History

/-- Where a run has left a phase. -/
theorem exists_exit (h : History e u ws w) (hv : v ∈ ws) (hφ : v.phase? r = some φ)
    (hw : w.phase? r ≠ some φ) :
    ∃ z z', [z, z'] <:+: ws ∧ z.phase? r = some φ ∧ z'.phase? r ≠ some φ := by
  induction h with
  | start =>
      obtain rfl := List.mem_singleton.1 hv
      exact absurd hφ hw
  | @step ws y w hpast hstep ih =>
      by_cases hy : y.phase? r = some φ
      · exact ⟨y, w, hpast.infix_snoc, hy, hw⟩
      · rcases List.mem_append.1 hv with hv | hv
        · obtain ⟨z, z', hpair, hz⟩ := ih hv hy
          exact ⟨z, z', hpair.trans (List.prefix_append _ _).isInfix, hz⟩
        · obtain rfl := List.mem_singleton.1 hv
          exact absurd hφ hw

/-- The move with which a run has come to its last phase, if it is not abandoned. -/
theorem exists_settles (h : History e u ws w) (hx : u.runs[r]? = some x)
    (hopen : x.phase.isSettled = false) (hw : w.phase? r = some ψ) (hψ : ψ.isSettled = true)
    (hkept : ψ ≠ .abandoned) :
    ∃ v v' φ, [v, v'] <:+: ws ∧ v.move? e (.run r) = some v' ∧ v.phase? r = some φ ∧
      φ.Moves e x.job x.numbers v.now (v.isRunCancelled r) ψ ∧ v'.phase? r = some ψ := by
  induction h with
  | start =>
      have hphase : x.phase = ψ :=
        Option.some.inj ((phase?_eq_some_iff.2 ⟨x, hx, rfl⟩).symm.trans hw)
      rw [hphase, hψ] at hopen
      cases hopen
  | @step ws y w hpast hstep ih =>
      have hmono : ∀ {v v' : World}, [v, v'] <:+: ws → [v, v'] <:+: ws ++ [w] := fun hpair ↦
        hpair.trans (List.prefix_append _ _).isInfix
      obtain ⟨z, hz⟩ := exists_getElem?_of_steps hpast.steps hx
      have hy : y.phase? r = some z.phase := phase?_eq_some_iff.2 ⟨z, hz, rfl⟩
      cases stepOf_step hstep hz with
      | elsewhere xs hphase =>
          obtain ⟨v, v', φ, hpair, hend⟩ := ih (hy.trans (hphase.symm.trans hw))
          exact ⟨v, v', φ, hmono hpair, hend⟩
      | run a hmove ha hphase =>
          obtain ⟨hjob, hnumbers⟩ := job_and_numbers_of_steps hpast.steps hx hz
          rw [hjob, hnumbers] at ha
          have hend : a.phase = ψ := Option.some.inj (hphase.symm.trans hw)
          exact ⟨y, w, z.phase, hpast.infix_snoc, hmove, hy, hend ▸ Phase.moves_of_advance ha, hw⟩
      | task i t a _ ha hphase =>
          obtain ⟨_, _, _, _, _, _, heq⟩ := Phase.advanceTask?_eq_some ha
          rw [← Option.some.inj (hphase.symm.trans hw), heq] at hψ
          cases hψ
      | abandon _ hphase => exact absurd (Option.some.inj (hw.symm.trans hphase)) hkept

/-- The move with which a run has ended. -/
theorem exists_ends (h : History e u ws w) (hx : u.runs[r]? = some x)
    (hopen : x.phase.isSettled = false) (hw : w.phase? r = some (.finished res)) :
    ∃ v v' φ, [v, v'] <:+: ws ∧ v.move? e (.run r) = some v' ∧ v.phase? r = some φ ∧
      φ.Moves e x.job x.numbers v.now (v.isRunCancelled r) (.finished res) ∧
      v'.phase? r = some (.finished res) :=
  h.exists_settles hx hopen hw rfl nofun

end History

end World

end Timelock
