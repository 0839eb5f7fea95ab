import Timelock.Proofs.RunMoves
import Timelock.World.Step

/-!
# Histories of a run

A history lists worlds that follow one another by steps.  Each of its steps leaves a given run
alone, moves the run itself or one of its tasks, or abandons it; the run keeps its job, its token
and the numbers of its tasks, and a token that has been cancelled stays cancelled.
-/

namespace Timelock

namespace Phase

def level? : Phase → Option LevelRun
  | .analyzing _ _ l => l
  | _ => none

/-- What a step of a world can be to the phase of one run. -/
inductive Next (e : Engine) (j : Job) (numbers : TaskNumbers) (now : Nat) (cancelled : Bool) :
    Phase → Phase → Prop
  | stay (p : Phase) : Next e j numbers now cancelled p p
  | advance {p : Phase} {a : Advance} (h : p.advance? e j numbers now cancelled = some a) :
      Next e j numbers now cancelled p a.phase
  | task {p : Phase} {i : Nat} {a : Advance} (h : p.advanceTask? e now cancelled i = some a) :
      Next e j numbers now cancelled p a.phase
  | abandon {p : Phase} (h : p.isSettled = false) : Next e j numbers now cancelled p .abandoned

variable {e : Engine} {j : Job} {numbers : TaskNumbers} {now : Nat} {cancelled : Bool}
  {c : ExecutionContext} {p : Progress} {l : LevelRun} {φ : Phase}

def TaskMove (e : Engine) (now : Nat) (cancelled : Bool) (l l' : LevelRun) : Prop :=
  ∃ i t free b, l.tasks[i]? = some t ∧ t.advance? e.timeoutMs now cancelled free = some b ∧
    l' = l.setState i b.state

theorem advanceTask?_eq_some {i : Nat} {a : Advance}
    (h : φ.advanceTask? e now cancelled i = some a) :
    ∃ c p l l', φ = .analyzing c p (some l) ∧ TaskMove e now cancelled l l' ∧
      a.phase = .analyzing c p (some l') := by
  unfold advanceTask? at h
  split at h
  next c p l =>
    split at h
    · cases h
    next t ht =>
      split at h
      · cases h
      next b hb =>
        cases h
        exact ⟨c, p, l, _, rfl, ⟨i, t, _, b, ht, hb, rfl⟩, rfl⟩
  · cases h

theorem level?_of_advance {a : Advance} (ha : φ.advance? e j numbers now cancelled = some a)
    (hφ : φ.rank.1 ≠ 1) : a.phase.level? = none := by
  have hmoves := moves_of_advance ha
  generalize a.phase = ψ at hmoves ⊢
  cases hmoves with
  | start | absorb => exact absurd rfl hφ
  | _ => rfl

theorem Next.of_settled {ψ : Phase} (h : Next e j numbers now cancelled φ ψ)
    (hφ : φ.isSettled = true) : ψ = φ := by
  cases h with
  | stay => rfl
  | advance ha => cases φ <;> simp_all [isSettled, advance?]
  | task ha =>
      obtain ⟨_, _, _, _, rfl, _⟩ := advanceTask?_eq_some ha
      cases hφ
  | abandon hn => rw [hφ] at hn; cases hn

/-- Between two levels a run stays, goes to the next one, or ends. -/
theorem Next.of_between (h : Next e j numbers now cancelled (.analyzing c p none) φ) :
    φ = .analyzing c p none ∨ φ = nextLevel cancelled c p ∨ φ = .abandoned := by
  cases h with
  | stay => exact .inl rfl
  | advance ha =>
      simp only [advance?, Option.some.injEq] at ha
      exact .inr (.inl (ha ▸ rfl))
  | task ha =>
      obtain ⟨_, _, _, _, heq, _⟩ := advanceTask?_eq_some ha
      cases heq
  | abandon => exact .inr (.inr rfl)

/-- With a level in flight a run stays, moves a task, or leaves the level when it is over. -/
theorem Next.of_level (h : Next e j numbers now cancelled (.analyzing c p (some l)) φ) :
    φ = .analyzing c p (some l) ∨
      (∃ l', TaskMove e now cancelled l l' ∧ φ = .analyzing c p (some l')) ∨
      (l.isOver = true ∧ φ = leaveLevel e.config.analyzerTimeoutMs c p l) ∨ φ = .abandoned := by
  cases h with
  | stay => exact .inl rfl
  | advance ha =>
      simp only [advance?, Config.wholeMilliseconds_analyzerTimeout, Option.ite_none_right_eq_some,
        Option.some.injEq] at ha
      obtain ⟨hover, rfl⟩ := ha
      exact .inr (.inr (.inl ⟨hover, rfl⟩))
  | task ha =>
      obtain ⟨c', p', k, l', heq, hmove, hphase⟩ := advanceTask?_eq_some ha
      cases heq
      exact .inr (.inl ⟨l', hmove, hphase⟩)
  | abandon => exact .inr (.inr (.inr rfl))

theorem level?_eq_some (h : φ.level? = some l) : ∃ c p, φ = .analyzing c p (some l) := by
  cases φ <;> simp_all [level?]

theorem level?_leaveLevel (timeoutMs : UInt64) : (leaveLevel timeoutMs c p l).level? = none := by
  unfold leaveLevel
  split <;> rfl

theorem level?_nextLevel (h : (nextLevel cancelled c p).level? = some l) :
    ∃ t s scope target, l = LevelRun.start c t s scope target := by
  unfold nextLevel at h
  split at h
  · cases h
  next s rest _ =>
    split at h
    · cases h
    next y _ =>
      split at h
      · cases h
      · cases h
        exact ⟨p.tree, s, y.1, y.2, rfl⟩

/-- A level in flight was in flight before, has moved a task, or has just been started. -/
theorem Next.level?_cases (h : Next e j numbers now cancelled φ ψ) (hψ : ψ.level? = some l') :
    φ.level? = some l' ∨ (∃ l, φ.level? = some l ∧ TaskMove e now cancelled l l') ∨
      ∃ c t s scope target, l' = LevelRun.start c t s scope target := by
  cases h with
  | stay => exact .inl hψ
  | abandon => cases hψ
  | task ha =>
      obtain ⟨c, p, l, k, rfl, hmove, hphase⟩ := advanceTask?_eq_some ha
      rw [hphase] at hψ
      cases hψ
      exact .inr (.inl ⟨l, rfl, hmove⟩)
  | advance ha =>
      by_cases hrank : φ.rank.1 = 1
      · obtain ⟨c, p, l?, rfl⟩ : ∃ c p l?, φ = .analyzing c p l? := by
          cases φ <;> simp [rank] at hrank ⊢
        cases l? with
        | none =>
            simp only [advance?, Option.some.injEq] at ha
            subst ha
            exact .inr (.inr ⟨c, level?_nextLevel hψ⟩)
        | some l =>
            simp only [advance?, Option.ite_none_right_eq_some, Option.some.injEq] at ha
            obtain ⟨_, rfl⟩ := ha
            rw [level?_leaveLevel] at hψ
            cases hψ
      · rw [level?_of_advance ha hrank] at hψ
        cases hψ

theorem TaskMove.task_cases {t : Task} (h : TaskMove e now cancelled l l') (ht : t ∈ l'.tasks) :
    l.path = l'.path ∧ (t ∈ l.tasks ∨ ∃ k ∈ l.tasks, ∃ free b,
      k.advance? e.timeoutMs now cancelled free = some b ∧ t = { k with state := b.state }) := by
  obtain ⟨i, k, free, b, hk, hb, rfl⟩ := h
  obtain ⟨n, hn⟩ := List.mem_iff_getElem?.1 ht
  rw [LevelRun.setState, List.getElem?_modify] at hn
  obtain ⟨k', hk', rfl⟩ := Option.map_eq_some_iff.1 hn
  have hmem : k' ∈ l.tasks := List.mem_of_getElem? hk'
  refine ⟨rfl, ?_⟩
  by_cases hin : i = n
  · subst hin
    obtain rfl : k = k' := Option.some.inj (hk.symm.trans hk')
    right
    exact ⟨k, hmem, free, b, hb, by simp⟩
  · left
    simpa [hin] using hmem

/-- A task in flight was in flight before, has just moved, or waits since its level has started. -/
theorem Next.task_cases {t : Task} (h : Next e j numbers now cancelled φ ψ)
    (hψ : ψ.level? = some l') (ht : t ∈ l'.tasks) :
    (∃ l, φ.level? = some l ∧ l.path = l'.path ∧ t ∈ l.tasks) ∨
      (∃ l, φ.level? = some l ∧ l.path = l'.path ∧ ∃ k ∈ l.tasks, ∃ free b,
        k.advance? e.timeoutMs now cancelled free = some b ∧ t = { k with state := b.state }) ∨
      t.state = .waiting := by
  rcases h.level?_cases hψ with hl | ⟨l, hl, hmove⟩ | ⟨c, u, s, scope, target, rfl⟩
  · exact .inl ⟨l', hl, rfl, ht⟩
  · obtain ⟨hpath, hold | hmoved⟩ := hmove.task_cases ht
    · exact .inl ⟨l, hl, hpath, hold⟩
    · exact .inr (.inl ⟨l, hl, hpath, hmoved⟩)
  · right
    right
    obtain ⟨a, _, rfl⟩ := List.mem_map.1 ht
    rfl

end Phase

namespace World

variable {e : Engine} {u v w w' : World} {r : Nat} {x : Run} {ws ws' : List World}

def phase? (w : World) (r : Nat) : Option Phase := w.runs[r]?.map Run.phase

def level? (w : World) (r : Nat) : Option LevelRun := (w.phase? r).bind Phase.level?

/-- The numbers of the tasks of a run; without such a run there are no tasks. -/
def numbers (w : World) (r : Nat) : TaskNumbers :=
  match w.runs[r]? with
  | some x => x.numbers
  | none => fun _ _ ↦ 0

theorem numbers_of_getElem? (hx : w.runs[r]? = some x) : w.numbers r = x.numbers := by
  simp [numbers, hx]

theorem level?_of_phase? {φ : Phase} (h : w.phase? r = some φ) : w.level? r = φ.level? := by
  simp [level?, h]

theorem phase?_eq_some_iff {φ : Phase} :
    w.phase? r = some φ ↔ ∃ x, w.runs[r]? = some x ∧ x.phase = φ := by
  simp [phase?]

/-! ## Steps as seen by one run -/

@[simp] theorem now_carryOut (w : World) (r : Nat) (x : Run) (events : List Event)
    (a : Phase.Advance) : (w.carryOut r x events a).now = w.now := by
  unfold carryOut
  split <;> rfl

@[simp] theorem now_act (w : World) (a : AlarmAction) : (w.act a).now = w.now := by
  cases a with
  | cancel token => rfl
  | abandon r =>
      simp only [act]
      split
      · rfl
      · split <;> rfl

theorem isCancelled_cancel {k k' : Nat} (h : w.isCancelled k = true) :
    (w.cancel k').isCancelled k = true := by
  simp only [isCancelled, cancel, List.contains_iff_mem, List.mem_cons] at h ⊢
  exact .inr h

theorem isCancelled_carryOut {k : Nat} (events : List Event) (a : Phase.Advance)
    (h : w.isCancelled k = true) : (w.carryOut r x events a).isCancelled k = true := by
  unfold carryOut
  split
  · exact isCancelled_cancel h
  · exact h

theorem isCancelled_act {k : Nat} (a : AlarmAction) (h : w.isCancelled k = true) :
    (w.act a).isCancelled k = true := by
  cases a with
  | cancel token => exact isCancelled_cancel h
  | abandon r =>
      simp only [act]
      split
      · exact h
      · split <;> exact h

theorem moveRun?_eq_some (h : w.moveRun? e r = some w') :
    ∃ x a, w.runs[r]? = some x ∧
      x.phase.advance? e x.job x.numbers w.now (w.isCancelled x.token) = some a ∧
      w' = w.carryOut r x [] a := by
  unfold moveRun? at h
  split at h
  · cases h
  next x hx =>
    split at h
    · cases h
    next a ha => exact ⟨x, a, hx, ha, (Option.some.inj h).symm⟩

theorem moveTask?_eq_some {i : Nat} (h : w.moveTask? e r i = some w') :
    ∃ x a t, w.runs[r]? = some x ∧
      x.phase.advanceTask? e w.now (w.isCancelled x.token) i = some a ∧
      x.phase.tasks[i]? = some t ∧ w' = w.carryOut r x (runEvents r i t a.incidents) a := by
  unfold moveTask? at h
  split at h
  · cases h
  next x hx =>
    split at h
    · cases h
    next a ha =>
      split at h
      · cases h
      next t ht => exact ⟨x, a, t, hx, ha, ht, (Option.some.inj h).symm⟩

theorem moveAlarm?_eq_some {k : Nat} (h : w.moveAlarm? k = some w') :
    ∃ a, w' = { w.act a with alarms := w.alarms.modify k ring } := by
  unfold moveAlarm? at h
  split at h
  · cases h
  next a _ => exact ⟨a.action, (Option.some.inj (Option.ite_none_right_eq_some.1 h).2).symm⟩

/-- What a move of a world can be: a move of a run, of one of its tasks, or of an alarm. -/
theorem move?_eq_some {y : Thread} (h : w.move? e y = some w') :
    (∃ r x a events, w.runs[r]? = some x ∧ w' = w.carryOut r x events a ∧
      (x.phase.advance? e x.job x.numbers w.now (w.isCancelled x.token) = some a ∨
        ∃ i, x.phase.advanceTask? e w.now (w.isCancelled x.token) i = some a)) ∨
      ∃ k a, w' = { w.act a with alarms := w.alarms.modify k ring } := by
  cases y with
  | run r =>
      obtain ⟨x, a, hx, ha, hw'⟩ := moveRun?_eq_some h
      exact .inl ⟨r, x, a, [], hx, hw', .inl ha⟩
  | task r i =>
      obtain ⟨x, a, t, hx, ha, _, hw'⟩ := moveTask?_eq_some h
      exact .inl ⟨r, x, a, _, hx, hw', .inr ⟨i, ha⟩⟩
  | alarm k =>
      obtain ⟨a, hw'⟩ := moveAlarm?_eq_some h
      exact .inr ⟨k, a, hw'⟩

theorem now_of_move {y : Thread} (h : w.move? e y = some w') : w'.now = w.now := by
  rcases move?_eq_some h with ⟨r, x, a, events, _, rfl, _⟩ | ⟨k, a, rfl⟩
  · simp
  · exact now_act w a

theorem isCancelled_of_step {k : Nat} (h : Step e w w') (hk : w.isCancelled k = true) :
    w'.isCancelled k = true := by
  cases h with
  | move y _ hm =>
      rcases move?_eq_some hm with ⟨r, x, a, events, _, rfl, _⟩ | ⟨_, a, rfl⟩
      · exact isCancelled_carryOut events a hk
      · exact isCancelled_act a hk
  | wait due idle hdue => exact hk

/-- A run after a step: with the same job, token and numbers, and in a phase that may come next. -/
structure Follows (e : Engine) (w : World) (x y : Run) : Prop where
  job : y.job = x.job
  token : y.token = x.token
  numbers : y.numbers = x.numbers
  next : Phase.Next e x.job x.numbers w.now (w.isCancelled x.token) x.phase y.phase

theorem Follows.refl (x : Run) : Follows e w x x := ⟨rfl, rfl, rfl, .stay _⟩

theorem exists_follows_of_act (hx : w.runs[r]? = some x) (a : AlarmAction) :
    ∃ y, (w.act a).runs[r]? = some y ∧ Follows e w x y := by
  cases a with
  | cancel token => exact ⟨x, hx, .refl x⟩
  | abandon k =>
      simp only [act]
      split
      · exact ⟨x, hx, .refl x⟩
      next z hz =>
        split
        · exact ⟨x, hx, .refl x⟩
        next hsettled =>
          by_cases hk : k = r
          · subst hk
            obtain rfl : z = x := Option.some.inj (hz.symm.trans hx)
            refine ⟨z.withPhase .abandoned, by simp [setPhase, hx], rfl, rfl, rfl, ?_⟩
            exact .abandon (by simpa using hsettled)
          · exact ⟨x, by simp [setPhase, hk, hx], .refl x⟩

/-- Every step of a world is a step of each of its runs, or none. -/
theorem exists_follows_of_step (h : Step e w w') (hx : w.runs[r]? = some x) :
    ∃ y, w'.runs[r]? = some y ∧ Follows e w x y := by
  cases h with
  | move y _ hm =>
      rcases move?_eq_some hm with ⟨k, z, a, events, hz, rfl, ha⟩ | ⟨_, a, rfl⟩
      · by_cases hk : k = r
        · subst hk
          obtain rfl : z = x := Option.some.inj (hz.symm.trans hx)
          refine ⟨z.withPhase a.phase, by simp [hx], rfl, rfl, rfl, ?_⟩
          rcases ha with ha | ⟨i, ha⟩
          · exact .advance ha
          · exact .task ha
        · exact ⟨x, by simp [hk, hx], .refl x⟩
      · exact exists_follows_of_act hx a
  | wait due idle hdue => exact ⟨x, hx, .refl x⟩

def isRunCancelled (w : World) (r : Nat) : Bool := w.runs[r]?.any (fun x ↦ w.isCancelled x.token)

theorem isRunCancelled_of_getElem? (hx : w.runs[r]? = some x) :
    w.isRunCancelled r = w.isCancelled x.token := by
  simp [isRunCancelled, hx]

theorem isRunCancelled_of_step (h : Step e w w') (hr : w.isRunCancelled r = true) :
    w'.isRunCancelled r = true := by
  cases hx : w.runs[r]? with
  | none => simp [isRunCancelled, hx] at hr
  | some x =>
      obtain ⟨y, hy, hfollows⟩ := exists_follows_of_step h hx
      rw [isRunCancelled_of_getElem? hx] at hr
      rw [isRunCancelled_of_getElem? hy, hfollows.token]
      exact isCancelled_of_step h hr

theorem isRunCancelled_of_steps (h : Steps e w w') (hr : w.isRunCancelled r = true) :
    w'.isRunCancelled r = true := by
  induction h with
  | refl => exact hr
  | tail _ hstep ih => exact isRunCancelled_of_step hstep ih

/-- The world after moves of some threads, those passed over that cannot move. -/
def after (e : Engine) (w : World) (xs : List Thread) : World :=
  xs.foldl (fun w x ↦ (w.move? e x).getD w) w

theorem steps_after (e : Engine) (w : World) (xs : List Thread) : Steps e w (w.after e xs) := by
  induction xs generalizing w with
  | nil => exact .refl
  | cons x xs ih =>
      cases hm : w.move? e x with
      | none => simpa [after, hm] using ih w
      | some v => simpa [after, hm] using (ih v).head (.move x v hm)

/-! ## Histories -/

/-- Worlds that follow one another by steps, from the first to the last. -/
inductive History (e : Engine) (u : World) : List World → World → Prop
  | start : History e u [u] u
  | step {ws : List World} {v w : World} (past : History e u ws v) (last : Step e v w) :
      History e u (ws ++ [w]) w

namespace History

theorem last_mem (h : History e u ws w) : w ∈ ws := by
  cases h <;> simp

theorem first_mem (h : History e u ws w) : u ∈ ws := by
  induction h with
  | start => exact List.mem_singleton.2 rfl
  | step _ _ ih => exact List.mem_append_left _ ih

theorem exists_eq_append (h : History e u ws w) : ∃ pre, ws = pre ++ [w] := by
  cases h with
  | start => exact ⟨[], rfl⟩
  | step => exact ⟨_, rfl⟩

theorem infix_snoc (h : History e u ws v) : [v, w] <:+: ws ++ [w] := by
  obtain ⟨pre, rfl⟩ := h.exists_eq_append
  exact ⟨pre, [], by simp⟩

theorem eq_of_suffix {z : World} (h : History e u ws z) (hv : [v, w'] <:+ ws ++ [w]) :
    v = z ∧ w' = w := by
  obtain ⟨pre, rfl⟩ := h.exists_eq_append
  obtain ⟨ps, hps⟩ := hv
  have hsplit : (ps ++ [v]) ++ [w'] = (pre ++ [z]) ++ [w] := by simpa using hps
  obtain ⟨hpre, hlast⟩ := List.append_inj' hsplit rfl
  exact ⟨List.singleton_inj.1 (List.append_inj' hpre rfl).2, List.singleton_inj.1 hlast⟩

/-- Neighbours in a history follow one another by a step. -/
theorem step_of_pair (h : History e u ws w) (hv : [v, w'] <:+: ws) : Step e v w' := by
  induction h with
  | start => simpa using hv.length_le
  | @step ws z w hpast hstep ih =>
      rcases List.infix_concat_iff.1 hv with hsuffix | hpair
      · obtain ⟨rfl, rfl⟩ := hpast.eq_of_suffix hsuffix
        exact hstep
      · exact ih hpair

theorem steps (h : History e u ws w) : Steps e u w := by
  induction h with
  | start => exact .refl
  | step _ hstep ih => exact ih.tail hstep

theorem steps_of_mem (h : History e u ws w) (hv : v ∈ ws) : Steps e u v ∧ Steps e v w := by
  induction h with
  | start =>
      obtain rfl := List.mem_singleton.1 hv
      exact ⟨.refl, .refl⟩
  | step hpast hstep ih =>
      rcases List.mem_append.1 hv with hv | hv
      · exact ⟨(ih hv).1, (ih hv).2.tail hstep⟩
      · obtain rfl := List.mem_singleton.1 hv
        exact ⟨hpast.steps.tail hstep, .refl⟩

/-- A world of a history comes before a step of it or after it. -/
theorem steps_or_steps {z : World} (h : History e u ws w) (hv : [v, w'] <:+: ws) (hz : z ∈ ws) :
    Steps e z v ∨ Steps e w' z := by
  induction h with
  | start => simpa using hv.length_le
  | @step ws y w hpast hstep ih =>
      rcases List.mem_append.1 hz with hold | hnew
      · rcases List.infix_concat_iff.1 hv with hsuffix | hpair
        · obtain ⟨rfl, rfl⟩ := hpast.eq_of_suffix hsuffix
          exact .inl (hpast.steps_of_mem hold).2
        · exact ih hpair hold
      · obtain rfl := List.mem_singleton.1 hnew
        exact .inr ((hpast.step hstep).steps_of_mem (hv.subset (by simp))).2

theorem exists_extend (h : History e u ws v) (hs : Steps e v w) :
    ∃ ws', ws <+: ws' ∧ History e u ws' w := by
  induction hs with
  | refl => exact ⟨ws, List.prefix_rfl, h⟩
  | tail _ hstep ih =>
      obtain ⟨ws', hpre, hws⟩ := ih
      exact ⟨_, hpre.trans (List.prefix_append _ _), hws.step hstep⟩

end History

end World

end Timelock
