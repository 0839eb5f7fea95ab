import Timelock.Proofs.Endings
import Timelock.Proofs.Resolution

/-!
# The limit on permits

A run can count only so many permits, and a configuration is accepted whatever its bound is, if
that is not zero.  With a bound beyond the limit a run crashes as soon as its proposal is decoded;
for no other reason does a run with an accepted configuration crash.
-/

namespace Timelock

namespace Config

variable {c : Config}

/-- The bound is one that a run can count. -/
def WithinPermits (c : Config) : Prop :=
  ∀ n, c.maxConcurrency = some n → 1 ≤ n.toNat ∧ n.toNat ≤ Phase.maxPermits

/-- The ways in which a configuration is accepted. -/
inductive Accepted : Config → Prop where
  | validated (c : Config) (h : c.validate = .ok ()) : Accepted c
  | read (s : String) (c : Config) (h : ofText s = .ok c) : Accepted c
  | resolved (x : Surroundings) (path : Option String) (c : Config) (h : resolve x path = .ok c) :
      Accepted c

theorem positive_of_ofText {s : String} (h : ofText s = .ok c) : Positive c := by
  unfold ofText at h
  split at h
  · cases h
  next c' _ =>
    split at h
    · cases h
    next hvalid =>
      cases h
      exact validate_eq_ok_iff.1 hvalid

theorem Accepted.positive (h : Accepted c) : Positive c := by
  cases h with
  | validated _ h => exact validate_eq_ok_iff.1 h
  | read s _ h => exact positive_of_ofText h
  | resolved x path _ h =>
      obtain ⟨_, _, _, hpos⟩ := resolve_eq_ok_iff.1 h
      exact hpos

theorem Positive.withinPermits_iff (h : Positive c) :
    c.WithinPermits ↔ Phase.exceedsPermits c.maxConcurrency = false := by
  unfold WithinPermits Phase.exceedsPermits
  cases hbound : c.maxConcurrency with
  | none => simp
  | some n =>
      have hpos : n.toNat ≠ 0 := fun hzero ↦
        h.bound (hbound.trans (congrArg some (UInt64.toNat_inj.1 hzero)))
      simp only [Option.some.injEq, forall_eq', decide_eq_false_iff_not, not_lt]
      omega

end Config

namespace World

variable {e : Engine} {r : Nat} {u w : World} {ws : List World} {x : Run}

/-- A run crashes exactly if its bound is beyond the limit when its decoder has answered. -/
theorem phase?_eq_crashed_iff (hws : History e u ws w) (hx : u.runs[r]? = some x)
    (hstart : x.phase = .starting) : w.phase? r = some .crashed ↔
      Phase.exceedsPermits e.config.maxConcurrency = true ∧ ∃ d, DecoderAnswers e r ws (.ok d) := by
  constructor
  · intro hw
    obtain ⟨v, v', φ, hpair, hmove, hφ, hmoves, _⟩ :=
      hws.exists_settles hx (hstart ▸ rfl) hw rfl nofun
    cases hmoves with
    | crashed plan environment q d hdone hexceeds =>
        exact ⟨hexceeds, d, v, v', plan, environment, q, hpair, hmove, hφ, hdone⟩
  · rintro ⟨hexceeds, d, v, v', plan, environment, q, hpair, hmove, hφ, hdone⟩
    obtain ⟨y, hy, hphase⟩ := phase?_eq_some_iff.1 hφ
    obtain ⟨a, ha, hv'⟩ := phase?_of_moveRun hy hmove
    have hleave : y.phase.advance? e y.job y.numbers v.now (v.isRunCancelled r) =
        some { phase := .crashed } := by
      rw [hphase, Phase.advance?, Phase.callMove_of_done hdone, Phase.leaveDecoding,
        Phase.ofDecoded, if_pos hexceeds]
    obtain rfl := Option.some.inj (ha.symm.trans hleave)
    exact phase?_eq_of_settled (hws.steps_of_mem (hpair.subset (by simp))).2 hv' rfl

/-- A run with an accepted configuration crashes exactly if the bound is beyond what can be counted
and the proposal is decoded. -/
theorem crashed_iff_of_accepted (haccepted : e.config.Accepted) (hws : History e u ws w)
    (hx : u.runs[r]? = some x) (hstart : x.phase = .starting) :
    w.phase? r = some .crashed ↔
      ¬ e.config.WithinPermits ∧ ∃ d, DecoderAnswers e r ws (.ok d) := by
  rw [phase?_eq_crashed_iff hws hx hstart, haccepted.positive.withinPermits_iff,
    Bool.not_eq_false]

end World

/-! ## The first bound beyond the limit -/

namespace Adrift

def firstBeyond : UInt64 := 0x2000000000000000

/-- A bound beyond the limit is accepted, and the run with it crashes. -/
theorem crashed_iff_of_bounded :
    (bounded firstBeyond).phase? 0 = some .crashed ∧
      (Pair.engine (some firstBeyond) Pair.registry).config.Accepted ∧
      ∃ ws d, World.History (Pair.engine (some firstBeyond) Pair.registry) (Pair.world .starting)
        ws (bounded firstBeyond) ∧
        ¬ (Pair.engine (some firstBeyond) Pair.registry).config.WithinPermits ∧
        World.DecoderAnswers (Pair.engine (some firstBeyond) Pair.registry) 0 ws (.ok d) := by
  have haccepted : (Pair.engine (some firstBeyond) Pair.registry).config.Accepted :=
    .validated _ (by decide)
  obtain ⟨ws, _, hws⟩ := World.History.start.exists_extend (steps_bounded firstBeyond)
  have hiff := World.crashed_iff_of_accepted (r := 0) haccepted hws rfl rfl
  obtain ⟨hbeyond, d, hdecoded⟩ := hiff.1 rfl
  exact ⟨rfl, haccepted, ws, d, hws, hbeyond, hdecoded⟩

/-- An accepted configuration need not be one with which a run goes on. -/
theorem exists_crash_of_accepted : ∃ c : Config,
    Config.ofText "max_concurrency = 2305843009213693952" = .ok c ∧ c.validate = .ok () ∧
      (Pair.engine (some firstBeyond) Pair.registry).config = c ∧
      World.Steps (Pair.engine (some firstBeyond) Pair.registry) (Pair.world .starting)
        (bounded firstBeyond) ∧
      (bounded firstBeyond).phase? 0 = some .crashed := by
  have hread : Config.ofText "max_concurrency = 2305843009213693952" =
      .ok (Pair.engine (some firstBeyond) Pair.registry).config := rfl
  exact ⟨_, hread, by decide, rfl, steps_bounded firstBeyond, rfl⟩

end Adrift

end Timelock
