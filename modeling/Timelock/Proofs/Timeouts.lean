import Timelock.Proofs.Provenance
import Timelock.Proofs.Resolution

/-!
# Timeouts

A timeout is set from a duration and kept in whole milliseconds: the fewest that are no shorter
than the duration, as far as one word can hold them.  A run reports the milliseconds that were set.
-/

namespace Timelock

namespace Duration

/-! ## The order of durations -/

/-- Durations are compared by their seconds, and then by their nanoseconds. -/
instance : LE Duration where
  le d d' := d.seconds < d'.seconds ∨ d.seconds = d'.seconds ∧ d.nanoseconds ≤ d'.nanoseconds

theorem le_def {d d' : Duration} :
    d ≤ d' ↔ d.seconds < d'.seconds ∨ d.seconds = d'.seconds ∧ d.nanoseconds ≤ d'.nanoseconds :=
  Iff.rfl

theorem le_iff_totalNanoseconds_le {d d' : Duration} :
    d ≤ d' ↔ d.totalNanoseconds ≤ d'.totalNanoseconds := by
  have hd := d.small
  have hd' := d'.small
  rw [le_def, UInt64.lt_iff_toNat_lt, ← UInt64.toNat_inj]
  unfold totalNanoseconds
  omega

/-! ## Rounding up -/

/-- So many whole milliseconds, at least one, are no shorter than the duration. -/
def CoveredBy (d : Duration) (ms : Nat) : Prop := 1 ≤ ms ∧ d.totalNanoseconds ≤ ms * 1000000

/-- The milliseconds of a duration rounded up, before they are put into one word. -/
def roundedUp (d : Duration) : Nat := max ((d.totalNanoseconds + 999999) / 1000000) 1

theorem isLeast_roundedUp (d : Duration) : IsLeast {ms | d.CoveredBy ms} d.roundedUp := by
  unfold roundedUp
  constructor
  · constructor <;> omega
  · rintro ms ⟨hpos, hcovers⟩
    apply max_le _ hpos
    omega

theorem roundedUp_mono {d d' : Duration} (h : d ≤ d') : d.roundedUp ≤ d'.roundedUp := by
  rw [le_iff_totalNanoseconds_le] at h
  unfold roundedUp
  omega

theorem toNat_coveringMilliseconds (d : Duration) :
    d.coveringMilliseconds.toNat =
      if d.roundedUp < UInt64.size then d.roundedUp else UInt64.size - 1 := by
  unfold coveringMilliseconds roundedUp
  generalize (d.totalNanoseconds + 999999) / 1000000 = ms
  have hiff : ms < UInt64.size ↔ max ms 1 < UInt64.size := by
    rw [UInt64.size]
    omega
  simp only [hiff]
  split
  next hfits => exact UInt64.toNat_ofNat_of_lt' hfits
  next => exact UInt64.toNat_ofNat_of_lt' (by decide)

theorem coveringMilliseconds_mono {d d' : Duration} (h : d ≤ d') :
    d.coveringMilliseconds ≤ d'.coveringMilliseconds := by
  have hmono := roundedUp_mono h
  rw [UInt64.le_iff_toNat_le, toNat_coveringMilliseconds, toNat_coveringMilliseconds]
  split_ifs <;> omega

theorem one_le_coveringMilliseconds (d : Duration) : 1 ≤ d.coveringMilliseconds := by
  have hpos : 1 ≤ d.roundedUp := (isLeast_roundedUp d).1.1
  rw [UInt64.le_iff_toNat_le, toNat_coveringMilliseconds]
  split_ifs
  · exact hpos
  · decide

theorem totalNanoseconds_ofMilliseconds (ms : UInt64) :
    (ofMilliseconds ms).totalNanoseconds = ms.toNat * 1000000 := by
  simp only [totalNanoseconds, ofMilliseconds, UInt64.toNat_div, UInt64.toNat_mod,
    UInt64.reduceToNat]
  omega

/-- Whole milliseconds are rounded up to themselves. -/
theorem coveringMilliseconds_ofMilliseconds {ms : UInt64} (h : ms ≠ 0) :
    (ofMilliseconds ms).coveringMilliseconds = ms := by
  have hpos : ms.toNat ≠ 0 := fun hzero ↦ h (UInt64.toNat_inj.1 hzero)
  have hbound : ms.toNat < UInt64.size := ms.toNat_lt
  have hrounded : (ofMilliseconds ms).roundedUp = ms.toNat := by
    rw [roundedUp, totalNanoseconds_ofMilliseconds]
    omega
  apply UInt64.toNat_inj.1
  rw [toNat_coveringMilliseconds, hrounded, if_pos hbound]

/-! ## Rounding up in words -/

/-- A number that has to fit into two words. -/
def doubleWord? (n : Nat) : Option Nat :=
  if n < UInt64.size * UInt64.size then some n else none

/-- Nanoseconds as rounded-up milliseconds, one operation after the other; it fails where a result
does not fit. -/
def roundUpInWords? (whole rest : Nat) : Option UInt64 := do
  let whole ← doubleWord? whole
  let total ← doubleWord? (whole + rest)
  let ms ← doubleWord?
    (if 0 < total % 1000000 then total / 1000000 + 1 else total / 1000000)
  let word := if ms < UInt64.size then UInt64.ofNat ms else UInt64.ofNat (UInt64.size - 1)
  return max word 1

def coveringMillisecondsInWords? (d : Duration) : Option UInt64 :=
  roundUpInWords? (d.seconds.toNat * 1000000000) d.nanoseconds

theorem doubleWord?_eq_some {n : Nat} (h : n < UInt64.size * UInt64.size) :
    doubleWord? n = some n :=
  if_pos h

theorem div_add_one_or_div (n : Nat) :
    (if 0 < n % 1000000 then n / 1000000 + 1 else n / 1000000) = (n + 999999) / 1000000 := by
  by_cases hrest : 0 < n % 1000000
  · rw [if_pos hrest]
    omega
  · rw [if_neg hrest]
    omega

theorem roundUpInWords?_eq {whole rest : Nat} (h : whole + rest < UInt64.size * UInt64.size) :
    roundUpInWords? whole rest =
      let ms := (whole + rest + 999999) / 1000000
      let word := if ms < UInt64.size then UInt64.ofNat ms else UInt64.ofNat (UInt64.size - 1)
      some (max word 1) := by
  have hwhole : whole < UInt64.size * UInt64.size := by omega
  have hms : (whole + rest + 999999) / 1000000 < UInt64.size * UInt64.size := by omega
  rw [roundUpInWords?, doubleWord?_eq_some hwhole, Option.bind_eq_bind, Option.bind_some,
    doubleWord?_eq_some h, Option.bind_some, div_add_one_or_div, doubleWord?_eq_some hms,
    Option.bind_some]
  rfl

theorem toNat_clamp (ms : Nat) :
    (max (if ms < UInt64.size then UInt64.ofNat ms else UInt64.ofNat (UInt64.size - 1)) 1).toNat =
      if max ms 1 < UInt64.size then max ms 1 else UInt64.size - 1 := by
  have hsize : UInt64.size = 18446744073709551616 := rfl
  rw [UInt64.toNat_max, UInt64.toNat_one]
  by_cases hfits : ms < UInt64.size
  · rw [if_pos hfits, UInt64.toNat_ofNat_of_lt' hfits, if_pos (by omega)]
  · rw [if_neg hfits, if_neg (by omega), UInt64.toNat_ofNat_of_lt' (by omega)]
    omega

theorem totalNanoseconds_lt (d : Duration) : d.totalNanoseconds < UInt64.size * UInt64.size := by
  have hseconds := d.seconds.toNat_lt_size
  have hsmall := d.small
  calc d.totalNanoseconds
      < UInt64.size * 1000000000 := by
        unfold totalNanoseconds
        omega
    _ ≤ UInt64.size * UInt64.size := Nat.mul_le_mul_left _ (by decide)

/-- Every operation fits, and together they round as the duration is rounded. -/
theorem coveringMillisecondsInWords?_eq (d : Duration) :
    d.coveringMillisecondsInWords? = some d.coveringMilliseconds := by
  have hbound := d.totalNanoseconds_lt
  have hcovering := d.toNat_coveringMilliseconds
  unfold roundedUp at hcovering
  unfold totalNanoseconds at hbound hcovering
  rw [coveringMillisecondsInWords?, roundUpInWords?_eq hbound]
  apply congrArg some
  apply UInt64.toNat_inj.1
  rw [toNat_clamp, hcovering]

end Duration

/-! ## Reported timeouts -/

/-- A record of a task that has run out of time names the time that was set. -/
theorem eq_of_outcome_timedOut {e : Engine} {u w : World} {r : Nat} {rep : Report}
    (h : World.Steps e u w) (hu : u.phase? r = some .starting)
    (hw : w.phase? r = some (.finished (.ok rep))) {o : OutcomeRecord} (ho : o ∈ rep.outcomes)
    {ms : UInt64} (hms : o.outcome = .timedOut ms) : ms = e.config.analyzerTimeoutMs := by
  obtain ⟨_, _, _, _, _, _, hacc⟩ := World.exists_account_of_steps hu h hw
  obtain ⟨_, _, _, _, result, _, _, rfl⟩ := hacc.mem_outcomes_iff.1 ho
  cases result with
  | timedOut => exact (Outcome.timedOut.inj hms).symm
  | annotated => cases hms
  | skipped => cases hms
  | failed => cases hms
  | panicked => cases hms

/-! ## Configurations -/

namespace Config

variable {c : Config} {d : Duration}

/-- What is promised of the timeouts of a configuration. -/
structure RoundsTimeouts (c : Config) : Prop where
  /-- A timeout is the least number of milliseconds that covers its duration, or the largest
  word. -/
  least : ∀ d : Duration, ∃ ms, IsLeast {ms | d.CoveredBy ms} ms ∧
    (c.withAnalyzerTimeout d).analyzerTimeoutMs.toNat =
      if ms < UInt64.size then ms else UInt64.size - 1
  /-- No operation on the way exceeds two words. -/
  fits : ∀ d : Duration,
    d.coveringMillisecondsInWords? = some (c.withAnalyzerTimeout d).analyzerTimeoutMs
  others : ∀ d : Duration,
    { c.withAnalyzerTimeout d with analyzerTimeoutMs := c.analyzerTimeoutMs } = c
  monotone : ∀ d d' : Duration, d ≤ d' →
    (c.withAnalyzerTimeout d).analyzerTimeoutMs ≤ (c.withAnalyzerTimeout d').analyzerTimeoutMs
  kept : c.analyzerTimeoutMs ≠ 0 → c.withAnalyzerTimeout c.analyzerTimeout = c
  accepted : ∀ d : Duration,
    (c.withAnalyzerTimeout d).validate = .ok () ↔ c.maxConcurrency ≠ some 0
  rejected : ∀ (d : Duration) (y : InvalidValue),
    (c.withAnalyzerTimeout d).validate = .error y → y.key = "max_concurrency"
  /-- The records of a run name the timeout exactly. -/
  reported : ∀ (e : Engine) (u w : World) (r : Nat) (rep : Report), e.config = c →
    World.Steps e u w → u.phase? r = some .starting →
    w.phase? r = some (.finished (.ok rep)) →
    ∀ o ∈ rep.outcomes, ∀ ms, o.outcome = .timedOut ms → ms = c.analyzerTimeoutMs

theorem analyzerTimeoutMs_withAnalyzerTimeout (c : Config) (d : Duration) :
    (c.withAnalyzerTimeout d).analyzerTimeoutMs = d.coveringMilliseconds := by
  rw [withAnalyzerTimeout]

theorem maxConcurrency_withAnalyzerTimeout (c : Config) (d : Duration) :
    (c.withAnalyzerTimeout d).maxConcurrency = c.maxConcurrency := by
  rw [withAnalyzerTimeout]

theorem analyzerTimeoutMs_withAnalyzerTimeout_ne_zero :
    (c.withAnalyzerTimeout d).analyzerTimeoutMs ≠ 0 := by
  have hone := d.one_le_coveringMilliseconds
  intro hzero
  rw [analyzerTimeoutMs_withAnalyzerTimeout] at hzero
  rw [hzero] at hone
  exact absurd hone (by decide)

theorem roundsTimeouts (c : Config) : RoundsTimeouts c where
  least d := by
    rw [analyzerTimeoutMs_withAnalyzerTimeout]
    exact ⟨d.roundedUp, d.isLeast_roundedUp, d.toNat_coveringMilliseconds⟩
  fits d := by
    rw [analyzerTimeoutMs_withAnalyzerTimeout]
    exact d.coveringMillisecondsInWords?_eq
  others _ := by
    rw [withAnalyzerTimeout]
  monotone d d' h := by
    rw [analyzerTimeoutMs_withAnalyzerTimeout, analyzerTimeoutMs_withAnalyzerTimeout]
    exact Duration.coveringMilliseconds_mono h
  kept h := by
    rw [withAnalyzerTimeout, analyzerTimeout, Duration.coveringMilliseconds_ofMilliseconds h]
  accepted d := by
    rw [validate_eq_ok_iff, ← maxConcurrency_withAnalyzerTimeout c d]
    constructor
    · intro h
      exact h.bound
    · intro h
      exact ⟨analyzerTimeoutMs_withAnalyzerTimeout_ne_zero, h⟩
  rejected d y h := by
    cases validate_eq_error_iff.1 h with
    | timeout hzero => exact absurd hzero analyzerTimeoutMs_withAnalyzerTimeout_ne_zero
    | bound => rfl
  reported e u w r rep he h hu hw o ho ms hms := by
    rw [← he]
    exact eq_of_outcome_timedOut h hu hw ho hms

end Config

end Timelock
