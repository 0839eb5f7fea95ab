import Timelock.Text.Quoted

/-!
# Configuration

The time an analyzer may take, how many may run at once, and how to log.
-/

namespace Timelock

inductive LogFormat where
  | pretty
  | json
  deriving DecidableEq

namespace LogFormat

def name : LogFormat → String
  | .pretty => "pretty"
  | .json => "json"

def named : List (String × LogFormat) :=
  [.pretty, .json].map (fun f ↦ (f.name, f))

end LogFormat

structure Config where
  /-- The time for one invocation of an analyzer, in milliseconds. -/
  analyzerTimeoutMs : UInt64 := 60000
  /-- How many analyzers of a run may work at once. -/
  maxConcurrency : Option UInt64 := none
  logLevel : String := "info"
  logFormat : LogFormat := .pretty
  deriving DecidableEq

structure Duration where
  seconds : UInt64
  nanoseconds : Nat
  small : nanoseconds < 1000000000
  deriving DecidableEq

structure InvalidValue where
  key : String
  value : String
  reason : String
  deriving DecidableEq

namespace InvalidValue

def message (e : InvalidValue) : String :=
  "Invalid value '" ++ e.value ++ "' for " ++ e.key ++ ": " ++ e.reason

end InvalidValue

namespace LogFormat

def lowered (s : String) : String := String.ofList (s.toList.map Char.toLower)

def ofText (s : String) : Except InvalidValue LogFormat :=
  match named.lookup (lowered s) with
  | some f => .ok f
  | none => .error ⟨"log_format", lowered s, "expected 'pretty' or 'json'"⟩

end LogFormat

namespace Duration

def totalNanoseconds (d : Duration) : Nat := d.seconds.toNat * 1000000000 + d.nanoseconds

def ofMilliseconds (ms : UInt64) : Duration :=
  ⟨ms / 1000, (ms % 1000).toNat * 1000000, by
    have h : (ms % 1000).toNat < 1000 := by
      rw [UInt64.toNat_mod]
      exact Nat.mod_lt _ (by decide)
    omega⟩

/-- The least number of whole milliseconds that covers the duration, at least one, and the
largest word if that does not fit. -/
def coveringMilliseconds (d : Duration) : UInt64 :=
  let ms := (d.totalNanoseconds + 999999) / 1000000
  if ms < UInt64.size then UInt64.ofNat (max ms 1) else UInt64.ofNat (UInt64.size - 1)

/-- The whole milliseconds of a duration; of what does not fit one word the lower half is kept. -/
def wholeMilliseconds (d : Duration) : UInt64 :=
  UInt64.ofNat (d.seconds.toNat * 1000 + d.nanoseconds / 1000000)

theorem wholeMilliseconds_ofMilliseconds (ms : UInt64) :
    (ofMilliseconds ms).wholeMilliseconds = ms := by
  have hsplit : (ms / 1000).toNat * 1000 + (ms % 1000).toNat * 1000000 / 1000000 = ms.toNat := by
    rw [UInt64.toNat_div, UInt64.toNat_mod, Nat.mul_div_cancel _ (by decide)]
    exact Nat.div_add_mod' ms.toNat 1000
  rw [wholeMilliseconds, ofMilliseconds, hsplit, UInt64.ofNat_toNat]

end Duration

namespace Config

def analyzerTimeout (c : Config) : Duration := .ofMilliseconds c.analyzerTimeoutMs

/-- The timeout that a run reports is the one that was set. -/
@[simp] theorem wholeMilliseconds_analyzerTimeout (c : Config) :
    c.analyzerTimeout.wholeMilliseconds = c.analyzerTimeoutMs :=
  Duration.wholeMilliseconds_ofMilliseconds c.analyzerTimeoutMs

def withAnalyzerTimeout (c : Config) (d : Duration) : Config :=
  { c with analyzerTimeoutMs := d.coveringMilliseconds }

def withMaxConcurrency (c : Config) (n : UInt64) : Config :=
  { c with maxConcurrency := some n }

/-- Neither the timeout nor the bound may be zero. -/
def validate (c : Config) : Except InvalidValue Unit :=
  if c.analyzerTimeoutMs = 0 then
    .error ⟨"analyzer_timeout_ms", "0", "timeout must be greater than zero"⟩
  else if c.maxConcurrency = some 0 then
    .error ⟨"max_concurrency", "0", "concurrency bound must be greater than zero"⟩
  else .ok ()

end Config

end Timelock
