import Timelock.Config
import Timelock.Json.Value

/-!
# Configurations as JSON
-/

namespace Timelock.Config

open Json

def toJson (c : Config) : Value :=
  .object [
    ("analyzer_timeout_ms", .word c.analyzerTimeoutMs),
    ("max_concurrency", match c.maxConcurrency with
      | some n => .word n
      | none => .null),
    ("log_level", .string c.logLevel),
    ("log_format", .string c.logFormat.name)]

end Timelock.Config
