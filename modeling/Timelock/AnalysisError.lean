import Timelock.DecoderConfig
import Timelock.DependencyGraph
import Timelock.Environment
import Timelock.NodePath
import Timelock.Registry

/-!
# Analysis errors

Why a run ends without a report.
-/

namespace Timelock

/-- Where a run notices that it has been cancelled. -/
inductive Stage where
  | startup
  | environmentLoading
  | decoding
  | level (path : NodePath)
  deriving DecidableEq

namespace Stage

def text : Stage → String
  | .startup => "startup"
  | .environmentLoading => "environment loading"
  | .decoding => "decoding"
  | .level p => p.level.name ++ " pass at " ++ p.text

end Stage

inductive AnalysisError where
  | graph (error : PlanError)
  | environment (domain name : String) (chainSelectors : Selectors) (error : EnvironmentError)
  | decode (description : String) (chainSelectors : Selectors) (error : DecodeError)
  | cancelled (stage : Stage)
  | missingNode (path : NodePath)
  deriving DecidableEq

namespace AnalysisError

def message : AnalysisError → String
  | .graph e =>
      "Invalid " ++ e.level.name ++ " analyzer dependency graph: " ++ e.error.message
  | .environment d n cs e =>
      "Failed to load environment '" ++ n ++ "' of domain '" ++ d ++ "' for chains " ++
        Text.braced cs ++ ": " ++ e.message
  | .decode d cs e =>
      "Failed to decode proposal '" ++ d ++ "' (chains " ++ Text.braced cs ++ "): " ++ e.message
  | .cancelled s => "Analysis cancelled during " ++ s.text
  | .missingNode p => "Analyzed tree has no node at " ++ p.text

end AnalysisError

end Timelock
