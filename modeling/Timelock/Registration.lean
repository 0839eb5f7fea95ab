import Timelock.Text.Blank

/-!
# Registration errors

Why an analyzer, a renderer or an entry of a mapping table is not accepted.
-/

namespace Timelock

/-- The two tables that proposals are decoded with. -/
inductive MappingKind where
  | evmAbi
  | solanaDecoder
  deriving DecidableEq

namespace MappingKind

def name : MappingKind → String
  | .evmAbi => "EVM ABI"
  | .solanaDecoder => "Solana instruction decoder"

end MappingKind

inductive RegistrationError where
  | emptyAnalyzerId
  | duplicateAnalyzer (id : String)
  | emptyRendererId
  | duplicateRenderer (id : String)
  | emptyMappingKey (kind : MappingKind)
  | emptyMappingValue (kind : MappingKind) (key : String)
  | duplicateMapping (kind : MappingKind) (key : String)
  deriving DecidableEq

namespace RegistrationError

def message : RegistrationError → String
  | .emptyAnalyzerId => "Analyzer ID must not be empty"
  | .duplicateAnalyzer id => "Analyzer '" ++ id ++ "' is already registered"
  | .emptyRendererId => "Renderer ID must not be empty"
  | .duplicateRenderer id => "Renderer '" ++ id ++ "' is already registered"
  | .emptyMappingKey k => "Empty key in " ++ k.name ++ " mapping table"
  | .emptyMappingValue k key => "Empty value for '" ++ key ++ "' in " ++ k.name ++ " mapping table"
  | .duplicateMapping k key =>
      "Key '" ++ key ++ "' already present in " ++ k.name ++ " mapping table"

end RegistrationError

end Timelock
