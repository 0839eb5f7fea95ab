import Timelock.DecoderConfig
import Timelock.Environment
import Timelock.Proposal

/-!
# Execution contexts

What a run works on: the environment, the decoder tables and the proposal in its raw and in its
decoded form.
-/

namespace Timelock

structure ExecutionContext where
  domain : String
  environmentName : String
  environment : Environment
  decoderConfig : DecoderConfig
  proposal : Proposal
  decoded : DecodedProposal

namespace ExecutionContext

def chainSelectors (x : ExecutionContext) : Selectors := x.proposal.chainSelectors

def summary (x : ExecutionContext) : String :=
  "ExecutionContext \x7b domain: " ++ Text.quoted x.domain ++
    ", environment_name: " ++ Text.quoted x.environmentName ++
    ", chain_selectors: " ++ Text.braced x.environment.chainSelectors ++
    ", decoder_config: " ++ x.decoderConfig.summary ++
    ", description: " ++ Text.quoted x.proposal.description ++ " \x7d"

end ExecutionContext

end Timelock
