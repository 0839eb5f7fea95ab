import Timelock.AnalysisError
import Timelock.Config
import Timelock.Renderer
import Timelock.Report

/-!
# Engines

An engine holds what is registered: analyzers, renderers and decoder tables, a configuration,
and the loader and the decoder that its runs call.  Runs never change it.
-/

namespace Timelock

/-- Loads the environment for a domain, an environment name and the chains asked for. -/
abbrev EnvironmentLoader :=
  String → String → Selectors → Activity (Except EnvironmentError Environment)

abbrev ProposalDecoder :=
  Environment → DecoderConfig → Proposal → Activity (Except DecodeError DecodedProposal)

structure Engine where
  config : Config := {}
  registry : Registry := {}
  renderers : RendererRegistry := {}
  decoderConfig : DecoderConfig := {}
  loader : EnvironmentLoader
  decoder : ProposalDecoder

namespace ChainDirectory

def loader (dir : ChainDirectory) : EnvironmentLoader := fun domain name chains ↦
  .result (dir.load domain name (some chains))

end ChainDirectory

namespace Engine

def timeoutMs (e : Engine) : Nat := e.config.analyzerTimeoutMs.toNat

def register (e : Engine) (a : Analyzer) : Except RegistrationError Engine := do
  return { e with registry := ← e.registry.register a }

def registerRenderer (e : Engine) (x : Renderer) : Except RegistrationError Engine := do
  return { e with renderers := ← e.renderers.register x }

def registerAbis (e : Engine) (new : Table String) : Except RegistrationError Engine := do
  return { e with decoderConfig := ← e.decoderConfig.registerAbis new }

def registerPrograms (e : Engine) (new : Table InstructionDecoder) :
    Except RegistrationError Engine := do
  return { e with decoderConfig := ← e.decoderConfig.registerPrograms new }

def render (e : Engine) (id : String) (r : Report) (room : Option Nat) : Written :=
  e.renderers.render id r.tree (some r.context) room

end Engine

end Timelock
