import Timelock.Engine

/-!
# Registers

The calls that register something with an engine, and the registers that they write to: the list of
analyzers with the set of their identifiers beside it, the renderers, and the two tables for
decoding.  A call writes as it goes along, and what it has written by then stays when it fails.
-/

namespace Timelock

/-- An analyzer is registered with its kind, or through the entry for one kind. -/
inductive Registration where
  | analyzer (a : Analyzer)
  | analyzerOf (l : Level) (a : Analyzer)
  | renderer (x : Renderer)
  | abis (new : Table String)
  | programs (new : Table InstructionDecoder)

namespace Registration

def analyzer? : Registration → Option Analyzer
  | .analyzer a => some a
  | .analyzerOf l a => some { a with level := l }
  | .renderer _ | .abis _ | .programs _ => none

def renderer? : Registration → Option Renderer
  | .renderer x => some x
  | .analyzer _ | .analyzerOf _ _ | .abis _ | .programs _ => none

end Registration

namespace Engine

def perform (e : Engine) : Registration → Except RegistrationError Engine
  | .analyzer a => e.register a
  | .analyzerOf l a => e.register { a with level := l }
  | .renderer x => e.registerRenderer x
  | .abis new => e.registerAbis new
  | .programs new => e.registerPrograms new

/-- The engine after a call; a call that fails leaves the engine that was there. -/
def after (e : Engine) (c : Registration) : Engine := (e.perform c).toOption.getD e

def afterAll (e : Engine) (cs : List Registration) : Engine := cs.foldl after e

/-- The calls that succeed when their turn comes. -/
def accepted : Engine → List Registration → List Registration
  | _, [] => []
  | e, c :: cs => if (e.perform c).isOk then c :: accepted (e.after c) cs else accepted e cs

end Engine

structure Registers where
  analyzers : List Analyzer := []
  ids : List String := []
  renderers : Table Renderer := .empty
  evmAbis : Table String := .empty
  solanaDecoders : Table InstructionDecoder := .empty

abbrev Registering := EStateM RegistrationError Registers

namespace Registers

def ofEngine (e : Engine) : Registers where
  analyzers := e.registry.analyzers
  ids := e.registry.ids
  renderers := e.renderers.renderers
  evmAbis := e.decoderConfig.evmAbis
  solanaDecoders := e.decoderConfig.solanaDecoders

def registerAnalyzer (a : Analyzer) : Registering Unit := do
  if Text.allBlank a.id then throw .emptyAnalyzerId
  if (← get).ids.contains a.id then throw (.duplicateAnalyzer a.id)
  modify fun r ↦ { r with ids := r.ids ++ [a.id] }
  modify fun r ↦ { r with analyzers := r.analyzers ++ [a] }

def registerRenderer (x : Renderer) : Registering Unit := do
  if Text.allBlank x.id then throw .emptyRendererId
  if (← get).renderers.contains x.id then throw (.duplicateRenderer x.id)
  modify fun r ↦ { r with renderers := r.renderers.put x.id x }

section Mapping

variable {α : Type}

def checkKey (kind : MappingKind) (key : String) (present : Bool) : Registering Unit := do
  if Text.allBlank key then throw (.emptyMappingKey kind)
  if present then throw (.duplicateMapping kind key)

def checkEntry (kind : MappingKind) (text : α → String) (table : Registers → Table α)
    (entry : String × α) : Registering Unit := do
  checkKey kind entry.1 ((table (← get)).contains entry.1)
  if Text.allBlank (text entry.2) then throw (.emptyMappingValue kind entry.1)

/-- Check the new entries one after another, and then add them one after another. -/
def registerEntries (kind : MappingKind) (text : α → String) (table : Registers → Table α)
    (write : Registers → Table α → Registers) (new : Table α) : Registering Unit := do
  forM new.entries (checkEntry kind text table)
  forM new.entries fun entry ↦ modify fun r ↦ write r ((table r).put entry.1 entry.2)

end Mapping

def perform : Registration → Registering Unit
  | .analyzer a => registerAnalyzer a
  | .analyzerOf l a => registerAnalyzer { a with level := l }
  | .renderer x => registerRenderer x
  | .abis new =>
      registerEntries .evmAbi id evmAbis (fun r t ↦ { r with evmAbis := t }) new
  | .programs new =>
      registerEntries .solanaDecoder InstructionDecoder.programName solanaDecoders
        (fun r t ↦ { r with solanaDecoders := t }) new

/-- The registers after a call, whether it succeeds or fails. -/
def after (r : Registers) (c : Registration) : Registers :=
  match (perform c).run r with
  | .ok _ r' | .error _ r' => r'

def afterAll (r : Registers) (cs : List Registration) : Registers := cs.foldl after r

end Registers

end Timelock
