import Timelock.Engine.Registers

/-!
# Registers and engines

A call on the registers of an engine answers as on the engine, and leaves the registers that the
engine has afterwards.  So the list of analyzers and the set of identifiers stay in step, and
nothing is left of a call that fails.
-/

namespace Timelock

namespace Engine

/-- The end of a call on the registers of an engine, given what comes of the call on the engine. -/
def outcome (e : Engine) (result : Except RegistrationError Engine) :
    EStateM.Result RegistrationError Registers Unit :=
  match result with
  | .ok e' => .ok () (.ofEngine e')
  | .error x => .error x (.ofEngine e)

end Engine

/-! ## What a registration comes to -/

theorem Registry.register_cases (r : Registry) (a : Analyzer) :
    (Text.allBlank a.id = true ∧ r.register a = .error .emptyAnalyzerId) ∨
    (¬ Text.allBlank a.id = true ∧ r.contains a.id = true ∧
      r.register a = .error (.duplicateAnalyzer a.id)) ∨
    (¬ Text.allBlank a.id = true ∧ ¬ r.contains a.id = true ∧
      ∃ r', r.register a = .ok r' ∧ r'.analyzers = r.analyzers ++ [a]) := by
  by_cases hblank : Text.allBlank a.id = true
  · exact .inl ⟨hblank, by rw [register, if_pos hblank]⟩
  · by_cases htaken : r.contains a.id = true
    · exact .inr (.inl ⟨hblank, htaken, by rw [register, if_neg hblank, dif_pos htaken]⟩)
    · exact .inr (.inr ⟨hblank, htaken, _, by rw [register, if_neg hblank, dif_neg htaken], rfl⟩)

theorem RendererRegistry.register_cases (r : RendererRegistry) (x : Renderer) :
    (Text.allBlank x.id = true ∧ r.register x = .error .emptyRendererId) ∨
    (¬ Text.allBlank x.id = true ∧ r.renderers.contains x.id = true ∧
      r.register x = .error (.duplicateRenderer x.id)) ∨
    (¬ Text.allBlank x.id = true ∧ ¬ r.renderers.contains x.id = true ∧
      r.register x = .ok ⟨r.renderers.put x.id x⟩) := by
  by_cases hblank : Text.allBlank x.id = true
  · exact .inl ⟨hblank, by rw [register, if_pos hblank]⟩
  · by_cases htaken : r.renderers.contains x.id = true
    · exact .inr (.inl ⟨hblank, htaken, by rw [register, if_neg hblank, if_pos htaken]⟩)
    · exact .inr (.inr ⟨hblank, htaken, by rw [register, if_neg hblank, if_neg htaken]⟩)

namespace Engine

theorem perform_analyzer (e : Engine) (a : Analyzer) :
    e.perform (.analyzer a) =
      (e.registry.register a).map fun r ↦ { e with registry := r } := by
  rw [perform, register]
  cases e.registry.register a <;> rfl

theorem perform_renderer (e : Engine) (x : Renderer) :
    e.perform (.renderer x) =
      (e.renderers.register x).map fun r ↦ { e with renderers := r } := by
  rw [perform, registerRenderer]
  cases e.renderers.register x <;> rfl

theorem perform_abis (e : Engine) (new : Table String) :
    e.perform (.abis new) =
      (DecoderConfig.addEntries .evmAbi id e.decoderConfig.evmAbis new).map fun t ↦
        { e with decoderConfig := { e.decoderConfig with evmAbis := t } } := by
  rw [perform, registerAbis, DecoderConfig.registerAbis]
  cases DecoderConfig.addEntries .evmAbi id e.decoderConfig.evmAbis new <;> rfl

theorem perform_programs (e : Engine) (new : Table InstructionDecoder) :
    e.perform (.programs new) =
      (DecoderConfig.addEntries .solanaDecoder InstructionDecoder.programName
        e.decoderConfig.solanaDecoders new).map fun t ↦
        { e with decoderConfig := { e.decoderConfig with solanaDecoders := t } } := by
  rw [perform, registerPrograms, DecoderConfig.registerPrograms]
  cases DecoderConfig.addEntries .solanaDecoder InstructionDecoder.programName
    e.decoderConfig.solanaDecoders new <;> rfl

/-- What a call that succeeds changes. -/
inductive Changes (e : Engine) : Registration → Engine → Prop where
  | analyzer (a : Analyzer) (r : Registry) (hr : e.registry.register a = .ok r) :
      Changes e (.analyzer a) { e with registry := r }
  | analyzerOf (l : Level) (a : Analyzer) (r : Registry)
      (hr : e.registry.register { a with level := l } = .ok r) :
      Changes e (.analyzerOf l a) { e with registry := r }
  | renderer (x : Renderer) (r : RendererRegistry) (hr : e.renderers.register x = .ok r) :
      Changes e (.renderer x) { e with renderers := r }
  | abis (new t : Table String)
      (ht : DecoderConfig.addEntries .evmAbi id e.decoderConfig.evmAbis new = .ok t) :
      Changes e (.abis new) { e with decoderConfig := { e.decoderConfig with evmAbis := t } }
  | programs (new t : Table InstructionDecoder)
      (ht : DecoderConfig.addEntries .solanaDecoder InstructionDecoder.programName
        e.decoderConfig.solanaDecoders new = .ok t) :
      Changes e (.programs new)
        { e with decoderConfig := { e.decoderConfig with solanaDecoders := t } }

theorem exists_of_map_eq_ok {ε α β : Type} {f : α → β} {r : Except ε α} {b : β}
    (h : r.map f = .ok b) : ∃ a, r = .ok a ∧ f a = b := by
  cases r with
  | error y => cases h
  | ok a => exact ⟨a, rfl, Except.ok.inj h⟩

theorem changes_of_perform {e e' : Engine} {c : Registration} (h : e.perform c = .ok e') :
    e.Changes c e' := by
  cases c with
  | analyzer a =>
      rw [perform_analyzer] at h
      obtain ⟨r, hr, rfl⟩ := exists_of_map_eq_ok h
      exact .analyzer a r hr
  | analyzerOf l a =>
      have h : e.perform (.analyzer { a with level := l }) = .ok e' := h
      rw [perform_analyzer] at h
      obtain ⟨r, hr, rfl⟩ := exists_of_map_eq_ok h
      exact .analyzerOf l a r hr
  | renderer x =>
      rw [perform_renderer] at h
      obtain ⟨r, hr, rfl⟩ := exists_of_map_eq_ok h
      exact .renderer x r hr
  | abis new =>
      rw [perform_abis] at h
      obtain ⟨t, ht, rfl⟩ := exists_of_map_eq_ok h
      exact .abis new t ht
  | programs new =>
      rw [perform_programs] at h
      obtain ⟨t, ht, rfl⟩ := exists_of_map_eq_ok h
      exact .programs new t ht

end Engine

namespace Registers

/-! ## One call on the registers -/

theorem run_registerAnalyzer (a : Analyzer) (r : Registers) :
    (registerAnalyzer a).run r =
      if Text.allBlank a.id then .error .emptyAnalyzerId r
      else if r.ids.contains a.id then .error (.duplicateAnalyzer a.id) r
      else .ok () { r with ids := r.ids ++ [a.id], analyzers := r.analyzers ++ [a] } := by
  by_cases hblank : Text.allBlank a.id = true <;> by_cases htaken : a.id ∈ r.ids <;>
    simp [registerAnalyzer, hblank, htaken]

theorem run_registerRenderer (x : Renderer) (r : Registers) :
    (registerRenderer x).run r =
      if Text.allBlank x.id then .error .emptyRendererId r
      else if r.renderers.contains x.id then .error (.duplicateRenderer x.id) r
      else .ok () { r with renderers := r.renderers.put x.id x } := by
  cases hblank : Text.allBlank x.id <;> cases htaken : r.renderers.contains x.id <;>
    simp [registerRenderer, hblank, htaken]

section Mapping

variable {α : Type} {kind : MappingKind} {text : α → String} {table : Registers → Table α}
  {write : Registers → Table α → Registers}

theorem run_checkEntry (entry : String × α) (r : Registers) :
    (checkEntry kind text table entry).run r =
      match DecoderConfig.entryError? kind text (table r) entry with
      | some x => .error x r
      | none => .ok () r := by
  cases hblank : Text.allBlank entry.1 <;> cases htaken : (table r).contains entry.1 <;>
    cases hempty : Text.allBlank (text entry.2) <;>
    simp [checkEntry, checkKey, DecoderConfig.entryError?, hblank, htaken, hempty]

/-- The first entry that is refused ends the checks; no check writes. -/
theorem run_forM_checkEntry (entries : List (String × α)) (r : Registers) :
    (forM entries (checkEntry kind text table)).run r =
      match entries.findSome? (DecoderConfig.entryError? kind text (table r)) with
      | some x => .error x r
      | none => .ok () r := by
  induction entries with
  | nil => rfl
  | cons entry entries ih =>
      rw [List.forM_cons, EStateM.run_bind, run_checkEntry, List.findSome?_cons]
      cases DecoderConfig.entryError? kind text (table r) entry with
      | some x => rfl
      | none => exact ih

/-- A table of the registers is written to as a whole if what is written is what is read. -/
theorem run_forM_write (hread : ∀ r t, table (write r t) = t)
    (hagain : ∀ r t t', write (write r t) t' = write r t') (hsame : ∀ r, write r (table r) = r)
    (entries : List (String × α)) (r : Registers) :
    (forM entries fun x ↦ modify fun r ↦ write r ((table r).put x.1 x.2) : Registering Unit).run r =
      .ok () (write r (entries.foldl (fun t x ↦ t.put x.1 x.2) (table r))) := by
  induction entries generalizing r with
  | nil => rw [List.forM_nil, List.foldl_nil, hsame]; rfl
  | cons entry entries ih =>
      rw [List.forM_cons, EStateM.run_bind, EStateM.run_modify]
      exact (ih _).trans (by rw [hread, hagain, List.foldl_cons])

theorem run_registerEntries (kind : MappingKind) (text : α → String)
    (table : Registers → Table α) (write : Registers → Table α → Registers)
    (hread : ∀ r t, table (write r t) = t)
    (hagain : ∀ r t t', write (write r t) t' = write r t') (hsame : ∀ r, write r (table r) = r)
    (new : Table α) (r : Registers) :
    (registerEntries kind text table write new).run r =
      match DecoderConfig.addEntries kind text (table r) new with
      | .ok t => .ok () (write r t)
      | .error x => .error x r := by
  rw [registerEntries, EStateM.run_bind, run_forM_checkEntry, DecoderConfig.addEntries]
  cases new.entries.findSome? (DecoderConfig.entryError? kind text (table r)) with
  | some x => rfl
  | none => exact run_forM_write hread hagain hsame new.entries r

end Mapping

/-! ## Calls on the registers of an engine -/

theorem run_registerAnalyzer_ofEngine (e : Engine) (a : Analyzer) :
    (registerAnalyzer a).run (.ofEngine e) = e.outcome (e.register a) := by
  rw [run_registerAnalyzer, Engine.register]
  rcases Registry.register_cases e.registry a with
    ⟨hblank, h⟩ | ⟨hblank, htaken, h⟩ | ⟨hblank, hfree, r', h, hr'⟩
  · rw [h, if_pos hblank]
    rfl
  · have hids : (ofEngine e).ids.contains a.id = true := htaken
    rw [h, if_neg hblank, if_pos hids]
    rfl
  · have hids : ¬ (ofEngine e).ids.contains a.id = true := hfree
    rw [h, if_neg hblank, if_neg hids]
    simp [Engine.outcome, ofEngine, Registry.ids, hr', bind, Except.bind, pure, Except.pure]

theorem run_registerRenderer_ofEngine (e : Engine) (x : Renderer) :
    (registerRenderer x).run (.ofEngine e) = e.outcome (e.registerRenderer x) := by
  rw [run_registerRenderer, Engine.registerRenderer]
  rcases RendererRegistry.register_cases e.renderers x with
    ⟨hblank, h⟩ | ⟨hblank, htaken, h⟩ | ⟨hblank, hfree, h⟩
  · rw [h, if_pos hblank]
    rfl
  · have hids : (ofEngine e).renderers.contains x.id = true := htaken
    rw [h, if_neg hblank, if_pos hids]
    rfl
  · have hids : ¬ (ofEngine e).renderers.contains x.id = true := hfree
    rw [h, if_neg hblank, if_neg hids]
    rfl

/-- A call on the registers of an engine is the call on the engine. -/
theorem run_perform (e : Engine) (c : Registration) :
    (perform c).run (.ofEngine e) = e.outcome (e.perform c) := by
  cases c with
  | analyzer a => exact run_registerAnalyzer_ofEngine e a
  | analyzerOf l a => exact run_registerAnalyzer_ofEngine e { a with level := l }
  | renderer x => exact run_registerRenderer_ofEngine e x
  | abis new =>
      refine (run_registerEntries .evmAbi id evmAbis (fun r t ↦ { r with evmAbis := t })
        (fun _ _ ↦ rfl) (fun _ _ _ ↦ rfl) (fun _ ↦ rfl) new (ofEngine e)).trans ?_
      rw [Engine.perform_abis, show (ofEngine e).evmAbis = e.decoderConfig.evmAbis from rfl]
      cases DecoderConfig.addEntries .evmAbi id e.decoderConfig.evmAbis new <;> rfl
  | programs new =>
      refine (run_registerEntries .solanaDecoder InstructionDecoder.programName solanaDecoders
        (fun r t ↦ { r with solanaDecoders := t })
        (fun _ _ ↦ rfl) (fun _ _ _ ↦ rfl) (fun _ ↦ rfl) new (ofEngine e)).trans ?_
      rw [Engine.perform_programs,
        show (ofEngine e).solanaDecoders = e.decoderConfig.solanaDecoders from rfl]
      cases DecoderConfig.addEntries .solanaDecoder InstructionDecoder.programName
        e.decoderConfig.solanaDecoders new <;> rfl

theorem after_ofEngine (e : Engine) (c : Registration) :
    (ofEngine e).after c = ofEngine (e.after c) := by
  rw [after, run_perform, Engine.after]
  cases e.perform c <;> rfl

theorem afterAll_ofEngine (e : Engine) (cs : List Registration) :
    (ofEngine e).afterAll cs = ofEngine (e.afterAll cs) := by
  induction cs generalizing e with
  | nil => rfl
  | cons c cs ih =>
      simp only [afterAll, Engine.afterAll, List.foldl_cons] at ih ⊢
      rw [after_ofEngine, ih]

end Registers

end Timelock
