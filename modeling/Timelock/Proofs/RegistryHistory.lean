import Timelock.Proofs.LevelPositions
import Timelock.Proofs.Registers
import Timelock.Proofs.Tables
import Timelock.Proofs.TextOrder
import Timelock.Proofs.Trimming

/-!
# Histories of registrations

Whatever calls came before, an engine holds the analyzers and the renderers of the calls that
succeeded, under distinct identifiers that are not blank.  A call fails exactly if the identifier is
blank or taken.
-/

namespace Timelock

namespace Engine

variable {e e' : Engine} {c : Registration} {a : Analyzer} {x : Renderer} {y : RegistrationError}

/-! ## One call -/

/-- What comes of registering an analyzer: a blank identifier is told before one that is taken. -/
inductive AnalyzerAnswer (e : Engine) (a : Analyzer) : Except RegistrationError Engine → Prop where
  | blank (hblank : Text.trim a.id = "") : AnalyzerAnswer e a (.error .emptyAnalyzerId)
  | taken (hblank : Text.trim a.id ≠ "") (htaken : a.id ∈ e.registry.ids) :
      AnalyzerAnswer e a (.error (.duplicateAnalyzer a.id))
  | accepted (r : Registry) (hblank : Text.trim a.id ≠ "") (hfree : a.id ∉ e.registry.ids)
      (hr : r.analyzers = e.registry.analyzers ++ [a]) :
      AnalyzerAnswer e a (.ok { e with registry := r })

/-- What comes of registering a renderer: a blank identifier is told before one that is taken. -/
inductive RendererAnswer (e : Engine) (x : Renderer) : Except RegistrationError Engine → Prop where
  | blank (hblank : Text.trim x.id = "") : RendererAnswer e x (.error .emptyRendererId)
  | taken (hblank : Text.trim x.id ≠ "") (htaken : x.id ∈ e.renderers.ids) :
      RendererAnswer e x (.error (.duplicateRenderer x.id))
  | accepted (hblank : Text.trim x.id ≠ "") (hfree : x.id ∉ e.renderers.ids) :
      RendererAnswer e x (.ok { e with renderers := ⟨e.renderers.renderers.put x.id x⟩ })

theorem analyzerAnswer_perform (e : Engine) (h : c.analyzer? = some a) :
    AnalyzerAnswer e a (e.perform c) := by
  have hperform : e.perform c = e.perform (.analyzer a) := by
    cases c with
    | analyzer b => rw [Option.some.inj h]
    | analyzerOf l b => rw [← Option.some.inj h]; rfl
    | renderer _ => cases h
    | abis _ => cases h
    | programs _ => cases h
  rw [hperform, perform_analyzer]
  rcases Registry.register_cases e.registry a with
    ⟨hblank, hr⟩ | ⟨hblank, htaken, hr⟩ | ⟨hblank, hfree, r, hr, hanalyzers⟩
  · rw [hr]
    exact .blank (Text.trim_eq_empty_iff.2 hblank)
  · rw [hr]
    refine .taken (Text.trim_eq_empty_iff.not.2 hblank) ?_
    simpa [Registry.contains] using htaken
  · rw [hr]
    refine .accepted r (Text.trim_eq_empty_iff.not.2 hblank) ?_ hanalyzers
    simpa [Registry.contains] using hfree

theorem rendererAnswer_perform (e : Engine) (h : c.renderer? = some x) :
    RendererAnswer e x (e.perform c) := by
  obtain rfl : c = .renderer x := by
    cases c <;> cases h
    rfl
  rw [perform_renderer]
  rcases RendererRegistry.register_cases e.renderers x with
    ⟨hblank, hr⟩ | ⟨hblank, htaken, hr⟩ | ⟨hblank, hfree, hr⟩
  · rw [hr]
    exact .blank (Text.trim_eq_empty_iff.2 hblank)
  · rw [hr]
    exact .taken (Text.trim_eq_empty_iff.not.2 hblank) (Table.contains_iff.1 htaken)
  · rw [hr]
    exact .accepted (Text.trim_eq_empty_iff.not.2 hblank) fun h ↦ hfree (Table.contains_iff.2 h)

theorem Changes.analyzers_eq (h : e.Changes c e') :
    e'.registry.analyzers = e.registry.analyzers ++ c.analyzer?.toList := by
  have hregister : ∀ a r, e.registry.register a = .ok r →
      r.analyzers = e.registry.analyzers ++ [a] := by
    intro a r hr
    rcases Registry.register_cases e.registry a with ⟨-, h⟩ | ⟨-, -, h⟩ | ⟨-, -, r', h, hr'⟩
    · rw [h] at hr; cases hr
    · rw [h] at hr; cases hr
    · obtain rfl := Except.ok.inj (h.symm.trans hr)
      exact hr'
  cases h with
  | analyzer a r hr => exact hregister a r hr
  | analyzerOf l a r hr => exact hregister _ r hr
  | renderer => exact (List.append_nil _).symm
  | abis => exact (List.append_nil _).symm
  | programs => exact (List.append_nil _).symm

theorem Changes.renderers_eq (h : e.Changes c e') :
    e'.renderers.renderers =
      c.renderer?.elim e.renderers.renderers fun x ↦ e.renderers.renderers.put x.id x := by
  cases h with
  | analyzer => rfl
  | analyzerOf => rfl
  | renderer x r hr =>
      rcases RendererRegistry.register_cases e.renderers x with ⟨-, h⟩ | ⟨-, -, h⟩ | ⟨-, -, h⟩
      · rw [h] at hr; cases hr
      · rw [h] at hr; cases hr
      · obtain rfl := Except.ok.inj (h.symm.trans hr)
        rfl
  | abis => rfl
  | programs => rfl

theorem not_blank_of_analyzer (h : e.perform c = .ok e') (hc : c.analyzer? = some a) :
    Text.trim a.id ≠ "" := by
  have hanswer := e.analyzerAnswer_perform hc
  rw [h] at hanswer
  cases hanswer with
  | accepted _ hblank _ _ => exact hblank

theorem free_of_renderer (h : e.perform c = .ok e') (hc : c.renderer? = some x) :
    x.id ∉ e.renderers.renderers.keys := by
  have hanswer := e.rendererAnswer_perform hc
  rw [h] at hanswer
  cases hanswer with
  | accepted _ hfree => exact hfree

/-! ## Any number of calls -/

/-- What holds of no calls, and is kept by a call that succeeds and by one that fails, holds of any
number of calls. -/
theorem history_induction {P : Engine → List Registration → Engine → List Registration → Prop}
    (nil : ∀ e, P e [] e [])
    (ok : ∀ e c cs e', e.perform c = .ok e' →
      P e' cs (e'.afterAll cs) (e'.accepted cs) →
      P e (c :: cs) (e'.afterAll cs) (c :: e'.accepted cs))
    (error : ∀ e c cs y, e.perform c = .error y →
      P e cs (e.afterAll cs) (e.accepted cs) → P e (c :: cs) (e.afterAll cs) (e.accepted cs))
    (e : Engine) (cs : List Registration) : P e cs (e.afterAll cs) (e.accepted cs) := by
  induction cs generalizing e with
  | nil => exact nil e
  | cons c cs ih =>
      have hall : e.afterAll (c :: cs) = (e.after c).afterAll cs := rfl
      cases h : e.perform c with
      | ok e' =>
          have hafter : e.after c = e' := by rw [after, h]; rfl
          have haccepted : e.accepted (c :: cs) = c :: e'.accepted cs := by
            rw [Engine.accepted, h, hafter]; rfl
          rw [hall, hafter, haccepted]
          exact ok e c cs e' h (ih e')
      | error y =>
          have hafter : e.after c = e := by rw [after, h]; rfl
          have haccepted : e.accepted (c :: cs) = e.accepted cs := by
            rw [Engine.accepted, h]; rfl
          rw [hall, hafter, haccepted]
          exact error e c cs y h (ih e)

/-- The analyzers held are those of the calls that succeeded, in the order of the calls. -/
theorem analyzers_afterAll (e : Engine) (cs : List Registration) :
    (e.afterAll cs).registry.analyzers =
      e.registry.analyzers ++ (e.accepted cs).filterMap Registration.analyzer? := by
  refine history_induction (P := fun e _ e' accepted ↦ e'.registry.analyzers =
    e.registry.analyzers ++ accepted.filterMap Registration.analyzer?) ?_ ?_ ?_ e cs
  · simp
  · intro e c cs e' h ih
    rw [ih, (changes_of_perform h).analyzers_eq, List.append_assoc, List.filterMap_cons]
    cases c.analyzer? <;> rfl
  · exact fun _ _ _ _ _ ih ↦ ih

theorem not_blank_of_accepted (e : Engine) (cs : List Registration) :
    ∀ a ∈ (e.accepted cs).filterMap Registration.analyzer?, Text.trim a.id ≠ "" := by
  refine history_induction (P := fun _ _ _ accepted ↦
    ∀ a ∈ accepted.filterMap Registration.analyzer?, Text.trim a.id ≠ "") ?_ ?_ ?_ e cs
  · exact fun _ a ha ↦ absurd ha List.not_mem_nil
  · intro e c cs e' h ih a ha
    obtain ⟨c', hc', hsome⟩ := List.mem_filterMap.1 ha
    rcases List.mem_cons.1 hc' with rfl | hc'
    · exact not_blank_of_analyzer h hsome
    · exact ih a (List.mem_filterMap.2 ⟨c', hc', hsome⟩)
  · exact fun _ _ _ _ _ ih ↦ ih

/-- The renderer held under an identifier is the one that was there first. -/
theorem renderer_afterAll (e : Engine) (cs : List Registration) (id : String) :
    (e.afterAll cs).renderers.get? id = (e.renderers.get? id).or
      (((e.accepted cs).filterMap Registration.renderer?).find? fun x ↦ x.id = id) := by
  refine history_induction (P := fun e _ e' accepted ↦ e'.renderers.get? id =
    (e.renderers.get? id).or ((accepted.filterMap Registration.renderer?).find? fun x ↦ x.id = id))
    ?_ ?_ ?_ e cs
  · simp
  · intro e c cs e' h ih
    have hrenderers := (changes_of_perform h).renderers_eq
    rw [ih, List.filterMap_cons, RendererRegistry.get?, RendererRegistry.get?, hrenderers]
    cases hc : c.renderer? with
    | none => rfl
    | some x =>
        rw [Option.elim_some, Table.get?_put (free_of_renderer h hc), Option.or_assoc]
        by_cases hx : x.id = id <;> simp [hx]
  · exact fun _ _ _ _ _ ih ↦ ih

theorem rendererIds_afterAll (e : Engine) (cs : List Registration) :
    (e.afterAll cs).renderers.ids.Perm (e.renderers.ids ++
      ((e.accepted cs).filterMap Registration.renderer?).map Renderer.id) := by
  refine history_induction (P := fun e _ e' accepted ↦ e'.renderers.ids.Perm
    (e.renderers.ids ++ (accepted.filterMap Registration.renderer?).map Renderer.id)) ?_ ?_ ?_ e cs
  · simp
  · intro e c cs e' h ih
    have hrenderers := (changes_of_perform h).renderers_eq
    rw [List.filterMap_cons]
    cases hc : c.renderer? with
    | none =>
        have hids : e'.renderers.ids = e.renderers.ids := by
          rw [RendererRegistry.ids, hrenderers, hc]
          rfl
        rwa [hids] at ih
    | some x =>
        have hids : e'.renderers.ids.Perm (x.id :: e.renderers.ids) := by
          rw [RendererRegistry.ids, hrenderers, hc]
          exact Table.keys_put (free_of_renderer h hc) x
        exact ih.trans ((hids.append_right _).trans List.perm_middle.symm)
  · exact fun _ _ _ _ _ ih ↦ ih

/-! ## What an engine holds -/

/-- What the registers of an engine hold after some calls, if no analyzer was there before. -/
structure HoldsAccepted (start : Engine) (cs : List Registration) (e : Engine) : Prop where
  analyzers : e.registry.analyzers = (start.accepted cs).filterMap Registration.analyzer?
  distinct : (e.registry.analyzers.map Analyzer.id).Nodup
  notBlank : ∀ a ∈ e.registry.analyzers, Text.trim a.id ≠ ""
  contains : ∀ id, e.registry.contains id = true ↔ ∃ a ∈ e.registry.analyzers, a.id = id
  ofLevel : ∀ l, e.registry.ofLevel l = e.registry.analyzers.filter fun a ↦ a.level = l
  /-- The lists of the four levels hold every analyzer once. -/
  levels : (Level.all.flatMap e.registry.ofLevel).Perm e.registry.analyzers
  renderer : ∀ id, e.renderers.get? id = (start.renderers.get? id).or
    (((start.accepted cs).filterMap Registration.renderer?).find? fun x ↦ x.id = id)
  rendererIds : e.renderers.ids.Perm (start.renderers.ids ++
    ((start.accepted cs).filterMap Registration.renderer?).map Renderer.id)
  rendererOrder : e.renderers.ids.Pairwise Text.BytesBefore
  rendererDistinct : e.renderers.ids.Nodup
  /-- The calls on the registers lead to the registers of the engine. -/
  registers : (Registers.ofEngine start).afterAll cs = .ofEngine e
  inStep : ((Registers.ofEngine start).afterAll cs).ids = e.registry.analyzers.map Analyzer.id

theorem holdsAccepted (start : Engine) (hstart : start.registry.analyzers = [])
    (cs : List Registration) : start.HoldsAccepted cs (start.afterAll cs) where
  analyzers := by rw [analyzers_afterAll, hstart, List.nil_append]
  distinct := (start.afterAll cs).registry.distinct
  notBlank := by
    rw [analyzers_afterAll, hstart, List.nil_append]
    exact not_blank_of_accepted start cs
  contains id := by simp [Registry.contains, Registry.ids]
  ofLevel _ := rfl
  levels := flatMap_filter_perm Analyzer.level (by decide) fun a _ ↦ by
    cases a.level <;> decide
  renderer := renderer_afterAll start cs
  rendererIds := rendererIds_afterAll start cs
  rendererOrder := List.pairwise_map.2
    ((start.afterAll cs).renderers.renderers.ascending.imp Text.lt_iff_bytesBefore.1)
  rendererDistinct := (start.afterAll cs).renderers.renderers.nodup_keys
  registers := Registers.afterAll_ofEngine start cs
  inStep := congrArg Registers.ids (Registers.afterAll_ofEngine start cs)

/-- How an engine answers the next call for an analyzer or a renderer, and what is in its registers
afterwards. -/
structure AnswersRegistrations (e : Engine) : Prop where
  analyzer : ∀ c a, c.analyzer? = some a → AnalyzerAnswer e a (e.perform c)
  renderer : ∀ c x, c.renderer? = some x → RendererAnswer e x (e.perform c)
  inPlace : ∀ c, (Registers.perform c).run (.ofEngine e) = e.outcome (e.perform c)

theorem answersRegistrations (e : Engine) : e.AnswersRegistrations where
  analyzer _ _ := e.analyzerAnswer_perform
  renderer _ _ := e.rendererAnswer_perform
  inPlace := Registers.run_perform e

/-- From an engine without analyzers any calls lead to one that holds what was accepted, and that
answers the next call by what it holds. -/
theorem registers_of_history (e : Engine) (cs : List Registration) :
    HoldsAccepted { e with registry := {} } cs (afterAll { e with registry := {} } cs) ∧
      (afterAll { e with registry := {} } cs).AnswersRegistrations :=
  ⟨holdsAccepted _ rfl cs, answersRegistrations _⟩

end Engine

end Timelock
