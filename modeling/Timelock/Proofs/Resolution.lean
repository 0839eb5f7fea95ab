import Timelock.Proofs.WordTexts

/-!
# Resolved configurations

A configuration is resolved in layers: the default, a file, and variables that override single
values.  The file has to be valid by itself, and so has what comes of the overriding.
-/

namespace Timelock.Config

open Surroundings Toml

variable {x : Surroundings} {path : Option String} {c r : Config} {es : Entries}

/-- Neither the timeout nor the bound is zero. -/
structure Positive (c : Config) : Prop where
  timeout : c.analyzerTimeoutMs ≠ 0
  bound : c.maxConcurrency ≠ some 0

/-- What is told of a configuration with a zero in it, of the timeout first. -/
inductive TellsZero (c : Config) : InvalidValue → Prop where
  | timeout (h : c.analyzerTimeoutMs = 0) :
      TellsZero c ⟨"analyzer_timeout_ms", "0", "timeout must be greater than zero"⟩
  | bound (htimeout : c.analyzerTimeoutMs ≠ 0) (h : c.maxConcurrency = some 0) :
      TellsZero c ⟨"max_concurrency", "0", "concurrency bound must be greater than zero"⟩

/-- A value is read from what stands under its key; if nothing stands there, it is the default. -/
inductive Stands {α : Type} (es : Entries) (key : String) (read : Item → Option α) (default : α) :
    α → Prop where
  | absent (h : es.lookup key = none) : Stands es key read default default
  | given (v : Item) (a : α) (h : es.lookup key = some v) (hread : read v = some a) :
      Stands es key read default a

/-- The entries of a document give a configuration, each value by its own key. -/
structure Gives (es : Entries) (c : Config) : Prop where
  timeout : Stands es "analyzer_timeout_ms" Item.word? 60000 c.analyzerTimeoutMs
  bound : Stands es "max_concurrency" (fun v ↦ v.word?.map some) none c.maxConcurrency
  level : Stands es "log_level" Item.text? "info" c.logLevel
  format : Stands es "log_format" logFormat? .pretty c.logFormat

/-- The file at a path can be read, is a document, and gives a configuration. -/
def Holds (x : Surroundings) (p : String) (c : Config) : Prop :=
  ∃ bytes s es, x.contents? p = some bytes ∧ String.fromUTF8? bytes = some s ∧
    Toml.ofText? s = some es ∧ Gives es c

/-- What comes of looking for a file. -/
inductive Loads (x : Surroundings) (p : String) : Except ConfigError Config → Prop where
  | missing (hbytes : x.contents? p = none) : Loads x p (.error .missingFile)
  | undecodable (bytes : ByteArray) (hbytes : x.contents? p = some bytes)
      (htext : String.fromUTF8? bytes = none) : Loads x p (.error .undecodableFile)
  | malformed (bytes : ByteArray) (s : String) (hbytes : x.contents? p = some bytes)
      (htext : String.fromUTF8? bytes = some s)
      (hnone : ∀ es c, Toml.ofText? s = some es → ¬ Gives es c) : Loads x p (.error .malformed)
  | invalid (c : Config) (e : InvalidValue) (hc : Holds x p c) (he : TellsZero c e) :
      Loads x p (.error (.invalid e))
  | valid (c : Config) (hc : Holds x p c) (hpos : Positive c) : Loads x p (.ok c)

/-- The one file that is looked for: at the path given, or else at the one that a variable names. -/
def source? (x : Surroundings) (path : Option String) : Option String :=
  path.or (x.setting? configVariable)

/-- The layers below the variables. -/
inductive Base (x : Surroundings) (path : Option String) : Config → Prop where
  | file (p : String) (c : Config) (hp : source? x path = some p) (hc : Holds x p c)
      (hpos : Positive c) : Base x path c
  | standard (hp : source? x path = none) :
      Base x path ⟨60000, none, "info", .pretty⟩

/-- A number is the one that a variable writes; if the variable is not set, it stays. -/
inductive Overrides (x : Surroundings) (name : String) (old : Option UInt64) :
    Option UInt64 → Prop where
  | unset (h : x.setting? name = none) : Overrides x name old old
  | written (s : String) (n : UInt64) (h : x.setting? name = some s) (hn : Text.Writes s n) :
      Overrides x name old (some n)

/-- A configuration comes of a base and of the variables. -/
structure Combines (x : Surroundings) (c r : Config) : Prop where
  timeout : Overrides x timeoutVariable (some c.analyzerTimeoutMs) (some r.analyzerTimeoutMs)
  bound : Overrides x concurrencyVariable c.maxConcurrency r.maxConcurrency
  level : r.logLevel = (x.setting? logVariable).getD c.logLevel
  format : r.logFormat = c.logFormat

def timeoutReason : String := "expected a whole number of milliseconds"

def boundReason : String := "expected a positive integer"

/-- What comes of overriding: it fails at a variable that writes no number, at the one for the
timeout first, and at a zero that is left in the end. -/
inductive Finishes (x : Surroundings) (c : Config) : Except ConfigError Config → Prop where
  | timeout (s : String) (hs : x.setting? timeoutVariable = some s)
      (hnone : ∀ n, ¬ Text.Writes s n) :
      Finishes x c (.error (.invalid ⟨timeoutVariable, s, timeoutReason⟩))
  | bound (s : String)
      (htimeout : ∀ t, x.setting? timeoutVariable = some t → ∃ n, Text.Writes t n)
      (hs : x.setting? concurrencyVariable = some s) (hnone : ∀ n, ¬ Text.Writes s n) :
      Finishes x c (.error (.invalid ⟨concurrencyVariable, s, boundReason⟩))
  | zero (r : Config) (e : InvalidValue) (hr : Combines x c r) (he : TellsZero r e) :
      Finishes x c (.error (.invalid e))
  | valid (r : Config) (hr : Combines x c r) (hpos : Positive r) : Finishes x c (.ok r)

theorem validate_eq_ok_iff : c.validate = .ok () ↔ Positive c := by
  rw [validate]
  constructor
  · intro h
    split_ifs at h with htimeout hbound
    exact ⟨htimeout, hbound⟩
  · intro h
    rw [if_neg h.timeout, if_neg h.bound]

theorem validate_eq_error_iff {e : InvalidValue} : c.validate = .error e ↔ TellsZero c e := by
  rw [validate]
  constructor
  · intro h
    split_ifs at h with htimeout hbound
    · obtain rfl := Except.error.inj h
      exact .timeout htimeout
    · obtain rfl := Except.error.inj h
      exact .bound htimeout hbound
  · intro h
    cases h with
    | timeout h => rw [if_pos h]
    | bound htimeout h => rw [if_neg htimeout, if_pos h]

/-! ## Files -/

theorem field?_eq_some_iff {α : Type} {key : String} {read : Item → Option α} {default a : α} :
    field? es key read default = some a ↔ Stands es key read default a := by
  rw [field?]
  constructor
  · intro h
    split at h
    next hnone =>
      obtain rfl := Option.some.inj h
      exact .absent hnone
    next v hv => exact .given v a hv h
  · intro h
    cases h with
    | absent hnone => rw [hnone]
    | given v a hv hread => rw [hv]; exact hread

theorem ofEntries?_eq_some_iff : ofEntries? es = some c ↔ Gives es c := by
  simp only [ofEntries?, Option.bind_eq_bind, Option.bind_eq_some_iff, field?_eq_some_iff,
    Option.pure_def, Option.some.injEq]
  constructor
  · rintro ⟨timeout, htimeout, bound, hbound, level, hlevel, format, hformat, rfl⟩
    exact ⟨htimeout, hbound, hlevel, hformat⟩
  · intro h
    exact ⟨_, h.timeout, _, h.bound, _, h.level, _, h.format, rfl⟩

theorem Holds.load_eq_ok {p : String} (h : Holds x p c) (hpos : Positive c) :
    load x p = .ok c := by
  obtain ⟨bytes, s, es, hbytes, htext, hentries, hgives⟩ := h
  simp only [load, hbytes, htext, ofText, hentries, Option.bind_some,
    ofEntries?_eq_some_iff.2 hgives, validate_eq_ok_iff.2 hpos]

theorem Holds.load_eq_error {p : String} {e : InvalidValue} (h : Holds x p c)
    (he : TellsZero c e) : load x p = .error (.invalid e) := by
  obtain ⟨bytes, s, es, hbytes, htext, hentries, hgives⟩ := h
  simp only [load, hbytes, htext, ofText, hentries, Option.bind_some,
    ofEntries?_eq_some_iff.2 hgives, validate_eq_error_iff.2 he]

theorem load_eq_iff {p : String} {result : Except ConfigError Config} :
    load x p = result ↔ Loads x p result := by
  constructor
  · rintro rfl
    rw [load]
    cases hbytes : x.contents? p with
    | none => exact .missing hbytes
    | some bytes =>
        dsimp only
        cases htext : String.fromUTF8? bytes with
        | none => exact .undecodable bytes hbytes htext
        | some s =>
            dsimp only [ofText]
            cases hgives : (Toml.ofText? s).bind ofEntries? with
            | none =>
                refine .malformed bytes s hbytes htext fun es c hes hc ↦ ?_
                rw [hes, Option.bind_some, ofEntries?_eq_some_iff.2 hc] at hgives
                cases hgives
            | some c =>
                obtain ⟨es, hes, hc⟩ := Option.bind_eq_some_iff.1 hgives
                have hholds : Holds x p c :=
                  ⟨bytes, s, es, hbytes, htext, hes, ofEntries?_eq_some_iff.1 hc⟩
                dsimp only
                cases hvalid : c.validate with
                | error e => exact .invalid c e hholds (validate_eq_error_iff.1 hvalid)
                | ok u => exact .valid c hholds (validate_eq_ok_iff.1 hvalid)
  · intro h
    cases h with
    | missing hbytes => rw [load, hbytes]
    | undecodable bytes hbytes htext => simp only [load, hbytes, htext]
    | malformed bytes s hbytes htext hnone =>
        have hgives : (Toml.ofText? s).bind ofEntries? = none := by
          rw [Option.eq_none_iff_forall_ne_some]
          intro c hc
          obtain ⟨es, hes, hc⟩ := Option.bind_eq_some_iff.1 hc
          exact hnone es c hes (ofEntries?_eq_some_iff.1 hc)
        simp only [load, hbytes, htext, ofText, hgives]
    | invalid c e hc he => exact hc.load_eq_error he
    | valid c hc hpos => exact hc.load_eq_ok hpos

theorem load_eq_ok_iff {p : String} : load x p = .ok c ↔ Holds x p c ∧ Positive c := by
  rw [load_eq_iff]
  constructor
  · intro h
    cases h with
    | valid _ hc hpos => exact ⟨hc, hpos⟩
  · exact fun h ↦ .valid c h.1 h.2

theorem base_eq (x : Surroundings) (path : Option String) :
    base x path = (source? x path).elim (.ok {}) (load x) := by
  cases path with
  | some p => rfl
  | none =>
      rw [base, source?, Option.none_or]
      cases x.setting? configVariable <;> rfl

theorem base_eq_ok_iff : base x path = .ok c ↔ Base x path c := by
  rw [base_eq]
  constructor
  · intro h
    cases hp : source? x path with
    | none =>
        rw [hp] at h
        obtain rfl := Except.ok.inj h
        exact .standard hp
    | some p =>
        rw [hp] at h
        obtain ⟨hc, hpos⟩ := load_eq_ok_iff.1 h
        exact .file p c hp hc hpos
  · intro h
    cases h with
    | file p c hp hc hpos => rw [hp]; exact load_eq_ok_iff.2 ⟨hc, hpos⟩
    | standard hp => rw [hp]; rfl

/-! ## Variables -/

theorem override?_eq_ok_iff {name reason : String} {o : Option UInt64} :
    override? x name reason = .ok o ↔
      (x.setting? name = none ∧ o = none) ∨
      ∃ s n, x.setting? name = some s ∧ Text.Writes s n ∧ o = some n := by
  rw [override?]
  cases hset : x.setting? name with
  | none => simp [eq_comm]
  | some s =>
      dsimp only
      cases hword : wordOfText? s with
      | none =>
          have hnone : ∀ n, ¬ Text.Writes s n := fun n hn ↦ by
            rw [wordOfText?_eq_some_iff.2 hn] at hword
            cases hword
          simp [hnone]
      | some n =>
          have hiff : ∀ m, Text.Writes s m ↔ n = m := fun m ↦ by
            rw [← wordOfText?_eq_some_iff, hword, Option.some.injEq]
          simp [hiff, eq_comm]

theorem override?_eq_error_iff {name reason : String} {y : ConfigError} :
    override? x name reason = .error y ↔
      ∃ s, x.setting? name = some s ∧ (∀ n, ¬ Text.Writes s n) ∧
        y = .invalid ⟨name, s, reason⟩ := by
  rw [override?]
  cases hset : x.setting? name with
  | none => simp
  | some s =>
      simp only [← wordOfText?_eq_some_iff, Option.some.injEq, exists_eq_left']
      cases wordOfText? s with
      | none => simp [eq_comm]
      | some n => simp

theorem exists_override?_eq_ok_iff {name : String} (reason : String) :
    (∃ o, override? x name reason = .ok o) ↔
      ∀ s, x.setting? name = some s → ∃ n, Text.Writes s n := by
  simp only [override?_eq_ok_iff]
  cases x.setting? name with
  | none => simp
  | some s =>
      simp only [reduceCtorEq, false_and, false_or, Option.some.injEq, forall_eq']
      constructor
      · rintro ⟨_, _, n, rfl, hn, _⟩
        exact ⟨n, hn⟩
      · rintro ⟨n, hn⟩
        exact ⟨some n, s, n, rfl, hn, rfl⟩

/-- What a variable makes of a number, whatever is told if it does not write one. -/
theorem overrides_iff {name : String} (reason : String) {old new : Option UInt64} :
    Overrides x name old new ↔ ∃ o, override? x name reason = .ok o ∧ new = o.or old := by
  simp only [override?_eq_ok_iff]
  constructor
  · intro h
    cases h with
    | unset h => exact ⟨none, .inl ⟨h, rfl⟩, rfl⟩
    | written s n h hn => exact ⟨some n, .inr ⟨s, n, h, hn, rfl⟩, rfl⟩
  · rintro ⟨o, ⟨hset, rfl⟩ | ⟨s, n, hset, hn, rfl⟩, rfl⟩
    · exact .unset hset
    · exact .written s n hset hn

/-- The configuration that comes of a base and of what the variables write. -/
def combined (x : Surroundings) (c : Config) (timeout bound : Option UInt64) : Config where
  analyzerTimeoutMs := timeout.getD c.analyzerTimeoutMs
  maxConcurrency := bound <|> c.maxConcurrency
  logLevel := (x.setting? logVariable).getD c.logLevel
  logFormat := c.logFormat

theorem overridden_eq (x : Surroundings) (c : Config) :
    overridden x c =
      (override? x timeoutVariable timeoutReason).bind fun timeout ↦
        (override? x concurrencyVariable boundReason).bind fun bound ↦
          match (combined x c timeout bound).validate with
          | .error e => .error (.invalid e)
          | .ok () => .ok (combined x c timeout bound) := by
  rfl

theorem combines_iff :
    Combines x c r ↔ ∃ timeout bound,
      override? x timeoutVariable timeoutReason = .ok timeout ∧
      override? x concurrencyVariable boundReason = .ok bound ∧
      r = combined x c timeout bound := by
  constructor
  · intro h
    obtain ⟨timeout, htimeout, heq⟩ := (overrides_iff timeoutReason).1 h.timeout
    obtain ⟨bound, hbound, heq'⟩ := (overrides_iff boundReason).1 h.bound
    refine ⟨timeout, bound, htimeout, hbound, ?_⟩
    have hms : r.analyzerTimeoutMs = timeout.getD c.analyzerTimeoutMs := by
      cases timeout <;> exact Option.some.inj heq
    have hmax : r.maxConcurrency = (bound <|> c.maxConcurrency) := by
      cases bound <;> exact heq'
    have hlevel := h.level
    have hformat := h.format
    cases r
    rw [combined, Config.mk.injEq]
    exact ⟨hms, hmax, hlevel, hformat⟩
  · rintro ⟨timeout, bound, htimeout, hbound, rfl⟩
    refine ⟨(overrides_iff timeoutReason).2 ⟨timeout, htimeout, ?_⟩,
      (overrides_iff boundReason).2 ⟨bound, hbound, ?_⟩, rfl, rfl⟩
    · cases timeout <;> rfl
    · cases bound <;> rfl

theorem overridden_eq_iff {result : Except ConfigError Config} :
    overridden x c = result ↔ Finishes x c result := by
  constructor
  · rintro rfl
    rw [overridden_eq]
    cases htimeout : override? x timeoutVariable timeoutReason with
    | error y =>
        obtain ⟨s, hs, hnone, rfl⟩ := override?_eq_error_iff.1 htimeout
        exact .timeout s hs hnone
    | ok timeout =>
        cases hbound : override? x concurrencyVariable boundReason with
        | error y =>
            obtain ⟨s, hs, hnone, rfl⟩ := override?_eq_error_iff.1 hbound
            exact .bound s ((exists_override?_eq_ok_iff _).1 ⟨timeout, htimeout⟩) hs hnone
        | ok bound =>
            have hr : Combines x c (combined x c timeout bound) :=
              combines_iff.2 ⟨timeout, bound, htimeout, hbound, rfl⟩
            simp only [Except.bind]
            cases hvalid : (combined x c timeout bound).validate with
            | error e => exact .zero _ e hr (validate_eq_error_iff.1 hvalid)
            | ok u => exact .valid _ hr (validate_eq_ok_iff.1 hvalid)
  · intro h
    rw [overridden_eq]
    cases h with
    | timeout s hs hnone =>
        rw [override?_eq_error_iff.2 ⟨s, hs, hnone, rfl⟩]
        rfl
    | bound s htimeout hs hnone =>
        obtain ⟨timeout, htimeout⟩ := (exists_override?_eq_ok_iff timeoutReason).2 htimeout
        rw [htimeout, override?_eq_error_iff.2 ⟨s, hs, hnone, rfl⟩]
        rfl
    | zero r e hr he =>
        obtain ⟨timeout, bound, htimeout, hbound, rfl⟩ := combines_iff.1 hr
        rw [htimeout, hbound]
        simp only [Except.bind, validate_eq_error_iff.2 he]
    | valid r hr hpos =>
        obtain ⟨timeout, bound, htimeout, hbound, rfl⟩ := combines_iff.1 hr
        rw [htimeout, hbound]
        simp only [Except.bind, validate_eq_ok_iff.2 hpos]

theorem overridden_eq_ok_iff : overridden x c = .ok r ↔ Combines x c r ∧ Positive r := by
  rw [overridden_eq_iff]
  constructor
  · intro h
    cases h with
    | valid _ hr hpos => exact ⟨hr, hpos⟩
  · exact fun h ↦ .valid r h.1 h.2

/-! ## Resolving -/

theorem resolve_eq (x : Surroundings) (path : Option String) :
    resolve x path = (base x path).bind (overridden x) := rfl

theorem resolve_eq_ok_iff :
    resolve x path = .ok r ↔ ∃ c, Base x path c ∧ Combines x c r ∧ Positive r := by
  simp only [← base_eq_ok_iff, ← overridden_eq_ok_iff]
  rw [resolve_eq]
  cases base x path <;> simp [Except.bind]

theorem resolve_eq_error_iff {y : ConfigError} :
    resolve x path = .error y ↔ (∃ p, source? x path = some p ∧ Loads x p (.error y)) ∨
      ∃ c, Base x path c ∧ Finishes x c (.error y) := by
  simp only [← base_eq_ok_iff, ← overridden_eq_iff, ← load_eq_iff]
  rw [resolve_eq, base_eq]
  cases source? x path with
  | none => simp [Except.bind]
  | some p =>
      simp only [Option.elim_some, Option.some.injEq, exists_eq_left']
      cases load x p <;> simp [Except.bind]

/-- A file that is no valid configuration is an error, whatever the variables hold. -/
theorem resolve_eq_error {p : String} {y : ConfigError} (hp : source? x path = some p)
    (h : Loads x p (.error y)) : resolve x path = .error y := by
  exact resolve_eq_error_iff.2 (.inl ⟨p, hp, h⟩)

theorem Base.positive (h : Base x path c) : Positive c := by
  cases h with
  | file p c hp hc hpos => exact hpos
  | standard hp => exact ⟨by decide, by decide⟩

theorem Overrides.exists_writes {name s : String} {old new : Option UInt64}
    (h : Overrides x name old new) (hs : x.setting? name = some s) :
    ∃ n, new = some n ∧ Text.Writes s n := by
  cases h with
  | unset hnone => rw [hs] at hnone; cases hnone
  | written s' n hs' hn =>
      obtain rfl := Option.some.inj (hs.symm.trans hs')
      exact ⟨n, rfl, hn⟩

theorem exists_overrides {name : String} {old : Option UInt64} (hold : old ≠ some 0)
    (h : ∀ s, x.setting? name = some s → ∃ n, Text.Writes s n ∧ n ≠ 0) :
    ∃ new, Overrides x name old new ∧ new ≠ some 0 ∧ (old.isSome → new.isSome) := by
  cases hset : x.setting? name with
  | none => exact ⟨old, .unset hset, hold, fun h ↦ h⟩
  | some s =>
      obtain ⟨n, hn, hpos⟩ := h s hset
      exact ⟨some n, .written s n hset hn, by simpa using hpos, fun _ ↦ rfl⟩

/-- A configuration is resolved exactly if there is a base, and the variables for numbers write
numbers other than zero. -/
theorem exists_resolve_eq_ok_iff :
    (∃ r, resolve x path = .ok r) ↔
      (∃ c, Base x path c) ∧ ∀ name ∈ [timeoutVariable, concurrencyVariable],
        ∀ s, x.setting? name = some s → ∃ n, Text.Writes s n ∧ n ≠ 0 := by
  simp only [resolve_eq_ok_iff, List.mem_cons, List.not_mem_nil, or_false, forall_eq_or_imp,
    forall_eq]
  constructor
  · rintro ⟨r, c, hbase, hcombines, hpos⟩
    refine ⟨⟨c, hbase⟩, fun s hs ↦ ?_, fun s hs ↦ ?_⟩
    · obtain ⟨n, hn, hwrites⟩ := hcombines.timeout.exists_writes hs
      exact ⟨n, hwrites, Option.some.inj hn ▸ hpos.timeout⟩
    · obtain ⟨n, hn, hwrites⟩ := hcombines.bound.exists_writes hs
      exact ⟨n, hwrites, fun hzero ↦ hpos.bound (hn.trans (congrArg some hzero))⟩
  · rintro ⟨⟨c, hbase⟩, htimeout, hbound⟩
    -- A number that no variable writes is that of the base, which has no zeros.
    have hpos := hbase.positive
    have hms : some c.analyzerTimeoutMs ≠ some 0 := fun hzero ↦
      hpos.timeout (Option.some.inj hzero)
    obtain ⟨ms, hms, hmspos, hsome⟩ := exists_overrides hms htimeout
    obtain ⟨n, rfl⟩ := Option.isSome_iff_exists.1 (hsome rfl)
    obtain ⟨max, hmax, hmaxpos, -⟩ := exists_overrides hpos.bound hbound
    exact ⟨⟨n, max, (x.setting? logVariable).getD c.logLevel, c.logFormat⟩, c, hbase,
      ⟨hms, hmax, rfl, rfl⟩, ⟨fun hzero ↦ hmspos (congrArg some hzero), hmaxpos⟩⟩

/-- The result depends on the variables that are asked for, and on the one file. -/
theorem resolve_congr {x' : Surroundings}
    (hpath : path = none → x'.setting? configVariable = x.setting? configVariable)
    (hsettings : ∀ name ∈ [timeoutVariable, concurrencyVariable, logVariable],
      x'.setting? name = x.setting? name)
    (hfile : ∀ p, source? x path = some p → x'.contents? p = x.contents? p) :
    resolve x' path = resolve x path := by
  have hsource : source? x' path = source? x path := by
    cases path with
    | some p => rfl
    | none => exact hpath rfl
  have hbase : base x' path = base x path := by
    rw [base_eq, base_eq, hsource]
    cases hp : source? x path with
    | none => rfl
    | some p => rw [Option.elim_some, Option.elim_some, load, load, hfile p hp]
  have hoverridden : overridden x' = overridden x := by
    funext c
    simp only [List.mem_cons, List.not_mem_nil, or_false, forall_eq_or_imp, forall_eq] at hsettings
    obtain ⟨htimeout, hbound, hlog⟩ := hsettings
    simp only [overridden, override?, htimeout, hbound, hlog]
  rw [resolve_eq, resolve_eq, hbase, hoverridden]

/-- What is promised of a resolved configuration. -/
structure ResolvesByLayers (x : Surroundings) (path : Option String) : Prop where
  ok_iff : ∀ r, resolve x path = .ok r ↔ ∃ c, Base x path c ∧ Combines x c r ∧ Positive r
  succeeds_iff : (∃ r, resolve x path = .ok r) ↔
    (∃ c, Base x path c) ∧ ∀ name ∈ [timeoutVariable, concurrencyVariable],
      ∀ s, x.setting? name = some s → ∃ n, Text.Writes s n ∧ n ≠ 0
  error_iff : ∀ y, resolve x path = .error y ↔
    (∃ p, source? x path = some p ∧ Loads x p (.error y)) ∨
      ∃ c, Base x path c ∧ Finishes x c (.error y)
  /-- The file has to be valid by itself, whatever the variables would make of it. -/
  fails : ∀ p y, source? x path = some p → Loads x p (.error y) → resolve x path = .error y
  confined : ∀ x' : Surroundings,
    (path = none → x'.setting? configVariable = x.setting? configVariable) →
    (∀ name ∈ [timeoutVariable, concurrencyVariable, logVariable],
      x'.setting? name = x.setting? name) →
    (∀ p, source? x path = some p → x'.contents? p = x.contents? p) →
    resolve x' path = resolve x path
  valid : ∀ r, resolve x path = .ok r → r.validate = .ok ()

theorem resolvesByLayers (x : Surroundings) (path : Option String) : ResolvesByLayers x path where
  ok_iff _ := resolve_eq_ok_iff
  succeeds_iff := exists_resolve_eq_ok_iff
  error_iff _ := resolve_eq_error_iff
  fails _ _ := resolve_eq_error
  confined _ := resolve_congr
  valid r h := by
    obtain ⟨c, _, _, hpos⟩ := resolve_eq_ok_iff.1 h
    exact validate_eq_ok_iff.2 hpos

end Timelock.Config
