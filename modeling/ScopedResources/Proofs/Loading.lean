/-
  Loading a configuration.

  The variables are asked one after the other until one holds what it may not;
  what a configuration is made of, and where it says it came from, follow from
  the variables that are set.

  * `Text.lowercase_eq_iff`: no letter outside of ASCII gets into a word
    without a `k` when a text is put into small letters.
  * `Config.Asks`: a loading asks some variables in order, until the first
    value that is refused; a loading put together from two asks the variables
    of both (`Config.Asks.bind`).
  * `Config.load_by_variables`: what is asked, what fails and what is loaded,
    for every lookup.
-/
import ScopedResources.Proofs.Configuration

namespace ScopedResources

/-! ## Small letters -/

namespace Text

theorem toNat_ofNat_of_valid {n : Nat} (h : n < 0xD800 ∨ 0xE000 ≤ n ∧ n < 0x110000) :
    (Char.ofNat n).toNat = n := by
  have hvalid : n.isValidChar := by
    rcases h with h | ⟨h, h'⟩
    · exact .inl h
    · exact .inr ⟨by omega, h'⟩
  rw [Char.ofNat, dif_pos hvalid]
  rfl

/-- The small letters of the capitals in a row are characters outside of ASCII, apart
    from that of the sign for kelvins. -/
theorem shiftedCapitals_small : ∀ run ∈ shiftedCapitals,
    run = (0x212A, 0x212A, 'k'.toNat) ∨ 0x80 ≤ run.2.2 ∧
      (run.2.2 + (run.2.1 - run.1) < 0xD800 ∨
        0xE000 ≤ run.2.2 ∧ run.2.2 + (run.2.1 - run.1) < 0x110000) := by
  decide +kernel

theorem alternatingCapitals_small :
    ∀ run ∈ alternatingCapitals, 0x80 ≤ run.1 ∧ run.2 + 1 < 0xD800 := by
  decide +kernel

/-- What a character outside of ASCII becomes has another such character in it, or is a `k`. -/
theorem exists_mem_lowercaseOf {c : Char} (hc : 0x80 ≤ c.toNat) :
    ∃ d ∈ lowercaseOf c, d = 'k' ∨ 0x80 ≤ d.toNat := by
  unfold lowercaseOf
  simp only [Nat.not_lt.2 hc, if_false]
  split
  · exact ⟨Char.ofNat 0x307, by simp, .inr (by decide)⟩
  split
  · next first last small hfind =>
    have hmem := List.mem_of_find?_eq_some hfind
    have hrange : first ≤ c.toNat ∧ c.toNat ≤ last := by simpa using List.find?_some hfind
    refine ⟨_, List.mem_singleton_self _, ?_⟩
    rcases shiftedCapitals_small _ hmem with heq | ⟨hsmall, hvalid⟩
    · obtain ⟨rfl, rfl, rfl⟩ : first = 0x212A ∧ last = 0x212A ∧ small = 'k'.toNat := by
        simpa using heq
      left
      rw [show c.toNat - 0x212A = 0 by omega]
      rfl
    · right
      dsimp only at hsmall hvalid
      rw [toNat_ofNat_of_valid (by omega)]
      omega
  split
  · next hany =>
    obtain ⟨⟨first, last⟩, hmem, hrange⟩ := List.any_eq_true.1 hany
    have hvalid := alternatingCapitals_small _ hmem
    simp only [Bool.and_eq_true, decide_eq_true_eq] at hrange hvalid
    refine ⟨_, List.mem_singleton_self _, .inr ?_⟩
    rw [toNat_ofNat_of_valid (by omega)]
    omega
  · exact ⟨c, List.mem_singleton_self _, .inr hc⟩

theorem toNat_smallSigma (before after : List Char) : 0x80 ≤ (smallSigma before after).toNat := by
  unfold smallSigma
  split <;> decide

/-- A character that may stand in a word into which no other letter is turned. -/
def Plain (c : Char) : Prop := c ≠ 'k' ∧ c.toNat < 0x80

theorem lowercaseOf_of_ascii {c : Char} (hc : c.toNat < 0x80) : lowercaseOf c = [c.toLower] := by
  simp [lowercaseOf, hc]

theorem ne_sigma_of_ascii {c : Char} (hc : c.toNat < 0x80) : c ≠ sigma := by
  rintro rfl
  exact absurd hc (by decide)

theorem lowercaseAfter_of_ascii {cs : List Char} (hcs : ∀ c ∈ cs, c.toNat < 0x80)
    (before : List Char) : lowercaseAfter before cs = cs.map Char.toLower := by
  induction cs generalizing before with
  | nil => rfl
  | cons c cs ih =>
    obtain ⟨hc, hcs⟩ := List.forall_mem_cons.1 hcs
    rw [lowercaseAfter, if_neg (ne_sigma_of_ascii hc), lowercaseOf_of_ascii hc, ih hcs]
    rfl

/-- Characters that become plain ones were ASCII. -/
theorem ascii_of_lowercaseAfter {before cs : List Char}
    (hplain : ∀ d ∈ lowercaseAfter before cs, Plain d) : ∀ c ∈ cs, c.toNat < 0x80 := by
  induction cs generalizing before with
  | nil => simp
  | cons c cs ih =>
    rw [lowercaseAfter, List.forall_mem_append] at hplain
    refine List.forall_mem_cons.2 ⟨?_, ih hplain.2⟩
    by_contra hc
    have hother : ∃ d ∈ (if c = sigma then [smallSigma before cs] else lowercaseOf c),
        d = 'k' ∨ 0x80 ≤ d.toNat := by
      split
      · exact ⟨_, List.mem_singleton_self _, .inr (toNat_smallSigma _ _)⟩
      · exact exists_mem_lowercaseOf (by omega)
    obtain ⟨d, hd, hkind⟩ := hother
    have hd := hplain.1 d hd
    rcases hkind with rfl | hkind
    · exact hd.1 rfl
    · exact absurd hd.2 (by omega)

theorem toLower_of_not_ascii {c : Char} (hc : 0x80 ≤ c.toNat) : c.toLower = c := by
  unfold Char.toLower
  refine dif_neg fun h => ?_
  have hlast : c.toNat ≤ 'Z'.toNat := UInt32.le_iff_toNat_le.1 h.2
  exact absurd hlast (Nat.not_le.2 (Nat.lt_of_lt_of_le (by decide) hc))

/-- A text is a plain word in small letters exactly if it is the word once its ASCII
    capitals are small. -/
theorem lowercase_eq_iff {s word : String} (hword : ∀ c ∈ word.toList, Plain c) :
    lowercase s = word ↔ s.toList.map Char.toLower = word.toList := by
  rw [lowercase, ← String.toList_inj, String.toList_ofList]
  constructor
  · intro h
    rw [← h, lowercaseAfter_of_ascii]
    exact ascii_of_lowercaseAfter (h ▸ hword)
  · intro h
    rw [← h]
    refine lowercaseAfter_of_ascii (fun c hc => ?_) []
    by_contra hascii
    have hlower := hword c.toLower (h ▸ List.mem_map_of_mem hc)
    rw [toLower_of_not_ascii (by omega)] at hlower
    exact hascii hlower.2

end Text

namespace Config

variable {α β : Type} {lookup : Lookup} {names names' asked asked' : List String}

/-! ## Values that are refused -/

/-- The variables of a configuration, in the order in which they are asked. -/
def variableNames : List String := [logVariable, debugLockVariable, ignoreSigpipeVariable]

/-- The words for a flag. -/
def flagWords : Bool → List String
  | true => ["1", "true", "yes", "on"]
  | false => ["0", "false", "no", "off"]

/-- A value says a flag if it is one of the words for it, with any of its letters as
    ASCII capitals. -/
def Says (value : String) (flag : Bool) : Prop :=
  ∃ word ∈ flagWords flag, value.toList.map Char.toLower = word.toList

instance (value : String) (flag : Bool) : Decidable (Says value flag) :=
  inferInstanceAs (Decidable (∃ word ∈ flagWords flag, _))

/-- The values that a variable may not have, with the reason: a filter of white space
    only, an empty path, and what says no flag. -/
def Refused (name value reason : String) : Prop :=
  name = logVariable ∧ (∀ c ∈ value.toList, Text.isBlankChar c = true) ∧
      reason = "filter must not be empty" ∨
    name = debugLockVariable ∧ value = "" ∧ reason = "lock path must not be empty" ∨
    name = ignoreSigpipeVariable ∧ (∀ flag, ¬ Says value flag) ∧ reason = "expected a boolean"

/-- A variable is not set, or has a value that it may have. -/
def Accepted (lookup : Lookup) (name : String) : Prop :=
  ∀ value, lookup name = some value → ∀ reason, ¬ Refused name value reason

theorem says_iff {value : String} {flag : Bool} :
    Says value flag ↔ Text.lowercase value ∈ flagWords flag := by
  have hplain : ∀ flag, ∀ word ∈ flagWords flag, ∀ c ∈ word.toList, Text.Plain c := by
    intro flag
    cases flag <;> simp [flagWords, Text.Plain]
  constructor
  · rintro ⟨word, hword, hvalue⟩
    rwa [(Text.lowercase_eq_iff (hplain flag word hword)).2 hvalue]
  · intro hword
    exact ⟨_, hword, (Text.lowercase_eq_iff (hplain flag _ hword)).1 rfl⟩

/-- No value says both. -/
theorem Says.unique {value : String} {flag flag' : Bool} (h : Says value flag)
    (h' : Says value flag') : flag = flag' := by
  have hdisjoint : ∀ word ∈ flagWords true, word ∉ flagWords false := by decide
  rw [says_iff] at h h'
  cases flag <;> cases flag' <;> first | rfl | skip
  · exact absurd h (hdisjoint _ h')
  · exact absurd h' (hdisjoint _ h)

/-- A reading of a variable refuses what the variable may not have, with the reason. -/
structure Checks (name : String) (read : String → Except SetupError α) : Prop where
  refuses : ∀ {value e}, read value = .error e →
    ∃ reason, Refused name value reason ∧ e = .invalidValue name value reason
  accepts : ∀ {value a}, read value = .ok a → ∀ reason, ¬ Refused name value reason

theorem checks_readFilter : Checks logVariable readFilter where
  refuses := by
    intro value e h
    unfold readFilter at h
    split at h
    · next hblank =>
      cases h
      exact ⟨_, .inl ⟨rfl, List.all_eq_true.1 hblank, rfl⟩, rfl⟩
    · cases h
  accepts := by
    intro value a h reason
    unfold readFilter at h
    split at h
    · cases h
    · next hblank =>
      rintro (⟨-, hall, -⟩ | ⟨hname, -⟩ | ⟨hname, -⟩)
      · exact hblank (List.all_eq_true.2 hall)
      · exact absurd hname (by decide)
      · exact absurd hname (by decide)

theorem checks_readLockPath : Checks debugLockVariable readLockPath where
  refuses := by
    intro value e h
    unfold readLockPath at h
    split at h
    · next hempty =>
      cases h
      exact ⟨_, .inr (.inl ⟨rfl, String.isEmpty_iff.1 hempty, rfl⟩), rfl⟩
    · cases h
  accepts := by
    intro value a h reason
    unfold readLockPath at h
    split at h
    · cases h
    · next hempty =>
      rintro (⟨hname, -⟩ | ⟨-, hvalue, -⟩ | ⟨hname, -⟩)
      · exact absurd hname (by decide)
      · exact hempty (String.isEmpty_iff.2 hvalue)
      · exact absurd hname (by decide)

/-- A flag is read from what says it. -/
theorem says_of_readFlag {name value : String} {flag : Bool} (h : readFlag name value = .ok flag) :
    Says value flag := by
  rw [says_iff]
  simp only [readFlag] at h
  split at h
  · next hword => cases h; exact hword
  · split at h
    · next hword => cases h; exact hword
    · cases h

theorem checks_readFlag : Checks ignoreSigpipeVariable (readFlag ignoreSigpipeVariable) where
  refuses := by
    intro value e h
    simp only [readFlag] at h
    split at h
    · cases h
    · next htrue =>
      split at h
      · cases h
      · next hfalse =>
        cases h
        refine ⟨_, .inr (.inr ⟨rfl, ?_, rfl⟩), rfl⟩
        rintro (_ | _) hsays
        · exact hfalse (says_iff.1 hsays)
        · exact htrue (says_iff.1 hsays)
  accepts := by
    rintro value a h reason (⟨hname, -⟩ | ⟨hname, -⟩ | ⟨-, hno, -⟩)
    · exact absurd hname (by decide)
    · exact absurd hname (by decide)
    · exact hno a (says_of_readFlag h)

/-! ## One variable after the other -/

/-- The first of some variables that holds what it may not: what is asked before it, its
    name, its value, and the reason. -/
structure FirstRefused (lookup : Lookup) (names before : List String)
    (name value reason : String) : Prop where
  asked : before ++ [name] <+: names
  isSet : lookup name = some value
  refused : Refused name value reason
  accepted : ∀ earlier ∈ before, Accepted lookup earlier

/-- A loading asks some variables in order, until the first one that holds what it may not. -/
def Asks (lookup : Lookup) (names : List String) (m : Loading α) : Prop :=
  ∀ asked,
    ((∀ name ∈ names, Accepted lookup name) ∧ ∃ a, m.run asked = (.ok a, asked ++ names)) ∨
    ∃ before name value reason, FirstRefused lookup names before name value reason ∧
      m.run asked = (.error (.invalidValue name value reason), asked ++ (before ++ [name]))

theorem run_bind_of_ok {x : Loading α} {f : α → Loading β} {a : α}
    (h : x.run asked = (.ok a, asked')) : (x >>= f).run asked = (f a).run asked' := by
  change StateT.run (ExceptT.run (x >>= f)) asked = _
  rw [ExceptT.run_bind, StateT.run_bind, show StateT.run x.run asked = _ from h]
  rfl

theorem run_bind_of_error {x : Loading α} {f : α → Loading β} {e : SetupError}
    (h : x.run asked = (.error e, asked')) : (x >>= f).run asked = (.error e, asked') := by
  change StateT.run (ExceptT.run (x >>= f)) asked = _
  rw [ExceptT.run_bind, StateT.run_bind, show StateT.run x.run asked = _ from h]
  rfl

theorem Asks.pure (a : α) : Asks lookup [] (Pure.pure a : Loading α) :=
  fun asked => .inl ⟨by simp, a, by rw [List.append_nil]; rfl⟩

theorem FirstRefused.append {before : List String} {name value reason : String}
    (h : FirstRefused lookup names before name value reason) :
    FirstRefused lookup (names ++ names') before name value reason :=
  { h with asked := h.asked.trans (List.prefix_append _ _) }

/-- What is refused among later variables, when the earlier ones may be as they are. -/
theorem FirstRefused.after {before : List String} {name value reason : String}
    (hnames : ∀ name ∈ names, Accepted lookup name)
    (h : FirstRefused lookup names' before name value reason) :
    FirstRefused lookup (names ++ names') (names ++ before) name value reason where
  asked := by rw [List.append_assoc]; exact (List.prefix_append_right_inj _).2 h.asked
  isSet := h.isSet
  refused := h.refused
  accepted := List.forall_mem_append.2 ⟨hnames, h.accepted⟩

theorem Asks.bind {m : Loading α} {f : α → Loading β} (hm : Asks lookup names m)
    (hf : ∀ a, Asks lookup names' (f a)) : Asks lookup (names ++ names') (m >>= f) := by
  intro asked
  rcases hm asked with ⟨hnames, a, hrun⟩ | ⟨before, name, value, reason, hfirst, hrun⟩
  · rw [run_bind_of_ok hrun]
    rcases hf a (asked ++ names) with
      ⟨hnames', b, hrun'⟩ | ⟨before, name, value, reason, hfirst, hrun'⟩
    · exact .inl ⟨List.forall_mem_append.2 ⟨hnames, hnames'⟩, b, by rw [hrun', List.append_assoc]⟩
    · exact .inr ⟨_, name, value, reason, hfirst.after hnames, by
        rw [hrun', List.append_assoc, List.append_assoc]⟩
  · exact .inr ⟨before, name, value, reason, hfirst.append, run_bind_of_error hrun⟩

theorem Checks.asks {name : String} {read : String → Except SetupError α}
    (hread : Checks name read) (byDefault : α) :
    Asks lookup [name] (setting lookup name byDefault read) := by
  intro asked
  have hask : (ask lookup name).run asked = (.ok (lookup name), asked ++ [name]) := rfl
  rw [setting, run_bind_of_ok hask]
  rcases hvalue : lookup name with _ | value
  · exact .inl ⟨by simp [Accepted, hvalue], (byDefault, []), rfl⟩
  rcases hresult : read value with e | a
  · obtain ⟨reason, hrefused, rfl⟩ := hread.refuses hresult
    refine .inr ⟨[], name, value, reason, ⟨List.prefix_rfl, hvalue, hrefused, by simp⟩, ?_⟩
    dsimp only
    rw [hresult]
    rfl
  · refine .inl ⟨?_, (a, [name]), by dsimp only; rw [hresult]; rfl⟩
    intro other hother value' hvalue' reason
    obtain rfl := List.mem_singleton.1 hother
    cases hvalue.symm.trans hvalue'
    exact hread.accepts hresult reason

/-- A configuration is loaded from its variables, in their order. -/
theorem asks_loading (lookup : Lookup) : Asks lookup variableNames (loading lookup) :=
  (checks_readFilter.asks _).bind fun _ => (checks_readLockPath.asks _).bind fun _ =>
    (checks_readFlag.asks _).bind fun _ => .pure _

/-! ## What is loaded -/

/-- What is loaded from variables: each setting is that of its own variable, the default
    one if that is not set, and the source names those that are set. -/
structure Loaded (lookup : Lookup) (config : Config) : Prop where
  logFilter : config.logFilter = (lookup logVariable).getD default.logFilter
  debugLockPath : config.debugLockPath =
    ((lookup debugLockVariable).map Path.ofText).getD default.debugLockPath
  ignoreSigpipe_default : lookup ignoreSigpipeVariable = none →
    config.ignoreSigpipe = default.ignoreSigpipe
  ignoreSigpipe : ∀ value, lookup ignoreSigpipeVariable = some value →
    ∀ flag, Says value flag ↔ config.ignoreSigpipe = flag
  source : config.source = sourceOf (variableNames.filter fun name => (lookup name).isSome)

theorem eq_of_readFilter {value result : String} (h : readFilter value = .ok result) :
    result = value := by
  unfold readFilter at h
  split at h
  · cases h
  · exact (Except.ok.inj h).symm

theorem eq_of_readLockPath {value : String} {result : Bytes} (h : readLockPath value = .ok result) :
    result = Path.ofText value := by
  unfold readLockPath at h
  split at h
  · cases h
  · exact (Except.ok.inj h).symm

/-- The name that a setting keeps is that of its variable, if it is set. -/
theorem names_of_setting {name : String} {byDefault : α} {read : String → Except SetupError α}
    {result : α × List String}
    (h : (setting lookup name byDefault read).run asked = (.ok result, asked')) :
    result.2 = [name].filter fun name => (lookup name).isSome := by
  rcases run_setting h with ⟨hnone, rfl⟩ | ⟨value, hset, -, hnames⟩
  · simp [hnone]
  · simp [hset, hnames]

/-- A setting that keeps the value of its variable, up to a change of form. -/
theorem value_of_setting {name : String} {byDefault : α} {read : String → Except SetupError α}
    {f : String → α} (hread : ∀ {value a}, read value = .ok a → a = f value)
    {result : α × List String}
    (h : (setting lookup name byDefault read).run asked = (.ok result, asked')) :
    result.1 = ((lookup name).map f).getD byDefault := by
  rcases run_setting h with ⟨hnone, rfl⟩ | ⟨value, hset, hvalue, -⟩
  · simp [hnone]
  · simp [hset, hread hvalue]

theorem loaded_of_load {config : Config} (h : (load lookup).1 = .ok config) :
    Loaded lookup config := by
  have hload : (loading lookup).run [] = (.ok config, (load lookup).2) := Prod.ext h rfl
  obtain ⟨⟨filter, s₁⟩, asked₁, hfilter, hload⟩ := run_bind_ok hload
  obtain ⟨⟨path, s₂⟩, asked₂, hpath, hload⟩ := run_bind_ok hload
  obtain ⟨⟨flag, s₃⟩, asked₃, hflag, hload⟩ := run_bind_ok hload
  obtain rfl := Except.ok.inj (congrArg Prod.fst hload)
  have hnames : s₁ ++ s₂ ++ s₃ = variableNames.filter fun name => (lookup name).isSome := by
    rw [show s₁ = _ from names_of_setting hfilter, show s₂ = _ from names_of_setting hpath,
      show s₃ = _ from names_of_setting hflag, ← List.filter_append, ← List.filter_append]
    rfl
  refine
    { logFilter := ?_
      debugLockPath := value_of_setting eq_of_readLockPath hpath
      ignoreSigpipe_default := fun hnone => ?_
      ignoreSigpipe := fun value hset flag' => ?_
      source := by rw [← hnames] }
  · have hvalue : filter = _ := value_of_setting (f := id) eq_of_readFilter hfilter
    rwa [Option.map_id] at hvalue
  · rcases run_setting hflag with ⟨-, heq⟩ | ⟨value, hset, -⟩
    · exact congrArg Prod.fst heq
    · rw [hnone] at hset; cases hset
  · rcases run_setting hflag with ⟨hnone, -⟩ | ⟨value', hset', hread, -⟩
    · rw [hnone] at hset; cases hset
    · cases hset.symm.trans hset'
      exact ⟨(says_of_readFlag hread).unique, fun heq => heq ▸ says_of_readFlag hread⟩

theorem sourceOf_eq_default_iff : sourceOf names = .default ↔ names = [] := by
  cases names <;> simp [sourceOf]

namespace Loaded

variable {config : Config} (h : Loaded lookup config)

include h

theorem source_eq_default_iff :
    config.source = .default ↔ ∀ name ∈ variableNames, lookup name = none := by
  rw [h.source, sourceOf_eq_default_iff, List.filter_eq_nil_iff]
  simp

theorem eq_default (hnone : ∀ name ∈ variableNames, lookup name = none) : config = default := by
  have hfilter := h.logFilter
  have hpath := h.debugLockPath
  rw [hnone logVariable (by simp [variableNames])] at hfilter
  rw [hnone debugLockVariable (by simp [variableNames])] at hpath
  have hflag := h.ignoreSigpipe_default (hnone _ (by simp [variableNames]))
  have hsource := h.source_eq_default_iff.2 hnone
  obtain ⟨_, _, _, _⟩ := config
  cases hfilter; cases hpath; cases hflag; cases hsource
  rfl

/-- Values that repeat the default ones do not make a configuration the default one: it
    says where they came from. -/
theorem isDefault_iff :
    config.isDefault = true ↔ ∀ name ∈ variableNames, lookup name = none := by
  constructor
  · intro hsame
    simp only [isDefault, same, Bool.and_eq_true, beq_iff_eq] at hsame
    exact h.source_eq_default_iff.1 hsame.2
  · intro hnone
    rw [h.eq_default hnone]
    decide

end Loaded

/-- A lookup where every variable repeats its default, the flag with capitals. -/
def repeatingDefaults : Lookup := fun name =>
  [(logVariable, "warn"), (debugLockVariable, "/tmp/unwound.lock"),
    (ignoreSigpipeVariable, "True")].lookup name

/-- A lookup with nothing wrong in the first variable and something in both later ones; the
    last one holds the sign for kelvins. -/
def emptyLockPath : Lookup := fun name =>
  [(logVariable, "debug"), (debugLockVariable, ""), (ignoreSigpipeVariable, "\u212A")].lookup name

end Config

end ScopedResources
