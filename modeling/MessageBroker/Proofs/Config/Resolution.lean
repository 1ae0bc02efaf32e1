import MessageBroker.Proofs.Config.Contents
import MessageBroker.Proofs.Config.Variables

/-!
# Resolution of settings

A file and an environment give some of the settings each (`Contents`). Loading takes every setting
by itself: from the environment if that gives it, else from the file if that gives it, else the
usual one.
-/

namespace MessageBroker.Config

/-- A text that neither a truth value nor a number writes. -/
structure IsPlain (text : String) : Prop where
  isNotTrue : text.toLower ≠ "true"
  isNotFalse : text.toLower ≠ "false"
  isNoInteger : Numeral.integer? text.toList = none
  isNoReal : Numeral.real? text.toList = none

instance (text : String) : Decidable (IsPlain text) :=
  decidable_of_iff (_ ∧ _ ∧ _ ∧ _)
    ⟨fun ⟨h, h', h'', h'''⟩ => ⟨h, h', h'', h'''⟩, fun ⟨h, h', h'', h'''⟩ => ⟨h, h', h'', h'''⟩⟩

/-- A plain text is taken as it is. -/
theorem IsPlain.variableValue_eq {text : String} (h : IsPlain text) :
    variableValue text = .scalar (some environmentOrigin) (.text text) := by
  unfold variableValue environmentScalar
  dsimp only
  rw [if_neg h.isNotTrue, if_neg h.isNotFalse, h.isNoInteger, h.isNoReal]

namespace Contents

/-- The environment gives these settings, numbers by texts that write integers and the level by a
plain text, and no other variables count. -/
structure OfEnvironment (c : Contents) (environment : List (String × String)) : Prop where
  only : OnlySettings environment
  number : ∀ f : NumberSetting,
    (variableText? environment (f.home.variable f.field)).map (fun text =>
      Numeral.written? text.toList) = (c.number f).map fun n : Nat => some (n : Int)
  level : variableText? environment (loggingSection.variable "level") = c.level
  plain : ∀ text ∈ c.level, IsPlain text

instance (c : Contents) (environment : List (String × String)) :
    Decidable (c.OfEnvironment environment) :=
  decidable_of_iff (_ ∧ _ ∧ _ ∧ _)
    ⟨fun ⟨h, h', h'', h'''⟩ => ⟨h, h', h'', h'''⟩, fun ⟨h, h', h'', h'''⟩ => ⟨h, h', h'', h'''⟩⟩

/-- Settings of one layer over those of another. -/
def above (upper lower : Contents) : Contents :=
  ⟨fun f => (upper.number f).or (lower.number f), upper.level.or lower.level⟩

variable {c : Contents} {environment : List (String × String)}

/-- The values that the environment gives to numbers. -/
theorem OfEnvironment.rel_number (h : c.OfEnvironment environment) (hrange : c.InRange)
    (f : NumberSetting) :
    Option.Rel Value.IsNumber ((givenText? environment f.key).map variableValue)
      (c.number f) := by
  have hgiven := h.number f
  rw [NumberSetting.key, h.only.givenText?_eq f.home_mem f.field_mem]
  cases htext : variableText? environment (f.home.variable f.field) with
  | none =>
    rw [htext] at hgiven
    rw [Option.map_eq_none_iff.mp hgiven.symm]
    exact .none
  | some text =>
    rw [htext] at hgiven
    obtain ⟨n, hn, hwritten⟩ := Option.map_eq_some_iff.mp hgiven.symm
    have hsigned : Numeral.IsSigned n := by
      have hbound := (hrange f n hn).2
      unfold Numeral.IsSigned
      omega
    rw [hn]
    exact .some (.inl ⟨_, variableValue_integer hwritten.symm hsigned⟩)

/-- The value that the environment gives to the level. -/
theorem OfEnvironment.rel_level (h : c.OfEnvironment environment) :
    Option.Rel Value.IsText
      ((givenText? environment (loggingSection.key "level")).map variableValue) c.level := by
  rw [h.only.givenText?_eq (by simp [sections]) (by simp [loggingSection]), h.level]
  cases hlevel : c.level with
  | none => exact .none
  | some text => exact .some ⟨_, (h.plain text hlevel).variableValue_eq⟩

/-- Settings of two layers that are in range are so together. -/
theorem InRange.above {lower : Contents} (h : c.InRange) (hlower : lower.InRange) :
    (c.above lower).InRange := by
  intro f n hn
  rcases Option.or_eq_some_iff.mp hn with hn | ⟨-, hn⟩
  · exact h f n hn
  · exact hlower f n hn

/-- Values of an upper layer over values of a lower one. -/
theorem rel_or {α : Type} {r : Value → α → Prop} {v v' : Option Value} {a a' : Option α}
    (h : Option.Rel r v a) (h' : Option.Rel r v' a') : Option.Rel r (v.or v') (a.or a') := by
  cases h with
  | none => exact h'
  | some h => exact .some h

/-- The negative zero is read as zero. -/
theorem read_negate_zero (f : NumberSetting) (key : String) (origin : Option String) :
    f.read key (.scalar origin (.real Binary64.zero.negate)) = .ok 0 := by
  have hword : Value.word key (.scalar origin (.real Binary64.zero.negate)) = .ok 0 :=
    congrArg Except.ok wordOfReal_negate_zero
  cases f with
  | maxRetries =>
    show Value.count key _ = _
    unfold Value.count
    rw [hword]
    rfl
  | _ => exact hword

/-- A number in range is read as it is; nothing is read where it is missing. -/
theorem optional_number {f : NumberSetting} {v : Option Value} {n : Option Nat}
    (h : Option.Rel Value.IsNumber v n) (hrange : ∀ m ∈ n, m ≤ f.greatest) :
    (v.getD .null).optional f.read f.key = .ok n := by
  cases h with
  | none => rfl
  | @some v n h =>
    rcases h with ⟨origin, rfl⟩ | ⟨⟨origin, rfl⟩, rfl⟩
    · have hread := f.read_integer f.key origin (Int.natCast_nonneg n)
        (Int.ofNat_le.mpr (hrange n rfl))
      show (f.read f.key (.scalar origin (.integer n))).map some = _
      rw [hread]
      rfl
    · show (f.read f.key (.scalar origin (.real Binary64.zero.negate))).map some = _
      rw [read_negate_zero]
      rfl

/-- A level is read as it is. -/
theorem optional_level {key : String} {v : Option Value} {level : Option String}
    (h : Option.Rel Value.IsText v level) :
    (v.getD .null).optional (fun key v => v.text key) key = .ok level := by
  cases h with
  | none => rfl
  | some h =>
    obtain ⟨origin, rfl⟩ := h
    rfl

end Contents

/-- The settings of a file and an environment are loaded one by one: each is the one that the
environment gives, else the one that the file gives, else the usual one. The broker, its workers
and the marks of processed messages get these numbers in their units. -/
theorem Settings.load_resolved {files : List File} {name : String}
    {environment : List (String × String)} {upper lower : Contents}
    (hlower : lower.OfFile files name) (hupper : upper.OfEnvironment environment)
    (hlowerRange : lower.InRange) (hupperRange : upper.InRange) :
    ∃ s, load files name environment = .ok s ∧
      (∀ f : NumberSetting,
        f.value s = ((upper.number f).or (lower.number f)).getD (f.value standard)) ∧
      s.logging.level = (upper.level.or lower.level).getD standard.logging.level ∧
      s.queueDefaults.visibilityTimeout.nanos = s.broker.visibilityTimeoutMs * 1000000 ∧
      s.queueDefaults.maxRetries = s.broker.maxRetries ∧
      s.pollInterval.nanos = s.worker.pollIntervalMs * 1000000 ∧
      s.retention.nanos = s.broker.idempotencyTtlSecs * 1000000000 := by
  obtain ⟨layer, hfile, hlower⟩ := hlower.exists_layer hlowerRange
  have hundisputed : ∀ s ∈ sections, ∀ field ∈ s.fields, Undisputed s field environment :=
    fun s hs field hfield => hupper.only.undisputed hs hfield
  have htables : ∀ s ∈ sections, ∀ v,
      ((environmentLayer environment).over layer.tree).lookup? s.name = some v → v.IsTable := by
    intro s hs v hv
    obtain ⟨field, hfield⟩ : ∃ field, field ∈ s.fields :=
      (show ∀ s ∈ sections, ∃ field, field ∈ s.fields by
        simp [sections, brokerSection, workerSection, loggingSection]) s hs
    exact (hundisputed s hs field hfield).names.lookup?_over (keyed_sections s hs) hfield
      (hlower.tables s hs) hv
  -- Field by field, the layered tree has what the upper layer gives, or else the lower one.
  have hnumber : ∀ f : NumberSetting,
      ((((environmentLayer environment).over layer.tree).field? f.home f.field).getD
        .null).optional f.read f.key = .ok ((upper.number f).or (lower.number f)) := by
    intro f
    rw [(hundisputed _ f.home_mem _ f.field_mem).field?_over f.home_mem f.field_mem]
    exact Contents.optional_number
      (Contents.rel_or (hupper.rel_number hupperRange f) (hlower.number f))
      fun n hn => (hupperRange.above hlowerRange f n hn).1
  have hlogging : loggingSection ∈ sections := by simp [sections]
  have hlevelField : "level" ∈ loggingSection.fields := by simp [loggingSection]
  have hlevel : ((((environmentLayer environment).over layer.tree).field? loggingSection
      "level").getD .null).optional (fun key v => v.text key) (loggingSection.key "level") =
        .ok (upper.level.or lower.level) := by
    rw [(hundisputed _ hlogging _ hlevelField).field?_over hlogging hlevelField]
    exact Contents.optional_level (Contents.rel_or hupper.rel_level hlower.level)
  obtain ⟨s, hs, hvalues, hshown⟩ := exists_ofTree htables hnumber hlevel
  refine ⟨s, ?_, hvalues, hshown, rfl, rfl, rfl, rfl⟩
  unfold load
  rw [hfile]
  exact hs

/-- A computation that succeeds with a certain result, as one can check. -/
instance decidableExistsOk {ε α : Type} (x : Except ε α) (P : α → Prop) [DecidablePred P] :
    Decidable (∃ a, x = .ok a ∧ P a) :=
  match x with
  | .ok a => decidable_of_iff (P a) ⟨fun h => ⟨a, rfl, h⟩, fun ⟨_, ha, h⟩ => by cases ha; exact h⟩
  | .error _ => isFalse fun ⟨_, h, _⟩ => by cases h

/-- A file of TOML gives two settings, of which the environment gives one again; a file of JSON
gives one setting. -/
theorem Settings.load_resolved_retries :
    load [⟨"config/default.toml", "[broker]\nvisibility_timeout_ms = 250\nmax_retries = 5\n"⟩]
        "config/default"
        [("FANOUT__BROKER__MAX_RETRIES", "9"), ("FANOUT__LOGGING__LEVEL", "debug")] =
      .ok ⟨⟨250, 9, 3600⟩, ⟨100⟩, ⟨"debug"⟩⟩ ∧
    load [⟨"config/default.json", "\x7b\"broker\":\x7b\"max_retries\":7\x7d\x7d"⟩]
        "config/default" [] =
      .ok ⟨⟨30000, 7, 3600⟩, ⟨100⟩, ⟨"info"⟩⟩ := by
  constructor
  · have hwrites : File.WritesSections
        ⟨"config/default.toml", "[broker]\nvisibility_timeout_ms = 250\nmax_retries = 5\n"⟩ .toml
        (Toml.document (Toml.sectionRows "broker".toList
          [("visibility_timeout_ms".toList, "250".toList), ("max_retries".toList, "5".toList)])) :=
      ⟨_, .inl (by decide +kernel), .toml
        (Toml.isDocument_section (by decide +kernel) (by decide +kernel))
        (Toml.isSectional_section _ (by decide +kernel))⟩
    have hlower : Contents.OfFile
        ⟨fun | .visibilityTimeoutMs => some 250 | .maxRetries => some 5 | _ => none, none⟩
        [⟨"config/default.toml", "[broker]\nvisibility_timeout_ms = 250\nmax_retries = 5\n"⟩]
        "config/default" := .text (by decide +kernel) hwrites (by decide +kernel)
    have hupper : Contents.OfEnvironment ⟨fun | .maxRetries => some 9 | _ => none, some "debug"⟩
        [("FANOUT__BROKER__MAX_RETRIES", "9"), ("FANOUT__LOGGING__LEVEL", "debug")] := by
      decide +kernel
    obtain ⟨⟨⟨timeout, retries, ttl⟩, ⟨poll⟩, ⟨level⟩⟩, hloaded, hvalues, hlevel, -⟩ :=
      load_resolved hlower hupper (by decide) (by decide)
    obtain rfl : timeout = 250 := hvalues .visibilityTimeoutMs
    obtain rfl : retries = 9 := hvalues .maxRetries
    obtain rfl : ttl = 3600 := hvalues .idempotencyTtlSecs
    obtain rfl : poll = 100 := hvalues .pollIntervalMs
    obtain rfl : level = "debug" := hlevel
    exact hloaded
  · have hwrites : File.WritesSections
        ⟨"config/default.json", "\x7b\"broker\":\x7b\"max_retries\":7\x7d\x7d"⟩ .json
        (Json.document (Json.sectionEntries "broker" [("max_retries", "7".toList)])) :=
      ⟨_, .inl (by decide +kernel), .json (Json.isDocument_section (by decide)
        (by decide +kernel) (by decide +kernel))⟩
    have hlower : Contents.OfFile ⟨fun | .maxRetries => some 7 | _ => none, none⟩
        [⟨"config/default.json", "\x7b\"broker\":\x7b\"max_retries\":7\x7d\x7d"⟩]
        "config/default" := .text (by decide +kernel) hwrites (by decide +kernel)
    obtain ⟨⟨⟨timeout, retries, ttl⟩, ⟨poll⟩, ⟨level⟩⟩, hloaded, hvalues, hlevel, -⟩ :=
      load_resolved hlower (show Contents.nothing.OfEnvironment [] by decide +kernel)
        (by decide) (by decide)
    obtain rfl : timeout = 30000 := hvalues .visibilityTimeoutMs
    obtain rfl : retries = 7 := hvalues .maxRetries
    obtain rfl : ttl = 3600 := hvalues .idempotencyTtlSecs
    obtain rfl : poll = 100 := hvalues .pollIntervalMs
    obtain rfl : level = "info" := hlevel
    exact hloaded

end MessageBroker.Config
