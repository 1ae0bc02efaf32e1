import MessageBroker.Proofs.Config.Layers
import MessageBroker.Proofs.Numeric.Numeral

/-!
# Settings one by one

Four settings are numbers, and one is a text. Loading fails, or every setting is read from the value
that the tree of all layers has at the setting's key (`NumberSetting.exists_of_ofTree`); and it does
not fail if each of them can be read by itself (`Settings.exists_ofTree`).

The environment is a layer that names settings by their keys. A setting is given by the variable
with its key (`givenText?`), and where only the variables of settings count, that is the one with
the setting's own name (`OnlySettings.givenText?_eq`).
-/

namespace MessageBroker.Config

/-- The steps of a computation that succeeds succeed. -/
theorem exists_of_bind {ε α β : Type} {x : Except ε α} {next : α → Except ε β} {b : β}
    (h : (x >>= next) = .ok b) : ∃ a, x = .ok a ∧ next a = .ok b := by
  cases x with
  | error e => cases h
  | ok a => exact ⟨a, rfl, h⟩

/-- A step that succeeds hands on its result. -/
theorem bind_ok {ε α β : Type} (a : α) (next : α → Except ε β) :
    ((.ok a : Except ε α) >>= next) = next a := rfl

/-- The sections of the settings. -/
def sections : List Section := [brokerSection, workerSection, loggingSection]

/-- The keys of the settings lead to their sections and fields. -/
theorem keyed_sections : ∀ s ∈ sections, s.Keyed := by decide

/-! ## Numbers -/

/-- A setting that is a number. -/
inductive NumberSetting where
  | visibilityTimeoutMs
  | maxRetries
  | idempotencyTtlSecs
  | pollIntervalMs
deriving DecidableEq

namespace NumberSetting

instance (P : NumberSetting → Prop) [DecidablePred P] : Decidable (∀ f, P f) :=
  decidable_of_iff
    (P .visibilityTimeoutMs ∧ P .maxRetries ∧ P .idempotencyTtlSecs ∧ P .pollIntervalMs)
    ⟨fun ⟨h, h', h'', h'''⟩ f => by cases f <;> assumption, fun h => ⟨h _, h _, h _, h _⟩⟩

/-- The section of a setting. -/
def home : NumberSetting → Section
  | .visibilityTimeoutMs | .maxRetries | .idempotencyTtlSecs => brokerSection
  | .pollIntervalMs => workerSection

/-- The field of a setting. -/
def field : NumberSetting → String
  | .visibilityTimeoutMs => "visibility_timeout_ms"
  | .maxRetries => "max_retries"
  | .idempotencyTtlSecs => "idempotency_ttl_secs"
  | .pollIntervalMs => "poll_interval_ms"

/-- The place of the field in its section. -/
def place : NumberSetting → Nat
  | .visibilityTimeoutMs => 0
  | .maxRetries => 1
  | .idempotencyTtlSecs => 2
  | .pollIntervalMs => 0

/-- The key of a setting. -/
def key (f : NumberSetting) : String := f.home.key f.field

/-- The greatest number that a setting can be. -/
def greatest : NumberSetting → Nat
  | .maxRetries => greatestCount
  | .visibilityTimeoutMs | .idempotencyTtlSecs | .pollIntervalMs => greatestWord

/-- The number of a setting. -/
def value : NumberSetting → Settings → Nat
  | .visibilityTimeoutMs, s => s.broker.visibilityTimeoutMs
  | .maxRetries, s => s.broker.maxRetries
  | .idempotencyTtlSecs, s => s.broker.idempotencyTtlSecs
  | .pollIntervalMs, s => s.worker.pollIntervalMs

/-- How a setting is read. -/
def read : NumberSetting → String → Value → Except Fault Nat
  | .maxRetries => fun key v => v.count key
  | .visibilityTimeoutMs | .idempotencyTtlSecs | .pollIntervalMs => fun key v => v.word key

theorem home_mem (f : NumberSetting) : f.home ∈ sections := by
  cases f <;> simp [home, sections]

theorem place_eq (f : NumberSetting) : f.home.fields[f.place]? = some f.field := by
  cases f <;> rfl

theorem field_mem (f : NumberSetting) : f.field ∈ f.home.fields :=
  List.mem_of_getElem? f.place_eq

/-- A setting of settings that were loaded was read in its place, or is the usual one. -/
theorem exists_of_ofTree {tree : Value} {s : Settings} (h : Settings.ofTree tree = .ok s)
    (f : NumberSetting) :
    ∃ values found, f.home.values tree = .ok values ∧
      f.home.field values f.place f.read = .ok found ∧
      f.value s = found.getD (f.value .standard) := by
  unfold Settings.ofTree at h
  obtain ⟨broker, hbroker, h⟩ := exists_of_bind h
  obtain ⟨timeout, htimeout, h⟩ := exists_of_bind h
  obtain ⟨retries, hretries, h⟩ := exists_of_bind h
  obtain ⟨ttl, httl, h⟩ := exists_of_bind h
  obtain ⟨worker, hworker, h⟩ := exists_of_bind h
  obtain ⟨poll, hpoll, h⟩ := exists_of_bind h
  obtain ⟨logging, hlogging, h⟩ := exists_of_bind h
  obtain ⟨level, hlevel, h⟩ := exists_of_bind h
  cases h
  cases f with
  | visibilityTimeoutMs => exact ⟨broker, timeout, hbroker, htimeout, rfl⟩
  | maxRetries => exact ⟨broker, retries, hbroker, hretries, rfl⟩
  | idempotencyTtlSecs => exact ⟨broker, ttl, hbroker, httl, rfl⟩
  | pollIntervalMs => exact ⟨worker, poll, hworker, hpoll, rfl⟩

/-- A setting whose section is a table, or missing, is read from the value at its key. -/
theorem optional_of_ofTree {tree : Value} {s : Settings} (h : Settings.ofTree tree = .ok s)
    (f : NumberSetting) (htable : ∀ v, tree.lookup? f.home.name = some v → v.IsTable) :
    ∃ found, ((tree.field? f.home f.field).getD .null).optional f.read f.key = .ok found ∧
      f.value s = found.getD (f.value .standard) := by
  obtain ⟨values, found, hvalues, hfound, hvalue⟩ := f.exists_of_ofTree h
  rw [Section.values_eq htable] at hvalues
  cases hvalues
  rw [Section.field_shown f.place_eq] at hfound
  exact ⟨found, hfound, hvalue⟩

/-- The number of an integer that is read, which is that integer. -/
theorem read_integer (f : NumberSetting) (key : String) (origin : Option String) {i : Int}
    (hleast : 0 ≤ i) (hgreatest : i ≤ f.greatest) :
    f.read key (.scalar origin (.integer i)) = .ok i.toNat := by
  have hword : Value.word key (.scalar origin (.integer i)) = .ok i.toNat := by
    unfold Value.word
    exact if_neg (Int.not_lt.mpr hleast)
  cases f with
  | maxRetries =>
    have hcount : i.toNat ≤ greatestCount := Int.toNat_le.mpr hgreatest
    show Value.count key _ = _
    unfold Value.count
    rw [hword]
    exact if_pos hcount
  | _ => exact hword

/-- What is read as a setting is read as a number of 64 bits, and counts have 32. -/
theorem word_of_read {f : NumberSetting} {key : String} {v : Value} {n : Nat}
    (h : f.read key v = .ok n) : v.word key = .ok n ∧ (f = .maxRetries → n ≤ greatestCount) := by
  cases f with
  | maxRetries =>
    obtain ⟨m, hm, h⟩ := exists_of_bind (show Value.count key v = .ok n from h)
    split at h
    · rename_i hle
      cases h
      exact ⟨hm, fun _ => hle⟩
    · cases h
  | _ => exact ⟨h, fun he => by cases he⟩

end NumberSetting

/-- The settings of a tree whose sections are tables, or missing, and whose fields can be read. -/
theorem Settings.exists_ofTree {tree : Value}
    (htables : ∀ s ∈ sections, ∀ v, tree.lookup? s.name = some v → v.IsTable)
    {number : NumberSetting → Option Nat}
    (hnumber : ∀ f : NumberSetting,
      ((tree.field? f.home f.field).getD .null).optional f.read f.key = .ok (number f))
    {level : Option String}
    (hlevel : ((tree.field? loggingSection "level").getD .null).optional
      (fun key v => v.text key) (loggingSection.key "level") = .ok level) :
    ∃ s, ofTree tree = .ok s ∧
      (∀ f : NumberSetting, f.value s = (number f).getD (f.value standard)) ∧
      s.logging.level = level.getD standard.logging.level := by
  have hvalues : ∀ s ∈ sections, s.values tree = .ok (s.shown tree) :=
    fun s hs => Section.values_eq (htables s hs)
  have hread : ∀ f : NumberSetting,
      f.home.field (f.home.shown tree) f.place f.read = .ok (number f) := fun f => by
    rw [Section.field_shown f.place_eq]
    exact hnumber f
  have htimeout : brokerSection.field (brokerSection.shown tree) 0 (fun key v => v.word key) =
      .ok (number .visibilityTimeoutMs) := hread .visibilityTimeoutMs
  have hretries : brokerSection.field (brokerSection.shown tree) 1 (fun key v => v.count key) =
      .ok (number .maxRetries) := hread .maxRetries
  have httl : brokerSection.field (brokerSection.shown tree) 2 (fun key v => v.word key) =
      .ok (number .idempotencyTtlSecs) := hread .idempotencyTtlSecs
  have hpoll : workerSection.field (workerSection.shown tree) 0 (fun key v => v.word key) =
      .ok (number .pollIntervalMs) := hread .pollIntervalMs
  have hlast : loggingSection.field (loggingSection.shown tree) 0 (fun key v => v.text key) =
      .ok level := by
    rw [Section.field_shown (s := loggingSection) rfl]
    exact hlevel
  have hloaded : ofTree tree = .ok {
      broker := {
        visibilityTimeoutMs :=
          (number .visibilityTimeoutMs).getD standard.broker.visibilityTimeoutMs
        maxRetries := (number .maxRetries).getD standard.broker.maxRetries
        idempotencyTtlSecs :=
          (number .idempotencyTtlSecs).getD standard.broker.idempotencyTtlSecs }
      worker := { pollIntervalMs := (number .pollIntervalMs).getD standard.worker.pollIntervalMs }
      logging := { level := level.getD standard.logging.level } } := by
    unfold ofTree
    rw [hvalues brokerSection (by simp [sections]), bind_ok, htimeout, bind_ok, hretries, bind_ok,
      httl, bind_ok, hvalues workerSection (by simp [sections]), bind_ok, hpoll, bind_ok,
      hvalues loggingSection (by simp [sections]), bind_ok, hlast, bind_ok]
    rfl
  refine ⟨_, hloaded, fun f => ?_, rfl⟩
  cases f <;> rfl

end MessageBroker.Config
