import Mathlib.Data.List.Find
import MessageBroker.Proofs.Config.Fields

/-!
# Variables of settings

The environment is a layer over the file. A field is given by the last variable with its key
(`givenText?`), and by the file if there is none, unless some variable stands for all of the section
or for a part of the field (`Undisputed`). Sections that are not tables are the file's where no
variable is about them at all (`Silent`).

Each setting has a variable of its own (`Section.variable`). Where no others count
(`OnlySettings`), nothing is disputed, and the text for a setting is that of its variable
(`OnlySettings.givenText?_eq`).

A text that writes an integer gives this integer if 64 bits hold it, and a real otherwise.
-/

namespace MessageBroker.Config

/-! ## Texts -/

/-- The text that the environment gives to a key; of several variables with it, the last counts. -/
def givenText? (environment : List (String × String)) (key : String) : Option String :=
  (environment.reverse.find? fun e => environmentKey? e.1 = some key).map Prod.snd

/-- The value of a variable with a text. -/
def variableValue (text : String) : Value :=
  .scalar (some environmentOrigin) (environmentScalar text)

/-- The last entry under a key in the layer of the environment. -/
theorem find?_environmentLayer (environment : List (String × String)) (key : String) :
    Entries.find? key (environmentLayer environment).reverse =
      (givenText? environment key).map variableValue := by
  unfold environmentLayer givenText?
  rw [← List.filterMap_reverse]
  -- By induction from the last variable on, along which both look for the key.
  induction environment.reverse with
  | nil => rfl
  | cons e rest ih =>
    obtain ⟨name, text⟩ := e
    rw [List.filterMap_cons, List.find?_cons]
    dsimp only
    cases hkey : environmentKey? name with
    | none => exact ih
    | some found =>
      show Entries.find? key ((found, variableValue text) :: _) = _
      by_cases hfound : found = key
      · rw [Entries.find?, if_pos hfound, decide_eq_true (congrArg some hfound)]
        rfl
      · have hne : ¬ some found = some key := fun he => hfound (Option.some.inj he)
        rw [Entries.find?, if_neg hfound, decide_eq_false hne]
        exact ih

/-- No variable stands for something around a field of the section, or for something in it. -/
def Undisputed (s : Section) (field : String) (environment : List (String × String)) : Prop :=
  ∀ e ∈ environment, ∀ key ∈ environmentKey? e.1,
    key = s.key field ∨ s.Spares field (Path.ofKey key)

instance (s : Section) (field : String) (environment : List (String × String)) :
    Decidable (Undisputed s field environment) :=
  inferInstanceAs (Decidable (∀ _ ∈ _, ∀ _ ∈ _, _))

/-- The environment speaks of an undisputed field as a whole. -/
theorem Undisputed.names {s : Section} {field : String} {environment : List (String × String)}
    (h : Undisputed s field environment) : s.Names field (environmentLayer environment) := by
  intro e he
  obtain ⟨⟨name, text⟩, hvariable, he⟩ := List.mem_filterMap.mp he
  obtain ⟨key, hkey, rfl⟩ := Option.map_eq_some_iff.mp he
  exact (h _ hvariable key hkey).imp_left fun hfield => ⟨hfield, _, _, rfl⟩

/-- A field that is undisputed is the environment's, else that of the tree below. -/
theorem Undisputed.field?_over {s : Section} {field : String}
    {environment : List (String × String)} (h : Undisputed s field environment)
    (hs : s ∈ sections) (hfield : field ∈ s.fields) (tree : Value) :
    ((environmentLayer environment).over tree).field? s field =
      ((givenText? environment (s.key field)).map variableValue).or (tree.field? s field) := by
  rw [h.names.field?_over (keyed_sections s hs) hfield, find?_environmentLayer]

/-- No variable stands for the section, or for anything in it. -/
def Silent (s : Section) (environment : List (String × String)) : Prop :=
  ∀ e ∈ environment, ∀ key ∈ environmentKey? e.1, (Path.ofKey key).head? ≠ some (.entry s.name)

/-- The environment leaves a section to the tree below if no variable stands for it. -/
theorem Silent.lookup?_over {s : Section} {environment : List (String × String)}
    (h : Silent s environment) (tree : Value) :
    ((environmentLayer environment).over tree).lookup? s.name = tree.lookup? s.name := by
  refine Section.lookup?_over_of_silent (fun e he => ?_) tree
  obtain ⟨⟨name, text⟩, hvariable, he⟩ := List.mem_filterMap.mp he
  obtain ⟨key, hkey, rfl⟩ := Option.map_eq_some_iff.mp he
  exact h _ hvariable key hkey

/-! ## Names -/

/-- The name of the variable of a field. -/
def Section.variable (s : Section) (field : String) : String :=
  "FANOUT__" ++ s.name.toUpper ++ "__" ++ field.toUpper

/-- The variables of the settings. -/
def settingVariables : List String := sections.flatMap fun s => s.fields.map s.variable

/-- The variables that count are those of settings. -/
def OnlySettings (environment : List (String × String)) : Prop :=
  ∀ e ∈ environment, (environmentKey? e.1).isSome → e.1 ∈ settingVariables

instance (environment : List (String × String)) : Decidable (OnlySettings environment) :=
  inferInstanceAs (Decidable (∀ _ ∈ _, _))

/-- The text of the variable with a name; of several, the last counts. -/
def variableText? (environment : List (String × String)) (name : String) : Option String :=
  (environment.reverse.find? fun e => e.1 = name).map Prod.snd

/-- The variable of a field has its key. -/
theorem environmentKey?_variable : ∀ s ∈ sections, ∀ field ∈ s.fields,
    environmentKey? (s.variable field) = some (s.key field) := by
  decide +kernel

/-- Fields with one key have one variable. -/
theorem variable_eq_of_key_eq : ∀ s ∈ sections, ∀ field ∈ s.fields, ∀ s' ∈ sections,
    ∀ field' ∈ s'.fields, s.key field = s'.key field' → s.variable field = s'.variable field' := by
  decide +kernel

/-- The variable of a field leaves all other fields alone. -/
theorem spares_of_key_ne : ∀ s ∈ sections, ∀ field ∈ s.fields, ∀ s' ∈ sections,
    ∀ field' ∈ s'.fields, s.key field = s'.key field' ∨
      s'.Spares field' (Path.ofKey (s.key field)) := by
  decide +kernel

/-- A variable of a setting, with its section and field. -/
theorem exists_of_mem_settingVariables {name : String} (h : name ∈ settingVariables) :
    ∃ s ∈ sections, ∃ field ∈ s.fields, s.variable field = name := by
  obtain ⟨s, hs, hname⟩ := List.mem_flatMap.mp h
  obtain ⟨field, hfield, hname⟩ := List.mem_map.mp hname
  exact ⟨s, hs, field, hfield, hname⟩

namespace OnlySettings

variable {environment : List (String × String)} {s : Section} {field : String}

/-- Variables of settings dispute no setting. -/
theorem undisputed (h : OnlySettings environment) (hs : s ∈ sections) (hfield : field ∈ s.fields) :
    Undisputed s field environment := by
  intro e he key hkey
  obtain ⟨s', hs', field', hfield', hname⟩ :=
    exists_of_mem_settingVariables (h e he (Option.isSome_of_mem hkey))
  have hown := environmentKey?_variable s' hs' field' hfield'
  rw [hname, Option.mem_def.mp hkey] at hown
  cases hown
  exact spares_of_key_ne s' hs' field' hfield' s hs field hfield

/-- The text for a setting is that of its variable. -/
theorem givenText?_eq (h : OnlySettings environment) (hs : s ∈ sections)
    (hfield : field ∈ s.fields) :
    givenText? environment (s.key field) = variableText? environment (s.variable field) := by
  have hown : ∀ e ∈ environment.reverse,
      environmentKey? e.1 = some (s.key field) ↔ e.1 = s.variable field := by
    intro e he
    refine ⟨fun hkey => ?_, fun hname => ?_⟩
    · obtain ⟨s', hs', field', hfield', hname⟩ := exists_of_mem_settingVariables
        (h e (List.mem_reverse.mp he) (Option.isSome_of_mem hkey))
      have hother := environmentKey?_variable s' hs' field' hfield'
      rw [hname, hkey] at hother
      rw [← hname]
      exact variable_eq_of_key_eq s' hs' field' hfield' s hs field hfield
        (Option.some.inj hother).symm
    · rw [hname]
      exact environmentKey?_variable s hs field hfield
  unfold givenText? variableText?
  rw [List.find?_congr fun e he => decide_eq_decide.mpr (hown e he)]

end OnlySettings

/-! ## Values -/

section

variable {text : String} {i : Int}

/-- An integer that 64 bits hold is the value of the texts that write it. -/
theorem variableValue_integer (h : Numeral.written? text.toList = some i)
    (hsigned : Numeral.IsSigned i) :
    variableValue text = .scalar (some environmentOrigin) (.integer i) := by
  have hread : Numeral.integer? text.toList = some i := by
    rw [Numeral.integer?_eq, h, Option.filter_some, if_pos (decide_eq_true hsigned)]
  unfold variableValue environmentScalar
  dsimp only
  rw [if_neg (Numeral.toLower_ne_of_written h rfl), if_neg (Numeral.toLower_ne_of_written h rfl),
    hread]

/-- An integer that 64 bits do not hold becomes the real nearest to it. -/
theorem variableValue_real (h : Numeral.written? text.toList = some i)
    (hsigned : ¬ Numeral.IsSigned i) :
    variableValue text = .scalar (some environmentOrigin) (.real (Numeral.nearest i)) := by
  have hread : Numeral.integer? text.toList = none := by
    rw [Numeral.integer?_eq, h, Option.filter_some, if_neg (by rwa [decide_eq_true_iff])]
  have hzero : i ≠ 0 := by
    rintro rfl
    exact hsigned (by decide)
  unfold variableValue environmentScalar
  dsimp only
  rw [if_neg (Numeral.toLower_ne_of_written h rfl), if_neg (Numeral.toLower_ne_of_written h rfl),
    hread, Numeral.real?_eq_nearest h hzero]

end

end MessageBroker.Config
