import MessageBroker.Proofs.Config.File

/-!
# Settings that a file gives

A file gives some of the settings (`Contents`). It may be missing, or its text may say so
(`Contents.OfDocument`), in one of the ways in which TOML and JSON write sections; or, whatever its
text is like, the tree that is read from it has these settings and no others (`Contents.OfTree`).
In each case the file is read, and its tree has these settings (`Contents.OfFile.exists_layer`).
-/

namespace MessageBroker.Config

/-! ## Values -/

/-- A value without parts, from wherever it comes. -/
def Value.Is (v : Value) (x : Scalar) : Prop := ∃ origin, v = .scalar origin x

instance (v : Value) (x : Scalar) : Decidable (v.Is x) :=
  match v with
  | .scalar origin y =>
    decidable_of_iff (y = x) ⟨fun h => ⟨origin, h ▸ rfl⟩, fun ⟨_, h⟩ => by cases h; rfl⟩
  | .list _ _ | .table _ _ => isFalse fun ⟨_, h⟩ => by cases h

/-- A number: the integer, or for zero also the negative zero, as JSON reads `-0`. -/
def Value.IsNumber (v : Value) (n : Nat) : Prop :=
  v.Is (.integer n) ∨ v.Is (.real Binary64.zero.negate) ∧ n = 0

instance (v : Value) (n : Nat) : Decidable (v.IsNumber n) := inferInstanceAs (Decidable (_ ∨ _))

/-- A text. -/
def Value.IsText (v : Value) (text : String) : Prop := v.Is (.text text)

instance (v : Value) (text : String) : Decidable (v.IsText text) :=
  inferInstanceAs (Decidable (v.Is _))

instance decidableRel {α β : Type} {r : α → β → Prop} [∀ a b, Decidable (r a b)] (a : Option α)
    (b : Option β) : Decidable (Option.Rel r a b) :=
  match a, b with
  | none, none => isTrue .none
  | some a, some b => decidable_of_iff (r a b) ⟨.some, fun | .some h => h⟩
  | some _, none | none, some _ => isFalse nofun

/-- The negative zero is rounded to zero. -/
theorem wordOfReal_negate_zero : wordOfReal Binary64.zero.negate = 0 := by decide +kernel

/-! ## Contents -/

/-- The path of a setting in a document. -/
def NumberSetting.path (f : NumberSetting) : List String := [f.home.name, f.field]

/-- The path of the level in a document. -/
def levelPath : List String := [loggingSection.name, "level"]

/-- Settings have different paths. -/
theorem NumberSetting.path_injective : ∀ f f' : NumberSetting, f.path = f'.path → f = f' := by
  decide

/-- The level has a path of its own. -/
theorem NumberSetting.path_ne : ∀ f : NumberSetting, f.path ≠ levelPath := by decide

/-- The settings that a layer gives. -/
structure Contents where
  number : NumberSetting → Option Nat
  level : Option String

namespace Contents

/-- No settings. -/
def nothing : Contents := ⟨fun _ => none, none⟩

/-- The numbers are in range of their settings, and 64 bits hold them with a sign. -/
def InRange (c : Contents) : Prop :=
  ∀ f, ∀ n ∈ c.number f, n ≤ f.greatest ∧ n ≤ 9223372036854775807

instance (c : Contents) : Decidable c.InRange := inferInstanceAs (Decidable (∀ _, _))

/-- The tree of a file gives these settings: its sections are tables, or missing, and so are the
fields that are not given. -/
structure OfTree (c : Contents) (tree : Value) : Prop where
  tables : ∀ s ∈ sections, ∀ v ∈ tree.lookup? s.name, v.IsTable
  number : ∀ f : NumberSetting,
    Option.Rel Value.IsNumber (tree.field? f.home f.field) (c.number f)
  level : Option.Rel Value.IsText (tree.field? loggingSection "level") c.level

instance (c : Contents) (tree : Value) : Decidable (c.OfTree tree) :=
  decidable_of_iff (_ ∧ _ ∧ _) ⟨fun ⟨h, h', h''⟩ => ⟨h, h', h''⟩, fun ⟨h, h', h''⟩ => ⟨h, h', h''⟩⟩

/-- A document gives these settings and nothing else: its tables are sections, and what it gives to
a path is a setting there, a number as a word and the level as a text. -/
structure OfDocument (c : Contents) (format : Format) (doc : Document) : Prop where
  tables : ∀ path ∈ doc.tables, path = [] ∨ ∃ s ∈ sections, path = [s.name]
  given : ∀ e ∈ doc.given,
    (∃ f : NumberSetting, e.1 = f.path ∧ ∃ n ∈ c.number f, e.2.number? format = some (n : Int)) ∨
      e.1 = levelPath ∧ ∃ text ∈ c.level, e.2.text? = some text
  number : ∀ f : NumberSetting, (c.number f).isSome → f.path ∈ doc.given.map Prod.fst
  level : c.level.isSome → levelPath ∈ doc.given.map Prod.fst

instance (P : NumberSetting → Prop) [DecidablePred P] : Decidable (∃ f, P f) :=
  decidable_of_iff
    (P .visibilityTimeoutMs ∨ P .maxRetries ∨ P .idempotencyTtlSecs ∨ P .pollIntervalMs)
    ⟨by rintro (h | h | h | h) <;> exact ⟨_, h⟩, by rintro ⟨f, h⟩; cases f <;> tauto⟩

instance (c : Contents) (format : Format) (doc : Document) : Decidable (c.OfDocument format doc) :=
  decidable_of_iff (_ ∧ _ ∧ _ ∧ _)
    ⟨fun ⟨h, h', h'', h'''⟩ => ⟨h, h', h'', h'''⟩, fun ⟨h, h', h'', h'''⟩ => ⟨h, h', h'', h'''⟩⟩

/-- A file gives these settings: it is missing, and so are they; or its text writes a document that
gives them; or else the tree that is read from it does. -/
inductive OfFile (c : Contents) (files : List File) (name : String) : Prop
  | missing (hmissing : chooseFile files name = none) (hnothing : c = nothing)
  | text {file : File} {format : Format} {doc : Document}
      (hchosen : chooseFile files name = some (file, format))
      (hwrites : file.WritesSections format doc) (hdoc : c.OfDocument format doc)
  | tree {layer : Layer} (hlayer : Settings.fileLayer files name = .ok layer)
      (htree : c.OfTree layer.tree)

namespace OfDocument

variable {c : Contents} {format : Format} {doc : Document}

/-- A path in such a document is at the top, a section or a setting. -/
theorem cases_of_mem_paths (h : c.OfDocument format doc) {path : List String}
    (hpath : path ∈ doc.paths) :
    path = [] ∨ (∃ s ∈ sections, path = [s.name]) ∨ (∃ f : NumberSetting, path = f.path) ∨
      path = levelPath := by
  rcases List.mem_append.mp hpath with hpath | hpath
  · exact (h.tables path hpath).imp_right .inl
  · obtain ⟨e, he, rfl⟩ := List.mem_map.mp hpath
    rcases h.given e he with ⟨f, hf, -⟩ | ⟨hlevel, -⟩
    · exact .inr (.inr (.inl ⟨f, hf⟩))
    · exact .inr (.inr (.inr hlevel))

/-- No name at the top of such a document leads into another section. -/
theorem avoids (h : c.OfDocument format doc) {s : Section} (hs : s ∈ sections) :
    doc.Avoids s := by
  have hsections : ∀ s ∈ sections, ∀ s' ∈ sections,
      s'.name = s.name ∨ (Path.ofKey s'.name).head? ≠ some (.entry s.name) := by decide
  intro path hpath name hname
  rcases h.cases_of_mem_paths hpath with rfl | ⟨s', hs', rfl⟩ | ⟨f, rfl⟩ | rfl
  · cases hname
  · obtain rfl : s'.name = name := Option.some.inj hname
    exact hsections s hs s' hs'
  · obtain rfl : f.home.name = name := Option.some.inj hname
    exact hsections s hs f.home f.home_mem
  · obtain rfl : loggingSection.name = name := Option.some.inj hname
    exact hsections s hs loggingSection (by simp [sections])

/-- What is given to the path of a number writes the number. -/
theorem number_of_mem (h : c.OfDocument format doc) {f : NumberSetting} {l : Literal}
    (hmem : (f.path, l) ∈ doc.given) : ∃ n ∈ c.number f, l.number? format = some (n : Int) := by
  rcases h.given _ hmem with ⟨f', hf, hn⟩ | ⟨hlevel, -⟩
  · obtain rfl : f = f' := NumberSetting.path_injective f f' hf
    exact hn
  · exact absurd hlevel f.path_ne

/-- What is given to the path of the level is the level. -/
theorem level_of_mem (h : c.OfDocument format doc) {l : Literal}
    (hmem : (levelPath, l) ∈ doc.given) : ∃ text ∈ c.level, l.text? = some text := by
  rcases h.given _ hmem with ⟨f, hf, -⟩ | ⟨-, htext⟩
  · exact absurd hf.symm f.path_ne
  · exact htext

/-- Numbers in range are the values of their literals. -/
theorem exists_number (h : c.OfDocument format doc) (hrange : c.InRange) {f : NumberSetting}
    {l : Literal} (hmem : (f.path, l) ∈ doc.given) (origin : Option String) :
    ∃ v, l.value? format origin = some v ∧ ∃ n ∈ c.number f, v.IsNumber n := by
  obtain ⟨n, hn, hnumber⟩ := h.number_of_mem hmem
  have hsigned : Numeral.IsSigned n := by
    have hbound := (hrange f n hn).2
    unfold Numeral.IsSigned
    omega
  unfold Literal.number? at hnumber
  split at hnumber
  · -- A zero of JSON may be a negative one.
    obtain ⟨x, hx, hcases⟩ := wordScalar?_of_written hnumber hsigned
    refine ⟨.scalar origin x, congrArg (Option.map _) hx, n, hn, ?_⟩
    rcases hcases with rfl | ⟨rfl, hzero⟩
    · exact .inl ⟨origin, rfl⟩
    · exact .inr ⟨⟨origin, rfl⟩, Int.ofNat_eq_zero.mp hzero⟩
  · cases hnumber
  · cases hnumber

/-- The level is the value of its literal. -/
theorem exists_level (h : c.OfDocument format doc) {l : Literal}
    (hmem : (levelPath, l) ∈ doc.given) (origin : Option String) :
    ∃ v, l.value? format origin = some v ∧ ∃ text ∈ c.level, v.IsText text := by
  obtain ⟨text, hlevel, htext⟩ := h.level_of_mem hmem
  unfold Literal.text? at htext
  split at htext
  · cases htext
    exact ⟨_, rfl, text, hlevel, origin, rfl⟩
  · cases htext
  · cases htext

/-- All that is given has a value. -/
theorem isSome_value (h : c.OfDocument format doc) (hrange : c.InRange) :
    ∀ e ∈ doc.given, ∀ origin, (e.2.value? format origin).isSome := by
  rintro ⟨path, l⟩ he origin
  rcases h.given _ he with ⟨f, hf, -⟩ | ⟨hlevel, -⟩
  · obtain rfl : path = f.path := hf
    obtain ⟨v, hv, -⟩ := h.exists_number hrange he origin
    exact Option.isSome_of_mem hv
  · obtain rfl : path = levelPath := hlevel
    obtain ⟨v, hv, -⟩ := h.exists_level he origin
    exact Option.isSome_of_mem hv

variable {origin : Option String} {layer : Layer}

/-- A field that the document does not give is missing in the tree. -/
theorem field?_eq_none (h : c.OfDocument format doc)
    (hholds : (Value.table origin layer).Holds format origin doc) {s : Section} (hs : s ∈ sections)
    {field : String} (hnone : [s.name, field] ∉ doc.given.map Prod.fst) :
    layer.tree.field? s field = none := by
  rw [hholds.field?_tree hs (h.avoids hs)]
  by_contra hfound
  have hat : (Value.table origin layer).at? [s.name, field] ≠ none := fun he =>
    hfound (by rw [he]; rfl)
  obtain ⟨p, hp, hbegins⟩ := hholds.within _ hat
  have hlen := hbegins.length_le
  -- A path so long is that of a setting, and ends there.
  have hpath : p ∈ doc.given.map Prod.fst := by
    rcases List.mem_append.mp hp with hp | hp
    · rcases h.tables p hp with rfl | ⟨s', -, rfl⟩ <;> simp at hlen
    · exact hp
  have hend : p.length = 2 := by
    rcases h.cases_of_mem_paths hp with rfl | ⟨s', -, rfl⟩ | ⟨f, rfl⟩ | rfl
    · simp at hlen
    · simp at hlen
    · rfl
    · rfl
  rw [hbegins.eq_of_length (by rw [hend]; rfl)] at hnone
  exact hnone hpath

/-- A field of the tree has what the document gives to it. -/
theorem rel_field? (h : c.OfDocument format doc)
    (hholds : (Value.table origin layer).Holds format origin doc) {s : Section} (hs : s ∈ sections)
    {field : String} {α : Type} {r : Value → α → Prop} {shown : Option α}
    (hgiven : shown.isSome → [s.name, field] ∈ doc.given.map Prod.fst)
    (hvalue : ∀ l, ([s.name, field], l) ∈ doc.given →
      ∃ v, l.value? format origin = some v ∧ ∃ a ∈ shown, r v a) :
    Option.Rel r (layer.tree.field? s field) shown := by
  cases hshown : shown with
  | none =>
    rw [h.field?_eq_none hholds hs]
    · exact .none
    · intro hmem
      obtain ⟨⟨path, l⟩, he, hpath⟩ := List.mem_map.mp hmem
      obtain rfl : path = [s.name, field] := hpath
      obtain ⟨_, _, _, hsome, -⟩ := hvalue l he
      rw [hshown] at hsome
      cases hsome
  | some a =>
    obtain ⟨⟨path, l⟩, he, hpath⟩ := List.mem_map.mp (hgiven (by rw [hshown]; rfl))
    obtain rfl : path = [s.name, field] := hpath
    obtain ⟨v, hv, hfield⟩ := hholds.field?_of_mem hs (h.avoids hs) he
    obtain ⟨v', hv', a', ha', hr⟩ := hvalue l he
    obtain rfl : v = v' := Option.some.inj (hv.symm.trans hv')
    obtain rfl : a = a' := Option.some.inj (hshown.symm.trans ha')
    rw [hfield]
    exact .some hr

/-- The tree of the document gives the settings that the document does. -/
theorem ofTree (h : c.OfDocument format doc) (hrange : c.InRange)
    (hholds : (Value.table origin layer).Holds format origin doc) : c.OfTree layer.tree where
  tables s hs v hv := by
    rw [Option.mem_def, hholds.lookup?_tree hs (h.avoids hs)] at hv
    obtain ⟨w, hw, rfl⟩ := Option.map_eq_some_iff.mp hv
    rcases hholds.leaf _ w hw with htable | hgiven
    · exact htable.merge _
    · -- What is given is longer than the path of a section.
      obtain ⟨e, he, hpath⟩ := List.mem_map.mp hgiven
      rcases h.given e he with ⟨f, hf, -⟩ | ⟨hlevel, -⟩
      · exact absurd (congrArg List.length (hpath.symm.trans hf)) (by simp [NumberSetting.path])
      · exact absurd (congrArg List.length (hpath.symm.trans hlevel)) (by simp [levelPath])
  number f := h.rel_field? hholds f.home_mem (h.number f) fun _ hl => h.exists_number hrange hl _
  level := h.rel_field? hholds (by simp [sections]) h.level fun _ hl => h.exists_level hl _

end OfDocument

/-- A file that gives settings in range is read, and its tree gives them. -/
theorem OfFile.exists_layer {c : Contents} {files : List File} {name : String}
    (h : c.OfFile files name) (hrange : c.InRange) :
    ∃ layer, Settings.fileLayer files name = .ok layer ∧ c.OfTree layer.tree := by
  cases h with
  | missing hmissing hnothing =>
    subst hnothing
    refine ⟨[], ?_, nofun, fun f => .none, .none⟩
    unfold Settings.fileLayer
    rw [hmissing]
  | text hchosen hwrites hdoc =>
    obtain ⟨layer, hlayer⟩ := hwrites.exists_layer hchosen (hdoc.isSome_value hrange)
    obtain ⟨origin, hholds⟩ := hwrites.writes.holds hchosen hlayer
    exact ⟨layer, hlayer, hdoc.ofTree hrange hholds⟩
  | tree hlayer htree => exact ⟨_, hlayer, htree⟩

end Contents

end MessageBroker.Config
