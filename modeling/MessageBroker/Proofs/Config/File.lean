import MessageBroker.Proofs.Config.JsonDocument
import MessageBroker.Proofs.Config.TomlSections

/-!
# Texts of files

A file writes a document when its text does so in the grammar of its format, behind a byte order
mark if it has one (`File.Writes`). The layer that is read from such a file holds what the document
says (`File.Writes.holds`). All JSON documents are read whose tokens stand for values, and of the
TOML documents those that consist of sections (`File.WritesSections`, `File.exists_layer`).

Integers are words of their format or stand in texts (`Token.integer?`). As long as 64 bits hold
them with their sign, they are the values of their words.
-/

namespace MessageBroker.Config

open Numeral (IsSigned)

/-! ## Documents of files -/

/-- The characters write the document in the format. -/
inductive Format.Writes : Format → List Char → Document → Prop
  | toml {s : List Char} {rows : List Toml.Row} (h : Toml.IsDocument s rows) :
      Format.Writes .toml s (Toml.document rows)
  | json {s : List Char} {entries : List (String × Json.Entry)} (h : Json.IsDocument s entries) :
      Format.Writes .json s (Json.document entries)

/-- The characters write a document of sections in the format. -/
inductive Format.WritesSections : Format → List Char → Document → Prop
  | toml {s : List Char} {rows : List Toml.Row} (h : Toml.IsDocument s rows)
      (hrows : Toml.IsSectional rows) : Format.WritesSections .toml s (Toml.document rows)
  | json {s : List Char} {entries : List (String × Json.Entry)} (h : Json.IsDocument s entries) :
      Format.WritesSections .json s (Json.document entries)

/-- The file writes the document, behind a byte order mark if it has one. -/
def File.Writes (file : File) (format : Format) (doc : Document) : Prop :=
  ∃ s, (file.text.toList = s ∨ file.text.toList = '\ufeff' :: s) ∧ format.Writes s doc

/-- The file writes a document of sections, behind a byte order mark if it has one. -/
def File.WritesSections (file : File) (format : Format) (doc : Document) : Prop :=
  ∃ s, (file.text.toList = s ∨ file.text.toList = '\ufeff' :: s) ∧ format.WritesSections s doc

/-- Documents of sections are documents. -/
theorem Format.WritesSections.writes {format : Format} {s : List Char} {doc : Document}
    (h : format.WritesSections s doc) : format.Writes s doc := by
  cases h with
  | toml h => exact .toml h
  | json h => exact .json h

/-- No document begins with a byte order mark. -/
theorem Format.Writes.head {format : Format} {s : List Char} {doc : Document}
    (h : format.Writes s doc) : s.head? ≠ some '\ufeff' := by
  cases h with
  | toml h => exact fun hmark => absurd (Toml.stops_of_isDocument h _ hmark) (by decide)
  | json h => exact Json.head_of_isDocument h

section

variable {format : Format} {origin : String} {doc : Document} {layer : Layer}

/-- A byte order mark is taken off, and nothing else. -/
theorem Format.Writes.unmarked_eq {s chars : List Char} (h : format.Writes s doc)
    (hchars : chars = s ∨ chars = '\ufeff' :: s) : unmarked chars = s := by
  rcases hchars with rfl | rfl
  · unfold unmarked
    split
    · exact absurd rfl h.head
    · rfl
  · rfl

/-- The layer that is read from characters holds what they say. -/
theorem Format.Writes.holds {s : List Char} (h : format.Writes s doc) {text : String}
    (htext : text.toList = s ∨ text.toList = '\ufeff' :: s)
    (hlayer : format.layer? origin text = some layer) :
    (Value.table (some origin) layer).Holds format (some origin) doc := by
  unfold Format.layer? at hlayer
  rw [h.unmarked_eq htext] at hlayer
  cases h with
  | toml h => exact Toml.holds_of_parse h hlayer
  | json h =>
    dsimp only at hlayer
    split at hlayer
    · rename_i members hparse
      cases hlayer
      exact Json.holds_of_parse h hparse
    · cases hlayer

/-- A layer is read from characters if they write sections, and their tokens stand for values. -/
theorem Format.WritesSections.exists_layer {s : List Char} (h : format.WritesSections s doc)
    {text : String} (htext : text.toList = s ∨ text.toList = '\ufeff' :: s)
    (hvalues : ∀ e ∈ doc.given, (e.2.value? format (some origin)).isSome) :
    ∃ layer, format.layer? origin text = some layer := by
  unfold Format.layer?
  rw [h.writes.unmarked_eq htext]
  cases h with
  | toml h hrows => exact Option.isSome_iff_exists.mp (Toml.parse_isSome h hrows hvalues)
  | json h =>
    obtain ⟨members, hparse⟩ := Json.exists_parse h hvalues
    dsimp only
    rw [hparse]
    exact ⟨_, rfl⟩

variable {files : List File} {name : String} {file : File}

/-- The layer of the chosen file holds what the file says. -/
theorem File.Writes.holds (h : file.Writes format doc)
    (hchosen : chooseFile files name = some (file, format))
    (hlayer : Settings.fileLayer files name = .ok layer) :
    ∃ origin, (Value.table origin layer).Holds format origin doc := by
  obtain ⟨s, htext, hwrites⟩ := h
  unfold Settings.fileLayer at hlayer
  rw [hchosen] at hlayer
  dsimp only at hlayer
  split at hlayer
  · rename_i found hfound
    cases hlayer
    exact ⟨_, hwrites.holds htext hfound⟩
  · cases hlayer

/-- The chosen file is read if it writes sections, and its tokens stand for values. -/
theorem File.WritesSections.exists_layer (h : file.WritesSections format doc)
    (hchosen : chooseFile files name = some (file, format))
    (hvalues : ∀ e ∈ doc.given, ∀ origin, (e.2.value? format origin).isSome) :
    ∃ layer, Settings.fileLayer files name = .ok layer := by
  obtain ⟨s, htext, hwrites⟩ := h
  obtain ⟨layer, hlayer⟩ := hwrites.exists_layer htext fun e he => hvalues e he _
  refine ⟨layer, ?_⟩
  unfold Settings.fileLayer
  rw [hchosen]
  dsimp only
  rw [hlayer]

/-- A file that writes a document of sections writes a document. -/
theorem File.WritesSections.writes (h : file.WritesSections format doc) :
    file.Writes format doc := by
  obtain ⟨s, htext, hwrites⟩ := h
  exact ⟨s, htext, hwrites.writes⟩

end

/-! ## Integers -/

/-- The integer that a word writes in a format, before it is known whether 64 bits hold it. -/
def Format.written? : Format → (word : List Char) → Option Int
  | .toml, word => Toml.written? word
  | .json, word => Json.written? word

/-- The integer that a token writes, as a word or in a text. -/
def Token.integer? (format : Format) : Token → Option Int
  | .word chars => format.written? chars
  | .text value => Numeral.written? value.toList

/-- The number that a literal writes as a word. -/
def Literal.number? (format : Format) : Literal → Option Int
  | .token (.word chars) => format.written? chars
  | .token (.text _) | .list _ => none

/-- The text that a literal is. -/
def Literal.text? : Literal → Option String
  | .token (.text value) => some value
  | .token (.word _) | .list _ => none

/-- The scalar of a numeral of JSON that writes an integer. -/
theorem wordScalar?_json {word : List Char} {i : Int} (h : Json.written? word = some i) :
    Format.json.wordScalar? word =
      if IsSigned i then some (Json.signedScalar (Json.splitMinus word).1 i)
      else (Json.double? word).map .real := by
  have hword : ∀ letters : List Char, Json.written? letters = none → word ≠ letters := by
    rintro letters hnone rfl
    rw [hnone] at h
    cases h
  rw [← Json.scalarOfNumber_of_written h]
  unfold Format.wordScalar?
  dsimp only
  -- The three words write no integer.
  rw [if_neg (hword _ (by decide)), if_neg (hword _ (by decide)), if_neg (hword _ (by decide))]

/-- The scalar of an integer that a word writes, if 64 bits hold it with its sign: the integer, or
for zero the negative zero. -/
theorem wordScalar?_of_written {format : Format} {word : List Char} {i : Int}
    (h : format.written? word = some i) (hsigned : IsSigned i) :
    ∃ x, format.wordScalar? word = some x ∧
      (x = .integer i ∨ x = .real Binary64.zero.negate ∧ i = 0) := by
  cases format with
  | toml =>
    have hatom : Format.toml.wordScalar? word = some (.integer i) := by
      show Toml.atom? word = _
      rw [Toml.atom?_of_written h, if_pos hsigned]
    exact ⟨_, hatom, .inl rfl⟩
  | json =>
    refine ⟨_, (wordScalar?_json h).trans (if_pos hsigned), ?_⟩
    unfold Json.signedScalar
    split
    · rename_i hzero
      exact .inr ⟨rfl, hzero.2⟩
    · exact .inl rfl

end MessageBroker.Config
