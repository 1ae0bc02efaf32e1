import MessageBroker.Proofs.Config.Resolution

/-!
# Integers of settings

A setting is decided by one value (`Value.Decides`): an integer that this value writes is the number
of the setting, or else the settings are not loaded. What is written in a file or in the environment
is such a value as long as 64 bits hold it with its sign. Larger integers do not get into a file of
TOML; in the environment, and in a file of JSON, they turn into doubles.

For a file this is told from its text: what the text gives to the path of a setting is a token that
decides it (`Token.Decides`).
-/

namespace MessageBroker.Config

open Numeral (IsSigned)

/-- The value writes an integer: as a number, as a text, or as the negative zero. -/
def Value.Writes (v : Value) (i : Int) : Prop :=
  match v with
  | .scalar _ (.integer j) => j = i
  | .scalar _ (.real x) => x = Binary64.zero.negate ∧ i = 0
  | .scalar _ (.text text) => Numeral.written? text.toList = some i
  | _ => False

/-- A number that is read from a value is the integer that the value writes. -/
theorem Value.Writes.eq_of_word {v : Value} {i : Int} (h : v.Writes i) {key : String} {n : Nat}
    (hword : v.word key = .ok n) : (n : Int) = i := by
  unfold Value.Writes at h
  split at h
  · rename_i origin j
    subst h
    unfold Value.word at hword
    dsimp only at hword
    split at hword
    · cases hword
    · rename_i hsign
      cases hword
      exact Int.toNat_of_nonneg (Int.not_lt.mp hsign)
  · obtain ⟨rfl, rfl⟩ := h
    have hn : wordOfReal Binary64.zero.negate = n := Except.ok.inj hword
    rw [← hn, wordOfReal_negate_zero]
    rfl
  · rename_i origin text
    have hnatural : wordOfText? text = Numeral.natural? text.toList := by
      -- The words for one and zero have no digits, so the text is none of them.
      have hword : ∀ word : String, word.toList.any Char.isDigit = false → text.toLower ≠ word :=
        fun word hletters => Numeral.toLower_ne_of_written h hletters
      have hyes : ¬ (text.toLower = "true" ∨ text.toLower = "on" ∨ text.toLower = "yes") :=
        not_or.mpr ⟨hword _ rfl, not_or.mpr ⟨hword _ rfl, hword _ rfl⟩⟩
      have hno : ¬ (text.toLower = "false" ∨ text.toLower = "off" ∨ text.toLower = "no") :=
        not_or.mpr ⟨hword _ rfl, not_or.mpr ⟨hword _ rfl, hword _ rfl⟩⟩
      unfold wordOfText?
      dsimp only
      rw [if_neg hyes, if_neg hno]
    unfold Value.word at hword
    dsimp only at hword
    rw [hnatural] at hword
    split at hword
    · rename_i m hm
      cases hword
      exact Numeral.natural?_of_written h hm
    · cases hword
  · exact h.elim

/-- What is read for a setting, of a value other than null. -/
theorem NumberSetting.exists_of_optional {f : NumberSetting} {v : Value}
    (hv : ∀ origin, v ≠ .scalar origin .null) {key : String} {found : Option Nat}
    (h : v.optional f.read key = .ok found) :
    ∃ n, found = some n ∧ v.word key = .ok n ∧ (f = .maxRetries → n ≤ greatestCount) := by
  have hread : v.optional f.read key = (f.read key v).map some := by
    unfold Value.optional
    split
    · exact absurd rfl (hv _)
    · rfl
  rw [hread] at h
  cases hn : f.read key v with
  | error e =>
    rw [hn] at h
    cases h
  | ok n =>
    rw [hn] at h
    cases h
    exact ⟨n, rfl, word_of_read hn⟩

/-- The value decides a setting: an integer that it writes is the number of the setting, and in
range of it if 64 bits hold it with its sign; a real is rounded. -/
structure Value.Decides (v : Value) (f : NumberSetting) (s : Settings) : Prop where
  kept : ∀ i, v.Writes i → (f.value s : Int) = i ∧ (IsSigned i → i ≤ f.greatest)
  rounded : ∀ origin x, v = .scalar origin (.real x) → f.value s = wordOfReal x

/-- The value that is read for a setting decides it. -/
theorem Value.decides_of_optional {f : NumberSetting} {v : Value} {key : String}
    {found : Option Nat} {usual : Nat} {s : Settings} (h : v.optional f.read key = .ok found)
    (hvalue : f.value s = found.getD usual) : v.Decides f s where
  kept i hwrites := by
    obtain ⟨n, rfl, hword, hcount⟩ :=
      NumberSetting.exists_of_optional (by rintro origin rfl; exact hwrites) h
    have hi : (n : Int) = i := hwrites.eq_of_word hword
    rw [hvalue]
    refine ⟨hi, fun ⟨_, hle⟩ => ?_⟩
    -- Only the count has 32 bits; for words, what 64 bits hold with a sign is in range.
    cases f with
    | maxRetries =>
      rw [← hi]
      exact Int.ofNat_le.mpr (hcount rfl)
    | _ => exact Int.le_trans hle (by decide)
  rounded origin x hreal := by
    subst hreal
    obtain ⟨n, rfl, hword, -⟩ := NumberSetting.exists_of_optional (fun origin => by simp) h
    cases hword
    exact hvalue

/-- The token of a file decides a setting: an integer that it writes is the number of the setting,
and in range of it if 64 bits hold it with its sign. Larger ones are words only of JSON, and rounded
by way of the double that the word stands for. -/
def Token.Decides (format : Format) (f : NumberSetting) (s : Settings) : Token → Prop
  | .text value => ∀ i, Numeral.written? value.toList = some i →
      (f.value s : Int) = i ∧ (IsSigned i → i ≤ f.greatest)
  | .word chars => ∀ i, format.written? chars = some i →
      if IsSigned i then (f.value s : Int) = i ∧ i ≤ f.greatest
      else format = .json ∧ ∃ x, Json.double? chars = some x ∧ f.value s = wordOfReal x

/-- A token decides a setting if its value does. -/
theorem Value.Decides.token {format : Format} {origin : Option String} {t : Token} {v : Value}
    {f : NumberSetting} {s : Settings} (h : v.Decides f s)
    (hv : (t.scalar? format).map (.scalar origin) = some v) : t.Decides format f s := by
  obtain ⟨x, hx, rfl⟩ := Option.map_eq_some_iff.mp hv
  cases t with
  | text value =>
    cases hx
    exact fun i hwritten => h.kept i hwritten
  | word chars =>
    intro i hwritten
    have hx : format.wordScalar? chars = some x := hx
    split
    · rename_i hsigned
      obtain ⟨y, hy, hcases⟩ := wordScalar?_of_written hwritten hsigned
      obtain rfl : x = y := Option.some.inj (hx.symm.trans hy)
      have hwrites : (Value.scalar origin x).Writes i := by
        rcases hcases with rfl | ⟨rfl, hzero⟩
        · exact rfl
        · exact ⟨rfl, hzero⟩
      obtain ⟨hvalue, hrange⟩ := h.kept i hwrites
      exact ⟨hvalue, hrange hsigned⟩
    · rename_i hlarge
      cases format with
      | toml =>
        have hnone : Format.toml.wordScalar? chars = none :=
          (Toml.atom?_of_written hwritten).trans (if_neg hlarge)
        rw [hnone] at hx
        cases hx
      | json =>
        rw [wordScalar?_json hwritten, if_neg hlarge] at hx
        obtain ⟨y, hy, rfl⟩ := Option.map_eq_some_iff.mp hx
        exact ⟨rfl, y, hy, h.rounded origin y rfl⟩

/-- An item of a list that was made item by item. -/
theorem getElem?_of_mapM {α β : Type} {g : α → Option β} {l : List α} {l' : List β}
    (h : l.mapM g = some l') {n : Nat} {a : α} (ha : l[n]? = some a) :
    ∃ b, g a = some b ∧ l'[n]? = some b := by
  induction l generalizing l' n with
  | nil => cases ha
  | cons first rest ih =>
    rw [List.mapM_cons] at h
    obtain ⟨b, hb, h⟩ := Option.bind_eq_some_iff.mp h
    obtain ⟨others, hothers, h⟩ := Option.bind_eq_some_iff.mp h
    obtain rfl := Option.some.inj h
    cases n with
    | zero =>
      obtain rfl : first = a := Option.some.inj ha
      exact ⟨b, hb, rfl⟩
    | succ n => exact ih hothers ha

/-- Whenever settings are loaded, each is decided by one value: that of its variable, or else that
of the file; there the section may also list its fields, as long as no variable is about it. What
the text of the file gives to a setting is such a value. An integer in a variable is one, too, if 64
bits hold it with its sign; beyond that, the variable gives the double nearest to it. -/
theorem Settings.load_integer {files : List File} {name : String}
    {environment : List (String × String)} {s : Settings}
    (hload : load files name environment = .ok s) (f : NumberSetting) :
    (∃ layer, fileLayer files name = .ok layer ∧
      (Undisputed f.home f.field environment →
        (∀ text ∈ givenText? environment f.key, (variableValue text).Decides f s) ∧
        (givenText? environment f.key = none →
          ∀ v ∈ layer.tree.field? f.home f.field, v.Decides f s)) ∧
      (Silent f.home environment →
        ∀ origin items, layer.tree.lookup? f.home.name = some (.list origin items) →
          ∀ v ∈ items[f.place]?, v.Decides f s)) ∧
    (∀ file format doc, chooseFile files name = some (file, format) → file.Writes format doc →
      doc.Avoids f.home →
      (Undisputed f.home f.field environment → givenText? environment f.key = none →
        ∀ t, (f.path, .token t) ∈ doc.given → t.Decides format f s) ∧
      (Silent f.home environment → ∀ ts, ([f.home.name], .list ts) ∈ doc.given →
        ∀ t ∈ ts[f.place]?, t.Decides format f s)) ∧
    ∀ text i, Numeral.written? text.toList = some i →
      variableValue text = .scalar (some environmentOrigin)
        (if IsSigned i then .integer i else .real (Numeral.nearest i)) := by
  obtain ⟨layer, hfile, htree⟩ := exists_of_bind (show (_ >>= _) = _ from hload)
  change ofTree ((environmentLayer environment).over layer.tree) = .ok s at htree
  have hfield : Undisputed f.home f.field environment →
      (∀ text ∈ givenText? environment f.key, (variableValue text).Decides f s) ∧
      (givenText? environment f.key = none →
        ∀ v ∈ layer.tree.field? f.home f.field, v.Decides f s) := by
    -- The field of the layered tree is the variable's value, or else the file's.
    intro hundisputed
    have hfield := hundisputed.field?_over f.home_mem f.field_mem layer.tree
    have hdecides : ∀ v, ((environmentLayer environment).over layer.tree).field? f.home f.field =
        some v → v.Decides f s := by
      intro v hv
      obtain ⟨found, hfound, hvalue⟩ :=
        f.optional_of_ofTree htree fun _ hsection => Section.isTable_of_field? hv hsection
      rw [hv, Option.getD_some] at hfound
      exact Value.decides_of_optional hfound hvalue
    refine ⟨fun text htext => hdecides _ ?_, fun hsilent v hv => hdecides v ?_⟩
    · rw [hfield, show givenText? environment (f.home.key f.field) = some text from htext]
      rfl
    · rw [hfield, show givenText? environment (f.home.key f.field) = none from hsilent]
      exact hv
  have hlist : Silent f.home environment →
      ∀ origin items, layer.tree.lookup? f.home.name = some (.list origin items) →
        ∀ v ∈ items[f.place]?, v.Decides f s := by
    -- A section that lists its fields is read by position.
    intro hsilent origin items hitems v hv
    obtain ⟨values, found, hvalues, hfound, hvalue⟩ := f.exists_of_ofTree htree
    unfold Section.values at hvalues
    rw [hsilent.lookup?_over, hitems] at hvalues
    cases hvalues
    unfold Section.field at hfound
    rw [List.getElem?_map, List.getElem?_zipIdx, Option.mem_def.mp hv] at hfound
    exact Value.decides_of_optional hfound hvalue
  refine ⟨⟨layer, hfile, hfield, hlist⟩, fun file format doc hchosen hwrites havoids => ?_, ?_⟩
  · obtain ⟨origin, hholds⟩ := hwrites.holds hchosen hfile
    refine ⟨fun hundisputed hnone t ht => ?_, fun hsilent ts hts t ht => ?_⟩
    · obtain ⟨v, hv, hfound⟩ := hholds.field?_of_mem f.home_mem havoids ht
      exact ((hfield hundisputed).2 hnone v hfound).token hv
    · obtain ⟨v, hv, hfound⟩ := hholds.lookup?_of_mem f.home_mem havoids hts
      obtain ⟨xs, hxs, rfl⟩ := Option.map_eq_some_iff.mp
        (show (ts.mapM (Token.scalar? format)).map (fun values =>
          Value.list origin (values.map (.scalar origin))) = some v from hv)
      obtain ⟨x, hx, hplace⟩ := getElem?_of_mapM hxs ht
      have hitem : (xs.map (Value.scalar origin))[f.place]? = some (.scalar origin x) := by
        rw [List.getElem?_map, hplace]
        rfl
      exact (hlist hsilent origin _ hfound _ hitem).token (congrArg (Option.map _) hx)
  · intro text i hwritten
    split
    · rename_i hsigned
      exact variableValue_integer hwritten hsigned
    · rename_i hsigned
      exact variableValue_real hwritten hsigned

/-- The text of a file gives the number of retries where the environment does not, in either format;
where the environment gives it, that counts. -/
theorem Settings.load_integer_retries :
    (∃ s, load [⟨"config/default.toml", "[broker]\nmax_retries = 5\n"⟩]
        "config/default" [] = .ok s ∧ (s.broker.maxRetries : Int) = 5) ∧
    (∃ s, load [⟨"config/default.json", "\x7b\"broker\":\x7b\"max_retries\":7\x7d\x7d"⟩]
        "config/default" [] = .ok s ∧ (s.broker.maxRetries : Int) = 7) ∧
    ∃ s, load [⟨"config/default.toml", "[broker]\nmax_retries = 5\n"⟩] "config/default"
        [("FANOUT__BROKER__MAX_RETRIES", "9")] = .ok s ∧ (s.broker.maxRetries : Int) = 9 := by
  refine ⟨?_, ?_, ?_⟩
  · obtain ⟨s, hload, -⟩ : ∃ s, load [⟨"config/default.toml", "[broker]\nmax_retries = 5\n"⟩]
        "config/default" [] = .ok s ∧ s.logging.level = "info" := by
      decide +kernel
    obtain ⟨-, hwritten, -⟩ := load_integer hload .maxRetries
    have hwrites : File.Writes ⟨"config/default.toml", "[broker]\nmax_retries = 5\n"⟩ .toml
        (Toml.document (Toml.sectionRows "broker".toList [("max_retries".toList, "5".toList)])) :=
      ⟨_, .inl (by decide +kernel), .toml
        (Toml.isDocument_section (by decide +kernel) (by decide +kernel))⟩
    rw [Toml.document_section] at hwrites
    have hdecides := (hwritten _ _ _ (by decide +kernel) hwrites (by decide +kernel)).1
      (by decide +kernel) (by decide +kernel) (.word "5".toList) (by decide +kernel)
    exact ⟨s, hload, (hdecides 5 (by decide)).1⟩
  · obtain ⟨s, hload, -⟩ : ∃ s,
        load [⟨"config/default.json", "\x7b\"broker\":\x7b\"max_retries\":7\x7d\x7d"⟩]
          "config/default" [] = .ok s ∧ s.logging.level = "info" := by
      decide +kernel
    obtain ⟨-, hwritten, -⟩ := load_integer hload .maxRetries
    have hwrites : File.Writes
        ⟨"config/default.json", "\x7b\"broker\":\x7b\"max_retries\":7\x7d\x7d"⟩ .json
        (Json.document (Json.sectionEntries "broker" [("max_retries", "7".toList)])) :=
      ⟨_, .inl (by decide +kernel), .json (Json.isDocument_section (by decide)
        (by decide +kernel) (by decide +kernel))⟩
    rw [Json.document_section] at hwrites
    have hdecides := (hwritten _ _ _ (by decide +kernel) hwrites (by decide +kernel)).1
      (by decide +kernel) (by decide +kernel) (.word "7".toList) (by decide +kernel)
    exact ⟨s, hload, (hdecides 7 (by decide)).1⟩
  · obtain ⟨s, hload, -⟩ : ∃ s, load [⟨"config/default.toml", "[broker]\nmax_retries = 5\n"⟩]
        "config/default" [("FANOUT__BROKER__MAX_RETRIES", "9")] = .ok s ∧
          s.logging.level = "info" := by
      decide +kernel
    obtain ⟨⟨_, _, hdecided, _⟩, -, hvariable⟩ := load_integer hload .maxRetries
    have hgiven := (hdecided (by decide +kernel)).1 "9" (by decide +kernel)
    rw [hvariable "9" 9 (by decide)] at hgiven
    exact ⟨s, hload, (hgiven.kept 9 rfl).1⟩

/-- Beyond 64 bits, integers from the environment are rounded, and negative ones become zero. -/
theorem Settings.load_integer_rounded :
    (∃ s, load [] "config/default"
        [("FANOUT__BROKER__VISIBILITY_TIMEOUT_MS", "9223372036854775809")] = .ok s ∧
      Numeral.written? "9223372036854775809".toList = some 9223372036854775809 ∧
      s.broker.visibilityTimeoutMs = 9223372036854775808) ∧
    ∃ s, load [] "config/default"
        [("FANOUT__BROKER__MAX_RETRIES", "-9223372036854775809")] = .ok s ∧
      Numeral.written? "-9223372036854775809".toList = some (-9223372036854775809) ∧
      s.broker.maxRetries = 0 := by
  decide +kernel

end MessageBroker.Config
