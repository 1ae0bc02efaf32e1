import MessageBroker.Proofs.Config.TomlGrammar

/-!
# Written strings of TOML are read

The parser takes the strings that the grammar of TOML writes: those of one line behind their opening
quote (`takes_oneLine`), for they are also names, and all strings as a whole (`takes_text`). What
stands behind a string must not begin with a quote, since more quotes could still belong to it.
-/

namespace MessageBroker.Config.Toml.Parser

variable {text rest : List Char} {fuel : Nat}

/-! ## Strings of one line -/

/-- The character of an escape is taken. -/
theorem takes_escape {mark c : Char} (h : (mark, c) ∈ escapes) (rest : List Char) :
    Takes escape [mark] rest (some c) := by
  simp only [escapes, List.mem_cons, List.not_mem_nil, or_false, Prod.mk.injEq] at h
  rcases h with ⟨rfl, rfl⟩ | ⟨rfl, rfl⟩ | ⟨rfl, rfl⟩ | ⟨rfl, rfl⟩ | ⟨rfl, rfl⟩ | ⟨rfl, rfl⟩ |
    ⟨rfl, rfl⟩ | ⟨rfl, rfl⟩ <;> rfl

/-- The character with a number of hexadecimal digits is taken. -/
theorem takes_hexChar {digits : List Char} {c : Char} (h : codePoint? digits = some c.toNat)
    (rest : List Char) : Takes (hexChar digits.length) digits rest (some c) := by
  have htake : (digits ++ rest).take digits.length = digits := List.take_left
  have hdrop : (digits ++ rest).drop digits.length = rest := List.drop_left
  unfold codePoint? at h
  unfold Takes hexChar
  simp only [htake, hdrop, Nat.lt_irrefl, if_false, h]
  rw [if_pos (show c.toNat.isValidChar from c.valid), Char.ofNat_toNat]
  rfl

/-- The character with a number is taken behind the mark of its digits. -/
theorem takes_code {mark c : Char} {digits : List Char} (hmark : (mark, digits.length) ∈ codes)
    (h : codePoint? digits = some c.toNat) (rest : List Char) :
    Takes escape (mark :: digits) rest (some c) := by
  have hchar := takes_hexChar h rest
  simp only [codes, List.mem_cons, List.not_mem_nil, or_false, Prod.mk.injEq] at hmark
  refine (takes_take mark (digits ++ rest)).next ?_
  rcases hmark with ⟨rfl, hlen⟩ | ⟨rfl, hlen⟩ | ⟨rfl, hlen⟩ <;> exact hlen ▸ hchar

/-- The rest of a string in double quotes is taken. -/
theorem takes_basicRest {s t : List Char} (h : Spells s t) {done : List Char}
    (hfuel : s.length < fuel) (rest : List Char) :
    Takes (basicRest fuel done) (s ++ ['"']) rest (some (done.reverse ++ t)) := by
  induction h generalizing fuel done with
  | nil =>
    obtain ⟨fuel, rfl⟩ : ∃ n, fuel = n + 1 := ⟨fuel - 1, by omega⟩
    rw [basicRest, List.append_nil]
    exact (takes_take '"' rest).last (takes_pure _ rest)
  | @plain c s t hc hquote hslash hs ih =>
    obtain ⟨fuel, rfl⟩ : ∃ n, fuel = n + 1 := ⟨fuel - 1, by omega⟩
    rw [basicRest]
    refine (takes_take c (s ++ ['"'] ++ rest)).next ?_
    split
    · exact absurd rfl hquote
    · exact absurd rfl hslash
    · rw [if_pos hc]
      have hinner : Takes (basicRest fuel (c :: done)) (s ++ ['"']) rest
          (some ((c :: done).reverse ++ t)) := ih (Nat.lt_of_succ_lt_succ hfuel)
      rwa [List.reverse_cons, List.append_assoc] at hinner
  | @escape mark c s t hmark hs ih =>
    obtain ⟨fuel, rfl⟩ : ∃ n, fuel = n + 1 := ⟨fuel - 1, by omega⟩
    have hinner : Takes (basicRest fuel (c :: done)) (s ++ ['"']) rest
        (some ((c :: done).reverse ++ t)) := ih (by simp only [List.length_cons] at hfuel; omega)
    rw [List.reverse_cons, List.append_assoc] at hinner
    rw [basicRest]
    refine (takes_take '\\' (mark :: s ++ ['"'] ++ rest)).next ?_
    exact (takes_escape hmark (s ++ ['"'] ++ rest)).next hinner
  | @code mark c digits s t hmark hcode hs ih =>
    obtain ⟨fuel, rfl⟩ : ∃ n, fuel = n + 1 := ⟨fuel - 1, by omega⟩
    have hinner : Takes (basicRest fuel (c :: done)) (s ++ ['"']) rest
        (some ((c :: done).reverse ++ t)) := by
      simp only [List.length_cons, List.length_append] at hfuel
      exact ih (by omega)
    rw [List.reverse_cons, List.append_assoc] at hinner
    rw [basicRest]
    have hrest : mark :: (digits ++ s) ++ ['"'] = mark :: digits ++ (s ++ ['"']) := by
      simp only [List.cons_append, List.append_assoc]
    show Takes _ ('\\' :: (mark :: (digits ++ s) ++ ['"'])) rest _
    rw [hrest]
    refine (takes_take '\\' (mark :: digits ++ (s ++ ['"']) ++ rest)).next ?_
    exact (takes_code hmark hcode (s ++ ['"'] ++ rest)).next hinner

/-- A string of one line is taken behind its opening quote. -/
theorem takes_oneLine {t : List Char} (h : IsString text t) (rest : List Char) :
    ∃ quote body, text = quote :: body ∧ (quote = '"' ∨ quote = '\'') ∧
      Takes (oneLine quote) body rest (some t) := by
  cases h with
  | @basic s _ hs =>
    refine ⟨'"', _, rfl, .inl rfl, ?_⟩
    refine (takes_unread _).look ?_
    exact takes_basicRest hs (by simp only [List.length_append]; omega) rest
  | @literal s hs =>
    refine ⟨'\'', _, rfl, .inr rfl, ?_⟩
    have hstop : Stops (fun c => isPlain c && c ≠ '\'') (['\''] ++ rest) :=
      stops_cons (by decide) rest
    exact (takes_run hs hstop).next ((takes_expect ['\''] rest).last (takes_pure t rest))

/-- Two quotes do not follow the first one of a string, unless it is empty and another string stands
behind it. -/
theorem isPrefixOf_quotes {quote : Char} {body t : List Char} (h : IsString (quote :: body) t)
    (hrest : Stops (fun c => c = '"' || c = '\'') rest) :
    [quote, quote].isPrefixOf (body ++ rest) = false := by
  -- A first quote behind the opening one closes the string, and no quote follows that.
  have hclosed : ∀ q, (q = '"' ∨ q = '\'') → [q, q].isPrefixOf (q :: rest) = false := by
    intro q hq
    have hstop : Stops (· = q) rest := hrest.imp fun c hc => by
      rw [of_decide_eq_true hc]
      rcases hq with rfl | rfl <;> rfl
    show (q == q && [q].isPrefixOf rest) = false
    rw [isPrefixOf_of_stops [] hstop, Bool.and_false]
  cases h with
  | basic hs =>
    cases hs with
    | nil => exact hclosed '"' (.inl rfl)
    | plain hc hquote => exact isPrefixOf_of_stops _ (stops_cons (decide_eq_false hquote) _)
    | escape | code => exact isPrefixOf_of_stops _ (stops_cons (by decide) _)
  | literal hs =>
    cases t with
    | nil => exact hclosed '\'' (.inr rfl)
    | cons c t =>
      have hc : c ≠ '\'' := by
        have hplain := hs c List.mem_cons_self
        simp only [Bool.and_eq_true, decide_eq_true_eq] at hplain
        exact hplain.2
      exact isPrefixOf_of_stops _ (stops_cons (decide_eq_false hc) _)

/-- A string of one line is taken. -/
theorem takes_string {t : List Char} (h : IsString text t)
    (hrest : Stops (fun c => c = '"' || c = '\'') rest) :
    Takes string text rest (some (String.ofList t)) := by
  obtain ⟨quote, body, rfl, hquote, hbody⟩ := takes_oneLine h rest
  have hquotes : ¬ (quote ≠ '"' ∧ quote ≠ '\'') := fun hne => hquote.elim hne.1 hne.2
  refine (takes_take quote (body ++ rest)).next ?_
  rw [if_neg hquotes]
  have hnone : Takes (skip? [quote, quote]) [] (body ++ rest) (some false) :=
    takes_skip_none (isPrefixOf_quotes h hrest)
  exact hnone.look (hbody.map String.ofList)

/-! ## Strings over several lines -/

variable {quote : Char} {done : List Char}

/-- The number of quotes that come next. -/
theorem length_takeWhile_replicate {quote : Char} (n : Nat) {rest : List Char}
    (hrest : Stops (· = quote) rest) :
    ((List.replicate n quote ++ rest).takeWhile (· = quote)).length = n := by
  have hnone : rest.takeWhile (· = quote) = [] := by
    cases rest with
    | nil => rfl
    | cons c rest => exact List.takeWhile_cons_of_neg (by simpa using hrest c rfl)
  rw [List.takeWhile_append_of_pos (by simp), hnone, List.append_nil, List.length_replicate]

/-- At the closing quotes, a string over several lines ends. -/
theorem takes_multilineRest_close {extra : Nat} (hextra : extra ≤ 2)
    (hrest : Stops (· = quote) rest) :
    Takes (multilineRest quote (fuel + 1) done) (List.replicate (extra + 3) quote) rest
      (some (done.reverse ++ List.replicate extra quote)) := by
  -- Of all quotes that come next, the last three close the string.
  have hclosing : min (extra + 3 - 3) 2 = extra := by omega
  have hpass : Takes (pass (extra + 3)) (List.replicate (extra + 3) quote) rest (some ()) := by
    have hall := takes_pass (List.replicate (extra + 3) quote) rest
    rwa [List.length_replicate] at hall
  rw [multilineRest]
  refine (takes_unread (List.replicate (extra + 3) quote ++ rest)).look ?_
  dsimp only
  rw [length_takeWhile_replicate _ hrest, if_pos (by omega), hclosing]
  refine hpass.last ?_
  rw [List.reverse_append, List.reverse_replicate]
  exact takes_pure _ rest

/-- Elsewhere it goes on with the next character, unless that is the end of a line. -/
theorem takes_multilineRest_next {c : Char} {result : Option (List Char)}
    (hfew : ((c :: (text ++ rest)).takeWhile (· = quote)).length < 3) (hfeed : c ≠ '\n')
    (hreturn : c ≠ '\r')
    (h : Takes (do
      if c = '\\' ∧ quote = '"' then
        if ← continues then multilineRest quote fuel done
        else multilineRest quote fuel ((← escape) :: done)
      else if isPlain c then multilineRest quote fuel (c :: done)
      else fail) text rest result) :
    Takes (multilineRest quote (fuel + 1) done) (c :: text) rest result := by
  have hnone : Takes lineEnd? [] (c :: text ++ rest) (some false) :=
    takes_lineEnd_none (stops_cons (by simp [hfeed, hreturn]) _)
  rw [multilineRest]
  refine (takes_unread (c :: text ++ rest)).look ?_
  dsimp only
  rw [if_neg (by simpa using hfew)]
  refine hnone.look ?_
  rw [if_neg Bool.false_ne_true]
  exact (takes_take c (text ++ rest)).next h

/-- Where a character other than the quote comes next, no quotes do. -/
theorem length_takeWhile_of_ne {c : Char} (hc : c ≠ quote) (rest : List Char) :
    ((c :: rest).takeWhile (· = quote)).length < 3 := by
  rw [List.takeWhile_cons_of_neg (by simpa using hc)]
  decide

/-- A quote that is not the first of three is followed by at most one more. -/
theorem length_takeWhile_of_next {s : List Char} (hnext : ∃ c ∈ s.take 2, c ≠ quote)
    (rest : List Char) : ((quote :: (s ++ rest)).takeWhile (· = quote)).length < 3 := by
  rw [List.takeWhile_cons_of_pos (by simp)]
  obtain ⟨c, hc, hne⟩ := hnext
  rcases s with _ | ⟨a, _ | ⟨b, s⟩⟩
  · cases hc
  · obtain rfl : c = a := by simpa using hc
    simp [hne]
  · by_cases ha : a = quote
    · obtain rfl : c = b := by
        rcases List.mem_cons.mp hc with rfl | hc
        · exact absurd ha hne
        · simpa using hc
      simp [ha, hne]
    · simp [ha]

/-- A plain character of a string over several lines is taken. -/
theorem takes_multilineRest_plain {c : Char} {result : Option (List Char)}
    (hfew : ((c :: (text ++ rest)).takeWhile (· = quote)).length < 3)
    (hplain : isPlain c = true) (hslash : c = '\\' → quote = '\'')
    (h : Takes (multilineRest quote fuel (c :: done)) text rest result) :
    Takes (multilineRest quote (fuel + 1) done) (c :: text) rest result := by
  have hne : ∀ d, isPlain d = false → c ≠ d := by
    rintro d hd rfl
    rw [hd] at hplain
    cases hplain
  have hnone : ¬ (c = '\\' ∧ quote = '"') := by
    rintro ⟨hc, hquote⟩
    have hsingle := hslash hc
    rw [hquote] at hsingle
    exact absurd hsingle (by decide)
  refine takes_multilineRest_next hfew (hne '\n' (by decide)) (hne '\r' (by decide)) ?_
  rw [if_neg hnone, if_pos hplain]
  exact h

/-- A backslash between double quotes begins an escape, unless it joins lines. -/
theorem takes_multilineRest_escape {mark c : Char} {digits : List Char}
    {result : Option (List Char)} (hmark : mark ∉ [' ', '\t', '\n', '\r'])
    (hescape : Takes escape (mark :: digits) (text ++ rest) (some c))
    (h : Takes (multilineRest '"' fuel (c :: done)) text rest result) :
    Takes (multilineRest '"' (fuel + 1) done) ('\\' :: (mark :: digits ++ text)) rest result := by
  simp only [List.mem_cons, List.not_mem_nil, or_false, not_or] at hmark
  obtain ⟨hspace, htab, hfeed, hreturn⟩ := hmark
  have hcontinues : Takes continues [] (mark :: digits ++ text ++ rest) (some false) := by
    have hdrop : (mark :: digits ++ text ++ rest).dropWhile (fun c => c = ' ' || c = '\t') =
        mark :: digits ++ text ++ rest := List.dropWhile_cons_of_neg (by simp [hspace, htab])
    have hnone : (['\n'].isPrefixOf (mark :: digits ++ text ++ rest) ||
        ['\r', '\n'].isPrefixOf (mark :: digits ++ text ++ rest)) = false := by
      simp [List.isPrefixOf, Ne.symm hfeed, Ne.symm hreturn]
    refine (takes_unread _).look ?_
    dsimp only
    rw [List.nil_append, hdrop, hnone, if_neg Bool.false_ne_true]
    exact takes_pure false _
  refine takes_multilineRest_next (length_takeWhile_of_ne (by decide) _) (by decide) (by decide) ?_
  rw [if_pos ⟨rfl, rfl⟩]
  refine hcontinues.look ?_
  rw [if_neg Bool.false_ne_true]
  exact hescape.next h

/-- The characters of blanks and line ends. -/
theorem mem_of_isFold {g : List Char} (h : IsFold g) {c : Char} (hc : c ∈ g) :
    (c = ' ' || c = '\t' || c = '\n' || c = '\r') = true := by
  have hblank : ∀ {b : List Char}, IsBlank b → c ∈ b →
      (c = ' ' || c = '\t' || c = '\n' || c = '\r') = true := by
    intro b hb hc
    have h := hb c hc
    unfold isBlank at h
    simp only [h, Bool.true_or]
  induction h with
  | blank hb => exact hblank hb hc
  | line hb he hg ih =>
    rcases List.mem_append.mp hc with hc | hc
    · exact hblank hb hc
    · rcases List.mem_append.mp hc with hc | hc
      · cases he <;> simp at hc <;> grind
      · exact ih hc

/-- A backslash at the end of a line joins it with what stands on the next ones. -/
theorem takes_multilineRest_join {b e g : List Char} {result : Option (List Char)}
    (hb : IsBlank b) (he : IsLineEnd e) (hg : IsFold g)
    (hnext : Stops (fun c => c = ' ' || c = '\t' || c = '\n' || c = '\r') (text ++ rest))
    (h : Takes (multilineRest '"' fuel done) text rest result) :
    Takes (multilineRest '"' (fuel + 1) done) ('\\' :: (b ++ (e ++ (g ++ text)))) rest result := by
  have hcontinues : Takes continues (b ++ (e ++ g)) (text ++ rest) (some true) := by
    have hdrop : (b ++ (e ++ g) ++ (text ++ rest)).dropWhile (fun c => c = ' ' || c = '\t') =
        e ++ (g ++ (text ++ rest)) := by
      rw [List.append_assoc, List.append_assoc, List.dropWhile_append_of_pos
        (show ∀ c ∈ b, (decide (c = ' ') || decide (c = '\t')) = true from hb)]
      cases he <;> exact List.dropWhile_cons_of_neg (by decide)
    have hend : (['\n'].isPrefixOf (e ++ (g ++ (text ++ rest))) ||
        ['\r', '\n'].isPrefixOf (e ++ (g ++ (text ++ rest)))) = true := by
      cases he <;> simp [List.isPrefixOf]
    refine (takes_unread _).look ?_
    dsimp only
    rw [hdrop, if_pos hend]
    exact (takes_run (fun c hc => mem_of_isFold (.line hb he hg) hc) hnext).last
      (takes_pure true _)
  refine takes_multilineRest_next (length_takeWhile_of_ne (by decide) _) (by decide) (by decide) ?_
  rw [if_pos ⟨rfl, rfl⟩, ← List.append_assoc, ← List.append_assoc, List.append_assoc b]
  refine hcontinues.next ?_
  rw [if_pos rfl]
  exact h

/-- The rest of a string over several lines is taken. -/
theorem takes_multilineRest {s t : List Char} (h : SpellsLines quote s t)
    (hquote : quote = '"' ∨ quote = '\'') {extra : Nat} (hextra : extra ≤ 2)
    (hrest : Stops (· = quote) rest) (hfuel : s.length < fuel) :
    Takes (multilineRest quote fuel done) (s ++ List.replicate (extra + 3) quote) rest
      (some (done.reverse ++ (t ++ List.replicate extra quote))) := by
  have hshift : ∀ (done : List Char) (c : Char) (t : List Char),
      (c :: done).reverse ++ (t ++ List.replicate extra quote) =
        done.reverse ++ (c :: t ++ List.replicate extra quote) := fun done c t => by
    rw [List.reverse_cons, List.append_assoc]
    rfl
  -- Along what is written: each part leaves the characters read so far in front of the rest.
  induction h generalizing fuel done with
  | nil =>
    obtain ⟨fuel, rfl⟩ : ∃ n, fuel = n + 1 := ⟨fuel - 1, by omega⟩
    exact takes_multilineRest_close hextra hrest
  | @plain c s t hc hne hslash hs ih =>
    obtain ⟨fuel, rfl⟩ : ∃ n, fuel = n + 1 := ⟨fuel - 1, by omega⟩
    have hinner : Takes (multilineRest quote fuel (c :: done)) _ rest _ :=
      ih (Nat.lt_of_succ_lt_succ hfuel)
    rw [hshift] at hinner
    exact takes_multilineRest_plain (length_takeWhile_of_ne hne _) hc hslash hinner
  | @quote s t hnext hs ih =>
    obtain ⟨fuel, rfl⟩ : ∃ n, fuel = n + 1 := ⟨fuel - 1, by omega⟩
    have hinner : Takes (multilineRest quote fuel (quote :: done)) _ rest _ :=
      ih (Nat.lt_of_succ_lt_succ hfuel)
    rw [hshift] at hinner
    -- It does not close the string, since at most one more quote follows.
    refine takes_multilineRest_plain ?_ ?_ ?_ hinner
    · show ((quote :: (s ++ List.replicate (extra + 3) quote ++ rest)).takeWhile _).length < 3
      rw [List.append_assoc]
      exact length_takeWhile_of_next hnext _
    · rcases hquote with rfl | rfl <;> decide
    · rintro rfl
      exact hquote.resolve_left (by decide)
  | @line e s t he hs ih =>
    obtain ⟨fuel, rfl⟩ : ∃ n, fuel = n + 1 := ⟨fuel - 1, by omega⟩
    have hlen : s.length < fuel := by
      cases he <;> simp only [List.length_append, List.length_cons, List.length_nil] at hfuel <;>
        omega
    have hinner : Takes (multilineRest quote fuel ('\n' :: done)) _ rest _ := ih hlen
    rw [hshift] at hinner
    have hfew : ∀ more : List Char, ((e ++ more).takeWhile (· = quote)).length < 3 := fun more => by
      cases he <;> exact length_takeWhile_of_ne (by rintro rfl; simp at hquote) _
    rw [multilineRest, List.append_assoc]
    refine (takes_unread _).look ?_
    dsimp only
    rw [List.append_assoc, if_neg (by simpa using hfew _)]
    refine (takes_lineEnd he _).next ?_
    rw [if_pos rfl]
    exact hinner
  | @escape mark c s t hdouble hmark hs ih =>
    subst hdouble
    obtain ⟨fuel, rfl⟩ : ∃ n, fuel = n + 1 := ⟨fuel - 1, by omega⟩
    have hinner : Takes (multilineRest '"' fuel (c :: done)) _ rest _ :=
      ih (by simp only [List.length_cons] at hfuel; omega)
    rw [hshift] at hinner
    have hescape : Takes Parser.escape [mark] (s ++ List.replicate (extra + 3) '"' ++ rest)
        (some c) := takes_escape hmark _
    have hall := takes_multilineRest_escape
      ((show ∀ m ∈ escapes, m.1 ∉ [' ', '\t', '\n', '\r'] by decide) _ hmark) hescape hinner
    exact hall
  | @code mark c digits s t hdouble hmark hcode hs ih =>
    subst hdouble
    obtain ⟨fuel, rfl⟩ : ∃ n, fuel = n + 1 := ⟨fuel - 1, by omega⟩
    have hinner : Takes (multilineRest '"' fuel (c :: done)) _ rest _ :=
      ih (by simp only [List.length_cons, List.length_append] at hfuel; omega)
    rw [hshift] at hinner
    have hall := takes_multilineRest_escape
      ((show ∀ m ∈ codes, m.1 ∉ [' ', '\t', '\n', '\r'] by decide) _ hmark)
      (takes_code hmark hcode _) hinner
    simpa only [List.cons_append, List.append_assoc] using hall
  | @join b e g s t hdouble hb he hg hnext hs ih =>
    subst hdouble
    obtain ⟨fuel, rfl⟩ : ∃ n, fuel = n + 1 := ⟨fuel - 1, by omega⟩
    have hinner : Takes (multilineRest '"' fuel done) _ rest _ :=
      ih (by simp only [List.length_cons, List.length_append] at hfuel; omega)
    -- The join ends where the string goes on, which may be its closing quotes.
    have hstop : Stops (fun c => c = ' ' || c = '\t' || c = '\n' || c = '\r')
        (s ++ List.replicate (extra + 3) '"' ++ rest) := by
      cases s with
      | nil => exact stops_cons (by decide) _
      | cons c s =>
        refine stops_cons ?_ _
        have hc := hnext c rfl
        simp only [List.mem_cons, List.not_mem_nil, or_false, not_or] at hc
        simp [hc]
    have hall := takes_multilineRest_join hb he hg hstop hinner
    simpa only [List.cons_append, List.append_assoc] using hall

/-- A string begins with a quote. -/
theorem exists_of_isText {t : List Char} (h : IsText text t) :
    ∃ quote body, text = quote :: body ∧ (quote = '"' ∨ quote = '\'') := by
  cases h with
  | line hs =>
    obtain ⟨quote, body, htext, hquote, -⟩ := takes_oneLine hs []
    exact ⟨quote, body, htext, hquote⟩
  | lines hquote => exact ⟨_, _, rfl, hquote⟩

/-- A string is taken. -/
theorem takes_text {t : List Char} (h : IsText text t)
    (hrest : Stops (fun c => c = '"' || c = '\'') rest) :
    Takes string text rest (some (String.ofList t)) := by
  cases h with
  | line hs => exact takes_string hs hrest
  | @lines quote e s t extra hquote he hs hextra =>
    have hstop : Stops (· = quote) rest := hrest.imp fun c hc => by
      rw [of_decide_eq_true hc]
      rcases hquote with rfl | rfl <;> rfl
    have hlines : Takes (multiline quote) (e ++ (s ++ List.replicate (extra + 3) quote)) rest
        (some (t ++ List.replicate extra quote)) := by
      have hread : Takes (do multilineRest quote ((← unread).length + 1) [])
          (s ++ List.replicate (extra + 3) quote) rest (some (t ++ List.replicate extra quote)) :=
        (takes_unread _).look (takes_multilineRest hs hquote hextra hstop
          (by simp only [List.length_append]; omega))
      rcases he with he | ⟨rfl, hfirst⟩
      · exact (takes_lineEnd he _).next hread
      · -- No line end is dropped that belongs to the string.
        have hnone : Takes lineEnd? [] (s ++ List.replicate (extra + 3) quote ++ rest)
            (some false) := by
          refine takes_lineEnd_none ?_
          cases s with
          | nil => rcases hquote with rfl | rfl <;> exact stops_cons (by decide) _
          | cons c s => exact stops_cons (by simpa using hfirst c rfl) _
        exact hnone.look hread
    have hquotes : ¬ (quote ≠ '"' ∧ quote ≠ '\'') := fun hne => hquote.elim hne.1 hne.2
    refine (takes_take quote _).next ?_
    rw [if_neg hquotes]
    exact (takes_skip [quote, quote] _).next (hlines.map String.ofList)

end MessageBroker.Config.Toml.Parser
