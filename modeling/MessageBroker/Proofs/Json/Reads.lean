import MessageBroker.Json.Cursor
import MessageBroker.Proofs.Numeric.Decimal
import MessageBroker.Text.Utf8

/-!
# What a reader makes of a text

`Reads p text rest r` says what a reader does where a text stands before some rest: it takes the
text and gives the result, or it fails if there is none. Where lines and columns are does not matter
for that. The text of a composed reader is that of its parts, one behind the other (`Reads.bind`,
and `Reads.next` behind a success), so what the reader makes of a written value is derived along the
text of the value. The lemmas on single steps come first.
-/

namespace MessageBroker.Json.Reader

variable {α β : Type} {p : Reader α} {text text' rest : List UInt8}

/-- Where the text stands before the rest, the reader takes it and gives the result; without a
result, it fails there. -/
def Reads (p : Reader α) (text rest : List UInt8) (result : Option α) : Prop :=
  ∀ c : Cursor, c.rest = text ++ rest → match result with
    | some a => ∃ c', p c = .ok (a, c') ∧ c'.rest = rest
    | none => ∃ e, p c = .error e

/-! ## Composition -/

/-- A reader goes on where another one stopped. -/
theorem bind_ok {f : α → Reader β} {c c' : Cursor} {a : α} (h : p c = .ok (a, c')) :
    (p >>= f) c = f a c' := by
  show (p c).bind (fun s => f s.1 s.2) = _
  rw [h]
  rfl

/-- A reader fails where its first step does. -/
theorem bind_error {f : α → Reader β} {c : Cursor} {e : ReadError} (h : p c = .error e) :
    (p >>= f) c = .error e := by
  show (p c).bind (fun s => f s.1 s.2) = _
  rw [h]
  rfl

/-- A result that is given without reading. -/
theorem reads_pure (a : α) (rest : List UInt8) : Reads (pure a) [] rest (some a) :=
  fun c hc => ⟨c, rfl, hc⟩

/-- A fault behind the next byte. -/
theorem reads_failNext (fault : Fault) (text rest : List UInt8) :
    Reads (failNext fault : Reader α) text rest none := fun _ _ => ⟨_, rfl⟩

namespace Reads

/-- One reader behind the other: if the first one fails, both do. -/
theorem bind {result : Option α} {f : α → Reader β} {g : α → Option β}
    (hp : Reads p text (text' ++ rest) result)
    (hf : ∀ a, result = some a → Reads (f a) text' rest (g a)) :
    Reads (p >>= f) (text ++ text') rest (result.bind g) := by
  intro c hc
  rw [List.append_assoc] at hc
  have hfirst := hp c hc
  cases result with
  | none =>
    obtain ⟨e, he⟩ := hfirst
    exact ⟨e, bind_error he⟩
  | some a =>
    obtain ⟨c', hok, hc'⟩ := hfirst
    rw [bind_ok hok]
    exact hf a rfl c' hc'

/-- A reader behind a success. -/
theorem next {a : α} {f : α → Reader β} {result : Option β}
    (hp : Reads p text (text' ++ rest) (some a)) (hf : Reads (f a) text' rest result) :
    Reads (p >>= f) (text ++ text') rest result := by
  refine hp.bind (g := fun _ => result) ?_
  rintro _ ⟨⟩
  exact hf

/-- A reader behind one that takes nothing. -/
theorem look {a : α} {f : α → Reader β} {result : Option β}
    (hp : Reads p [] (text ++ rest) (some a)) (hf : Reads (f a) text rest result) :
    Reads (p >>= f) text rest result := hp.next hf

/-- A reader behind which nothing more is taken: if it fails, both do. -/
theorem bindLast {result : Option α} {f : α → Reader β} {g : α → Option β}
    (hp : Reads p text rest result) (hf : ∀ a, result = some a → Reads (f a) [] rest (g a)) :
    Reads (p >>= f) text rest (result.bind g) := by
  rw [← List.append_nil text]
  exact bind hp hf

/-- Nothing is read behind a failure. -/
theorem failed {f : α → Reader β} (hp : Reads p text (text' ++ rest) none) :
    Reads (p >>= f) (text ++ text') rest none := by
  refine bind hp (g := fun _ => none) ?_
  rintro _ ⟨⟩

/-- A reader behind which nothing more is taken. -/
theorem last {a : α} {f : α → Reader β} {result : Option β}
    (hp : Reads p text rest (some a)) (hf : Reads (f a) [] rest result) :
    Reads (p >>= f) text rest result := by
  rw [← List.append_nil text]
  exact next hp hf

/-- A function of what is read. -/
theorem map {result : Option α} (hp : Reads p text rest result) (f : α → β) :
    Reads (f <$> p) text rest (result.map f) := by
  intro c hc
  have hfirst := hp c hc
  have hmap : (f <$> p) c = (p c).map fun s => (f s.1, s.2) := rfl
  cases result with
  | none =>
    obtain ⟨e, he⟩ := hfirst
    rw [hmap, he]
    exact ⟨e, rfl⟩
  | some a =>
    obtain ⟨c', hok, hc'⟩ := hfirst
    rw [hmap, hok]
    exact ⟨c', rfl, hc'⟩

end Reads

/-! ## Single steps -/

/-- A byte is the number of its character. -/
theorem toNat_ofNat_byte (byte : UInt8) : (Char.ofNat byte.toNat).toNat = byte.toNat := by
  have hlt : byte.toNat < 256 := byte.toNat_lt
  have hvalid : byte.toNat.isValidChar := .inl (by omega)
  unfold Char.ofNat
  rw [dif_pos hvalid]
  rfl

/-- A byte is determined by its character. -/
theorem byte_eq_of_char {byte : UInt8} {c : Char} (h : Char.ofNat byte.toNat = c) :
    byte = UInt8.ofNat c.toNat := by
  rw [← h, toNat_ofNat_byte, UInt8.ofNat_toNat]

/-- A cursor moves on by one byte. -/
theorem next_rest {c : Cursor} {byte : UInt8} {rest : List UInt8} (h : c.rest = byte :: rest) :
    c.next.rest = rest := by
  unfold Cursor.next
  rw [h]
  split
  · contradiction
  · rename_i first others heq
    obtain ⟨-, rfl⟩ := List.cons.inj heq
    split <;> rfl

/-- A cursor moves on by a text. -/
theorem skip_rest {c : Cursor} (h : c.rest = text ++ rest) : (c.skip text.length).rest = rest := by
  induction text generalizing c with
  | nil => exact h
  | cons byte text ih => exact ih (next_rest h)

/-- A text is passed over. -/
theorem reads_pass (text rest : List UInt8) : Reads (pass text.length) text rest (some ()) :=
  fun _ hc => ⟨_, rfl, skip_rest hc⟩

/-- The next character stays where it is. -/
theorem reads_peek (rest : List UInt8) :
    Reads peek [] rest (some (rest.head?.map fun byte => Char.ofNat byte.toNat)) := by
  intro c hc
  have hrest : c.rest = rest := hc
  refine ⟨c, ?_, hrest⟩
  unfold peek Cursor.peek?
  rw [hrest]

/-- The unread bytes stay where they are. -/
theorem reads_unread (rest : List UInt8) : Reads unread [] rest (some rest) := by
  intro c hc
  have hrest : c.rest = rest := hc
  refine ⟨c, ?_, hrest⟩
  unfold unread
  rw [hrest]

/-- A cursor in front of no white space stays there. -/
theorem skipSpace_eq {c : Cursor} (h : ∀ byte ∈ c.rest.head?, Cursor.isSpace byte = false) :
    c.skipSpace = c := by
  have hnone : c.rest.takeWhile Cursor.isSpace = [] := by
    cases hrest : c.rest with
    | nil => rfl
    | cons byte rest =>
      rw [hrest] at h
      rw [List.takeWhile_cons_of_neg (by simp [h byte rfl])]
  unfold Cursor.skipSpace
  rw [hnone]
  rfl

/-- Where no white space stands, there is nothing to pass over. -/
theorem reads_space (h : ∀ byte ∈ rest.head?, Cursor.isSpace byte = false) :
    Reads space [] rest (some ()) := by
  intro c hc
  have hrest : c.rest = rest := hc
  refine ⟨c, ?_, hrest⟩
  unfold space
  rw [skipSpace_eq (hrest ▸ h)]

/-- In front of any other byte, there is no white space to pass over. -/
theorem reads_space_cons {byte : UInt8} (h : Cursor.isSpace byte = false) (rest : List UInt8) :
    Reads space [] (byte :: rest) (some ()) := by
  refine reads_space ?_
  rintro _ ⟨⟩
  exact h

/-- The first character of a value, where no white space stands before it. -/
theorem reads_first {byte : UInt8} (h : Cursor.isSpace byte = false) (rest : List UInt8) :
    Reads first [] (byte :: rest) (some (Char.ofNat byte.toNat)) :=
  (reads_space_cons h rest).look ((reads_peek (byte :: rest)).look (reads_pure _ _))

/-- A word of ASCII characters is taken. -/
theorem reads_word {letters : List Char} (h : ∀ c ∈ letters, c.toNat < 128) (rest : List UInt8) :
    Reads (word letters) (Utf8.encode letters) rest (some ()) := by
  rw [Utf8.encode_of_lt h]
  induction letters with
  | nil => exact reads_pure () rest
  | cons c letters ih =>
    refine (reads_peek _).look ?_
    show Reads (pass 1 >>= _) ([UInt8.ofNat c.toNat] ++ letters.map _) rest _
    refine (reads_pass [_] _).next ?_
    rw [if_pos (Utf8.ofNat_toNat_ofNat (h c List.mem_cons_self))]
    exact ih fun x hx => h x (List.mem_cons_of_mem _ hx)

/-- The digits in front are taken, if none follows them. -/
theorem reads_digits {run : List Char} (h : ∀ c ∈ run, c.isDigit = true)
    (hrest : ∀ byte ∈ rest.head?, (Char.ofNat byte.toNat).isDigit = false) :
    Reads digits (Utf8.encode run) rest (some run) := by
  have hascii : ∀ c ∈ run, c.toNat < 128 := fun c hc => by
    have hbounds := Decimal.toNat_of_isDigit (h c hc)
    omega
  have hchars := Utf8.map_encode_of_lt hascii
  have hrun : ((Utf8.encode run ++ rest).map fun byte => Char.ofNat byte.toNat).takeWhile
      Char.isDigit = run := by
    rw [List.map_append, hchars]
    refine Decimal.takeWhile_digits h fun c hc => ?_
    rw [List.head?_map] at hc
    obtain ⟨byte, hbyte, rfl⟩ := Option.map_eq_some_iff.mp hc
    exact hrest byte hbyte
  have hlen : (Utf8.encode run).length = run.length := by
    rw [Utf8.encode_of_lt hascii, List.length_map]
  have hpass := reads_pass (Utf8.encode run) rest
  rw [hlen] at hpass
  refine (reads_unread _).look ?_
  simp only [hrun]
  exact hpass.last (reads_pure run rest)

end MessageBroker.Json.Reader
