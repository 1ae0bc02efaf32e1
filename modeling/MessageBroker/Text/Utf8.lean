/-!
# Texts as bytes

Message payloads are bytes. A text becomes bytes by UTF-8; bytes become a text only if they are the
UTF-8 form of one.
-/

namespace MessageBroker.Utf8

/-- The UTF-8 form of a text. -/
def encode (s : List Char) : List UInt8 := s.flatMap String.utf8EncodeChar

/-- The UTF-8 form of a string. -/
def ofString (s : String) : List UInt8 := s.toByteArray.data.toList

/-- The string that the bytes encode, if they are the UTF-8 form of one. -/
def toString? (bytes : List UInt8) : Option String := String.fromUTF8? ⟨bytes.toArray⟩

/-- The number of bytes of the character that the bytes begin with, if they begin with one. -/
def leadingSize? (bytes : List UInt8) : Option Nat :=
  [1, 2, 3, 4].find? fun size => size ≤ bytes.length && (toString? (bytes.take size)).isSome

/-- The number of bytes of the characters that the bytes begin with, for at most `fuel` of them. -/
def validSize : (fuel : Nat) → List UInt8 → Nat
  | 0, _ => 0
  | fuel + 1, bytes =>
    match leadingSize? bytes with
    | some size => size + validSize fuel (bytes.drop size)
    | none => 0

/-- The UTF-8 form of a text is that of its parts. -/
theorem encode_append (s s' : List Char) : encode (s ++ s') = encode s ++ encode s' :=
  List.flatMap_append

/-- An ASCII character is one byte. -/
theorem encodeChar_of_lt {c : Char} (h : c.toNat < 128) :
    String.utf8EncodeChar c = [UInt8.ofNat c.toNat] := by
  unfold String.utf8EncodeChar
  exact if_pos (Nat.le_of_lt_succ h)

/-- Whether a text is ASCII is computed character by character. -/
theorem lt_of_all {s : List Char} (h : s.all (fun c => c.toNat < 128) = true) :
    ∀ c ∈ s, c.toNat < 128 :=
  fun c hc => of_decide_eq_true (List.all_eq_true.mp h c hc)

/-- The byte of an ASCII character is read as that character. -/
theorem ofNat_toNat_ofNat {c : Char} (h : c.toNat < 128) :
    Char.ofNat (UInt8.ofNat c.toNat).toNat = c := by
  have hbyte : (UInt8.ofNat c.toNat).toNat = c.toNat := by
    rw [UInt8.toNat_ofNat']
    omega
  rw [hbyte, Char.ofNat_toNat]

/-- Each character of an ASCII text is one byte. -/
theorem encode_of_lt {s : List Char} (h : ∀ c ∈ s, c.toNat < 128) :
    encode s = s.map fun c => UInt8.ofNat c.toNat := by
  induction s with
  | nil => rfl
  | cons c s ih =>
    have hrest := ih fun x hx => h x (List.mem_cons_of_mem _ hx)
    show String.utf8EncodeChar c ++ encode s = _
    rw [encodeChar_of_lt (h c List.mem_cons_self), hrest]
    rfl

/-- The bytes of an ASCII text are read as its characters. -/
theorem map_encode_of_lt {s : List Char} (h : ∀ c ∈ s, c.toNat < 128) :
    (encode s).map (fun byte => Char.ofNat byte.toNat) = s := by
  have hsame : s.map (fun c => Char.ofNat (UInt8.ofNat c.toNat).toNat) = s.map id :=
    List.map_congr_left fun c hc => ofNat_toNat_ofNat (h c hc)
  rw [encode_of_lt h, List.map_map]
  exact hsame.trans (List.map_id s)

/-- No byte of a character beyond ASCII is one of ASCII. -/
theorem le_of_mem_encodeChar {c : Char} (h : 128 ≤ c.toNat) {byte : UInt8}
    (hbyte : byte ∈ String.utf8EncodeChar c) : 128 ≤ byte.toNat := by
  unfold String.utf8EncodeChar at hbyte
  have hlarge : 128 ≤ c.val.toNat := h
  simp only at hbyte
  split at hbyte
  · omega
  · split at hbyte
    · simp only [List.mem_cons, List.not_mem_nil, or_false] at hbyte
      rcases hbyte with rfl | rfl <;> rw [UInt8.toNat_ofNat'] <;> omega
    · split at hbyte
      · simp only [List.mem_cons, List.not_mem_nil, or_false] at hbyte
        rcases hbyte with rfl | rfl | rfl <;> rw [UInt8.toNat_ofNat'] <;> omega
      · simp only [List.mem_cons, List.not_mem_nil, or_false] at hbyte
        rcases hbyte with rfl | rfl | rfl | rfl <;> rw [UInt8.toNat_ofNat'] <;> omega

/-- Reading back the UTF-8 form of a string gives the string. -/
theorem toString?_ofString (s : String) : toString? (ofString s) = some s := by
  have h : (⟨s.toByteArray.data.toList.toArray⟩ : ByteArray) = s.toByteArray := rfl
  unfold toString? ofString
  rw [h, String.fromUTF8?, dif_pos s.isValidUTF8]
  rfl

/-- A string's bytes are those of its characters in turn. -/
theorem ofString_ofList (s : List Char) : ofString (String.ofList s) = encode s := by
  unfold ofString encode String.ofList
  simp [List.utf8Encode]

end MessageBroker.Utf8
