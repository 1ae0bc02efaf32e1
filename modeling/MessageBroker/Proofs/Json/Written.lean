import MessageBroker.Json.Encoding
import MessageBroker.Proofs.Json.Literal
import MessageBroker.Proofs.Json.Normal
import MessageBroker.Proofs.Json.Numeral

/-!
# Written values are read back

A value that fits a shape is written, and read as a value of that shape: the reader takes all of its
text and gives the value in normal form, unless arrays and objects nest too deep in it, and then the
reader fails (`Reader.reads_value`). This goes by induction on how the value fits the shape; the
items of an array and the members of an object are read in turn, each behind its comma
(`reads_items`, `reads_members` and `reads_fieldMembers`). `decodeWithin_encode` is the same for a
whole text.

Each step of the reader takes a byte or enters a value, so fuel of twice the number of bytes is
enough.
-/

namespace MessageBroker.Json

/-! ## Written text -/

/-- A member in bytes, behind the quote in front of its name. -/
def memberBody (m : String × Json) : List UInt8 :=
  Utf8.encode (m.1.toList.flatMap escaped) ++ [34] ++ 58 :: encode m.2

/-- A member in bytes. -/
def encodeMember (m : String × Json) : List UInt8 := 34 :: memberBody m

/-- Items behind the first stand behind commas. -/
theorem writeItems_cons (item : Json) (rest : List Json) :
    writeItems (item :: rest) = item.write ++ rest.flatMap fun v => ',' :: v.write := by
  induction rest generalizing item with
  | nil => exact (List.append_nil _).symm
  | cons next rest ih =>
    rw [List.flatMap_cons, List.cons_append, ← ih next]
    rfl

/-- Members behind the first stand behind commas. -/
theorem writeMembers_cons (m : String × Json) (rest : List (String × Json)) :
    writeMembers (m :: rest) = literal m.1 ++ ':' :: m.2.write ++
      rest.flatMap fun m => ',' :: (literal m.1 ++ ':' :: m.2.write) := by
  induction rest generalizing m with
  | nil => exact (List.append_nil _).symm
  | cons next rest ih =>
    rw [List.flatMap_cons, List.cons_append, ← ih next]
    simp only [writeMembers, List.append_assoc, List.cons_append]

/-- The bytes of items. -/
theorem encode_items (item : Json) (rest : List Json) :
    Utf8.encode (writeItems (item :: rest)) =
      encode item ++ rest.flatMap fun v => 44 :: encode v := by
  rw [writeItems_cons, Utf8.encode_append]
  congr 1
  unfold Utf8.encode
  rw [List.flatMap_assoc]
  rfl

/-- A comma more stands before items if it stands before the first of them too. -/
theorem length_items_le (items : List Json) :
    (items.flatMap fun v => 44 :: encode v).length ≤
      (Utf8.encode (writeItems items)).length + 1 := by
  cases items with
  | nil => exact Nat.zero_le _
  | cons item rest =>
    rw [encode_items, List.flatMap_cons, List.length_append, List.length_append, List.length_cons]
    omega

/-- The bytes of a string literal. -/
theorem encode_literal (s : String) :
    Utf8.encode (literal s) = 34 :: (Utf8.encode (s.toList.flatMap escaped) ++ [34]) := by
  show 34 :: Utf8.encode (_ ++ _) = _
  rw [Utf8.encode_append]
  rfl

/-- The bytes of a name and a value. -/
theorem encode_member (m : String × Json) :
    Utf8.encode (literal m.1 ++ ':' :: m.2.write) = encodeMember m := by
  rw [Utf8.encode_append, encode_literal]
  rfl

/-- A member is longer than its value. -/
theorem length_encode_le (m : String × Json) : (encode m.2).length ≤ (encodeMember m).length := by
  unfold encodeMember memberBody
  simp only [List.length_append, List.length_cons]
  omega

/-- The bytes of members. -/
theorem encode_members (m : String × Json) (rest : List (String × Json)) :
    Utf8.encode (writeMembers (m :: rest)) =
      encodeMember m ++ rest.flatMap fun m => 44 :: encodeMember m := by
  rw [writeMembers_cons, Utf8.encode_append, encode_member]
  congr 1
  unfold Utf8.encode
  rw [List.flatMap_assoc]
  congr 1
  funext next
  exact congrArg (44 :: ·) (encode_member next)

/-- A comma more stands before members if it stands before the first of them too. -/
theorem length_members_le (members : List (String × Json)) :
    (members.flatMap fun m => 44 :: encodeMember m).length ≤
      (Utf8.encode (writeMembers members)).length + 1 := by
  cases members with
  | nil => exact Nat.zero_le _
  | cons m rest =>
    rw [encode_members, List.flatMap_cons, List.length_append, List.length_append,
      List.length_cons]
    omega

/-- The bytes of an array. -/
theorem encode_array (items : List Json) :
    encode (.array items) = 91 :: (Utf8.encode (writeItems items) ++ [93]) := by
  show 91 :: Utf8.encode (_ ++ _) = _
  rw [Utf8.encode_append]
  rfl

/-- The bytes of an object. -/
theorem encode_object (members : List (String × Json)) :
    encode (.object members) = 123 :: (Utf8.encode (writeMembers members) ++ [125]) := by
  show 123 :: Utf8.encode (_ ++ _) = _
  rw [Utf8.encode_append]
  rfl

/-- The text begins with a byte that is not blank and does not close an array. -/
def Opens (text : List UInt8) : Prop :=
  ∃ byte tail, text = byte :: tail ∧ Cursor.isSpace byte = false ∧ byte ≠ 93

/-- Such a text has a byte. -/
theorem Opens.length_pos {text : List UInt8} (h : Opens text) : 1 ≤ text.length := by
  obtain ⟨byte, tail, rfl, -⟩ := h
  exact Nat.succ_pos _

/-- What begins like that still does when more follows. -/
theorem Opens.append {text : List UInt8} (h : Opens text) (more : List UInt8) :
    Opens (text ++ more) := by
  obtain ⟨byte, tail, rfl, hbyte⟩ := h
  exact ⟨byte, tail ++ more, rfl, hbyte⟩

/-- An integer begins with a minus sign or a digit. -/
theorem head_integer (i : Int) : ∃ c tail, Decimal.integer i = c :: tail ∧ c.toNat < 128 ∧
    (c = '-' || c.isDigit) = true := by
  cases i with
  | ofNat n =>
    obtain ⟨c, tail, hdigits⟩ := List.exists_cons_of_ne_nil (Decimal.natural_ne_nil n)
    have hdigit : c.isDigit = true :=
      Decimal.isDigit_of_mem_natural (hdigits ▸ List.mem_cons_self)
    have hbounds := Decimal.toNat_of_isDigit hdigit
    exact ⟨c, tail, hdigits, by omega, by rw [hdigit, Bool.or_true]⟩
  | negSucc n => exact ⟨'-', _, rfl, by decide, rfl⟩

/-- What an integer begins with is neither blank nor a closing bracket. -/
theorem isSpace_of_numeric {c : Char} (h : (c = '-' || c.isDigit) = true) :
    Cursor.isSpace (UInt8.ofNat c.toNat) = false ∧ UInt8.ofNat c.toNat ≠ 93 := by
  rcases Bool.or_eq_true_iff.mp h with hminus | hdigit
  · rw [of_decide_eq_true hminus]
    decide
  · have hbounds := Decimal.toNat_of_isDigit hdigit
    have hall : ∀ n ≤ 57, 48 ≤ n →
        Cursor.isSpace (UInt8.ofNat n) = false ∧ UInt8.ofNat n ≠ 93 := by decide
    exact hall c.toNat hbounds.2 hbounds.1

/-- The bytes of an integer, by its first character. -/
theorem encode_integer (i : Int) : ∃ c tail, encode (.integer i) = UInt8.ofNat c.toNat :: tail ∧
    c.toNat < 128 ∧ (c = '-' || c.isDigit) = true := by
  obtain ⟨c, tail, hwrite, hascii, hnumeric⟩ := head_integer i
  refine ⟨c, Utf8.encode tail, ?_, hascii, hnumeric⟩
  show Utf8.encode (Decimal.integer i) = _
  rw [hwrite]
  show String.utf8EncodeChar c ++ _ = _
  rw [Utf8.encodeChar_of_lt hascii]
  rfl

/-- A written value begins with such a byte. -/
theorem Fits.opens {shape : Shape} {v : Json} (h : Fits shape v) : Opens (encode v) := by
  have hinteger : ∀ i, Opens (encode (.integer i)) := by
    intro i
    obtain ⟨c, tail, hbytes, -, hnumeric⟩ := encode_integer i
    exact ⟨_, tail, hbytes, isSpace_of_numeric hnumeric⟩
  cases h with
  | null => exact ⟨110, _, rfl, rfl, by decide⟩
  | boolean b => cases b <;> exact ⟨_, _, rfl, rfl, by decide⟩
  | number | integer => exact hinteger _
  | text s | string s => exact ⟨34, _, rfl, rfl, by decide⟩
  | timestamp => exact ⟨34, _, rfl, rfl, by decide⟩
  | array | list => exact ⟨91, _, rfl, rfl, by decide⟩
  | object | map | record => exact ⟨123, _, rfl, rfl, by decide⟩

namespace Reader

variable {α : Type} {fuel depth : Nat} {rest : List UInt8}

/-! ## Brackets -/

/-- Inside a bracket, one level less is left. -/
theorem reads_enter (depth : Nat) (byte : UInt8) (rest : List UInt8) :
    Reads (enter (depth + 1)) [byte] rest (some depth) :=
  (reads_pass [byte] rest).last (reads_pure depth rest)

/-- A result is given behind a closing bracket. -/
theorem reads_close {ending : Cursor → Cursor × Option Fault} {byte : UInt8}
    (h : ∀ c : Cursor, c.skipSpace = c → c.peek? = some (Char.ofNat byte.toNat) →
      ending c = (c.next, none)) (hbyte : Cursor.isSpace byte = false) (a : α)
    (rest : List UInt8) : Reads (close ending (.ok a)) [byte] rest (some a) := by
  intro c hc
  have hspace : c.skipSpace = c := skipSpace_eq (by rw [hc]; rintro _ ⟨⟩; exact hbyte)
  have hpeek : c.peek? = some (Char.ofNat byte.toNat) := by
    unfold Cursor.peek?
    rw [hc]
    rfl
  refine ⟨c.next, ?_, next_rest hc⟩
  unfold close
  simp only [h c hspace hpeek]

/-- A result is given behind the closing bracket of an array. -/
theorem reads_endList (a : α) (rest : List UInt8) :
    Reads (close endList (.ok a)) [93] rest (some a) := by
  refine reads_close (fun c hspace hpeek => ?_) rfl a rest
  have hbracket : c.peek? = some ']' := hpeek
  unfold endList
  simp only [hspace, hbracket]

/-- A result is given behind the closing brace of an object. -/
theorem reads_endObject (a : α) (rest : List UInt8) :
    Reads (close endObject (.ok a)) [125] rest (some a) := by
  refine reads_close (fun c hspace hpeek => ?_) rfl a rest
  have hbrace : c.peek? = some '\x7d' := hpeek
  unfold endObject
  simp only [hspace, hbrace]

/-- An array that is closed has no further item. -/
theorem reads_hasItem_end (isFirst : Bool) (rest : List UInt8) :
    Reads (hasItem isFirst) [] (93 :: rest) (some false) :=
  (reads_space_cons rfl rest).look ((reads_peek _).look (reads_pure false _))

/-- The first item of an array is seen. -/
theorem reads_hasItem_first (h : Opens rest) : Reads (hasItem true) [] rest (some true) := by
  obtain ⟨byte, tail, rfl, hspace, hclose⟩ := h
  unfold hasItem
  refine (reads_space_cons hspace tail).look ((reads_peek _).look ?_)
  split
  · rename_i heq
    cases heq
  · rename_i heq
    exact absurd (byte_eq_of_char (Option.some.inj heq)) hclose
  · exact reads_pure true _

/-- A further item is seen behind its comma. -/
theorem reads_hasItem_next (h : Opens rest) : Reads (hasItem false) [44] rest (some true) := by
  obtain ⟨byte, tail, rfl, hspace, hclose⟩ := h
  refine (reads_space_cons rfl _).look ((reads_peek _).look ?_)
  refine (reads_pass [44] _).last ((reads_first hspace _).look ?_)
  rw [if_neg fun heq => hclose (byte_eq_of_char heq)]
  exact reads_pure true _

/-- An object that is closed has no further member. -/
theorem reads_hasMember_end (isFirst : Bool) (rest : List UInt8) :
    Reads (hasMember isFirst) [] (125 :: rest) (some false) :=
  (reads_space_cons rfl rest).look ((reads_peek _).look (reads_pure false _))

/-- The first member of an object is seen, and the quote in front of its name is taken. -/
theorem reads_hasMember_first (rest : List UInt8) :
    Reads (hasMember true) [34] rest (some true) := by
  refine (reads_space_cons rfl _).look ((reads_peek _).look ?_)
  refine Reads.look (a := '"') ?_ ?_
  · rw [if_pos rfl]
    exact reads_pure '"' _
  · rw [if_pos rfl]
    exact (reads_pass [34] rest).last (reads_pure true rest)

/-- A further member is seen behind its comma. -/
theorem reads_hasMember_next (rest : List UInt8) :
    Reads (hasMember false) [44, 34] rest (some true) := by
  have hquote : Reads (do
      pass 1
      let c ← first
      if c = '\x7d' then failNext .trailingComma else return c) [44] ([34] ++ rest) (some '"') := by
    refine (reads_pass [44] _).last ((reads_first rfl rest).look ?_)
    rw [if_neg (by decide)]
    exact reads_pure '"' _
  refine (reads_space_cons rfl _).look ((reads_peek _).look ?_)
  refine hquote.next ?_
  rw [if_pos rfl]
  exact (reads_pass [34] rest).last (reads_pure true rest)

/-- The colon behind a name is taken. -/
theorem reads_colon (rest : List UInt8) : Reads colon [58] rest (some ()) :=
  (reads_space_cons rfl rest).look ((reads_peek _).look (reads_pass [58] rest))

/-! ## Items and members -/

/-- Behind a comma and in front of a closing bracket, a value has come to its end. -/
theorem closes_flatMap {β : Type} {l : List β} {f : β → List UInt8} {byte : UInt8}
    (hbyte : byte = 93 ∨ byte = 125) (rest : List UInt8) :
    Closes (l.flatMap (fun b => 44 :: f b) ++ byte :: rest) := by
  cases l with
  | nil =>
    rintro _ ⟨⟩
    exact .inr hbyte
  | cons b l =>
    rintro _ ⟨⟩
    exact .inl rfl

/-- A value is read from its text where arrays and objects may nest so deep. -/
def ReadsBack (shape : Shape) (depth : Nat) (v : Json) : Prop :=
  ∀ fuel rest, 2 * (encode v).length ≤ fuel → Closes rest →
    Reads (value fuel depth shape) (encode v) rest (v.readBack depth)

/-- Items are read up to the end of their array, those behind the first behind their commas. -/
theorem reads_items {item : Shape} {vs : List Json} (hopens : ∀ v ∈ vs, Opens (encode v))
    (hvs : ∀ v ∈ vs, ReadsBack item depth v)
    (hpos : 1 ≤ fuel) (hfuel : 2 * (vs.flatMap fun v => 44 :: encode v).length ≤ fuel) :
    Reads (items fuel depth item false) (vs.flatMap fun v => 44 :: encode v) (93 :: rest)
      (vs.mapM (readBack depth)) ∧
    Reads (items fuel depth item true) (Utf8.encode (writeItems vs)) (93 :: rest)
      (vs.mapM (readBack depth)) := by
  induction vs generalizing fuel with
  | nil =>
    obtain ⟨fuel, rfl⟩ : ∃ n, fuel = n + 1 := ⟨fuel - 1, by omega⟩
    have hend : ∀ isFirst, Reads (items (fuel + 1) depth item isFirst) [] (93 :: rest)
        (some []) := by
      intro isFirst
      rw [items]
      refine (reads_hasItem_end isFirst rest).look ?_
      rw [if_neg Bool.false_ne_true]
      exact reads_pure [] _
    exact ⟨hend false, hend true⟩
  | cons v vs ih =>
    obtain ⟨fuel, rfl⟩ : ∃ n, fuel = n + 1 := ⟨fuel - 1, by omega⟩
    rw [List.flatMap_cons, List.length_append, List.length_cons] at hfuel
    have hclosed : Closes (vs.flatMap (fun v => 44 :: encode v) ++ 93 :: rest) :=
      closes_flatMap (.inl rfl) rest
    have hhead := hvs v List.mem_cons_self fuel _ (by omega) hclosed
    have hrest := (ih (fun x hx => hopens x (List.mem_cons_of_mem _ hx))
      (fun x hx => hvs x (List.mem_cons_of_mem _ hx)) (by omega : 1 ≤ fuel) (by omega)).1
    have hopen := ((hopens v List.mem_cons_self).append
      (vs.flatMap fun v => 44 :: encode v)).append (93 :: rest)
    -- Once the item is seen, it does not matter whether it is the first one.
    have hitem : ∀ isFirst before, Reads (hasItem isFirst) before
          (encode v ++ vs.flatMap (fun v => 44 :: encode v) ++ 93 :: rest) (some true) →
        Reads (items (fuel + 1) depth item isFirst)
          (before ++ (encode v ++ vs.flatMap fun v => 44 :: encode v)) (93 :: rest)
          ((v :: vs).mapM (readBack depth)) := by
      intro isFirst before hmore
      rw [items, List.mapM_cons]
      refine hmore.next ?_
      rw [if_pos rfl]
      exact hhead.bind fun a _ => hrest.bindLast fun others _ => reads_pure (a :: others) _
    rw [List.flatMap_cons, encode_items]
    exact ⟨hitem false [44] (reads_hasItem_next hopen), hitem true [] (reads_hasItem_first hopen)⟩

/-- Members are read up to the end of their object, those behind the first behind their commas. -/
theorem reads_members {inner : Shape} {ms : List (String × Json)} {done : List (String × Json)}
    (hms : ∀ m ∈ ms, ReadsBack inner depth m.2)
    (hpos : 1 ≤ fuel) (hfuel : 2 * (ms.flatMap fun m => 44 :: encodeMember m).length ≤ fuel) :
    Reads (members fuel depth inner false done) (ms.flatMap fun m => 44 :: encodeMember m)
      (125 :: rest) (readMembers depth ms done) ∧
    Reads (members fuel depth inner true done) (Utf8.encode (writeMembers ms))
      (125 :: rest) (readMembers depth ms done) := by
  induction ms generalizing fuel done with
  | nil =>
    obtain ⟨fuel, rfl⟩ : ∃ n, fuel = n + 1 := ⟨fuel - 1, by omega⟩
    have hend : ∀ isFirst, Reads (members (fuel + 1) depth inner isFirst done) [] (125 :: rest)
        (some done) := by
      intro isFirst
      rw [members]
      refine (reads_hasMember_end isFirst rest).look ?_
      rw [if_neg Bool.false_ne_true]
      exact reads_pure done _
    exact ⟨hend false, hend true⟩
  | cons m ms ih =>
    obtain ⟨fuel, rfl⟩ : ∃ n, fuel = n + 1 := ⟨fuel - 1, by omega⟩
    have hlen := length_encode_le m
    rw [List.flatMap_cons, List.length_append, List.length_cons] at hfuel
    have hclosed : Closes (ms.flatMap (fun m => 44 :: encodeMember m) ++ 125 :: rest) :=
      closes_flatMap (.inr rfl) rest
    have hvalue := hms m List.mem_cons_self fuel _ (by omega) hclosed
    have hrest : ∀ table, _ := fun table =>
      (@ih fuel table (fun x hx => hms x (List.mem_cons_of_mem _ hx)) (by omega) (by omega)).1
    -- Once its quote is taken, it does not matter whether the member is the first one.
    have hmember : ∀ isFirst before, Reads (hasMember isFirst) before
          (memberBody m ++ ms.flatMap (fun m => 44 :: encodeMember m) ++ 125 :: rest) (some true) →
        Reads (members (fuel + 1) depth inner isFirst done)
          (before ++ (memberBody m ++ ms.flatMap fun m => 44 :: encodeMember m)) (125 :: rest)
          (readMembers depth (m :: ms) done) := by
      intro isFirst before hmore
      rw [members, readMembers_cons]
      refine hmore.next ?_
      rw [if_pos rfl, memberBody, List.append_assoc]
      refine (reads_literal m.1 _).next ?_
      refine (reads_colon _).next ?_
      exact hvalue.bind fun v _ => hrest (Entries.insert m.1 v done)
    rw [List.flatMap_cons, encode_members]
    exact ⟨hmember false [44, 34] (reads_hasMember_next _),
      hmember true [34] (reads_hasMember_first _)⟩

/-- The members of a record are read as its fields. -/
theorem reads_fieldMembers {fields : List (String × Shape)} {ms : List (String × Json)}
    {done : List (String × Json)} (hnodup : (ms.map Prod.fst).Nodup)
    (hdone : ∀ m ∈ ms, Entries.find? m.1 done = none)
    (hms : ∀ m ∈ ms, ∃ shape, Entries.find? m.1 fields = some shape ∧
      ReadsBack shape depth m.2)
    (hpos : 1 ≤ fuel) (hfuel : 2 * (ms.flatMap fun m => 44 :: encodeMember m).length ≤ fuel) :
    Reads (fieldMembers fuel depth fields false done) (ms.flatMap fun m => 44 :: encodeMember m)
      (125 :: rest) ((readMembers depth ms done).map Except.ok) ∧
    Reads (fieldMembers fuel depth fields true done) (Utf8.encode (writeMembers ms))
      (125 :: rest) ((readMembers depth ms done).map Except.ok) := by
  induction ms generalizing fuel done with
  | nil =>
    obtain ⟨fuel, rfl⟩ : ∃ n, fuel = n + 1 := ⟨fuel - 1, by omega⟩
    have hend : ∀ isFirst, Reads (fieldMembers (fuel + 1) depth fields isFirst done) []
        (125 :: rest) (some (Except.ok done)) := by
      intro isFirst
      rw [fieldMembers]
      refine (reads_hasMember_end isFirst rest).look ?_
      rw [if_neg Bool.false_ne_true]
      exact reads_pure (Except.ok done) _
    exact ⟨hend false, hend true⟩
  | cons m ms ih =>
    obtain ⟨fuel, rfl⟩ : ∃ n, fuel = n + 1 := ⟨fuel - 1, by omega⟩
    obtain ⟨hnew, hnodup⟩ := List.nodup_cons.mp hnodup
    obtain ⟨shape, hshape, hback⟩ := hms m List.mem_cons_self
    have hfree : Entries.find? m.1 done = none := hdone m List.mem_cons_self
    rw [List.flatMap_cons, List.length_append, List.length_cons] at hfuel
    have hlen := length_encode_le m
    have hclosed : Closes (ms.flatMap (fun m => 44 :: encodeMember m) ++ 125 :: rest) :=
      closes_flatMap (.inr rfl) rest
    have hvalue := hback fuel _ (by omega) hclosed
    have hrest : ∀ v, _ := fun v =>
      (@ih fuel (Entries.insert m.1 v done) hnodup (fun x hx => by
        have hother : x.1 ≠ m.1 := fun he => hnew (he ▸ List.mem_map_of_mem hx)
        rw [Entries.find?_insert_ne hother]
        exact hdone x (List.mem_cons_of_mem _ hx))
        (fun x hx => hms x (List.mem_cons_of_mem _ hx)) (by omega) (by omega)).1
    have hmember : ∀ isFirst before, Reads (hasMember isFirst) before
          (memberBody m ++ ms.flatMap (fun m => 44 :: encodeMember m) ++ 125 :: rest) (some true) →
        Reads (fieldMembers (fuel + 1) depth fields isFirst done)
          (before ++ (memberBody m ++ ms.flatMap fun m => 44 :: encodeMember m)) (125 :: rest)
          ((readMembers depth (m :: ms) done).map Except.ok) := by
      intro isFirst before hmore
      rw [fieldMembers, readMembers_cons, Option.map_bind]
      refine hmore.next ?_
      rw [if_pos rfl, memberBody, List.append_assoc]
      refine (reads_literal m.1 _).next ?_
      simp only [hshape, hfree, Option.isSome_none, Bool.false_eq_true, if_false]
      refine (reads_colon _).next ?_
      exact hvalue.bind fun v _ => hrest v
    rw [List.flatMap_cons, encode_members]
    exact ⟨hmember false [44, 34] (reads_hasMember_next _),
      hmember true [34] (reads_hasMember_first _)⟩

/-! ## Values -/

/-- An array is read back if its items are. -/
theorem reads_array {item : Shape} {vs : List Json} (hopens : ∀ v ∈ vs, Opens (encode v))
    (hvs : ∀ v ∈ vs, ∀ depth, ReadsBack item depth v)
    (hfuel : 2 * (encode (.array vs)).length ≤ fuel + 2) :
    Reads (do
      let inner ← enter depth
      let found ← items fuel inner item true
      close endList (.ok (.array found))) (encode (.array vs)) rest
      ((Json.array vs).readBack depth) := by
  cases depth with
  | zero =>
    rw [readBack_array_zero]
    exact (reads_failNext .tooDeep [] _).failed
  | succ depth =>
    have hlen := length_items_le vs
    rw [encode_array] at hfuel ⊢
    rw [List.length_cons, List.length_append, List.length_singleton] at hfuel
    have hitems : Reads (items fuel depth item true) _ (93 :: rest) _ :=
      (reads_items hopens (fun v hv => hvs v hv depth) (by omega) (by omega)).2
    rw [readBack_array_succ]
    refine (reads_enter depth 91 _).next ?_
    rw [Option.map_eq_bind]
    exact hitems.bind fun found _ => reads_endList (Json.array found) rest

/-- An object is read back if the values of its members are. -/
theorem reads_object {inner : Shape} {ms : List (String × Json)}
    (hms : ∀ m ∈ ms, ∀ depth, ReadsBack inner depth m.2)
    (hfuel : 2 * (encode (.object ms)).length ≤ fuel + 2) :
    Reads (do
      let depth ← enter depth
      let found ← members fuel depth inner true []
      close endObject (.ok (.object found))) (encode (.object ms)) rest
      ((Json.object ms).readBack depth) := by
  cases depth with
  | zero =>
    rw [readBack_object_zero]
    exact (reads_failNext .tooDeep [] _).failed
  | succ depth =>
    have hlen := length_members_le ms
    rw [encode_object] at hfuel ⊢
    rw [List.length_cons, List.length_append, List.length_singleton] at hfuel
    have hmembers : Reads (members fuel depth inner true []) _ (125 :: rest) _ :=
      (reads_members (fun m hm => hms m hm depth) (by omega) (by omega)).2
    rw [readBack_object_succ]
    refine (reads_enter depth 123 _).next ?_
    rw [Option.map_eq_bind]
    exact hmembers.bind fun found _ => reads_endObject (Json.object found) rest

/-- The fields of a record are gathered from the members in their order. -/
theorem gather_eq {fields : List (String × Shape)} {ms members : List (String × Json)}
    (hnames : ms.map Prod.fst = fields.map Prod.fst)
    (hfound : ∀ m ∈ ms, Entries.find? m.1 members = some m.2) : gather members fields = .ok ms := by
  induction fields generalizing ms with
  | nil =>
    obtain rfl := List.map_eq_nil_iff.mp hnames
    rfl
  | cons field fields ih =>
    cases ms with
    | nil => cases hnames
    | cons m ms =>
      obtain ⟨hname, hrest⟩ := List.cons.inj hnames
      have hfirst := hfound m List.mem_cons_self
      have hothers := ih hrest fun x hx => hfound x (List.mem_cons_of_mem _ hx)
      obtain ⟨name, shape⟩ := field
      obtain rfl : m.1 = name := hname
      unfold gather
      rw [hfirst, hothers]
      rfl

/-- The fields of a record that was written are gathered in the order in which they were. -/
theorem gather_sorted {fields : List (String × Shape)} {ms : List (String × Json)}
    (hnames : ms.map Prod.fst = fields.map Prod.fst) (hnodup : (fields.map Prod.fst).Nodup) :
    gather (Entries.ofList (sortedMembers ms)) fields = .ok (sortedMembers ms) := by
  have hsorted : (sortedMembers ms).map Prod.fst = fields.map Prod.fst := by
    rw [sortedMembers_eq, List.map_map]
    exact hnames
  have hdifferent : ((sortedMembers ms).map Prod.fst).Nodup := hsorted ▸ hnodup
  refine gather_eq hsorted fun m hm => ?_
  rw [Entries.find?_ofList hdifferent]
  exact (Entries.find?_eq_some_iff_of_nodup hdifferent).mpr hm

/-- A record is read back if the values of its fields are. -/
theorem reads_record {fields : List (String × Shape)} {ms : List (String × Json)}
    (hnames : ms.map Prod.fst = fields.map Prod.fst) (hnodup : (fields.map Prod.fst).Nodup)
    (hms : ∀ m ∈ ms, ∃ shape, Entries.find? m.1 fields = some shape ∧
      ∀ depth, ReadsBack shape depth m.2)
    (hfuel : 2 * (encode (.object ms)).length ≤ fuel + 2) :
    Reads (do
      let inner ← enter depth
      let found ← fieldMembers fuel inner fields true []
      close endObject (found.bind fun found => (gather found fields).map Json.ofMembers))
      (encode (.object ms)) rest ((Json.object ms).readBack depth) := by
  cases depth with
  | zero =>
    rw [readBack_object_zero]
    exact (reads_failNext .tooDeep [] _).failed
  | succ depth =>
    have hlen := length_members_le ms
    rw [encode_object] at hfuel ⊢
    rw [List.length_cons, List.length_append, List.length_singleton] at hfuel
    have hfields : ∀ m ∈ ms, ∃ shape, Entries.find? m.1 fields = some shape ∧
        ReadsBack shape depth m.2 := fun m hm => by
      obtain ⟨shape, hshape, hback⟩ := hms m hm
      exact ⟨shape, hshape, hback depth⟩
    have hmembers : Reads (fieldMembers fuel depth fields true []) _ (125 :: rest) _ :=
      (reads_fieldMembers (hnames ▸ hnodup) (fun _ _ => rfl) hfields (by omega) (by omega)).2
    have hgather := gather_sorted hnames hnodup
    rw [readBack_object_succ]
    refine (reads_enter depth 123 _).next ?_
    rw [readMembers_eq] at hmembers ⊢
    split at hmembers
    · rename_i hle
      rw [if_pos hle]
      refine hmembers.next ?_
      have hresult : (Except.ok (Entries.ofList (sortedMembers ms))).bind
          (fun found => (gather found fields).map Json.ofMembers) =
            .ok (Json.object (Entries.ofList (sortedMembers ms))) := by
        show (gather _ fields).map _ = _
        rw [hgather]
        rfl
      show Reads (close endObject (Except.bind (Except.ok (Entries.ofList _)) _)) _ _ _
      rw [hresult]
      exact reads_endObject _ rest
    · rename_i hdeep
      rw [if_neg hdeep]
      exact hmembers.failed

/-- An integer begins with a character of a numeral, and is read as that integer. -/
theorem reads_integer {i : Int} (h : IsWord i) (hrest : Closes rest) :
    ∃ c, (c = '-' || c.isDigit) = true ∧ Reads first [] (encode (.integer i) ++ rest) (some c) ∧
      Reads numeral (encode (.integer i)) rest (some (.integer i)) := by
  obtain ⟨c, tail, hbytes, hascii, hnumeric⟩ := encode_integer i
  have hfirst := reads_first (isSpace_of_numeric hnumeric).1 (tail ++ rest)
  rw [Utf8.ofNat_toNat_ofNat hascii, ← List.cons_append, ← hbytes] at hfirst
  exact ⟨c, hnumeric, hfirst, reads_numeral h hrest⟩

/-- A string is read where one is expected. -/
theorem reads_string (expected : String) (s : String) (rest : List UInt8) :
    Reads (string expected) (encode (.string s)) rest (some s) := by
  show Reads _ (Utf8.encode (Json.literal s)) rest _
  rw [encode_literal]
  refine (reads_first rfl _).look ?_
  exact (reads_pass [34] _).next (reads_literal s rest)

/-- An array begins with its bracket. -/
theorem reads_first_array (items : List Json) (rest : List UInt8) :
    Reads first [] (encode (.array items) ++ rest) (some '[') := by
  rw [encode_array]
  exact reads_first rfl _

/-- An object begins with its brace. -/
theorem reads_first_object (members : List (String × Json)) (rest : List UInt8) :
    Reads first [] (encode (.object members) ++ rest) (some '\x7b') := by
  rw [encode_object]
  exact reads_first rfl _

/-- A scalar is its own normal form, at any depth. -/
theorem readBack_scalar {v : Json} (hdepth : v.depth = 0) (hsorted : v.sorted = v) (depth : Nat) :
    readBack depth v = some v := by
  unfold readBack
  rw [hdepth, hsorted, if_pos (Nat.zero_le depth)]

/-- A value takes a step to be entered. -/
theorem ReadsBack.of_succ {shape : Shape} {v : Json} (hopens : Opens (encode v))
    (h : ∀ fuel rest, 2 * (encode v).length ≤ fuel + 2 → Closes rest →
      Reads (value (fuel + 1) depth shape) (encode v) rest (v.readBack depth)) :
    ReadsBack shape depth v := by
  intro fuel rest hfuel hrest
  have hpos := hopens.length_pos
  obtain ⟨fuel, rfl⟩ : ∃ n, fuel = n + 1 := ⟨fuel - 1, by omega⟩
  exact h fuel rest (by omega) hrest

/-- A value of any kind takes one more. -/
theorem ReadsBack.of_any {v : Json} (hopens : Opens (encode v))
    (h : ∀ fuel rest, 2 * (encode v).length ≤ fuel + 2 → Closes rest →
      Reads (anyValue (fuel + 1) depth) (encode v) rest (v.readBack depth)) :
    ReadsBack .any depth v := by
  intro fuel rest hfuel hrest
  have hpos := hopens.length_pos
  obtain ⟨fuel, rfl⟩ : ∃ n, fuel = n + 2 := ⟨fuel - 2, by omega⟩
  rw [value]
  exact h fuel rest hfuel hrest

/-- Each value is read back from its text in the shape that it fits. -/
theorem reads_value {shape : Shape} {v : Json} (h : Fits shape v) (depth : Nat) :
    ReadsBack shape depth v := by
  induction h generalizing depth with
  | null =>
    refine .of_any Fits.null.opens fun fuel rest _ _ => ?_
    rw [readBack_scalar rfl rfl, anyValue]
    refine (reads_first rfl _).look ?_
    exact (reads_word (Utf8.lt_of_all rfl) rest).last (reads_pure Json.null rest)
  | boolean b =>
    refine .of_any (Fits.boolean b).opens fun fuel rest _ _ => ?_
    rw [readBack_scalar rfl rfl, anyValue]
    cases b with
    | true =>
      refine (reads_first rfl _).look ?_
      exact (reads_word (Utf8.lt_of_all rfl) rest).last (reads_pure (Json.boolean true) rest)
    | false =>
      refine (reads_first rfl _).look ?_
      exact (reads_word (Utf8.lt_of_all rfl) rest).last (reads_pure (Json.boolean false) rest)
  | number hword =>
    refine .of_any (Fits.number hword).opens fun fuel rest _ hrest => ?_
    obtain ⟨c, hnumeric, hfirst, hnumeral⟩ := reads_integer hword hrest
    rw [readBack_scalar rfl rfl, anyValue]
    refine hfirst.look ?_
    -- No other kind of value begins with a character of a numeral.
    split
    case h_7 =>
      rw [if_pos hnumeric]
      exact hnumeral.map Json.number
    all_goals cases hnumeric
  | text s =>
    refine .of_any (Fits.text s).opens fun fuel rest _ _ => ?_
    rw [readBack_scalar rfl rfl, anyValue]
    show Reads _ (Utf8.encode (Json.literal s)) rest _
    rw [encode_literal]
    refine (reads_first rfl _).look ?_
    exact (reads_pass [34] _).next ((reads_literal s rest).map Json.string)
  | array h ih =>
    refine .of_any (Fits.array h).opens fun fuel rest hfuel _ => ?_
    rw [anyValue]
    refine (reads_first_array _ rest).look ?_
    exact reads_array (fun v hv => (h v hv).opens) ih hfuel
  | object h ih =>
    refine .of_any (Fits.object h).opens fun fuel rest hfuel _ => ?_
    rw [anyValue]
    refine (reads_first_object _ rest).look ?_
    exact reads_object ih hfuel
  | integer hword h =>
    refine .of_succ (Fits.integer hword h).opens fun fuel rest _ hrest => ?_
    obtain ⟨c, hnumeric, hfirst, hnumeral⟩ := reads_integer hword hrest
    rw [readBack_scalar rfl rfl, value]
    refine hfirst.look ?_
    rw [if_pos hnumeric]
    refine hnumeral.last ?_
    simp only
    rw [if_pos h]
    exact reads_pure _ rest
  | string s =>
    refine .of_succ (Fits.string s).opens fun fuel rest _ _ => ?_
    rw [readBack_scalar rfl rfl, value]
    exact (reads_string _ s rest).map Json.string
  | timestamp h =>
    refine .of_succ (Fits.timestamp h).opens fun fuel rest _ _ => ?_
    rw [readBack_scalar rfl rfl, value]
    refine (reads_string _ _ rest).last ?_
    rw [h]
    exact reads_pure _ rest
  | list h ih =>
    refine .of_succ (Fits.list h).opens fun fuel rest hfuel _ => ?_
    rw [value]
    refine (reads_first_array _ rest).look ?_
    exact reads_array (fun v hv => (h v hv).opens) ih hfuel
  | map h ih =>
    refine .of_succ (Fits.map h).opens fun fuel rest hfuel _ => ?_
    rw [value]
    refine (reads_first_object _ rest).look ?_
    exact reads_object ih hfuel
  | @record name fields members hnames hnodup h ih =>
    have hfits : Fits (.record name fields) (.object members) := .record hnames hnodup h
    refine .of_succ hfits.opens fun fuel rest hfuel _ => ?_
    -- Each name of a member is that of a field.
    have hfields : ∀ m ∈ members, ∃ shape, Entries.find? m.1 fields = some shape ∧
        ∀ depth, ReadsBack shape depth m.2 := by
      intro m hm
      have hname : m.1 ∈ fields.map Prod.fst := hnames ▸ List.mem_map_of_mem hm
      obtain ⟨field, hfield, hsame⟩ := List.mem_map.mp hname
      have hshape : Entries.find? m.1 fields = some field.2 :=
        (Entries.find?_eq_some_iff_of_nodup hnodup).mpr (hsame ▸ hfield)
      exact ⟨field.2, hshape, ih m hm field.2 hshape⟩
    rw [value]
    refine (reads_first_object _ rest).look ?_
    exact reads_record hnames hnodup hfields hfuel

end Reader

/-- A written value is read back from its text, in normal form; if it is nested deeper than the
reader allows, reading fails. -/
theorem decodeWithin_encode {shape : Shape} {v : Json} (h : Fits shape v) (depth : Nat) :
    (v.depth ≤ depth → decodeWithin depth shape (encode v) = .ok v.sorted) ∧
    (depth < v.depth → ∃ e, decodeWithin depth shape (encode v) = .error e) := by
  have hvalue := Reader.reads_value h depth (2 * (encode v).length + 4) [] (by omega) closes_nil
  -- What is done behind the value: nothing may follow.
  obtain ⟨finish, hfinish⟩ : ∃ f : Json → Reader Json, f = fun found => do
      Reader.space
      if (← Reader.peek).isSome then Reader.failNext .trailingCharacters
      return found := ⟨_, rfl⟩
  have hdecode : decodeWithin depth shape (encode v) =
      ((Reader.value (2 * (encode v).length + 4) depth shape >>= finish)
        (Cursor.start (encode v))).map Prod.fst := by
    rw [hfinish]
    rfl
  have hend : ∀ found, Reader.Reads (finish found) [] [] (some found) := by
    intro found
    rw [hfinish]
    have hspace : Reader.Reads Reader.space [] [] (some ()) :=
      Reader.reads_space (by rintro _ ⟨⟩)
    exact hspace.look ((Reader.reads_peek []).look fun c hc => ⟨c, rfl, hc⟩)
  have hall := hvalue.bindLast fun found _ => hend found
  have hstart : (Cursor.start (encode v)).rest = encode v ++ [] := (List.append_nil _).symm
  constructor
  · intro hle
    have hread : readBack depth v = some v.sorted := if_pos hle
    rw [hread] at hall
    obtain ⟨c, hok, -⟩ := hall _ hstart
    rw [hdecode, hok]
    rfl
  · intro hlt
    have hread : readBack depth v = none := if_neg (Nat.not_le.mpr hlt)
    rw [hread] at hall
    obtain ⟨e, he⟩ := hall _ hstart
    exact ⟨e, by rw [hdecode, he]; rfl⟩

end MessageBroker.Json
