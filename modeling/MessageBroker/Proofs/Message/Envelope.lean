import MessageBroker.Envelope
import MessageBroker.Proofs.Json.Shaped
import MessageBroker.Proofs.Json.Written
import MessageBroker.Proofs.Time.Timestamp

/-!
# Envelopes are read back as they were written

The text of an envelope is read as that envelope, in whatever order its metadata are listed
(`Envelope.ofText_of_writes`). Only its time of creation may be another one with the same text, if
it lies in a leap second that is none of the calendar. Conversely, what is read of any text is an
envelope that can be written, with a count of leases that 32 bits hold and a time of creation on the
calendar (`Envelope.ofJson?_of_hasShape`). Messages are their envelopes under a fresh lease:
`Message.envelope_round_trip` says that only the lease is lost when a message is written and read,
and that nothing more is lost when that is done again.
-/

namespace MessageBroker

namespace Envelope

open Json

/-! ## Written envelopes -/

/-- The JSON form with the metadata listed in a given order. -/
def listing (e : Envelope) (entries : List (String × String)) : Json := .object [
  ("id", .string e.id),
  ("type", .string e.kind),
  ("payload", .array (e.payload.map fun byte => .natural byte.toNat)),
  ("metadata", .object (entries.map fun entry => (entry.1, .string entry.2))),
  ("timestamp", .string e.createdAt.toText),
  ("retry_count", .natural e.retryCount)]

/-- The text is one of those that write the envelope: the metadata are listed in any order. -/
def Writes (e : Envelope) (text : String) : Prop :=
  ∃ entries, entries.Perm e.metadata.entries ∧ text = (e.listing entries).toText

/-- The text of an envelope writes it. -/
theorem writes_toText (e : Envelope) : e.Writes e.toText :=
  ⟨e.metadata.entries, .refl _, rfl⟩

/-- The envelope with its time of creation carried over. -/
def carried (e : Envelope) : Envelope := { e with createdAt := e.createdAt.carried }

variable {e : Envelope} {entries : List (String × String)}

/-- An envelope has the shape of one. -/
theorem fits_listing (h : e.retryCount ≤ Message.greatestCount) (entries : List (String × String)) :
    Fits shape (e.listing entries) := by
  have hnatural : ∀ {range : IntegerRange} {n : Nat}, range.least = 0 → IsWord range.greatest →
      (n : Int) ≤ range.greatest → Fits (.integer range) (.natural n) := by
    intro range n hleast hword hle
    have hrange : range.least ≤ n ∧ (n : Int) ≤ range.greatest := ⟨by omega, hle⟩
    exact .integer (.of_between ⟨by omega, by rw [hleast]; decide⟩ hword hrange) hrange
  have hpayload : Fits (.list (.integer .byte))
      (.array (e.payload.map fun byte => .natural byte.toNat)) := by
    refine .list (List.forall_mem_map.mpr fun byte _ => hnatural rfl ⟨by decide, by decide⟩ ?_)
    have hlt := byte.toNat_lt
    show (byte.toNat : Int) ≤ 255
    omega
  have hmetadata : Fits (.map .string)
      (.object (entries.map fun entry => (entry.1, .string entry.2))) :=
    .map (List.forall_mem_map.mpr fun entry _ => .string entry.2)
  have hcount : Fits (.integer .count) (.natural e.retryCount) :=
    hnatural rfl ⟨by decide, by decide⟩ (Int.ofNat_le.mpr h)
  exact .of_fields (by decide) (.cons ⟨rfl, .string _⟩ (.cons ⟨rfl, .string _⟩
    (.cons ⟨rfl, hpayload⟩ (.cons ⟨rfl, hmetadata⟩
      (.cons ⟨rfl, .timestamp (Instant.ofText_toText _)⟩ (.cons ⟨rfl, hcount⟩ .nil))))))

/-- Nothing but the payload and the metadata lies in an envelope. -/
theorem depth_listing (e : Envelope) (entries : List (String × String)) :
    (e.listing entries).depth ≤ greatestDepth := by
  have hpayload : depthOfItems (e.payload.map fun byte => .natural byte.toNat) ≤ 0 :=
    depthOfItems_le.mpr (List.forall_mem_map.mpr fun _ _ => Nat.le_refl 0)
  have hmetadata : depthOfMembers (entries.map fun entry => (entry.1, .string entry.2)) ≤ 0 :=
    depthOfMembers_le.mpr (List.forall_mem_map.mpr fun _ _ => Nat.le_refl 0)
  show max 0 (max 0 (max (depthOfItems _ + 1) (max (depthOfMembers _ + 1) (max 0 (max 0 0))))) + 1 ≤
    127
  omega

/-- The bytes of a payload are found in its array. -/
theorem bytes?_map (payload : List UInt8) :
    bytes? (payload.map fun byte => .natural byte.toNat) = some payload := by
  induction payload with
  | nil => rfl
  | cons byte rest ih =>
    unfold bytes? at ih ⊢
    have hbyte : (Json.natural byte.toNat).natural?.map UInt8.ofNat = some byte :=
      congrArg some UInt8.ofNat_toNat
    rw [List.map_cons, List.mapM_cons, hbyte, ih]
    rfl

/-- The texts of a table are found in its object. -/
theorem texts?_map (table : NameTable String) :
    texts? (table.entries.map fun entry => (entry.1, .string entry.2)) = some table := by
  have htexts : ∀ entries : List (String × String),
      (entries.map fun entry => (entry.1, Json.string entry.2)).mapM
        (fun m => m.2.string?.map (Prod.mk m.1)) = some entries := by
    intro entries
    induction entries with
    | nil => rfl
    | cons entry rest ih =>
      rw [List.map_cons, List.mapM_cons, ih]
      rfl
  show (List.mapM (fun m : String × Json => m.2.string?.map (Prod.mk m.1)) _).map
    NameTable.ofList = _
  rw [htexts]
  exact congrArg some table.ofList_entries

/-- The envelope is found in the normal form of its JSON, with the time that is read. -/
theorem ofJson?_sorted (h : entries.Perm e.metadata.entries) :
    ofJson? (e.listing entries).sorted = some e.carried := by
  have hnames : ["id", "type", "payload", "metadata", "timestamp", "retry_count"].Nodup := by
    decide
  have hmember : ∀ name, (e.listing entries).sorted.member? name = (Entries.find? name [
      ("id", .string e.id), ("type", .string e.kind),
      ("payload", .array (e.payload.map fun byte => .natural byte.toNat)),
      ("metadata", .object (entries.map fun entry => (entry.1, .string entry.2))),
      ("timestamp", .string e.createdAt.toText),
      ("retry_count", .natural e.retryCount)]).map sorted :=
    member?_sorted hnames
  have hpayload : (e.listing entries).sorted.member? "payload" =
      some (.array (e.payload.map fun byte => .natural byte.toNat)) := by
    rw [hmember]
    show some (Json.array (sortedItems _)) = _
    rw [sortedItems_eq, List.map_map]
    rfl
  have hmetadata : (e.listing entries).sorted.member? "metadata" =
      some (.object (e.metadata.entries.map fun entry => (entry.1, .string entry.2))) := by
    rw [hmember]
    show some (Json.object (Entries.ofList (sortedMembers _))) = _
    rw [sortedMembers_eq, List.map_map]
    -- The entries are put in order of name again.
    exact congrArg (fun members => some (Json.object members))
      (Entries.ofList_eq_of_perm (h.map _) (e.metadata.increasing.map Json.string))
  have htime : (Instant.ofText e.createdAt.toText).toOption = some e.createdAt.carried := by
    rw [Instant.ofText_toText]
    rfl
  have hid : (e.listing entries).sorted.member? "id" = some (.string e.id) := hmember "id"
  have hkind : (e.listing entries).sorted.member? "type" = some (.string e.kind) := hmember "type"
  have hcreated : (e.listing entries).sorted.member? "timestamp" =
      some (.string e.createdAt.toText) := hmember "timestamp"
  have hcount : (e.listing entries).sorted.member? "retry_count" =
      some (.natural e.retryCount) := hmember "retry_count"
  unfold ofJson?
  rw [hid, hkind, hpayload, hmetadata, hcreated, hcount]
  simp only [Option.bind_eq_bind, Option.bind_some, string?, items?, members?, bytes?_map,
    texts?_map, htime]
  rfl

/-- The envelope of a text is that of its JSON. -/
theorem ofText_of_decode {text : String} {v : Json} (h : decode shape (Utf8.ofString text) = .ok v)
    (he : ofJson? v = some e) : ofText text = .ok e := by
  unfold ofText
  rw [h]
  simp only [Except.bind, he]

/-- Every text of an envelope is read as that. -/
theorem ofText_of_writes {text : String} (h : e.retryCount ≤ Message.greatestCount)
    (ht : e.Writes text) : ofText text = .ok e.carried := by
  obtain ⟨entries, hperm, rfl⟩ := ht
  have hbytes : Utf8.ofString (e.listing entries).toText = encode (e.listing entries) :=
    Utf8.ofString_ofList _
  have hdecode := (decodeWithin_encode (fits_listing h entries) greatestDepth).1
    (depth_listing e entries)
  rw [← hbytes] at hdecode
  exact ofText_of_decode hdecode (ofJson?_sorted hperm)

/-! ## Envelopes that are read -/

/-- If each item is read, the list is. -/
theorem exists_mapM_eq_some {α β : Type} {f : α → Option β} {l : List α}
    (h : ∀ a ∈ l, ∃ b, f a = some b) : ∃ found, l.mapM f = some found := by
  induction l with
  | nil => exact ⟨[], rfl⟩
  | cons a rest ih =>
    obtain ⟨b, hb⟩ := h a List.mem_cons_self
    obtain ⟨found, hfound⟩ := ih fun x hx => h x (List.mem_cons_of_mem _ hx)
    exact ⟨b :: found, by rw [List.mapM_cons, hb, hfound]; rfl⟩

/-- A list of bytes is a payload. -/
theorem exists_bytes?_eq_some {v : Json} (h : HasShape (.list (.integer .byte)) v) :
    ∃ items payload, v = .array items ∧ bytes? items = some payload := by
  cases h with
  | @list _ items h =>
    have hbytes : ∀ v ∈ items, ∃ byte, v.natural?.map UInt8.ofNat = some byte := by
      intro v hv
      obtain ⟨n, rfl, -⟩ := (h v hv).exists_natural rfl
      exact ⟨UInt8.ofNat n, rfl⟩
    obtain ⟨payload, hpayload⟩ := exists_mapM_eq_some hbytes
    exact ⟨items, payload, rfl, hpayload⟩

/-- An object of texts is a table of metadata. -/
theorem exists_texts?_eq_some {v : Json} (h : HasShape (.map .string) v) :
    ∃ members metadata, v = .object members ∧ texts? members = some metadata := by
  cases h with
  | @map _ members h =>
    have htexts : ∀ m ∈ members, ∃ entry, m.2.string?.map (Prod.mk m.1) = some entry := by
      intro m hm
      obtain ⟨s, hs⟩ := (h m hm).exists_string
      exact ⟨(m.1, s), by rw [hs]; rfl⟩
    obtain ⟨entries, hentries⟩ := exists_mapM_eq_some htexts
    exact ⟨members, .ofList entries, rfl, congrArg (Option.map NameTable.ofList) hentries⟩

/-- The count of leases is one that 32 bits hold, and the time of creation is on the calendar. -/
structure Regular (e : Envelope) : Prop where
  count : e.retryCount ≤ Message.greatestCount
  calendar : e.createdAt.OnCalendar

/-- A regular envelope stays as it is. -/
theorem Regular.carried_eq (h : e.Regular) : e.carried = e := by
  unfold carried
  rw [Instant.carried_eq h.calendar]

/-- A value of the shape of an envelope is one, and it is regular. -/
theorem ofJson?_of_hasShape {v : Json} (h : HasShape shape v) :
    ∃ e, ofJson? v = some e ∧ e.Regular := by
  have hnodup : ["id", "type", "payload", "metadata", "timestamp", "retry_count"].Nodup := by
    decide
  have hfield : ∀ key s, (key, s) ∈ [
      ("id", .string), ("type", .string), ("payload", .list (.integer .byte)),
      ("metadata", .map .string), ("timestamp", .timestamp),
      ("retry_count", .integer .count)] →
        ∃ found, v.member? key = some found ∧ HasShape s found := fun key s hmem =>
    h.field hnodup hmem
  obtain ⟨_, hid, hshape⟩ := hfield "id" .string (by simp)
  obtain ⟨id, rfl⟩ := hshape.exists_string
  obtain ⟨_, hkind, hshape⟩ := hfield "type" .string (by simp)
  obtain ⟨kind, rfl⟩ := hshape.exists_string
  obtain ⟨_, hlist, hshape⟩ := hfield "payload" (.list (.integer .byte)) (by simp)
  obtain ⟨items, payload, rfl, hpayload⟩ := exists_bytes?_eq_some hshape
  obtain ⟨_, hobject, hshape⟩ := hfield "metadata" (.map .string) (by simp)
  obtain ⟨members, metadata, rfl, hmetadata⟩ := exists_texts?_eq_some hshape
  obtain ⟨_, htime, hshape⟩ := hfield "timestamp" .timestamp (by simp)
  obtain ⟨s, createdAt, rfl, hcreated⟩ := hshape.exists_instant
  obtain ⟨_, hcount, hshape⟩ := hfield "retry_count" (.integer .count) (by simp)
  obtain ⟨retryCount, rfl, hle⟩ := hshape.exists_natural rfl
  refine ⟨⟨id, kind, payload, metadata, createdAt, retryCount⟩, ?_, Int.ofNat_le.mp hle,
    Instant.onCalendar_of_read hcreated⟩
  unfold ofJson?
  rw [hid, hkind, hlist, hobject, htime, hcount]
  simp only [Option.bind_eq_bind, Option.bind_some, string?, items?, members?, hpayload, hmetadata,
    hcreated]
  rfl

/-- A text is refused only by the reader of its JSON: a value of the right shape is an envelope. -/
theorem ofText_cases (text : String) :
    (∃ fault, decode shape (Utf8.ofString text) = .error fault ∧ ofText text = .error fault) ∨
    ∃ e, ofText text = .ok e ∧ e.Regular := by
  cases hdecode : decode shape (Utf8.ofString text) with
  | error fault =>
    refine .inl ⟨fault, rfl, ?_⟩
    unfold ofText
    rw [hdecode]
    rfl
  | ok v =>
    obtain ⟨e, hread, hregular⟩ := ofJson?_of_hasShape (hasShape_of_decode hdecode)
    exact .inr ⟨e, ofText_of_decode hdecode hread, hregular⟩

/-- What is read of any text can be written again. -/
theorem regular_of_ofText {text : String} {e : Envelope} (h : ofText text = .ok e) :
    e.Regular := by
  rcases ofText_cases text with ⟨fault, -, herror⟩ | ⟨e', hok, hregular⟩
  · rw [h] at herror
    cases herror
  · rw [h] at hok
    rwa [Except.ok.inj hok]

end Envelope

/-! ## Messages -/

namespace Message

/-- The message with its identifiers spelled out as texts. -/
def spelled (m : Message) (spell : Nat → String) : Message :=
  { m with
    id := .text (m.id.spelled spell)
    metadata := .ofList (m.metadata.entries.map fun entry =>
      (entry.1, .text (entry.2.spelled spell))) }

/-- The message with its time of creation carried over. -/
def carried (m : Message) : Message := { m with createdAt := m.createdAt.carried }

/-- A message stays as it is if it was created at an instant of the calendar, and only then. -/
theorem carried_eq_iff (m : Message) : m.carried = m ↔ m.createdAt.OnCalendar := by
  rw [← Instant.carried_eq_iff]
  constructor
  · exact congrArg createdAt
  · intro h
    unfold carried
    rw [h]

/-- All identifiers of the message are texts. -/
def IsText (m : Message) : Prop :=
  (∃ s, m.id = .text s) ∧ ∀ entry ∈ m.metadata.entries, ∃ s, entry.2 = .text s

/-- The text is one of those that write the message: its metadata are listed in any order. -/
def Writes (m : Message) (spell : Nat → String) (text : String) : Prop :=
  (m.envelope spell).Writes text

/-- Reads a message. -/
def ofText (text : String) : Except Json.ReadError Message :=
  (Envelope.ofText text).map ofEnvelope

/-- A message whose identifiers are texts is spelled as it stands. -/
theorem IsText.spelled_eq {m : Message} (h : m.IsText) (spell : Nat → String) :
    m.spelled spell = m := by
  obtain ⟨⟨s, hid⟩, hmetadata⟩ := h
  have hsame : m.metadata.entries.map (fun entry => (entry.1, Ident.text (entry.2.spelled spell))) =
      m.metadata.entries := by
    refine (List.map_congr_left fun entry hentry => ?_).trans (List.map_id' _)
    obtain ⟨t, ht⟩ := hmetadata entry hentry
    show (entry.1, Ident.text (entry.2.spelled spell)) = entry
    rw [ht, Ident.spelled, ← ht]
  unfold spelled
  rw [hsame, NameTable.ofList_entries, hid, Ident.spelled, ← hid]

/-- The envelope of a message holds all of it but the lease, and so does the one that is read. -/
theorem ofEnvelope_envelope (m : Message) (spell : Nat → String) :
    ofEnvelope (m.envelope spell).carried = (m.spelled spell).released.carried := by
  have hentries := NameTable.entries_ofList
    (m.metadata.increasing.map fun i => i.spelled spell)
  unfold ofEnvelope envelope spelled released carried Envelope.carried
  simp only [hentries, List.map_map]
  rfl

/-- The message of an envelope has that envelope. -/
theorem envelope_ofEnvelope (e : Envelope) (spell : Nat → String) :
    (ofEnvelope e).envelope spell = e := by
  have hentries := NameTable.entries_ofList (e.metadata.increasing.map Ident.text)
  have hsame : (e.metadata.entries.map fun entry => (entry.1, Ident.text entry.2)).map
      (fun entry => (entry.1, entry.2.spelled spell)) = e.metadata.entries := by
    rw [List.map_map]
    exact List.map_id _
  unfold ofEnvelope envelope
  simp only [hentries, hsame, NameTable.ofList_entries]
  rfl

/-- Writing a message and reading the text succeeds, in whatever order the metadata are listed, and
only loses the lease, if the message was created at an instant of the calendar. In a leap second that
is none of the calendar, it is read as created at the instant of the next second that has the same
text. Whatever else is read of a text is a message without a lease too, visible at all times; and
when that is written again, and read again, nothing changes. -/
theorem envelope_round_trip :
    (∀ (m : Message) spell text, m.retryCount ≤ greatestCount → m.Writes spell text →
      ofText text = .ok (m.spelled spell).released.carried) ∧
    (∀ m : Message, m.carried = m ↔ m.createdAt.OnCalendar) ∧
    (∀ (m : Message) spell, m.IsText → m.spelled spell = m) ∧
    ∀ text m, ofText text = .ok m →
      m.hiddenUntil = none ∧ m.receipt = none ∧ (∀ now, m.VisibleAt now) ∧ m.IsText ∧
      ∀ spell text', m.Writes spell text' → ofText text' = .ok m := by
  refine ⟨fun m spell text hcount htext => ?_, carried_eq_iff, fun m spell h => h.spelled_eq spell,
    fun text m h => ?_⟩
  · unfold ofText
    rw [Envelope.ofText_of_writes hcount htext]
    exact congrArg Except.ok (m.ofEnvelope_envelope spell)
  · unfold ofText at h
    cases hread : Envelope.ofText text with
    | error fault =>
      rw [hread] at h
      cases h
    | ok e =>
      rw [hread] at h
      cases h
      have hvisible : ∀ now, (ofEnvelope e).VisibleAt now := by
        rintro now _ ⟨⟩
      refine ⟨rfl, rfl, hvisible, ⟨⟨e.id, rfl⟩, ?_⟩, fun spell text' htext' => ?_⟩
      · have hentries := NameTable.entries_ofList (e.metadata.increasing.map Ident.text)
        show ∀ entry ∈ (NameTable.ofList _).entries, _
        rw [hentries]
        exact List.forall_mem_map.mpr fun entry _ => ⟨entry.2, rfl⟩
      · unfold Writes at htext'
        rw [envelope_ofEnvelope] at htext'
        unfold ofText
        have hregular := Envelope.regular_of_ofText hread
        rw [Envelope.ofText_of_writes hregular.count htext', hregular.carried_eq]
        rfl

/-- A message under a lease. -/
def leasedOrder : Message where
  id := .text "m-1"
  kind := "order"
  payload := [123, 125]
  metadata := .ofList [("tenant", .text "a\"b"), ("source", .text "shop")]
  createdAt := ⟨1704067200, 500000000, by decide, by decide, by decide⟩
  retryCount := 2
  hiddenUntil := some .last
  receipt := some (.text "r-1")

/-- A text of the message in which its lease stands too. -/
def leasedText : String :=
  "\x7b\"receipt_handle\":\"r-1\",\"id\":\"m-1\",\"type\":\"order\",\"payload\":[123,125]," ++
  "\"metadata\":\x7b\"tenant\":\"a\\\"b\",\"source\":\"shop\"\x7d," ++
  "\"timestamp\":\"2024-01-01T00:00:00.500Z\",\"retry_count\":2," ++
  "\"visible_at\":\"2024-01-01T00:00:30Z\"\x7d"

/-- Both the text of the message and the one with the lease are read as the message without it. -/
theorem envelope_round_trip_leasedOrder :
    ofText (leasedOrder.envelope fun _ => "").toText = .ok leasedOrder.released ∧
      ofText leasedText = .ok leasedOrder.released ∧ leasedOrder.released.VisibleAt .first := by
  obtain ⟨hwritten, hcarried, htext, hread⟩ := envelope_round_trip
  have hmetadata : ∀ entry ∈ leasedOrder.metadata.entries, ∃ s, entry.2 = .text s := by
    show ∀ entry ∈ [("source", Ident.text "shop"), ("tenant", .text "a\"b")], _
    simp
  have hspelled := htext leasedOrder (fun _ => "") ⟨⟨"m-1", rfl⟩, hmetadata⟩
  have hback := hwritten leasedOrder (fun _ => "") _ (by decide) (Envelope.writes_toText _)
  have hcalendar := (hcarried leasedOrder.released).mpr (by decide)
  rw [hspelled, hcalendar] at hback
  have hleased : ofText leasedText = .ok leasedOrder.released := by decide +kernel
  obtain ⟨-, -, hvisible, -⟩ := hread leasedText leasedOrder.released hleased
  exact ⟨hback, hleased, hvisible .first⟩

/-- A message created in a leap second behind second 4 of a minute. -/
def leapingOrder : Message :=
  { leasedOrder.released with
    createdAt := ⟨1704153364, 1333333333, by decide, by decide, by decide⟩ }

/-- A message is not always read as it was written: that one is read as created in second 5. -/
theorem leapingOrder_not_read_back :
    ¬ ∀ (m : Message) spell text, m.retryCount ≤ greatestCount → m.IsText → m.Writes spell text →
      ofText text = .ok m.released := by
  intro hall
  have hmetadata : ∀ entry ∈ leapingOrder.metadata.entries, ∃ s, entry.2 = .text s := by
    show ∀ entry ∈ [("source", Ident.text "shop"), ("tenant", .text "a\"b")], _
    simp
  have hread := hall leapingOrder (fun _ => "") _ (by decide) ⟨⟨"m-1", rfl⟩, hmetadata⟩
    (Envelope.writes_toText _)
  have hother : ofText (leapingOrder.envelope fun _ => "").toText ≠ .ok leapingOrder.released := by
    decide +kernel
  exact hother hread

end Message

end MessageBroker
