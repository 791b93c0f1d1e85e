/-
# Headers and options on the wire

Every header has a form in either codec, and a header that a frame can carry is
read back as it was written. Every line of options that a client writes is read
as the options it stands for: the codec is the same, and each budget is what its
milliseconds say. Such a line has no line feed before its end.

Key definitions: `Header.bytes`, `Options.received`.
Key theorems: `Codec.encode_header`, `Codec.decode_header`, `Options.parse_text`,
`Options.not_mem_text`.
-/
import Callwire.Header
import Callwire.Fault
import Callwire.Options
import Callwire.Proofs.Codec.Json
import Callwire.Proofs.Codec.MessagePack

namespace Callwire

namespace Bytes

theorem length_ofText (s : String) : (ofText s).length = s.utf8ByteSize := by
  simp [ofText]

theorem length_ofText_le (a b : String) : (ofText b).length ≤ (ofText (a ++ b)).length := by
  simp only [length_ofText, String.utf8ByteSize_append]
  omega

end Bytes

/-! ### Headers -/

namespace Header

/-- The header, field by field. -/
def entries (h : Header) : Entries :=
  [(⟨"serviceMethod", .text, none⟩, .text h.target), (⟨"seq", .int .u64, none⟩, .int h.seq.toNat),
    (⟨"error", .text, some (.text "")⟩, .text h.error)]

theorem shape_eq (h : Header) : shape = .record "Header" h.entries.fields := rfl

theorem toDatum_eq (h : Header) : h.toDatum = h.entries.datum := rfl

theorem distinct_entries (h : Header) : h.entries.Distinct := by
  simp [Entries.Distinct, entries]

theorem takes_entries (h : Header) : ∀ e ∈ h.entries, e.1.kind.Takes e.2 := by
  have hlt := h.seq.toNat_lt
  simp only [entries, List.mem_cons, List.not_mem_nil, or_false]
  rintro e (rfl | rfl | rfl)
  · trivial
  · exact Scalar.takes_word hlt
  · trivial

/-- The bytes of the header. -/
def bytes (codec : Codec) (h : Header) : Bytes :=
  match codec with
  | .messagePack => MessagePack.print h.toDatum
  | .json => Json.written h.toDatum

theorem bytes_ne_nil (codec : Codec) (h : Header) : h.bytes codec ≠ [] := by
  cases codec
  · rw [bytes, toDatum, Datum.record, MessagePack.print_map]
    simp [MessagePack.mapHead]
  · rw [bytes, toDatum_eq, Json.written_datum]
    simp

theorem length_texts_le (h : Header) :
    (Bytes.ofText h.target).length + (Bytes.ofText h.error).length ≤
      (h.bytes .messagePack).length := by
  simp only [bytes, toDatum, Datum.record, MessagePack.print_map, MessagePack.print_text,
    MessagePack.string, List.map_cons, List.flatMap_cons, List.length_append]
  omega

theorem length_string_le (s : String) :
    (MessagePack.string s).length ≤ 5 + (Bytes.ofText s).length := by
  have hh : ∀ n, (MessagePack.stringHead n).length ≤ 5 := by
    intro n
    rw [MessagePack.stringHead]
    repeat' split
    all_goals simp [Bytes.length_word]
  have := hh (Bytes.ofText s).length
  simp only [MessagePack.string, List.length_append]
  omega

theorem length_bytes_le (h : Header) :
    (h.bytes .messagePack).length ≤
      (Bytes.ofText h.target).length + (Bytes.ofText h.error).length + 64 := by
  have hn : ∀ n, (MessagePack.natural n).length ≤ 9 := by
    intro n
    rw [MessagePack.natural]
    repeat' split
    all_goals simp [Bytes.length_word]
  have hseq := hn h.seq.toNat
  have hi : MessagePack.integer h.seq.toNat = MessagePack.natural h.seq.toNat := by
    rw [MessagePack.integer, if_neg (by omega), Int.toNat_natCast]
  have ht := length_string_le h.target
  have he := length_string_le h.error
  have hnames : (MessagePack.string "serviceMethod").length = 14 ∧
      (MessagePack.string "seq").length = 4 ∧ (MessagePack.string "error").length = 6 ∧
      (MessagePack.mapHead 3).length = 1 := by decide
  simp only [bytes, toDatum, Datum.record, MessagePack.print_map, MessagePack.print_text,
    MessagePack.print_int, hi, List.map_cons, List.map_nil, List.flatMap_cons, List.flatMap_nil,
    List.length_append, List.length_nil, List.length_cons, Nat.zero_add, Nat.reduceAdd]
  omega

/-- A name of this many letters. -/
def lengthyName (n : Nat) : String := String.ofList (List.replicate n 'a')

theorem length_lengthyName (n : Nat) : (Bytes.ofText (lengthyName n)).length = n := by
  rw [Bytes.length_ofText, lengthyName]
  induction n with
  | zero => rfl
  | succ n ih =>
    have ha : 'a'.utf8Size = 1 := by decide
    rw [List.replicate_succ, String.ofList_cons, String.utf8ByteSize_append, ih,
      String.utf8ByteSize_singleton, ha, Nat.add_comm]

end Header

namespace Codec

/-- **Every header has a form in either codec.** -/
theorem encode_header (codec : Codec) (h : Header) : codec.encode h.toDatum = .ok (h.bytes codec) := by
  cases codec
  · rfl
  · have hk : Json.keyed h.toDatum = true := rfl
    simp [encode, Json.print?, hk, Header.bytes, Json.written]

/-- **A header that a frame can carry is read as it was written.** -/
theorem decode_header (codec : Codec) (h : Header) (hl : (h.bytes codec).length ≤ maxHeaderSize) :
    codec.decode Header.shape (h.bytes codec) = .ok h.toDatum := by
  cases codec
  · have hb := h.length_texts_le
    have hm : maxHeaderSize < 2 ^ 32 := by decide
    have hs : ∀ e ∈ h.entries, e.1.kind.Takes e.2 ∧ MessagePack.Short e.2 ∧
        MessagePack.Short (.text e.1.name) := by
      intro e he
      refine ⟨h.takes_entries e he, ?_⟩
      have hn : MessagePack.Short (.text "serviceMethod") ∧ MessagePack.Short (.text "seq") ∧
          MessagePack.Short (.text "error") := by
        simp only [MessagePack.Short]
        decide
      simp only [Header.entries, List.mem_cons, List.not_mem_nil, or_false] at he
      rcases he with rfl | rfl | rfl
      · exact ⟨by simp only [MessagePack.Short]; omega, hn.1⟩
      · exact ⟨trivial, hn.2.1⟩
      · exact ⟨by simp only [MessagePack.Short]; omega, hn.2.2⟩
    have hn : h.entries.length < 16 := by simp [Header.entries]
    have hr := MessagePack.read_print_record "Header" h.entries hn h.distinct_entries hs
    rw [decode, h.shape_eq, Header.bytes, h.toDatum_eq]
    rw [hr]
    rfl
  · have hr := Json.read_written_record "Header" h.entries h.distinct_entries h.takes_entries
    rw [decode, h.shape_eq, Header.bytes, h.toDatum_eq]
    rw [hr]
    rfl

/-- The bytes of an empty body. -/
def unitBytes : Codec → Bytes
  | .messagePack => [0xc0]
  | .json => [0x6e, 0x75, 0x6c, 0x6c]

theorem encode_null (codec : Codec) : codec.encode .null = .ok codec.unitBytes := by
  cases codec <;> decide

end Codec

/-! ### Options -/

namespace Options

/-- The options, field by field. -/
def entries (o : Options) : Entries :=
  [(⟨"magicNumber", .int .u32, none⟩, .int o.magic),
    (⟨"codecID", .codec, none⟩, .text o.codec.id),
    (⟨"connectTimeout", .int .u64, none⟩, .int (wireMillis o.connectTimeout)),
    (⟨"handleTimeout", .int .u64, none⟩, .int (wireMillis o.handleTimeout))]

/-- What a server reads from a line of these options. -/
def received (o : Options) : Options :=
  ⟨magicNumber, o.codec, .ofMillis (wireMillis o.connectTimeout),
    .ofMillis (wireMillis o.handleTimeout)⟩

theorem text_eq (o : Options) : o.text = Json.written o.entries.datum := rfl

theorem distinct_entries (o : Options) : o.entries.Distinct := by
  simp [Entries.Distinct, entries]

theorem wireMillis_lt (d : Duration) : wireMillis d < 2 ^ 64 := Nat.mod_lt _ (by decide)

theorem takes_entries {o : Options} (hm : o.magic = magicNumber) :
    ∀ e ∈ o.entries, e.1.kind.Takes e.2 := by
  have hid : Codec.ofId? o.codec.id = some o.codec := Codec.ofId?_eq_some_iff.mpr rfl
  simp only [entries, List.mem_cons, List.not_mem_nil, or_false]
  rintro e (rfl | rfl | rfl | rfl)
  · rw [hm]
    exact ⟨by decide, by decide, by decide⟩
  · simp [Scalar.Takes, hid]
  · exact Scalar.takes_word (wireMillis_lt _)
  · exact Scalar.takes_word (wireMillis_lt _)

/-- **A line that a client writes is read as the options it stands for.** -/
theorem parse_text {o : Options} (hm : o.magic = magicNumber) : parse o.text = .ok o.received := by
  have hr := Json.read_written_record "ConnectionOptions" o.entries o.distinct_entries
    (takes_entries hm)
  have hid : Codec.ofId? o.codec.id = some o.codec := Codec.ofId?_eq_some_iff.mpr rfl
  have hd : ofDatum? o.entries.datum = some o.received := by
    simp [entries, Entries.datum, Entries.named, Datum.record, ofDatum?, hid, received, hm]
  have hc : o.received.check = .ok () := by simp [check, received]
  have hs : shape = .record "ConnectionOptions" o.entries.fields := rfl
  rw [parse, text_eq, hs, hr]
  simp [Except.mapError, bind, Except.bind, pure, Except.pure, hd, hc]

theorem not_mem_text {o : Options} (hm : o.magic = magicNumber) : 0x0a ∉ o.text := by
  rw [text_eq]
  exact Json.not_mem_written_record (takes_entries hm)

/-- The end of a line of options is not part of it. -/
theorem stripReturn_text (o : Options) : Frame.Buffer.stripReturn o.text = o.text := by
  have hl : o.text.getLast? = some 0x7d := by
    rw [text_eq, Json.written_datum, ← List.cons_append, List.getLast?_append]
    rfl
  rw [Frame.Buffer.stripReturn, hl]
  rfl

end Options
end Callwire
