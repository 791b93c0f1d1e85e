/-
# What an answer says

The header of an answer is the header of its request, with the text of a fault
in place of the error if there is something to complain about. A frame of a
reply is refused only for its size; a complaint is lost only if its header is
above the limit for headers, and then there is no answer at all.

Key definitions: `Header.HasRoom`, `Answer.complaint?`, `Answer.header`.
Key theorems: `Frame.ofHeader_eq_ok_iff`, `Frame.readHeader_ofHeader`,
`Answer.frame?_eq_none_iff`, `Answer.readHeader_frame?`.
-/
import Callwire.Answer
import Callwire.Proofs.Codec.Header
import Callwire.Proofs.Frames

namespace Callwire

/-- A frame can carry the header. -/
def Header.HasRoom (codec : Codec) (h : Header) : Prop := (h.bytes codec).length ≤ maxHeaderSize

instance (codec : Codec) (h : Header) : Decidable (h.HasRoom codec) :=
  inferInstanceAs (Decidable (_ ≤ _))

namespace Frame

theorem build_eq_ok_iff {header body : Bytes} {f : Frame} (hne : header ≠ []) :
    build header body = .ok f ↔
      header.length ≤ maxHeaderSize ∧ body.length ≤ maxBodySize ∧ f = ⟨header, body⟩ := by
  have hpos : 0 < header.length := List.length_pos_iff.mpr hne
  have hm : maxHeaderSize < 2 ^ 32 := by decide
  have hmb : maxBodySize < 2 ^ 32 := by decide
  constructor
  · intro h
    obtain ⟨rfl, hc, -⟩ := fits_of_build h
    obtain ⟨-, hh, hb⟩ := Lengths.check_eq_ok_iff.mp hc
    exact ⟨hh, hb, rfl⟩
  · rintro ⟨hh, hb, rfl⟩
    have hc : Lengths.check ⟨header.length, body.length⟩ maxBodySize = .ok () :=
      Lengths.check_eq_ok_iff.mpr ⟨hpos, hh, hb⟩
    rw [build, Lengths.ofParts, if_neg (by omega), if_neg (by omega)]
    simp only [hc]

theorem ofHeader_eq (codec : Codec) (h : Header) (body : Bytes) :
    ofHeader codec h body = (build (h.bytes codec) body).mapError .framing := by
  simp [ofHeader, Codec.encode_header, Except.mapError, bind, Except.bind]

/-- **A frame of a header and a body is refused for its size only.** -/
theorem ofHeader_eq_ok_iff {codec : Codec} {h : Header} {body : Bytes} {f : Frame} :
    ofHeader codec h body = .ok f ↔
      h.HasRoom codec ∧ body.length ≤ maxBodySize ∧ f = ⟨h.bytes codec, body⟩ := by
  rw [Header.HasRoom, ← build_eq_ok_iff (h.bytes_ne_nil codec), ofHeader_eq]
  cases build (h.bytes codec) body <;> simp [Except.mapError]

/-- **A frame is read with the header it was made of.** -/
theorem readHeader_ofHeader {codec : Codec} {h : Header} {body : Bytes} {f : Frame}
    (hf : ofHeader codec h body = .ok f) : f.readHeader codec = .ok h := by
  obtain ⟨hr, -, rfl⟩ := ofHeader_eq_ok_iff.mp hf
  simp [readHeader, Codec.decode_header codec h hr, Header.ofDatum?_toDatum]

theorem framing_of_ofHeader {codec : Codec} {h : Header} {body : Bytes} {why : Fault}
    (hf : ofHeader codec h body = .error why) : ∃ e, why = .framing e := by
  rw [ofHeader_eq] at hf
  cases hb : build (h.bytes codec) body with
  | ok f => simp [hb, Except.mapError] at hf
  | error e => exact ⟨e, by simpa [hb, Except.mapError] using hf.symm⟩

theorem fits_ofHeader {codec : Codec} {h : Header} {body : Bytes} {f : Frame}
    (hf : ofHeader codec h body = .ok f) : f.Fits maxBodySize := by
  rw [ofHeader_eq] at hf
  cases hb : build (h.bytes codec) body with
  | error e => simp [hb, Except.mapError] at hf
  | ok g =>
    simp only [hb, Except.mapError, Except.ok.injEq] at hf
    exact hf ▸ (fits_of_build hb).2

theorem encode_null (codec : Codec) (h : Header) :
    encode codec h .null = ofHeader codec h codec.unitBytes := by
  simp [encode, ofHeader, Codec.encode_header, Codec.encode_null, Except.mapError, bind, Except.bind]

end Frame

namespace Answer

variable {codec : Codec} {h : Header}

theorem failure?_eq_some_iff {why : Fault} {a : Frame} :
    failure? codec h why = some a ↔
      (h.withError why.message).HasRoom codec ∧
        a = ⟨(h.withError why.message).bytes codec, codec.unitBytes⟩ := by
  have hu : codec.unitBytes.length ≤ maxBodySize := by cases codec <;> decide
  have ho := @Frame.ofHeader_eq_ok_iff codec (h.withError why.message) codec.unitBytes a
  rw [failure?, Frame.encode_null]
  cases hf : Frame.ofHeader codec (h.withError why.message) codec.unitBytes with
  | error e => simpa [hf, hu, Except.toOption] using ho
  | ok f => simpa [hf, hu, Except.toOption] using ho

/-- What the answer complains about: the fault that there is instead of a reply,
or that the reply cannot be framed. -/
def complaint? (codec : Codec) (h : Header) (reply : Except Fault Bytes) : Option Fault :=
  match reply with
  | .error why => some why
  | .ok body =>
    match Frame.ofHeader codec h body with
    | .ok _ => none
    | .error why => some why

/-- The header of the answer. -/
def header (codec : Codec) (h : Header) (reply : Except Fault Bytes) : Header :=
  match complaint? codec h reply with
  | none => h
  | some why => h.withError why.message

/-- The body of the answer. -/
def body (codec : Codec) (h : Header) (reply : Except Fault Bytes) : Bytes :=
  match complaint? codec h reply, reply with
  | none, .ok body => body
  | _, _ => codec.unitBytes

/-- An answer is a frame of its header and its body, if there is one. -/
theorem frame?_eq_ofHeader (reply : Except Fault Bytes) :
    frame? codec h reply = (Frame.ofHeader codec (header codec h reply) (body codec h reply)).toOption := by
  cases reply with
  | error why => simp [frame?, header, body, complaint?, failure?, Frame.encode_null]
  | ok b =>
    cases hf : Frame.ofHeader codec h b with
    | error why => simp [frame?, header, body, complaint?, hf, failure?, Frame.encode_null]
    | ok f => simp [frame?, header, body, complaint?, hf, Except.toOption]

theorem frame?_eq_some {reply : Except Fault Bytes} {a : Frame} (ha : frame? codec h reply = some a) :
    Frame.ofHeader codec (header codec h reply) (body codec h reply) = .ok a := by
  rw [frame?_eq_ofHeader] at ha
  cases hf : Frame.ofHeader codec (header codec h reply) (body codec h reply) with
  | error e => simp [hf, Except.toOption] at ha
  | ok f => simpa [hf, Except.toOption] using ha

/-- **An answer has the name and the number of its request**, and as its error
the complaint, or the request's own. -/
theorem readHeader_frame? {reply : Except Fault Bytes} {a : Frame}
    (ha : frame? codec h reply = some a) :
    a.readHeader codec = .ok (header codec h reply) ∧ a.body = body codec h reply := by
  have hf := frame?_eq_some ha
  obtain ⟨-, -, hb⟩ := Frame.ofHeader_eq_ok_iff.mp hf
  exact ⟨Frame.readHeader_ofHeader hf, by rw [hb]⟩

theorem fits_frame? {reply : Except Fault Bytes} {a : Frame} (ha : frame? codec h reply = some a) :
    a.Fits maxBodySize :=
  Frame.fits_ofHeader (frame?_eq_some ha)

theorem seq_header (reply : Except Fault Bytes) : (header codec h reply).seq = h.seq := by
  simp only [header]
  split <;> rfl

theorem target_header (reply : Except Fault Bytes) : (header codec h reply).target = h.target := by
  simp only [header]
  split <;> rfl

/-- **There is no answer exactly where a complaint has no room.** -/
theorem frame?_eq_none_iff {reply : Except Fault Bytes} :
    frame? codec h reply = none ↔
      ∃ why, complaint? codec h reply = some why ∧ ¬ (h.withError why.message).HasRoom codec := by
  have hfail : ∀ why, failure? codec h why = none ↔ ¬ (h.withError why.message).HasRoom codec := by
    intro why
    constructor
    · intro hn hr
      have hs := failure?_eq_some_iff.mpr ⟨hr, rfl⟩
      rw [hn] at hs
      cases hs
    · intro hr
      cases hf : failure? codec h why with
      | none => rfl
      | some a => exact absurd (failure?_eq_some_iff.mp hf).1 hr
  cases reply with
  | error why => simpa [frame?, complaint?] using hfail why
  | ok b =>
    cases hf : Frame.ofHeader codec h b with
    | error why => simpa [frame?, complaint?, hf] using hfail why
    | ok f => simp [frame?, complaint?, hf]

end Answer
end Callwire
