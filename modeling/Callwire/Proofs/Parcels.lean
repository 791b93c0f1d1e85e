/-
# Parcels say what frames say

There are two ways to encode a header and a body: as a frame, and as a parcel whose
lengths are bytes already. Both succeed or both fail with the same fault, and what is
written is the same. Whatever parcels are written, one after the other and in whatever
codecs, a buffer that gets their bytes gives back the frames, in order and nothing else,
and each of them has the header and the body that were encoded.

Key definitions: `Letter`, `Letter.Reads`.
Key theorems: `Parcel.encode_eq`, `Frame.encode_eq_ok_iff`, `Frame.Buffer.push_bytesOf`,
`Parcel.encode_read_back`.
-/
import Callwire.Proofs.Answers
import Callwire.Proofs.Pushes

namespace Callwire

open Outbox (bytesOf)

/-! ### Two ways to encode -/

namespace Lengths

theorem eq_of_ofParts {header body limit : Nat} {l : Lengths} (h : ofParts header body limit = .ok l) :
    l = ⟨header, body⟩ := by
  unfold ofParts at h
  by_cases hh : 0x100000000 ≤ header
  · rw [if_pos hh] at h
    cases h
  · by_cases hb : 0x100000000 ≤ body
    · rw [if_neg hh, if_pos hb] at h
      cases h
    · rw [if_neg hh, if_neg hb] at h
      simp only at h
      cases hc : check ⟨header, body⟩ limit with
      | error e =>
        rw [hc] at h
        cases h
      | ok u =>
        rw [hc] at h
        exact (Except.ok.inj h).symm

end Lengths

namespace Parcel

theorem ofParts_eq (header body : Bytes) : ofParts header body = (Frame.build header body).map ofFrame := by
  unfold ofParts Frame.build
  cases hl : Lengths.ofParts header.length body.length maxBodySize with
  | error e => rfl
  | ok l =>
    have hlen : l = ⟨header.length, body.length⟩ := Lengths.eq_of_ofParts hl
    subst hlen
    rfl

/-- **A parcel is encoded where a frame is**, and it is the parcel of that frame. -/
theorem encode_eq (codec : Codec) (h : Header) (d : Datum) :
    encode codec h d = (Frame.encode codec h d).map ofFrame := by
  unfold encode Frame.encode
  rw [Codec.encode_header]
  cases codec.encode d with
  | error why => rfl
  | ok body =>
    show (ofParts (h.bytes codec) body).mapError Fault.framing =
      ((Frame.build (h.bytes codec) body).mapError Fault.framing).map ofFrame
    rw [ofParts_eq]
    cases Frame.build (h.bytes codec) body <;> rfl

theorem flatMap_toBytes_ofFrame (fs : List Frame) :
    (fs.map ofFrame).flatMap toBytes = bytesOf fs := by
  rw [List.flatMap_map]
  exact List.flatMap_congr fun f _ => toBytes_ofFrame f

end Parcel

/-! ### Which frames there are -/

namespace Frame

theorem encode_eq_ofHeader {codec : Codec} {d : Datum} {body : Bytes} (hd : codec.encode d = .ok body)
    (h : Header) : encode codec h d = ofHeader codec h body := by
  unfold encode ofHeader
  rw [hd]
  rfl

/-- **A header and a body make a frame** if the body can be encoded and both keep their
limits. -/
theorem encode_eq_ok_iff {codec : Codec} {h : Header} {d : Datum} {f : Frame} :
    encode codec h d = .ok f ↔
      h.HasRoom codec ∧ codec.encode d = .ok f.body ∧ f.body.length ≤ maxBodySize ∧
        f.header = h.bytes codec := by
  constructor
  · intro hf
    cases hd : codec.encode d with
    | error why =>
      unfold encode at hf
      rw [Codec.encode_header, hd] at hf
      cases hf
    | ok body =>
      rw [encode_eq_ofHeader hd] at hf
      obtain ⟨hr, hb, rfl⟩ := ofHeader_eq_ok_iff.mp hf
      exact ⟨hr, rfl, hb, rfl⟩
  · rintro ⟨hr, hd, hb, hh⟩
    rw [encode_eq_ofHeader hd]
    apply ofHeader_eq_ok_iff.mpr
    exact ⟨hr, hb, by rw [← hh]⟩

/-! ### A buffer that gets whole frames -/

namespace Buffer

theorem eq_of_front_eq_nil {b : Buffer} (h : b.front = []) : b = { limit := b.limit } := by
  obtain ⟨unread, awaited, limit⟩ := b
  cases awaited with
  | none =>
    have hunread : unread = [] := h
    rw [hunread]
  | some l =>
    have hlen : (l.encode ++ unread).length = 0 := congrArg List.length h
    rw [List.length_append, Lengths.length_encode, Lengths.size] at hlen
    omega

/-- **A new buffer that gets the bytes of frames gives these frames** and is empty again. -/
theorem push_bytesOf {limit : Nat} {fs : List Frame} (hf : ∀ f ∈ fs, f.Fits limit) :
    ({ limit := limit } : Buffer).push (bytesOf fs) = (.ok fs, { limit := limit }) := by
  let b : Buffer := { limit := limit }
  obtain ⟨b', hpush, hleft, -, hlimit⟩ := push_eq (b := b) (checked_of_awaited_eq_none rfl) (bytesOf fs)
  have hparse : parse b.limit (b.front ++ bytesOf fs) = (fs, .clean) := parse_clean hf
  rw [hparse] at hpush hleft
  have hnil : b'.front = [] := List.self_eq_append_right.mp hleft
  rw [hpush, eq_of_front_eq_nil hnil, hlimit]
  rfl

end Buffer
end Frame

/-! ### Letters -/

/-- What one side has to say, and the codec that it says it in. -/
structure Letter where
  codec : Codec
  header : Header
  body : Datum

/-- The frame says what the letter says. -/
structure Letter.Reads (m : Letter) (f : Frame) : Prop where
  frame : Frame.encode m.codec m.header m.body = .ok f
  header : f.readHeader m.codec = .ok m.header
  body : m.codec.encode m.body = .ok f.body

theorem Letter.reads_of_encode {m : Letter} {f : Frame}
    (h : Frame.encode m.codec m.header m.body = .ok f) : m.Reads f ∧ f.Fits maxBodySize := by
  obtain ⟨-, hbody, -, -⟩ := Frame.encode_eq_ok_iff.mp h
  have hf : Frame.ofHeader m.codec m.header f.body = .ok f := by
    rw [← Frame.encode_eq_ofHeader hbody, h]
  exact ⟨⟨h, Frame.readHeader_ofHeader hf, hbody⟩, Frame.fits_ofHeader hf⟩

/-- Parcels of letters are those of frames that say the same. -/
theorem Letter.exists_frames {ms : List Letter} {ps : List Parcel}
    (h : ms.Forall₂ (fun m p => Parcel.encode m.codec m.header m.body = .ok p) ps) :
    ∃ fs, ps = fs.map Parcel.ofFrame ∧ ms.Forall₂ Letter.Reads fs ∧ ∀ f ∈ fs, f.Fits maxBodySize := by
  induction h with
  | nil => exact ⟨[], rfl, .nil, nofun⟩
  | @cons m p ms ps hp _ ih =>
    obtain ⟨fs, rfl, hreads, hfits⟩ := ih
    rw [Parcel.encode_eq] at hp
    cases hf : Frame.encode m.codec m.header m.body with
    | error why =>
      rw [hf] at hp
      cases hp
    | ok f =>
      rw [hf] at hp
      obtain ⟨hread, hfit⟩ := Letter.reads_of_encode hf
      have hpf : Parcel.ofFrame f = p := Except.ok.inj hp
      refine ⟨f :: fs, by rw [List.map_cons, hpf], .cons hread hreads, fun g hg => ?_⟩
      rcases List.mem_cons.mp hg with rfl | hg
      · exact hfit
      · exact hfits g hg

/-- **What is encoded is read back.**

* A header and a body are encoded as a parcel where they are encoded as a frame; the bytes
  are the same, and so is the fault otherwise.
* They are encoded if the body has a form in the codec and both keep their limits.
* A new buffer that gets the bytes of any parcels, whatever codec each of them is in, gives
  one frame for each of them in their order, and is empty then. Each frame is the one that
  was encoded, its header reads as the one that was encoded, and its body is what the codec
  makes of the body. -/
theorem Parcel.encode_read_back :
    (∀ codec h d, (encode codec h d).map toBytes = (Frame.encode codec h d).map Frame.toBytes) ∧
    (∀ codec h d, (∃ p, encode codec h d = .ok p) ↔
      ∃ body, codec.encode d = .ok body ∧ Header.HasRoom codec h ∧ body.length ≤ maxBodySize) ∧
    (∀ (ms : List Letter) (ps : List Parcel),
      ms.Forall₂ (fun m p => encode m.codec m.header m.body = .ok p) ps →
        ∃ fs, ({} : Frame.Buffer).push (ps.flatMap toBytes) = (.ok fs, {}) ∧ ms.Forall₂ Letter.Reads fs) := by
  refine ⟨fun codec h d => ?_, fun codec h d => ⟨?_, ?_⟩, fun ms ps hps => ?_⟩
  · rw [encode_eq]
    cases Frame.encode codec h d <;> rfl
  · rintro ⟨p, hp⟩
    rw [encode_eq] at hp
    cases hf : Frame.encode codec h d with
    | error why =>
      rw [hf] at hp
      cases hp
    | ok f =>
      obtain ⟨hroom, hbody, hle, -⟩ := Frame.encode_eq_ok_iff.mp hf
      exact ⟨f.body, hbody, hroom, hle⟩
  · rintro ⟨body, hbody, hroom, hle⟩
    have hf : Frame.encode codec h d = .ok ⟨h.bytes codec, body⟩ :=
      Frame.encode_eq_ok_iff.mpr ⟨hroom, hbody, hle, rfl⟩
    exact ⟨ofFrame ⟨h.bytes codec, body⟩, by rw [encode_eq, hf]; rfl⟩
  · obtain ⟨fs, rfl, hreads, hfits⟩ := Letter.exists_frames hps
    refine ⟨fs, ?_, hreads⟩
    rw [flatMap_toBytes_ofFrame]
    exact Frame.Buffer.push_bytesOf hfits

/-- A letter in each codec. The second one says what went wrong and has nothing else to say. -/
theorem Parcel.encode_read_back_mixed :
    ∃ p q f g, encode .messagePack ⟨"Foo.Len", 1, ""⟩ (.text "ab") = .ok p ∧
      encode .json ⟨"Foo.Len", 18446744073709551615, "só"⟩ .null = .ok q ∧
      ({} : Frame.Buffer).push (p.toBytes ++ q.toBytes) = (.ok [f, g], {}) ∧
      f.body = [162, 97, 98] ∧ g.readHeader .json = .ok ⟨"Foo.Len", 18446744073709551615, "só"⟩ := by
  obtain ⟨-, hiff, hpush⟩ := encode_read_back
  obtain ⟨p, hp⟩ := (hiff .messagePack ⟨"Foo.Len", 1, ""⟩ (.text "ab")).mpr
    ⟨[162, 97, 98], by decide +kernel, by decide +kernel, by decide⟩
  obtain ⟨q, hq⟩ := (hiff .json ⟨"Foo.Len", 18446744073709551615, "só"⟩ .null).mpr
    ⟨[110, 117, 108, 108], by decide +kernel, by decide +kernel, by decide⟩
  let ms : List Letter := [⟨.messagePack, ⟨"Foo.Len", 1, ""⟩, .text "ab"⟩,
    ⟨.json, ⟨"Foo.Len", 18446744073709551615, "só"⟩, .null⟩]
  obtain ⟨fs, hfs, hreads⟩ := hpush ms [p, q] (.cons hp (.cons hq .nil))
  obtain ⟨f, gs, hf, hgs, rfl⟩ := List.forall₂_cons_left_iff.mp hreads
  obtain ⟨g, rest, hg, hrest, rfl⟩ := List.forall₂_cons_left_iff.mp hgs
  obtain rfl := List.forall₂_nil_left_iff.mp hrest
  have hbody : f.body = [162, 97, 98] := by
    have hab : Codec.messagePack.encode (.text "ab") = .ok [162, 97, 98] := by decide +kernel
    exact Except.ok.inj (hf.body.symm.trans hab)
  refine ⟨p, q, f, g, hp, hq, ?_, hbody, hg.header⟩
  rw [List.flatMap_cons, List.flatMap_singleton] at hfs
  exact hfs

end Callwire
