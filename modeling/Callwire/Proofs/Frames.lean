/-
# Frames on a stream

Frames follow one another with nothing between them, and bytes have at most one
reading as frames: if the bytes of some frames begin the bytes of others, then
the frames themselves begin the others. What a buffer takes from its front is a
frame, and the rest stays in front; where it takes nothing there is no whole
frame to take. So the frames that were taken, the front, and what arrives later
are at all times the stream.

Key definitions: `Frame.Fits`, `Frame.Buffer.front`, `Frame.Buffer.Checked`.
Key theorems: `Frame.toBytes_append_inj`, `Frame.prefix_of_bytesOf`,
`Frame.parse_bytesOf_append`, `Frame.fits_of_mem_parse`, `Frame.Buffer.next_frame`,
`Frame.Buffer.parse_front`, `Frame.Buffer.takeLine_line`.
-/
import Callwire.Frame.Buffer
import Callwire.Outbox
import Callwire.Proofs.Words

namespace Callwire

/-! ### Lengths -/

namespace Lengths

/-- Words hold both lengths. -/
def Worded (l : Lengths) : Prop := l.header < 2 ^ 32 ∧ l.body < 2 ^ 32

theorem decode?_append {l : Lengths} (h : l.Worded) (rest : Bytes) :
    decode? (l.encode ++ rest) = some l := by
  have h4 := Bytes.split?_append (Bytes.word 4 l.header) (Bytes.word 4 l.body ++ rest)
  have h8 := Bytes.split?_append (Bytes.word 4 l.body) rest
  rw [Bytes.length_word] at h4 h8
  have hh : Bytes.toNat (Bytes.word 4 l.header) = l.header := Bytes.toNat_word h.1
  have hb : Bytes.toNat (Bytes.word 4 l.body) = l.body := Bytes.toNat_word h.2
  simp [decode?, encode, List.append_assoc, h4, h8, hh, hb]

theorem eq_append_of_decode? {bs : Bytes} {l : Lengths} (h : decode? bs = some l) :
    bs = l.encode ++ bs.drop size ∧ l.Worded := by
  rw [decode?] at h
  split at h
  · cases h
  · rename_i a rest ha
    obtain ⟨p, hp, rfl⟩ := Option.map_eq_some_iff.mp h
    obtain ⟨b, c⟩ := p
    obtain ⟨rfl, hal⟩ := Bytes.eq_append_of_split? ha
    obtain ⟨rfl, hbl⟩ := Bytes.eq_append_of_split? hp
    have hwa : Bytes.word 4 (Bytes.toNat a) = a := hal ▸ Bytes.word_toNat a
    have hwb : Bytes.word 4 (Bytes.toNat b) = b := hbl ▸ Bytes.word_toNat b
    have hla := Bytes.toNat_lt a
    have hlb := Bytes.toNat_lt b
    rw [hal] at hla
    rw [hbl] at hlb
    refine ⟨?_, hla, hlb⟩
    have hd : (a ++ (b ++ c)).drop size = c := by
      rw [← List.append_assoc, List.drop_append_of_le_length (by simp [size, hal, hbl]),
        List.drop_of_length_le (by simp [size, hal, hbl]), List.nil_append]
    rw [hd]
    simp [encode, hwa, hwb]

theorem check_eq_ok_iff {l : Lengths} {limit : Nat} :
    l.check limit = .ok () ↔ 0 < l.header ∧ l.header ≤ maxHeaderSize ∧ l.body ≤ limit := by
  rw [check]
  split
  · simp; omega
  · split
    · simp; omega
    · split
      · simp; omega
      · simp; omega

end Lengths

/-! ### One reading -/

namespace Frame

open Outbox (bytesOf)

/-- A stream with a limit for bodies can carry the frame. -/
def Fits (limit : Nat) (f : Frame) : Prop :=
  f.lengths.check limit = .ok () ∧ f.lengths.Worded

theorem Fits.worded {limit : Nat} {f : Frame} (h : f.Fits limit) : f.lengths.Worded := h.2

/-- **Frames are told apart by their bytes.** -/
theorem toBytes_append_inj {f g : Frame} {x y : Bytes} (hf : f.lengths.Worded)
    (hg : g.lengths.Worded) (h : f.toBytes ++ x = g.toBytes ++ y) : f = g ∧ x = y := by
  simp only [toBytes, List.append_assoc] at h
  have hl : f.lengths = g.lengths := by
    have h1 := Lengths.decode?_append hf (f.header ++ (f.body ++ x))
    rw [h, Lengths.decode?_append hg] at h1
    exact (Option.some.inj h1).symm
  rw [hl, List.append_cancel_left_eq] at h
  simp only [lengths, Lengths.mk.injEq] at hl
  obtain ⟨hh, h⟩ := List.append_inj h hl.1
  obtain ⟨hb, hx⟩ := List.append_inj h hl.2
  obtain ⟨fh, fb⟩ := f
  obtain ⟨gh, gb⟩ := g
  exact ⟨by rw [Frame.mk.injEq]; exact ⟨hh, hb⟩, hx⟩

theorem length_toBytes (f : Frame) :
    f.toBytes.length = Lengths.size + f.header.length + f.body.length := by
  simp [toBytes, Lengths.length_encode]
  omega

theorem bytesOf_nil : bytesOf [] = [] := rfl

theorem bytesOf_cons (f : Frame) (fs : List Frame) : bytesOf (f :: fs) = f.toBytes ++ bytesOf fs := rfl

theorem bytesOf_append (fs gs : List Frame) : bytesOf (fs ++ gs) = bytesOf fs ++ bytesOf gs := by
  simp [bytesOf]

theorem bytesOf_concat (fs : List Frame) (f : Frame) : bytesOf (fs ++ [f]) = bytesOf fs ++ f.toBytes := by
  simp [bytesOf]

/-- **Bytes have one reading as frames.** Frames whose bytes come first on a
stream of frames come first themselves. -/
theorem prefix_of_bytesOf {fs gs : List Frame} (hf : ∀ f ∈ fs, f.lengths.Worded)
    (hg : ∀ g ∈ gs, g.lengths.Worded) (h : bytesOf fs <+: bytesOf gs) : fs <+: gs := by
  induction fs generalizing gs with
  | nil => exact List.nil_prefix
  | cons f fs ih =>
    obtain ⟨rest, h⟩ := h
    cases gs with
    | nil =>
      have hl := congrArg List.length h
      simp [bytesOf_cons, bytesOf_nil, length_toBytes, Lengths.size] at hl
    | cons g gs =>
      rw [bytesOf_cons, bytesOf_cons, List.append_assoc] at h
      obtain ⟨hfg, hr⟩ := toBytes_append_inj (hf _ List.mem_cons_self) (hg _ List.mem_cons_self) h
      have hp : fs <+: gs := ih (fun x hx => hf x (List.mem_cons_of_mem _ hx))
        (fun x hx => hg x (List.mem_cons_of_mem _ hx)) ⟨rest, hr⟩
      exact List.cons_prefix_cons.mpr ⟨hfg, hp⟩

/-- A frame that is built has the parts it is built of, and any side can read it
that keeps the common limit. -/
theorem fits_of_build {header body : Bytes} {f : Frame} (h : build header body = .ok f) :
    f = ⟨header, body⟩ ∧ f.Fits maxBodySize := by
  rw [build] at h
  split at h
  · cases h
  · rename_i l hl
    cases h
    rw [Lengths.ofParts] at hl
    split at hl
    · cases hl
    · rename_i hh
      split at hl
      · cases hl
      · rename_i hb
        simp only at hl
        split at hl
        · cases hl
        · rename_i hc
          exact ⟨rfl, hc, by simpa [lengths] using hh, by simpa [lengths] using hb⟩

/-! ### A whole stream -/

theorem parse_eq (limit : Nat) (bs : Bytes) {l : Lengths} (hd : Lengths.decode? bs = some l)
    (hc : l.check limit = .ok ()) :
    parse limit bs =
      if (bs.drop Lengths.size).length < l.header + l.body then ([], .cutShort)
      else
        let r := parse limit ((bs.drop Lengths.size).drop (l.header + l.body))
        (⟨(bs.drop Lengths.size).take l.header,
          ((bs.drop Lengths.size).drop l.header).take l.body⟩ :: r.1, r.2) := by
  cases bs with
  | nil => simp [Lengths.decode?, Bytes.split?] at hd
  | cons b bs =>
    rw [parse]
    simp only [hd, hc]

theorem parse_of_decode?_eq_none (limit : Nat) {bs : Bytes} (hd : Lengths.decode? bs = none) :
    parse limit bs = ([], if bs.isEmpty then .clean else .cutShort) := by
  cases bs with
  | nil => simp [parse]
  | cons b bs =>
    rw [parse]
    simp only [hd]
    rfl

theorem parse_of_check_eq_error (limit : Nat) {bs : Bytes} {l : Lengths} {e : FramingFault}
    (hd : Lengths.decode? bs = some l) (hc : l.check limit = .error e) :
    parse limit bs = ([], .violation e) := by
  cases bs with
  | nil => simp [Lengths.decode?, Bytes.split?] at hd
  | cons b bs =>
    rw [parse]
    simp only [hd, hc]

theorem parse_append {limit : Nat} {f : Frame} (h : f.Fits limit) (rest : Bytes) :
    parse limit (f.toBytes ++ rest) = (f :: (parse limit rest).1, (parse limit rest).2) := by
  have he : f.toBytes ++ rest = f.lengths.encode ++ (f.header ++ f.body ++ rest) := by
    simp [toBytes]
  have hd := Lengths.decode?_append h.2 (f.header ++ f.body ++ rest)
  have hs : (f.lengths.encode ++ (f.header ++ f.body ++ rest)).drop Lengths.size =
      f.header ++ f.body ++ rest := by
    rw [← Lengths.length_encode f.lengths, List.drop_left]
  rw [he, parse_eq limit _ hd h.1, hs]
  have hl : f.lengths.header + f.lengths.body = (f.header ++ f.body).length := by
    simp [lengths]
  rw [hl, if_neg (by simp), List.drop_left]
  simp [lengths]

/-- **Frames at the front of a stream are its first**, and what comes after them is read as if
they were not there. -/
theorem parse_bytesOf_append {limit : Nat} {fs : List Frame} (h : ∀ f ∈ fs, f.Fits limit) (rest : Bytes) :
    parse limit (bytesOf fs ++ rest) = (fs ++ (parse limit rest).1, (parse limit rest).2) := by
  induction fs with
  | nil => rfl
  | cons f fs ih =>
    rw [bytesOf_cons, List.append_assoc, parse_append (h f List.mem_cons_self),
      ih fun x hx => h x (List.mem_cons_of_mem _ hx)]
    rfl

theorem parse_bytesOf {limit : Nat} {fs : List Frame} (h : ∀ f ∈ fs, f.Fits limit) (rest : Bytes) :
    (parse limit (bytesOf fs ++ rest)).1 = fs ++ (parse limit rest).1 :=
  congrArg Prod.fst (parse_bytesOf_append h rest)

theorem parse_clean {limit : Nat} {fs : List Frame} (h : ∀ f ∈ fs, f.Fits limit) :
    parse limit (bytesOf fs) = (fs, .clean) := by
  have hp := parse_bytesOf_append h []
  have hnil : parse limit [] = ([], .clean) := by simp [parse]
  rwa [List.append_nil, hnil, List.append_nil] at hp

theorem Fits.mono {limit limit' : Nat} {f : Frame} (h : f.Fits limit) (hl : limit ≤ limit') :
    f.Fits limit' := by
  obtain ⟨hpos, hh, hb⟩ := Lengths.check_eq_ok_iff.mp h.1
  exact ⟨Lengths.check_eq_ok_iff.mpr ⟨hpos, hh, Nat.le_trans hb hl⟩, h.2⟩

theorem lengths_take {l : Lengths} {parts : Bytes} (h : ¬ parts.length < l.header + l.body) :
    Frame.lengths ⟨parts.take l.header, (parts.drop l.header).take l.body⟩ = l := by
  simp only [lengths, List.length_take, List.length_drop]
  rw [Nat.min_eq_left (by omega), Nat.min_eq_left (by omega)]

theorem fits_of_mem_parse {limit : Nat} {bs : Bytes} {f : Frame} (hf : f ∈ (parse limit bs).1) :
    f.Fits limit := by
  fun_induction parse limit bs with
  | case1 | case2 | case3 | case4 => cases hf
  | case5 b bs l hd hc parts hlt r ih =>
    rcases List.mem_cons.mp hf with rfl | hf
    · rw [Fits, lengths_take hlt]
      exact ⟨hc, (Lengths.eq_append_of_decode? hd).2⟩
    · exact ih hf

/-! ### What a buffer takes -/

namespace Buffer

/-- The bytes of the stream that were not taken as frames. -/
def front (b : Buffer) : Bytes :=
  match b.awaited with
  | none => b.unread
  | some l => l.encode ++ b.unread

/-- The lengths that were taken keep the limits. -/
def Checked (b : Buffer) : Prop := ∀ l, b.awaited = some l → l.check b.limit = .ok () ∧ l.Worded

theorem front_extend (b : Buffer) (bs : Bytes) : (b.extend bs).front = b.front ++ bs := by
  simp only [front, extend]
  split <;> simp

theorem Checked.extend {b : Buffer} (h : b.Checked) (bs : Bytes) : (b.extend bs).Checked := h

theorem checked_of_awaited_eq_none {b : Buffer} (h : b.awaited = none) : b.Checked := by
  intro l hl
  rw [h] at hl
  cases hl

/-- Taking the lengths leaves the front as it is. -/
theorem advance_ok {b b' : Buffer} (h : b.advance = .ok b') :
    b'.front = b.front ∧ b'.limit = b.limit ∧ (b.Checked → b'.Checked) ∧
      (b'.awaited = none → b' = b ∧ Lengths.decode? b.unread = none) := by
  rw [advance] at h
  split at h
  · rename_i l hl
    cases h
    exact ⟨rfl, rfl, id, fun hn => by rw [hl] at hn; cases hn⟩
  · rename_i hn
    split at h
    · rename_i hd
      cases h
      exact ⟨rfl, rfl, id, fun _ => ⟨rfl, hd⟩⟩
    · rename_i l hd
      split at h
      · cases h
      · rename_i hc
        cases h
        obtain ⟨he, hw⟩ := Lengths.eq_append_of_decode? hd
        refine ⟨?_, rfl, ?_, fun hs => by cases hs⟩
        · simp only [front, hn]
          exact he.symm
        · intro _ l' hl'
          cases hl'
          exact ⟨hc, hw⟩

/-- A frame that is taken was at the front. -/
theorem next_frame {b b' : Buffer} {f : Frame} (h : b.next = (.ok (some f), b')) :
    b.front = f.toBytes ++ b'.front ∧ (b.Checked → f.Fits b.limit) ∧ b'.awaited = none ∧
      b'.limit = b.limit := by
  rw [next] at h
  split at h
  · cases h
  · rename_i a ha
    obtain ⟨hf, hl, hc, -⟩ := advance_ok ha
    simp only [takeParts] at h
    split at h
    · cases h
    · rename_i l hl'
      split at h
      · cases h
      · rename_i parts rest hs
        cases h
        obtain ⟨hu, hn⟩ := Bytes.eq_append_of_split? hs
        have hlen : Frame.lengths ⟨parts.take l.header, parts.drop l.header⟩ = l := by
          obtain ⟨lh, lb⟩ := l
          simp only [Frame.lengths, List.length_take, List.length_drop, Lengths.mk.injEq] at hn ⊢
          omega
        refine ⟨?_, fun hb => ?_, rfl, hl⟩
        · rw [← hf, front, hl']
          simp only [Frame.toBytes, hlen, hu, front]
          rw [List.append_assoc, List.append_assoc, ← List.append_assoc (parts.take _),
            List.take_append_drop]
        · obtain ⟨hk, hw⟩ := hc hb l hl'
          exact ⟨by rw [hlen, ← hl]; exact hk, by rw [hlen]; exact hw⟩

theorem next_none {b b' : Buffer} (h : b.next = (.ok none, b')) :
    b'.front = b.front ∧ b'.limit = b.limit ∧ (b.Checked → b'.Checked) := by
  rw [next] at h
  split at h
  · cases h
  · rename_i a ha
    obtain ⟨hf, hl, hc, -⟩ := advance_ok ha
    simp only [takeParts] at h
    split at h
    · cases h
      exact ⟨hf, hl, hc⟩
    · split at h
      · cases h
        exact ⟨hf, hl, hc⟩
      · cases h

/-- Where nothing is taken there is no whole frame, and it tells whether a frame has
begun. -/
theorem parse_front_eq {b b' : Buffer} (h : b.next = (.ok none, b')) (hb : b.Checked) :
    parse b.limit b.front = ([], if b'.isMidFrame then .cutShort else .clean) := by
  rw [next] at h
  split at h
  · cases h
  · rename_i a ha
    obtain ⟨hf, hl, hc, hn⟩ := advance_ok ha
    simp only [takeParts] at h
    split at h
    · rename_i hw
      cases h
      obtain ⟨rfl, hd⟩ := hn hw
      rw [front, hw]
      simp only
      rw [parse_of_decode?_eq_none _ hd, isMidFrame, hw]
      cases a.unread <;> rfl
    · rename_i l hl'
      split at h
      · rename_i hs
        cases h
        obtain ⟨hk, hw⟩ := hc hb l hl'
        have hd := Lengths.decode?_append hw a.unread
        have hr : (l.encode ++ a.unread).drop Lengths.size = a.unread := by
          rw [← Lengths.length_encode l, List.drop_left]
        have hshort : a.unread.length < l.header + l.body := by
          simp only [Bytes.split?, List.splitAt_eq, List.length_take] at hs
          split at hs
          · cases hs
          · omega
        have hmid : a.isMidFrame = true := by simp [isMidFrame, hl']
        rw [← hf, front, hl', ← hl, hmid]
        simp only
        rw [parse_eq _ _ hd hk, hr, if_pos hshort]
        rfl
      · cases h

theorem parse_front {b b' : Buffer} (h : b.next = (.ok none, b')) (hb : b.Checked) :
    (parse b.limit b.front).1 = [] := by
  rw [parse_front_eq h hb]

/-- What breaks a limit does so whatever comes after it. -/
theorem parse_front_error {b b' : Buffer} {e : FramingFault} (h : b.next = (.error e, b'))
    (more : Bytes) : b' = b ∧ parse b.limit (b.front ++ more) = ([], .violation e) := by
  rw [next] at h
  split at h
  · rename_i e' he
    cases h
    refine ⟨rfl, ?_⟩
    rw [advance] at he
    split at he
    · cases he
    · rename_i hn
      split at he
      · cases he
      · rename_i l hd
        split at he
        · rename_i why hc
          cases he
          obtain ⟨hu, hw⟩ := Lengths.eq_append_of_decode? hd
          rw [front, hn]
          simp only
          rw [hu, List.append_assoc]
          exact parse_of_check_eq_error _ (Lengths.decode?_append hw _) hc
        · cases he
  · cases h

theorem next_error {b b' : Buffer} {e : FramingFault} (h : b.next = (.error e, b')) (more : Bytes) :
    b' = b ∧ (parse b.limit (b.front ++ more)).1 = [] := by
  obtain ⟨hb, hp⟩ := parse_front_error h more
  exact ⟨hb, by rw [hp]⟩

/-! ### Lines -/

/-- A line that is taken was at the front, up to the first line feed. -/
theorem takeLine_line {b b' : Buffer} {limit : Nat} {line : Bytes}
    (h : b.takeLine limit = (.ok (some line), b')) :
    ∃ pre, b.unread = pre ++ 0x0a :: b'.unread ∧ 0x0a ∉ pre ∧ pre.length ≤ limit ∧
      line = stripReturn pre ∧ b' = { b with unread := b'.unread } := by
  rw [takeLine] at h
  split at h
  · rename_i i hi
    split at h
    · cases h
    · rename_i hlt
      cases h
      obtain ⟨hlen, heq, hne⟩ := List.findIdx?_eq_some_iff_getElem.mp hi
      have h0 : b.unread[i] = 0x0a := by simpa using heq
      refine ⟨b.unread.take i, ?_, ?_, ?_, rfl, rfl⟩
      · rw [← h0, ← List.drop_eq_getElem_cons, List.take_append_drop]
      · intro hm
        obtain ⟨j, hj, hjv⟩ := List.getElem_of_mem hm
        rw [List.length_take] at hj
        rw [List.getElem_take] at hjv
        have := hne j (by omega)
        simp [hjv] at this
      · rw [List.length_take]
        omega
  · split at h <;> cases h

theorem takeLine_none {b b' : Buffer} {limit : Nat} (h : b.takeLine limit = (.ok none, b')) :
    b' = b ∧ 0x0a ∉ b.unread := by
  rw [takeLine] at h
  split at h
  · split at h <;> cases h
  · rename_i hn
    split at h
    · cases h
    · cases h
      rw [List.findIdx?_eq_none_iff] at hn
      exact ⟨rfl, fun hm => by simpa using hn _ hm⟩

/-- A line that is too long is so whatever comes after it. -/
theorem takeLine_error {b b' : Buffer} {limit : Nat} {e : ProtocolFault}
    (h : b.takeLine limit = (.error e, b')) {more pre rest : Bytes}
    (hs : b.unread ++ more = pre ++ 0x0a :: rest) : limit < pre.length := by
  have hfree : limit < b.unread.length ∧
      ∀ j (hj : j < b.unread.length), j ≤ limit → b.unread[j] ≠ 0x0a := by
    rw [takeLine] at h
    split at h
    · rename_i i hi
      split at h
      · rename_i hlt
        obtain ⟨hlen, -, hne⟩ := List.findIdx?_eq_some_iff_getElem.mp hi
        exact ⟨by omega, fun j hj hjl => by simpa using hne j (by omega)⟩
      · cases h
    · rename_i hn
      split at h
      · rename_i hlt
        rw [List.findIdx?_eq_none_iff] at hn
        exact ⟨hlt, fun j hj _ => by simpa using hn _ (List.getElem_mem hj)⟩
      · cases h
  refine Nat.lt_of_not_le fun hle => ?_
  have hj : pre.length < b.unread.length := by omega
  have hleft : (b.unread ++ more)[pre.length]? = b.unread[pre.length]? :=
    List.getElem?_append_left hj
  have h0 : b.unread[pre.length]? = some 0x0a := by
    rw [← hleft, hs]
    simp
  rw [List.getElem?_eq_getElem hj, Option.some.injEq] at h0
  exact hfree.2 _ hj (by omega) h0

theorem line_inj {a b c d : Bytes} (ha : 0x0a ∉ a) (hc : 0x0a ∉ c)
    (h : a ++ 0x0a :: b = c ++ 0x0a :: d) : a = c ∧ b = d := by
  rcases List.append_eq_append_iff.mp h with ⟨e, rfl, he⟩ | ⟨e, rfl, he⟩
  · cases e with
    | nil => simpa using he
    | cons x e =>
      simp only [List.cons_append, List.cons.injEq] at he
      simp [he.1] at hc
  · cases e with
    | nil => simpa [eq_comm] using he
    | cons x e =>
      simp only [List.cons_append, List.cons.injEq] at he
      simp [← he.1] at ha

end Buffer
end Frame
end Callwire
