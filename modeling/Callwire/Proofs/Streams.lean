/-
# Frames of a stream that comes in chunks

What a stream still holds is the front of its buffer and the chunks to come. A read
takes a frame from there, or finds the end, or what is wrong, and `Frame.parse` of all
the bytes at once finds the same. So the frames and the end of a stream are those of
its bytes, wherever they were cut. It makes no difference either whether chunks are
joined before the buffer is asked or each is asked about by itself.

Key definitions: `Stream.Solid`, `Stream.ahead`, `Stream.results`, `Frame.Ending.result`.
Key theorems: `Stream.nextFrame_eq_each`, `Stream.nextFrame_frame`, `Stream.nextFrame_end`,
`Stream.results_eq`, `Stream.results_ofChunks`.
-/
import Callwire.Frame.Stream
import Callwire.Proofs.Frames

namespace Callwire

open Outbox (bytesOf)

/-! ### The parser -/

namespace Frame

/-- What a reader says in the end. -/
def Ending.result : Ending → Except Fault (Option Frame)
  | clean => .ok none
  | cutShort => .error (.framing .cutShort)
  | violation why => .error (.framing why)

/-- What is left of a stream after its frames is nothing, or begins with lengths that
break a limit, or is shorter than the frame that it begins. -/
def Ending.Leaves (limit : Nat) (left : Bytes) : Ending → Prop
  | clean => left = []
  | cutShort => left ≠ [] ∧ ∀ l, Lengths.decode? left = some l →
      l.check limit = .ok () ∧ left.length < l.total
  | violation why => ∃ l, Lengths.decode? left = some l ∧ l.check limit = .error why

/-- **A stream is its frames and what is left**, and its ending says why there are no
more. -/
theorem parse_leaves (limit : Nat) (bs : Bytes) :
    ∃ left, bs = bytesOf (parse limit bs).1 ++ left ∧ (parse limit bs).2.Leaves limit left := by
  fun_induction parse limit bs with
  | case1 => exact ⟨[], rfl, rfl⟩
  | case2 b bs hd => exact ⟨b :: bs, rfl, by simp, by simp [hd]⟩
  | case3 b bs l hd why hc => exact ⟨b :: bs, rfl, l, hd, hc⟩
  | case4 b bs l hd hc parts hlt =>
    refine ⟨b :: bs, rfl, by simp, fun l' hl' => ?_⟩
    obtain rfl : l = l' := Option.some.inj (hd.symm.trans hl')
    obtain ⟨he, -⟩ := Lengths.eq_append_of_decode? hd
    have hlen := congrArg List.length he
    rw [List.length_append, Lengths.length_encode] at hlen
    have hparts : parts.length = ((b :: bs).drop Lengths.size).length := rfl
    refine ⟨hc, ?_⟩
    simp only [Lengths.total]
    omega
  | case5 b bs l hd hc parts hlt r ih =>
    obtain ⟨left, he, hleft⟩ := ih
    refine ⟨left, ?_, hleft⟩
    obtain ⟨hu, -⟩ := Lengths.eq_append_of_decode? hd
    rw [bytesOf_cons, List.append_assoc, ← he, toBytes, lengths_take hlt, hu]
    simp only [List.append_assoc, List.append_cancel_left_eq]
    rw [← List.drop_drop, List.take_append_drop, List.take_append_drop]

end Frame

namespace Stream

/-! ### The bytes ahead -/

/-- All arrivals are bytes. -/
def Solid (as : List Arrival) : Prop := ∀ a ∈ as, ∃ b bs, a = .chunk (b :: bs)

/-- The bytes that are not taken as frames yet. -/
def ahead (s : Stream) : Bytes := s.buffer.front ++ rest.go s.arrivals

theorem gather_append (need : Nat) (as : List Arrival) (out : List Bytes) :
    (gather need as out).1 ++ rest.go (gather need as out).2 = out.reverse.flatten ++ rest.go as := by
  induction as generalizing need out with
  | nil => rfl
  | cons a as ih =>
    cases a with
    | fault why => rfl
    | chunk bs =>
      cases bs with
      | nil => rfl
      | cons b bs =>
        rw [gather]
        split
        · rw [ih]
          simp [rest.go]
        · simp [rest.go]

theorem Solid.gather {as : List Arrival} (h : Solid as) (need : Nat) (out : List Bytes) :
    Solid (gather need as out).2 := by
  induction as generalizing need out with
  | nil => exact h
  | cons a as ih =>
    obtain ⟨b, bs, rfl⟩ := h _ List.mem_cons_self
    have htail : Solid as := fun a ha => h a (List.mem_cons_of_mem _ ha)
    rw [Stream.gather]
    split
    · exact ih htail _ _
    · exact htail

theorem ahead_gather {b : Frame.Buffer} (need : Nat) (as : List Arrival) :
    ahead ⟨b.extend (gather need as []).1, (gather need as []).2⟩ = ahead ⟨b, as⟩ := by
  have hg := gather_append need as []
  simp only [List.reverse_nil, List.flatten_nil, List.nil_append] at hg
  rw [ahead, ahead, Frame.Buffer.front_extend, List.append_assoc, hg]

/-! ### One frame -/

theorem nextFrame_mk (b : Frame.Buffer) (as : List Arrival) :
    nextFrame ⟨b, as⟩ =
      match b.next with
      | (.ok none, b) =>
        match as with
        | [] => (if b.isMidFrame then .error (.framing .cutShort) else .ok none, ⟨b, []⟩)
        | .fault why :: as => (.error (.stream why), ⟨b, as⟩)
        | .chunk [] :: as =>
          (if b.isMidFrame then .error (.framing .cutShort) else .ok none, ⟨b, as⟩)
        | .chunk (x :: xs) :: as =>
          let g := gather b.missing (.chunk (x :: xs) :: as) []
          nextFrame ⟨b.extend g.1, g.2⟩
      | (r, b) => (r.mapError .framing, ⟨b, as⟩) := by
  rw [nextFrame, readUntil]
  rcases hb : b.next with ⟨_ | _ | f, b'⟩
  · simp only [Except.mapError]
  · simp only [Except.mapError]
    rcases as with _ | ⟨_ | _, as⟩ <;> rfl
  · simp only [Except.mapError]

/-! ### One chunk at a time -/

/-- Who needs a byte at a time takes chunk after chunk. -/
theorem readUntil_one {α : Type} (take : Frame.Buffer → Except Fault (Option α) × Frame.Buffer)
    (ended : Frame.Buffer → Except Fault (Option α)) (b : Frame.Buffer) (as : List Arrival) :
    readUntil take (fun _ => 1) ended as b =
      match take b with
      | (.ok none, b) =>
        match as with
        | [] => (ended b, ⟨b, []⟩)
        | .fault why :: as => (.error (.stream why), ⟨b, as⟩)
        | .chunk [] :: as => (ended b, ⟨b, as⟩)
        | .chunk (x :: xs) :: as => readUntil take (fun _ => 1) ended as (b.extend (x :: xs))
      | (r, b) => (r, ⟨b, as⟩) := by
  have hone : ∀ (x : UInt8) (xs : Bytes) (as : List Arrival),
      gather 1 (.chunk (x :: xs) :: as) [] = (x :: xs, as) := by
    intro x xs as
    rw [gather, if_neg (by simp)]
    simp
  rw [readUntil]
  rcases take b with ⟨_ | _ | v, b'⟩
  · rfl
  · rcases as with _ | ⟨⟨_ | ⟨x, xs⟩⟩ | why, as⟩
    · rfl
    · rfl
    · simp only [hone]
    · rfl
  · rfl

/-- Reads a frame, and asks the buffer again after every single chunk. -/
def nextFrameEach (s : Stream) : Except Fault (Option Frame) × Stream :=
  readUntil (fun b => let r := b.next; (r.1.mapError .framing, r.2)) (fun _ => 1)
    (fun b => if b.isMidFrame then .error (.framing .cutShort) else .ok none) s.arrivals s.buffer

theorem nextFrameEach_mk (b : Frame.Buffer) (as : List Arrival) :
    nextFrameEach ⟨b, as⟩ =
      match b.next with
      | (.ok none, b) =>
        match as with
        | [] => (if b.isMidFrame then .error (.framing .cutShort) else .ok none, ⟨b, []⟩)
        | .fault why :: as => (.error (.stream why), ⟨b, as⟩)
        | .chunk [] :: as =>
          (if b.isMidFrame then .error (.framing .cutShort) else .ok none, ⟨b, as⟩)
        | .chunk (x :: xs) :: as => nextFrameEach ⟨b.extend (x :: xs), as⟩
      | (r, b) => (r.mapError .framing, ⟨b, as⟩) := by
  rw [nextFrameEach, readUntil_one]
  rcases b.next with ⟨_ | _ | f, b'⟩ <;> rfl

theorem gather_out (need : Nat) (as : List Arrival) (out : List Bytes) :
    gather need as out =
      (out.reverse.flatten ++ (gather need as []).1, (gather need as []).2) := by
  induction as generalizing need out with
  | nil => simp [gather]
  | cons a as ih =>
    cases a with
    | fault why => simp [gather]
    | chunk bs =>
      cases bs with
      | nil => simp [gather]
      | cons b bs =>
        rw [gather, gather]
        split
        · rw [ih, ih _ [b :: bs]]
          simp
        · simp

theorem missing_extend (b : Frame.Buffer) (bs : Bytes) :
    (b.extend bs).missing = b.missing - bs.length := by
  simp only [Frame.Buffer.missing, Frame.Buffer.extend]
  split <;> simp only [List.length_append] <;> omega

theorem next_of_missing {b : Frame.Buffer} (h : 0 < b.missing) : b.next = (.ok none, b) := by
  rw [Frame.Buffer.missing] at h
  rw [Frame.Buffer.next, Frame.Buffer.advance]
  split at h
  · rename_i haw
    have hd : Lengths.decode? b.unread = none := by
      cases hd : Lengths.decode? b.unread with
      | none => rfl
      | some l =>
        have hl := congrArg List.length (Lengths.eq_append_of_decode? hd).1
        rw [List.length_append, Lengths.length_encode] at hl
        omega
    simp only [haw, hd, Frame.Buffer.takeParts]
  · rename_i l haw
    have hs : Bytes.split? (l.header + l.body) b.unread = none := by
      rw [Bytes.split?, List.splitAt_eq]
      exact if_neg (by rw [List.length_take]; omega)
    simp only [haw, hs, Frame.Buffer.takeParts]

/-- While chunks are joined, the buffer would have had nothing to give. -/
theorem nextFrameEach_gather (b : Frame.Buffer) (x : UInt8) (xs : Bytes) (as : List Arrival) :
    nextFrameEach ⟨b.extend (gather b.missing (.chunk (x :: xs) :: as) []).1,
        (gather b.missing (.chunk (x :: xs) :: as) []).2⟩ =
      nextFrameEach ⟨b.extend (x :: xs), as⟩ := by
  induction as generalizing b x xs with
  | nil =>
    rw [gather]
    split <;> simp [gather]
  | cons a as ih =>
    rw [gather]
    split
    · rename_i hlt
      rcases a with ⟨_ | ⟨y, ys⟩⟩ | why
      · simp [gather]
      · have hmiss := missing_extend b (x :: xs)
        have hnext := next_of_missing (b := b.extend (x :: xs)) (by omega)
        rw [nextFrameEach_mk (b.extend (x :: xs)), hnext]
        simp only
        rw [← ih, hmiss, gather_out]
        simp [Frame.Buffer.extend]
      · simp [gather]
    · simp

/-- **Joining chunks changes nothing.** A read gives the same, and leaves the same
behind, if the buffer is asked after every single chunk. -/
theorem nextFrame_eq_each (s : Stream) : s.nextFrame = s.nextFrameEach := by
  obtain ⟨b, as⟩ := s
  induction hn : as.length using Nat.strong_induction_on generalizing b as with
  | _ n ih =>
    rw [nextFrame_mk, nextFrameEach_mk]
    rcases hb : b.next with ⟨why | _ | g, b'⟩
    · rfl
    · rcases as with _ | ⟨⟨_ | ⟨x, xs⟩⟩ | why, as⟩
      · rfl
      · rfl
      · have hlt := length_gather_lt b'.missing x xs as
        exact (ih _ (by rw [← hn]; exact hlt) _ _ rfl).trans (nextFrameEach_gather b' x xs as)
      · rfl
    · rfl

/-! ### One frame after the other -/

/-- A stream at its end is between two frames or within one. -/
def endOf (b : Frame.Buffer) : Frame.Ending := if b.isMidFrame then .cutShort else .clean

theorem result_endOf (b : Frame.Buffer) :
    (if b.isMidFrame then .error (.framing .cutShort) else .ok none) = (endOf b).result := by
  rw [endOf]
  split <;> rfl

theorem result_ne (e : Frame.Ending) (f : Frame) : e.result ≠ .ok (some f) := by
  cases e <;> simp [Frame.Ending.result]

/-- A frame that is read was next, and the rest is still ahead. -/
theorem nextFrame_frame {s s' : Stream} {f : Frame} (h : s.nextFrame = (.ok (some f), s')) :
    s.ahead = f.toBytes ++ s'.ahead ∧ s'.buffer.limit = s.buffer.limit ∧
      s'.buffer.awaited = none ∧ (s.buffer.Checked → f.Fits s.buffer.limit) ∧
      (Solid s.arrivals → Solid s'.arrivals) := by
  obtain ⟨b, as⟩ := s
  induction hn : as.length using Nat.strong_induction_on generalizing b as with
  | _ n ih =>
    rw [nextFrame_mk] at h
    rcases hb : b.next with ⟨why | _ | g, b'⟩
    · simp [hb, Except.mapError] at h
    · obtain ⟨hfront, hlim, hchecked⟩ := Frame.Buffer.next_none hb
      simp only [hb, result_endOf] at h
      rcases as with _ | ⟨⟨_ | ⟨x, xs⟩⟩ | why, as⟩
      · exact absurd (congrArg Prod.fst h) (result_ne _ _)
      · exact absurd (congrArg Prod.fst h) (result_ne _ _)
      · have hlt := length_gather_lt b'.missing x xs as
        have hahead := ahead_gather (b := b') b'.missing (.chunk (x :: xs) :: as)
        obtain ⟨he, hl, haw, hfit, hsolid⟩ := ih _ (by rw [← hn]; exact hlt) _ _ h rfl
        refine ⟨?_, hl.trans hlim, haw, fun hc => hlim ▸ hfit (hchecked hc),
          fun hs => hsolid (hs.gather _ _)⟩
        rw [← he, hahead, ahead, ahead, hfront]
      · simp at h
    · obtain ⟨hfront, hfit, haw, hlim⟩ := Frame.Buffer.next_frame hb
      simp only [hb, Except.mapError] at h
      cases h
      exact ⟨by rw [ahead, ahead, hfront, List.append_assoc], hlim, haw, hfit, id⟩

/-- Where no frame is read there is none, and it is said why. -/
theorem nextFrame_end {s s' : Stream} {r : Except Fault (Option Frame)}
    (h : s.nextFrame = (r, s')) (hr : ∀ f, r ≠ .ok (some f)) (hs : Solid s.arrivals)
    (hc : s.buffer.Checked) :
    ∃ e : Frame.Ending, r = e.result ∧ Frame.parse s.buffer.limit s.ahead = ([], e) := by
  obtain ⟨b, as⟩ := s
  induction hn : as.length using Nat.strong_induction_on generalizing b as with
  | _ n ih =>
    rw [nextFrame_mk] at h
    rcases hb : b.next with ⟨why | _ | g, b'⟩
    · simp only [hb, Except.mapError] at h
      cases h
      exact ⟨.violation why, rfl, (Frame.Buffer.parse_front_error hb _).2⟩
    · obtain ⟨hfront, hlim, hchecked⟩ := Frame.Buffer.next_none hb
      simp only [hb, result_endOf] at h
      rcases as with _ | ⟨⟨_ | ⟨x, xs⟩⟩ | why, as⟩
      · cases h
        refine ⟨endOf b', rfl, ?_⟩
        have hgo : rest.go [] = [] := rfl
        rw [ahead, hgo, List.append_nil, Frame.Buffer.parse_front_eq hb hc, endOf]
      · obtain ⟨x, xs, hx⟩ := hs _ List.mem_cons_self
        cases hx
      · have hlt := length_gather_lt b'.missing x xs as
        have hahead := ahead_gather (b := b') b'.missing (.chunk (x :: xs) :: as)
        obtain ⟨e, he, hp⟩ := ih _ (by rw [← hn]; exact hlt) _ _ h (hs.gather _ _)
          ((hchecked hc).extend _) rfl
        refine ⟨e, he, ?_⟩
        have hl : (b'.extend (gather b'.missing (.chunk (x :: xs) :: as) []).1).limit = b.limit := hlim
        rw [hahead, hl] at hp
        rw [← hp, ahead, ahead, hfront]
      · obtain ⟨x, xs, hx⟩ := hs _ List.mem_cons_self
        cases hx
    · simp only [hb, Except.mapError] at h
      cases h
      exact absurd rfl (hr g)

/-! ### All frames -/

/-- What reading gives, again and again, up to the first result that is no frame. -/
def results (s : Stream) : List (Except Fault (Option Frame)) :=
  match _h : s.nextFrame with
  | (.ok (some f), s') => .ok (some f) :: results s'
  | (r, _) => [r]
termination_by s.ahead.length
decreasing_by
  rw [(nextFrame_frame _h).1, List.length_append, Frame.length_toBytes, Lengths.size]
  omega

/-- **Reading finds the frames and the end of the bytes ahead.** -/
theorem results_eq (s : Stream) (hs : Solid s.arrivals) (hc : s.buffer.Checked) :
    s.results =
      (Frame.parse s.buffer.limit s.ahead).1.map (fun f => .ok (some f)) ++
        [(Frame.parse s.buffer.limit s.ahead).2.result] := by
  fun_induction results s with
  | case1 s f s' h ih =>
    obtain ⟨he, hlim, haw, hfit, hsolid⟩ := nextFrame_frame h
    rw [ih (hsolid hs) (Frame.Buffer.checked_of_awaited_eq_none haw), he,
      Frame.parse_append (hfit hc), hlim]
    rfl
  | case2 s r s' hr h =>
    obtain ⟨e, rfl, hp⟩ := nextFrame_end h hr hs hc
    rw [hp]
    rfl

/-! ### Chunks -/

theorem solid_pieces {bs : Bytes} (h : bs ≠ []) : Solid (pieces bs) := by
  fun_induction pieces bs with
  | case1 bs hd =>
    intro a ha
    obtain ⟨b, bs, rfl⟩ := List.exists_cons_of_ne_nil h
    exact ⟨b, bs, List.mem_singleton.mp ha⟩
  | case2 bs hd ih =>
    intro a ha
    rcases List.mem_cons.mp ha with rfl | ha
    · obtain ⟨b, bs, rfl⟩ := List.exists_cons_of_ne_nil h
      exact ⟨b, bs.take (readSize - 1), rfl⟩
    · exact ih (by simpa using hd) a ha

theorem go_pieces (bs : Bytes) (as : List Arrival) : rest.go (pieces bs ++ as) = bs ++ rest.go as := by
  fun_induction pieces bs with
  | case1 bs hd => rfl
  | case2 bs hd ih => rw [List.cons_append, rest.go, ih, ← List.append_assoc, List.take_append_drop]

theorem arrivals_ofChunks (limit : Nat) (chunks : List Bytes) :
    (ofChunks limit chunks).arrivals = chunks.flatMap pieces := by
  simp [ofChunks, ofArrivals, List.flatMap_map]

theorem ahead_ofChunks (limit : Nat) (chunks : List Bytes) :
    (ofChunks limit chunks).ahead = chunks.flatten := by
  rw [ahead, arrivals_ofChunks]
  change rest.go (chunks.flatMap pieces) = chunks.flatten
  induction chunks with
  | nil => rfl
  | cons c cs ih => rw [List.flatMap_cons, go_pieces, ih, List.flatten_cons]

theorem solid_ofChunks {limit : Nat} {chunks : List Bytes} (h : ∀ c ∈ chunks, c ≠ []) :
    Solid (ofChunks limit chunks).arrivals := by
  rw [arrivals_ofChunks]
  intro a ha
  obtain ⟨c, hc, ha⟩ := List.mem_flatMap.mp ha
  exact solid_pieces (h c hc) a ha

/-- **Reading frames does not depend on where the stream is cut.** The frames and the
end that come of chunks are those of their bytes; and the bytes are the frames, in this
order, and what is left after them, which is nothing, or breaks a limit, or is cut
short. -/
theorem results_ofChunks (limit : Nat) (chunks : List Bytes) (h : ∀ c ∈ chunks, c ≠ []) :
    let p := Frame.parse limit chunks.flatten
    (ofChunks limit chunks).results = p.1.map (fun f => .ok (some f)) ++ [p.2.result] ∧
      ∃ left, chunks.flatten = bytesOf p.1 ++ left ∧ p.2.Leaves limit left := by
  have hr := results_eq (ofChunks limit chunks) (solid_ofChunks h)
    (Frame.Buffer.checked_of_awaited_eq_none rfl)
  rw [ahead_ofChunks] at hr
  exact ⟨hr, Frame.parse_leaves limit chunks.flatten⟩

/-- Two frames, the lengths of the first cut apart and the second without a body, and
lengths that ask for an empty header. -/
theorem results_ofChunks_violation :
    (ofChunks 4 [[0, 0], [0, 1, 0, 0, 0, 2, 7, 8, 9, 0], [0, 0, 1, 0, 0, 0, 0, 5, 0, 0],
      [0, 0, 0, 0, 0, 0, 1]]).results =
      [.ok (some ⟨[7], [8, 9]⟩), .ok (some ⟨[5], []⟩), .error (.framing .emptyHeader)] := by
  refine (results_ofChunks 4 _ (by decide)).1.trans ?_
  decide +kernel

end Stream
end Callwire
