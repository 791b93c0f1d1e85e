/-
# Readers do not see where a stream is cut

What a buffer gives it also gives if more bytes are there, and these stay; where it gives
nothing, it can be asked again later. So a read of a stream gives the same, and leaves the
same behind, as if all bytes up to the next break or end were in the buffer from the
start. Two streams that are alike then, once these bytes are joined, stay alike under every
read and give the same each time. No reader can tell them apart, whatever it asks for next
because of what it got.

Key definitions: `Frame.Buffer.Steady`, `Stream.joined`, `Stream.Alike`, `Stream.Reader`,
`Stream.Same`, `Stream.Shows`.
Key theorems: `Stream.readUntil_alike`, `Stream.readLine_alike`, `Stream.nextFrame_alike`,
`Stream.Alike.run`, `Stream.Alike.same`, `Stream.alike_ofArrivals`, `Stream.alike_ofChunks`,
`Stream.Alike.shows`.
-/
import Callwire.Options
import Callwire.Proofs.Streams

namespace Callwire

theorem Bytes.split?_append_more {n : Nat} {bs a b : Bytes} (h : split? n bs = some (a, b)) (more : Bytes) :
    split? n (bs ++ more) = some (a, b ++ more) := by
  obtain ⟨rfl, rfl⟩ := eq_append_of_split? h
  rw [List.append_assoc, split?_append]

theorem Lengths.decode?_append_more {bs : Bytes} {l : Lengths} (h : decode? bs = some l) (more : Bytes) :
    decode? (bs ++ more) = some l := by
  obtain ⟨he, hw⟩ := eq_append_of_decode? h
  rw [he, List.append_assoc]
  exact decode?_append hw _

/-! ### Buffers -/

namespace Frame.Buffer

variable {α : Type} {b b' : Buffer}

/-- What is given is given also if more bytes are there, and these stay. Where nothing is
given, asking later is like not having asked. -/
structure Steady (take : Buffer → Except Fault (Option α) × Buffer) : Prop where
  given : ∀ {b b' r}, take b = (r, b') → r ≠ .ok none → ∀ more, take (b.extend more) = (r, b'.extend more)
  later : ∀ {b b'}, take b = (.ok none, b') → ∀ more, take (b'.extend more) = take (b.extend more)

theorem extend_nil (b : Buffer) : b.extend [] = b := by
  rw [extend, List.append_nil]

theorem extend_extend (b : Buffer) (xs ys : Bytes) : (b.extend xs).extend ys = b.extend (xs ++ ys) := by
  simp only [extend, List.append_assoc]

/-- A line is taken, or is found to be too long, whatever comes after it. -/
theorem takeLine_extend {limit : Nat} {r : Except ProtocolFault (Option Bytes)}
    (h : b.takeLine limit = (r, b')) (hr : r ≠ .ok none) (more : Bytes) :
    (b.extend more).takeLine limit = (r, b'.extend more) := by
  have hu : (b.extend more).unread = b.unread ++ more := rfl
  rw [takeLine] at h ⊢
  rw [hu, List.findIdx?_append]
  cases hi : b.unread.findIdx? (· == 0x0a) with
  | some i =>
    obtain ⟨hlt, -, -⟩ := List.findIdx?_eq_some_iff_getElem.mp hi
    simp only [hi] at h
    simp only [Option.some_or]
    split at h
    · rename_i hlong
      cases h
      rw [if_pos hlong]
    · rename_i hshort
      cases h
      rw [if_neg hshort, List.take_append_of_le_length (by omega), List.drop_append_of_le_length (by omega)]
      rfl
  | none =>
    simp only [hi] at h
    split at h
    · rename_i hlong
      cases h
      cases hj : more.findIdx? (· == 0x0a) with
      | none =>
        have hmore : limit < (b.unread ++ more).length := by
          rw [List.length_append]
          omega
        exact if_pos hmore
      | some j =>
        have hmore : limit < j + b.unread.length := by omega
        exact if_pos hmore
    · cases h
      exact absurd rfl hr

theorem steady_takeLine (limit : Nat) :
    Steady fun b => let r := b.takeLine limit; (r.1.mapError .protocol, r.2) where
  given {b b' r} h hr more := by
    rcases ht : b.takeLine limit with ⟨r₀, b₀⟩
    simp only [ht, Prod.mk.injEq] at h
    obtain ⟨rfl, rfl⟩ := h
    have hr₀ : r₀ ≠ .ok none := by
      rintro rfl
      exact hr rfl
    simp only [takeLine_extend ht hr₀ more]
  later {b b'} h more := by
    rcases ht : b.takeLine limit with ⟨_ | _ | line, b₀⟩ <;> rw [ht] at h <;> cases h
    obtain ⟨rfl, -⟩ := takeLine_none ht
    rfl

theorem advance_of_awaited {l : Lengths} (h : b.awaited = some l) : b.advance = .ok b := by
  simp only [advance, h]

/-- The lengths can be taken before more bytes are there. -/
theorem next_extend_of_advance (h : b.advance = .ok b') (more : Bytes) :
    (b'.extend more).next = (b.extend more).next := by
  rw [advance] at h
  split at h
  · cases h
    rfl
  · rename_i haw
    split at h
    · cases h
      rfl
    · rename_i l hd
      split at h
      · cases h
      · rename_i hc
        cases h
        obtain ⟨hb, -⟩ := Lengths.eq_append_of_decode? hd
        have hlen := congrArg List.length hb
        rw [List.length_append, Lengths.length_encode] at hlen
        have hmore : Lengths.decode? (b.unread ++ more) = some l := Lengths.decode?_append_more hd more
        have hadv : (b.extend more).advance =
            .ok { b with unread := b.unread.drop Lengths.size ++ more, awaited := some l } := by
          simp only [advance, extend, haw, hmore, hc]
          rw [List.drop_append_of_le_length (by omega)]
        rw [next, next, hadv, advance_of_awaited (l := l) rfl]
        rfl

theorem next_extend {r : Except FramingFault (Option Frame)} (h : b.next = (r, b')) (hr : r ≠ .ok none)
    (more : Bytes) : (b.extend more).next = (r, b'.extend more) := by
  cases hadv : b.advance with
  | error e =>
    have he : (b.extend more).advance = .error e := by
      rw [advance] at hadv ⊢
      split at hadv
      · cases hadv
      · rename_i haw
        split at hadv
        · cases hadv
        · rename_i l hd
          split at hadv
          · rename_i hc
            cases hadv
            have hmore : Lengths.decode? (b.unread ++ more) = some l := Lengths.decode?_append_more hd more
            simp only [extend, haw, hmore, hc]
          · cases hadv
    rw [next, hadv] at h
    cases h
    rw [next, he]
  | ok b₁ =>
    rw [← next_extend_of_advance hadv more]
    rw [next, hadv] at h
    cases haw : b₁.awaited with
    | none =>
      simp only [takeParts, haw] at h
      cases h
      exact absurd rfl hr
    | some l =>
      simp only [takeParts, haw] at h
      cases hs : Bytes.split? (l.header + l.body) b₁.unread with
      | none =>
        simp only [hs] at h
        cases h
        exact absurd rfl hr
      | some p =>
        simp only [hs] at h
        cases h
        have hmore : Bytes.split? (l.header + l.body) (b₁.unread ++ more) = some (p.1, p.2 ++ more) :=
          Bytes.split?_append_more hs more
        rw [next, advance_of_awaited (by exact haw)]
        simp only [takeParts, extend, haw, hmore]

theorem next_later (h : b.next = (.ok none, b')) (more : Bytes) :
    (b'.extend more).next = (b.extend more).next := by
  rw [next] at h
  split at h
  · cases h
  · rename_i b₁ hadv
    rw [← next_extend_of_advance hadv more]
    simp only [takeParts] at h
    split at h
    · cases h
      rfl
    · split at h <;> cases h
      rfl

theorem steady_next : Steady fun b => let r := b.next; (r.1.mapError .framing, r.2) where
  given {b b' r} h hr more := by
    rcases hn : b.next with ⟨r₀, b₀⟩
    simp only [hn, Prod.mk.injEq] at h
    obtain ⟨rfl, rfl⟩ := h
    have hr₀ : r₀ ≠ .ok none := by
      rintro rfl
      exact hr rfl
    simp only [next_extend hn hr₀ more]
  later {b b'} h more := by
    rcases hn : b.next with ⟨_ | _ | f, b₀⟩ <;> rw [hn] at h <;> cases h
    simp only [next_later hn more]

end Frame.Buffer

/-! ### Streams -/

namespace Stream

open Frame.Buffer (Steady extend_nil extend_extend)

variable {α : Type} {s t : Stream}

/-- The bytes up to the next break or end, and what comes after them. -/
def inflow : List Arrival → Bytes × List Arrival
  | .chunk (b :: bs) :: as => (b :: bs ++ (inflow as).1, (inflow as).2)
  | as => ([], as)

/-- The stream with these bytes in the buffer. -/
def joined (s : Stream) : Stream := ⟨s.buffer.extend (inflow s.arrivals).1, (inflow s.arrivals).2⟩

/-- The streams hold the same, however it is cut. -/
def Alike (s t : Stream) : Prop := s.joined = t.joined

theorem Alike.symm (h : Alike s t) : Alike t s := Eq.symm h

theorem Alike.trans {u : Stream} (h : Alike s t) (h' : Alike t u) : Alike s u := Eq.trans h h'

theorem joined_extend (b : Frame.Buffer) (x : UInt8) (xs : Bytes) (as : List Arrival) :
    joined ⟨b.extend (x :: xs), as⟩ = joined ⟨b, .chunk (x :: xs) :: as⟩ := by
  simp only [joined, inflow, extend_extend]

/-- Nothing comes before the next break or end where the bytes up to it are joined. -/
theorem inflow_inflow (as : List Arrival) : inflow (inflow as).2 = ([], (inflow as).2) := by
  fun_induction inflow as with
  | case1 b bs as ih => exact ih
  | case2 as h => rw [inflow.eq_2 _ h]

theorem joined_joined (s : Stream) : s.joined.joined = s.joined := by
  rw [joined, joined, inflow_inflow, extend_nil]

/-- **A read does not see where the stream is cut.** It gives what it gives if all bytes up
to the next break or end are in the buffer, and what it leaves is alike. -/
theorem readUntil_joined {take : Frame.Buffer → Except Fault (Option α) × Frame.Buffer}
    (ended : Frame.Buffer → Except Fault (Option α)) (h : Steady take) (b : Frame.Buffer)
    (as : List Arrival) :
    let r := readUntil take (fun _ => 1) ended as b
    let j := joined ⟨b, as⟩
    let r' := readUntil take (fun _ => 1) ended j.arrivals j.buffer
    r.1 = r'.1 ∧ r.2.Alike r'.2 := by
  have hidle : ∀ (b : Frame.Buffer) (as : List Arrival), inflow as = ([], as) → joined ⟨b, as⟩ = ⟨b, as⟩ := by
    intro b as hi
    rw [joined, hi, extend_nil]
  induction as generalizing b with
  | nil => simp [hidle b [] rfl, Alike]
  | cons a as ih =>
    rcases a with ⟨_ | ⟨x, xs⟩⟩ | why
    · simp [hidle b (.chunk [] :: as) rfl, Alike]
    · rcases ht : take b with ⟨r, b'⟩
      by_cases hr : r = .ok none
      · subst hr
        -- asking a first time changes nothing, so it can be left out
        have hlater : ∀ ys zs, readUntil take (fun _ => 1) ended zs (b'.extend ys) =
            readUntil take (fun _ => 1) ended zs (b.extend ys) := by
          intro ys zs
          rw [readUntil_one, readUntil_one, h.later ht]
        have ih := ih (b.extend (x :: xs))
        have hread : readUntil take (fun _ => 1) ended (.chunk (x :: xs) :: as) b =
            readUntil take (fun _ => 1) ended as (b.extend (x :: xs)) := by
          rw [readUntil_one, ht]
          exact hlater _ _
        rw [joined_extend] at ih
        simp only [hread]
        exact ih
      · have hgiven : ∀ (c c' : Frame.Buffer) (zs : List Arrival), take c = (r, c') →
            readUntil take (fun _ => 1) ended zs c = (r, ⟨c', zs⟩) := by
          intro c c' zs hc
          rw [readUntil_one, hc]
          rcases r with _ | _ | v
          · rfl
          · exact absurd rfl hr
          · rfl
        have hmore := h.given ht hr (inflow (.chunk (x :: xs) :: as)).1
        simp only [hgiven _ _ _ ht]
        rw [joined, hgiven _ _ _ hmore]
        exact ⟨rfl, (joined_joined ⟨b', .chunk (x :: xs) :: as⟩).symm⟩
    · simp [hidle b (.fault why :: as) rfl, Alike]

theorem readUntil_alike {take : Frame.Buffer → Except Fault (Option α) × Frame.Buffer}
    (ended : Frame.Buffer → Except Fault (Option α)) (h : Steady take) (ha : Alike s t) :
    let r := readUntil take (fun _ => 1) ended s.arrivals s.buffer
    let r' := readUntil take (fun _ => 1) ended t.arrivals t.buffer
    r.1 = r'.1 ∧ r.2.Alike r'.2 := by
  have hs := readUntil_joined ended h s.buffer s.arrivals
  have ht := readUntil_joined ended h t.buffer t.arrivals
  rw [show joined ⟨s.buffer, s.arrivals⟩ = joined ⟨t.buffer, t.arrivals⟩ from ha] at hs
  exact ⟨hs.1.trans ht.1.symm, hs.2.trans ht.2.symm⟩

/-- **A line of one is a line of the other.** -/
theorem readLine_alike (ha : Alike s t) (limit : Nat) :
    (s.readLine limit).1 = (t.readLine limit).1 ∧ (s.readLine limit).2.Alike (t.readLine limit).2 :=
  readUntil_alike _ (Frame.Buffer.steady_takeLine limit) ha

/-- **A frame of one is a frame of the other.** -/
theorem nextFrame_alike (ha : Alike s t) :
    s.nextFrame.1 = t.nextFrame.1 ∧ s.nextFrame.2.Alike t.nextFrame.2 := by
  rw [nextFrame_eq_each, nextFrame_eq_each]
  exact readUntil_alike _ Frame.Buffer.steady_next ha

/-! ### Readers -/

/-- Who reads lines and frames from a stream, and what it reads next because of what it
got. -/
inductive Reader (α : Type) where
  | done (a : α)
  | line (limit : Nat) (next : Except Fault (Option Bytes) → Reader α)
  | frame (next : Except Fault (Option Frame) → Reader α)

/-- What a reader makes of a stream, and the stream after it. -/
def Reader.run : Reader α → Stream → α × Stream
  | .done a, s => (a, s)
  | .line limit next, s => (next (s.readLine limit).1).run (s.readLine limit).2
  | .frame next, s => (next s.nextFrame.1).run s.nextFrame.2

/-- **No reader tells the streams apart.** -/
theorem Alike.run (ha : Alike s t) (p : Reader α) :
    (p.run s).1 = (p.run t).1 ∧ (p.run s).2.Alike (p.run t).2 := by
  induction p generalizing s t with
  | done a => exact ⟨rfl, ha⟩
  | line limit next ih =>
    obtain ⟨hline, hrest⟩ := readLine_alike ha limit
    simp only [Reader.run, hline]
    exact ih _ hrest
  | frame next ih =>
    obtain ⟨hframe, hrest⟩ := nextFrame_alike ha
    simp only [Reader.run, hframe]
    exact ih _ hrest

theorem Alike.results (ha : Alike s t) : s.results = t.results := by
  fun_induction Stream.results s generalizing t with
  | case1 s f s' h ih =>
    obtain ⟨hframe, hrest⟩ := nextFrame_alike ha
    rcases ht : t.nextFrame with ⟨r, t'⟩
    rw [h, ht] at hframe hrest
    obtain rfl : Except.ok (some f) = r := hframe
    rw [Stream.results.eq_def t, ht]
    exact congrArg _ (ih hrest)
  | case2 s r s' hr h =>
    obtain ⟨hframe, -⟩ := nextFrame_alike ha
    rcases ht : t.nextFrame with ⟨r', t'⟩
    rw [h, ht] at hframe
    obtain rfl : r = r' := hframe
    rw [Stream.results.eq_def t, ht]
    rcases r with _ | _ | f
    · rfl
    · rfl
    · exact absurd rfl (hr f)

theorem Alike.receive (ha : Alike s t) :
    (Options.receive s).1 = (Options.receive t).1 ∧ (Options.receive s).2.Alike (Options.receive t).2 := by
  obtain ⟨hline, hrest⟩ := readLine_alike ha Options.lineLimit
  unfold Options.receive
  rcases hs : s.readLine Options.lineLimit with ⟨r, s'⟩
  rcases ht : t.readLine Options.lineLimit with ⟨r', t'⟩
  rw [hs, ht] at hline hrest
  obtain rfl : r = r' := hline
  rcases r with _ | _ | line <;> exact ⟨rfl, hrest⟩

theorem go_inflow (as : List Arrival) : (inflow as).1 ++ rest.go (inflow as).2 = rest.go as := by
  fun_induction inflow as with
  | case1 b bs as ih => rw [List.append_assoc, ih, rest.go]
  | case2 as h => rfl

theorem Alike.rest (ha : Alike s t) : s.rest = t.rest := by
  have hrest : ∀ s : Stream, s.rest = s.joined.rest := by
    intro s
    simp only [Stream.rest, joined, Frame.Buffer.extend, List.append_assoc, go_inflow]
  rw [hrest s, hrest t, ha]

/-- **What is read from one stream is read from the other**: its bytes, whatever a reader
asks for, the options at its front, and all frames to its end, with options before them
or without. -/
structure Same (s t : Stream) : Prop where
  rest : s.rest = t.rest
  reader : ∀ {α : Type} (p : Reader α), (p.run s).1 = (p.run t).1
  options : (Options.receive s).1 = (Options.receive t).1
  frames : s.results = t.results
  served : (Options.receive s).2.results = (Options.receive t).2.results

theorem Alike.same (ha : Alike s t) : Same s t where
  rest := ha.rest
  reader p := (ha.run p).1
  options := ha.receive.1
  frames := ha.results
  served := ha.receive.2.results

/-! ### Chunks -/

theorem inflow_pieces {bs : Bytes} (h : bs ≠ []) (as : List Arrival) :
    inflow (pieces bs ++ as) = (bs ++ (inflow as).1, (inflow as).2) := by
  fun_induction pieces bs with
  | case1 bs hd =>
    obtain ⟨b, bs, rfl⟩ := List.exists_cons_of_ne_nil h
    rfl
  | case2 bs hd ih =>
    obtain ⟨b, bs', hb⟩ := List.exists_cons_of_ne_nil (l := bs.take readSize) (by simp [readSize, h])
    rw [List.cons_append, hb, inflow, ih (by simpa using hd), ← hb, ← List.append_assoc,
      List.take_append_drop]

/-- A stream that begins with chunks holds their bytes, and then what comes after them. -/
theorem alike_ofArrivals (limit : Nat) {chunks : List Bytes} (h : ∀ c ∈ chunks, c ≠ [])
    (after : List Arrival) :
    Alike (ofArrivals limit (chunks.map .chunk ++ after))
      ⟨{ unread := chunks.flatten ++ (inflow (ofArrivals limit after).arrivals).1, limit := limit },
        (inflow (ofArrivals limit after).arrivals).2⟩ := by
  have hflow : inflow (ofArrivals limit (chunks.map .chunk ++ after)).arrivals =
      (chunks.flatten ++ (inflow (ofArrivals limit after).arrivals).1,
        (inflow (ofArrivals limit after).arrivals).2) := by
    induction chunks with
    | nil => rfl
    | cons c cs ih =>
      have ih := ih fun d hd => h d (List.mem_cons_of_mem _ hd)
      have harr : (ofArrivals limit ((c :: cs).map .chunk ++ after)).arrivals =
          pieces c ++ (ofArrivals limit (cs.map .chunk ++ after)).arrivals := rfl
      rw [harr, inflow_pieces (h c List.mem_cons_self), ih, List.flatten_cons, List.append_assoc]
  rw [Alike, joined, hflow, joined, inflow_inflow, extend_nil]
  rfl

theorem alike_ofChunks (limit : Nat) {chunks : List Bytes} (h : ∀ c ∈ chunks, c ≠ []) :
    Alike (ofChunks limit chunks) ⟨{ unread := chunks.flatten, limit := limit }, []⟩ := by
  have halike := alike_ofArrivals limit h []
  have hnone : inflow (ofArrivals limit []).arrivals = ([], []) := rfl
  rw [hnone, List.append_nil, List.append_nil] at halike
  exact halike

/-- **The stream is that of these bytes and of what comes after them**, to any reader and
wherever that one is cut. -/
structure Shows (s : Stream) (limit : Nat) (bs : Bytes) (after : List Arrival) : Prop where
  rest : s.rest = bs ++ (ofArrivals limit after).rest
  same : ∀ chunks : List Bytes, (∀ c ∈ chunks, c ≠ []) → chunks.flatten = bs →
    s.Same (ofArrivals limit (chunks.map .chunk ++ after))

theorem Alike.shows {limit : Nat} {bs : Bytes} {after : List Arrival}
    (ha : s.Alike ⟨{ unread := bs ++ (inflow (ofArrivals limit after).arrivals).1, limit := limit },
      (inflow (ofArrivals limit after).arrivals).2⟩) : s.Shows limit bs after where
  rest := by
    have hrest : (ofArrivals limit after).rest = rest.go (ofArrivals limit after).arrivals := rfl
    rw [ha.rest, hrest, ← go_inflow (ofArrivals limit after).arrivals, ← List.append_assoc]
    rfl
  same chunks h hc := by
    have hchunks := alike_ofArrivals limit h after
    rw [hc] at hchunks
    exact (ha.trans hchunks.symm).same

theorem Alike.shows_end {limit : Nat} {bs : Bytes} (ha : s.Alike ⟨{ unread := bs, limit := limit }, []⟩) :
    s.Shows limit bs [] := by
  refine Alike.shows ?_
  have hnone : inflow (ofArrivals limit []).arrivals = ([], []) := rfl
  rw [hnone, List.append_nil]
  exact ha

end Stream
end Callwire
