/-
# Lines of a stream that comes in chunks

What a stream gives as its next line depends on its bytes alone. Up to the limit of a line is
looked for a line feed: if it stands there, the bytes before it are the line, without one
carriage return at their end, and what comes after it is what the stream shows from then on. If
more bytes come without one, they are too many for a line, whether a line feed comes after them
or not; and if the stream ends before, there is no line. Then not one byte is taken, and the
stream shows what it showed before.

Key definitions: `Bytes.Breaks`, `Bytes.RunsOn`, `Bytes.Strips`.
Key theorems: `Bytes.strips_iff`, `Bytes.breaks_or`, `Stream.readLine_of_breaks`,
`Stream.readLine_of_runsOn`, `Stream.readLine_of_free`, `Stream.readLine_ofChunks`.
-/
import Callwire.Proofs.Tunnel

namespace Callwire

/-! ### Line feeds in bytes -/

namespace Bytes

variable {bs line pre rest : Bytes} {n : Nat}

/-- The first line feed of the bytes stands between `pre` and `rest`. -/
structure Breaks (bs pre rest : Bytes) : Prop where
  free : 0x0a ∉ pre
  bytes : bs = pre ++ 0x0a :: rest

/-- More than `n` bytes come before the first line feed, or before the end where there is none. -/
def RunsOn (n : Nat) (bs : Bytes) : Prop :=
  (∃ pre rest, bs.Breaks pre rest ∧ n < pre.length) ∨ 0x0a ∉ bs ∧ n < bs.length

/-- The line is these bytes without a carriage return at their end, and without one only. -/
def Strips (pre line : Bytes) : Prop := pre = line ++ [0x0d] ∨ pre = line ∧ pre.getLast? ≠ some 0x0d

theorem strips_iff : pre.Strips line ↔ Frame.Buffer.stripReturn pre = line := by
  rw [Strips, Frame.Buffer.stripReturn]
  by_cases hlast : pre.getLast? = some 0x0d
  · obtain ⟨front, rfl⟩ := List.getLast?_eq_some_iff.mp hlast
    simp
  · rw [if_neg hlast]
    constructor
    · rintro (rfl | ⟨rfl, -⟩)
      · exact absurd List.getLast?_concat hlast
      · rfl
    · rintro rfl
      exact .inr ⟨rfl, hlast⟩

theorem breaks_or (n : Nat) (bs : Bytes) :
    (∃ pre rest, bs.Breaks pre rest ∧ pre.length ≤ n) ∨ RunsOn n bs ∨ 0x0a ∉ bs ∧ bs.length ≤ n := by
  by_cases hm : 0x0a ∈ bs
  · obtain ⟨pre, rest, hbytes, hfree⟩ := List.eq_append_cons_of_mem hm
    rcases Nat.lt_or_ge n pre.length with hlong | hshort
    · exact .inr (.inl (.inl ⟨pre, rest, ⟨hfree, hbytes⟩, hlong⟩))
    · exact .inl ⟨pre, rest, ⟨hfree, hbytes⟩, hshort⟩
  · rcases Nat.lt_or_ge n bs.length with hlong | hshort
    · exact .inr (.inl (.inr ⟨hm, hlong⟩))
    · exact .inr (.inr ⟨hm, hshort⟩)

end Bytes

/-! ### Reading a line -/

namespace Stream

variable {s : Stream} {bs pre rest : Bytes} {limit n : Nat}

/-- A line that is short enough is read, and what comes after it is shown from then on. -/
theorem readLine_of_breaks (h : bs.Breaks pre rest) (hl : pre.length ≤ n)
    (hs : s.Alike ⟨{ unread := bs, limit := limit }, []⟩) :
    (s.readLine n).1 = .ok (some (Frame.Buffer.stripReturn pre)) ∧ (s.readLine n).2.Shows limit rest [] := by
  rw [h.bytes] at hs
  obtain ⟨s', hread, hrest⟩ := readLine_front h.free hl hs
  rw [hread]
  exact ⟨rfl, hrest.shows_end⟩

/-- Where bytes run on they are too many for a line, and none of them is taken. -/
theorem readLine_of_runsOn (h : bs.RunsOn n) (hs : s.Alike ⟨{ unread := bs, limit := limit }, []⟩) :
    (s.readLine n).1 = .error (.protocol (.lineTooLong n)) ∧ (s.readLine n).2.Shows limit bs [] := by
  have hfront : ∃ front more, bs = front ++ more ∧ 0x0a ∉ front ∧ n < front.length := by
    rcases h with ⟨pre, rest, hbreaks, hlong⟩ | ⟨hfree, hlong⟩
    · exact ⟨pre, 0x0a :: rest, hbreaks.bytes, hbreaks.free, hlong⟩
    · exact ⟨bs, [], (List.append_nil bs).symm, hfree, hlong⟩
  obtain ⟨front, more, rfl, hfree, hlong⟩ := hfront
  obtain ⟨s', hread, hrest⟩ := readLine_long hfree hlong hs
  rw [hread]
  exact ⟨rfl, hrest.shows_end⟩

theorem readLine_of_free (hfree : 0x0a ∉ bs) (hl : bs.length ≤ n)
    (hs : s.Alike ⟨{ unread := bs, limit := limit }, []⟩) :
    (s.readLine n).1 = .ok none ∧ (s.readLine n).2.Shows limit bs [] := by
  obtain ⟨s', hread, hrest⟩ := readLine_free hfree hl hs
  rw [hread]
  exact ⟨rfl, hrest.shows_end⟩

/-- **Reading a line does not depend on where the stream is cut.** A stream comes in any chunks
and ends.

* A line is read if and only if the first line feed comes after at most `n` bytes; it is these
  bytes without a carriage return at their end.
* The line is too long if and only if more than `n` bytes come before the first line feed, or
  before the end where there is none. Nothing else goes wrong.
* Nothing is read if and only if there is no line feed and the bytes are not too many.
* After a line the stream shows what comes after its line feed, to whoever reads lines and
  frames from it, and no other byte.
* Where no line is read the stream shows all its bytes, as before. -/
theorem readLine_ofChunks (limit n : Nat) {chunks : List Bytes} (hchunks : ∀ c ∈ chunks, c ≠ []) :
    let bs : Bytes := chunks.flatten
    let r := (ofChunks limit chunks).readLine n
    (∀ line, r.1 = .ok (some line) ↔ ∃ pre rest, bs.Breaks pre rest ∧ pre.length ≤ n ∧ pre.Strips line) ∧
    (∀ e, r.1 = .error e ↔ e = .protocol (.lineTooLong n) ∧ bs.RunsOn n) ∧
    (r.1 = .ok none ↔ 0x0a ∉ bs ∧ bs.length ≤ n) ∧
    (∀ pre rest, bs.Breaks pre rest → pre.length ≤ n → r.2.Shows limit rest []) ∧
    ((∀ line, r.1 ≠ .ok (some line)) → r.2.Shows limit bs []) := by
  intro bs r
  have hs : (ofChunks limit chunks).Alike ⟨{ unread := bs, limit := limit }, []⟩ := alike_ofChunks limit hchunks
  have hline : ∀ pre rest, bs.Breaks pre rest → pre.length ≤ n →
      r.1 = .ok (some (Frame.Buffer.stripReturn pre)) ∧ r.2.Shows limit rest [] :=
    fun pre rest h hl => readLine_of_breaks h hl hs
  have hlong : bs.RunsOn n → r.1 = .error (.protocol (.lineTooLong n)) ∧ r.2.Shows limit bs [] :=
    fun h => readLine_of_runsOn h hs
  have hnone : 0x0a ∉ bs ∧ bs.length ≤ n → r.1 = .ok none ∧ r.2.Shows limit bs [] :=
    fun h => readLine_of_free h.1 h.2 hs
  have hcases := Bytes.breaks_or n bs
  refine ⟨fun line => ⟨fun h => ?_, ?_⟩, fun e => ⟨fun h => ?_, ?_⟩, ⟨fun h => ?_, fun h => (hnone h).1⟩,
    fun pre rest hb hl => (hline pre rest hb hl).2, fun h => ?_⟩
  · rcases hcases with ⟨pre, rest, hb, hl⟩ | hr | hf
    · rw [(hline pre rest hb hl).1] at h
      exact ⟨pre, rest, hb, hl, Bytes.strips_iff.mpr (Option.some.inj (Except.ok.inj h))⟩
    · cases (hlong hr).1.symm.trans h
    · cases (hnone hf).1.symm.trans h
  · rintro ⟨pre, rest, hb, hl, hstrips⟩
    rw [(hline pre rest hb hl).1, Bytes.strips_iff.mp hstrips]
  · rcases hcases with ⟨pre, rest, hb, hl⟩ | hr | hf
    · cases (hline pre rest hb hl).1.symm.trans h
    · exact ⟨Except.error.inj (h.symm.trans (hlong hr).1), hr⟩
    · cases (hnone hf).1.symm.trans h
  · rintro ⟨rfl, hr⟩
    exact (hlong hr).1
  · rcases hcases with ⟨pre, rest, hb, hl⟩ | hr | hf
    · cases (hline pre rest hb hl).1.symm.trans h
    · cases (hlong hr).1.symm.trans h
    · exact hf
  · rcases hcases with ⟨pre, rest, hb, hl⟩ | hr | hf
    · exact absurd (hline pre rest hb hl).1 (h _)
    · exact (hlong hr).2
    · exact (hnone hf).2

/-- A line of three bytes that end in two carriage returns, cut between them. It is read where
three bytes are allowed, and without its last byte; where two are allowed all bytes stay. -/
theorem readLine_ofChunks_returns :
    let s := ofChunks 100 [[0x61, 0x0d], [0x0d, 0x0a, 7]]
    (s.readLine 3).1 = .ok (some [0x61, 0x0d]) ∧ (s.readLine 3).2.rest = [7] ∧
      (s.readLine 2).1 = .error (.protocol (.lineTooLong 2)) ∧
      (s.readLine 2).2.rest = [0x61, 0x0d, 0x0d, 0x0a, 7] := by
  intro s
  have hchunks : ∀ c ∈ [[0x61, 0x0d], [0x0d, 0x0a, 7]], c ≠ ([] : Bytes) := by decide
  have hbreaks : Bytes.Breaks [0x61, 0x0d, 0x0d, 0x0a, 7] [0x61, 0x0d, 0x0d] [7] := ⟨by decide, by decide⟩
  obtain ⟨hline, -, -, hafter, -⟩ := readLine_ofChunks 100 3 hchunks
  obtain ⟨-, hlong, -, -, hstays⟩ := readLine_ofChunks 100 2 hchunks
  have hread := (hline [0x61, 0x0d]).mpr ⟨_, _, hbreaks, by decide, .inl rfl⟩
  have htoo := (hlong (.protocol (.lineTooLong 2))).mpr ⟨rfl, .inl ⟨_, _, hbreaks, by decide⟩⟩
  have hleft := (hstays fun line h => by cases htoo.symm.trans h).rest
  exact ⟨hread, (hafter _ _ hbreaks (by decide)).rest, htoo, hleft⟩

end Stream
end Callwire
