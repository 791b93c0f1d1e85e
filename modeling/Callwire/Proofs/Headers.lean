/-
# How many headers a head may have

After the first line of a head at most `headerLimit` lines are read, and the empty line that
ends the head is one of them. So a head is read to its end if and only if it has fewer headers
than that, whatever its lines say and wherever the stream is cut. Of a head with more headers
both sides read as many as `headerLimit`, and then they give it up; the accepting side says
nothing to it. A head with `headerLimit` headers is already one of these.

Key definitions: `Tunnel.Passed`.
Key theorems: `Tunnel.isLine_of_isBlank`, `Tunnel.given_up`, `Tunnel.headers_within_limit`.
-/
import Callwire.Proofs.Heads

namespace Callwire
namespace Tunnel

open Frame.Buffer (stripReturn)

variable {limit : Nat} {bs first blank rest : Bytes} {headers : List Bytes} {s : Stream}

/-- A side has read the head to its end, so that the rest comes next, and has not refused it
for the number of its headers. -/
structure Passed (r : Except Fault Unit × Bytes × Stream) (rest : Bytes) : Prop where
  counted : r.1 ≠ .error (.protocol .tooManyHeaders)
  left : r.2.2.rest = rest

theorem isLine_of_isBlank (h : IsBlank blank) : IsLine blank := by
  rw [IsBlank, stripReturn] at h
  split at h
  · rename_i hlast
    obtain ⟨front, rfl⟩ := List.getLast?_eq_some_iff.mp hlast
    rw [List.dropLast_concat] at h
    subst h
    exact ⟨by decide, by decide⟩
  · subst h
    exact ⟨by decide, by decide⟩

theorem verdict_ne_tooMany (text : String) : (verdict text).2 ≠ .error (.protocol .tooManyHeaders) := by
  rw [verdict_eq]
  split
  · simp
  · split <;> simp

theorem granted_ne_tooMany (text : String) : granted text ≠ .error (.protocol .tooManyHeaders) := by
  rw [granted]
  split <;> simp

/-- A head with few headers passes on both sides. -/
theorem passed_of_lt (h : Begun (first :: headers)) (hb : IsBlank blank) (hn : headers.length < headerLimit)
    (hs : Holds limit (ofLines (first :: headers) ++ (blank ++ 0x0a :: rest)) s) :
    Passed (accept s) rest ∧ Passed (connect s) rest := by
  have hwhole : Whole (ofLines (first :: headers) ++ (blank ++ 0x0a :: rest)) first rest :=
    .mk h hn (isLine_of_isBlank hb) hb
  obtain ⟨s', hrest, haccept, hconnect⟩ := answer_of_whole hwhole hs
  rw [haccept, hconnect]
  exact ⟨⟨verdict_ne_tooMany _, hrest⟩, ⟨granted_ne_tooMany _, hrest⟩⟩

/-- **A head with `headerLimit` headers or more is given up** on both sides, once so many of
them are read. Nothing is said to it. -/
theorem given_up (h : Begun (first :: headers)) (hn : headerLimit ≤ headers.length)
    (hs : Holds limit (ofLines (first :: headers) ++ rest) s) :
    ∃ s', s'.rest = ofLines (headers.drop headerLimit) ++ rest ∧
      accept s = (.error (.protocol .tooManyHeaders), [], s') ∧
      connect s = (.error (.protocol .tooManyHeaders), request, s') := by
  have hcut : first :: headers = (first :: headers.take headerLimit) ++ headers.drop headerLimit := by
    rw [List.cons_append, List.take_append_drop]
  have hlines : ofLines (first :: headers) ++ rest =
      ofLines (first :: headers.take headerLimit) ++ (ofLines (headers.drop headerLimit) ++ rest) := by
    rw [hcut, ofLines, List.flatMap_append, List.append_assoc]
    rfl
  rw [hlines] at hs
  rw [hcut] at h
  have hfull : (first :: headers.take headerLimit).length = headerLimit + 1 := by
    rw [List.length_cons, List.length_take_of_le hn]
  obtain ⟨s', hs', hread⟩ := readHead_full h.front hfull hs
  refine ⟨s', hs'.rest_eq, ?_, ?_⟩
  · rw [accept, hread]
  · rw [connect, hread]

/-- **A head passes if it has fewer than `headerLimit` headers.** It has a first line, headers
that are not empty, and an empty line; none of them is too long. Whatever the lines say and
whatever comes after them, in any chunks:

* The accepting side reads the head to its end, and does not refuse it for its headers, if and
  only if there are fewer headers than `headerLimit`.
* The same holds of the dialing side.
* A head with more headers is refused by both sides for their number. The accepting side writes
  nothing, and the headers above `headerLimit` and the empty line are not read. -/
theorem headers_within_limit (limit : Nat) {chunks : List Bytes} (hchunks : ∀ c ∈ chunks, c ≠ [])
    (h : Begun (first :: headers)) (hblank : IsBlank blank)
    (hbytes : chunks.flatten = ofLines (first :: headers) ++ (blank ++ 0x0a :: rest)) :
    let s := Stream.ofChunks limit chunks
    (Passed (accept s) rest ↔ headers.length < headerLimit) ∧
    (Passed (connect s) rest ↔ headers.length < headerLimit) ∧
    (headerLimit ≤ headers.length →
      (accept s).1 = .error (.protocol .tooManyHeaders) ∧ (accept s).2.1 = [] ∧
      (connect s).1 = .error (.protocol .tooManyHeaders) ∧
      (accept s).2.2.rest = ofLines (headers.drop headerLimit) ++ (blank ++ 0x0a :: rest) ∧
      (connect s).2.2.rest = (accept s).2.2.rest) := by
  intro s
  have hs : Holds limit (ofLines (first :: headers) ++ (blank ++ 0x0a :: rest)) s := by
    rw [← hbytes]
    exact holds_ofChunks hchunks
  rcases Nat.lt_or_ge headers.length headerLimit with hn | hn
  · obtain ⟨haccept, hconnect⟩ := passed_of_lt h hblank hn hs
    exact ⟨iff_of_true haccept hn, iff_of_true hconnect hn, fun hle => absurd hn (Nat.not_lt.mpr hle)⟩
  · obtain ⟨s', hleft, haccept, hconnect⟩ := given_up h hn hs
    rw [haccept, hconnect]
    exact ⟨iff_of_false (fun hp => hp.counted rfl) (Nat.not_lt.mpr hn),
      iff_of_false (fun hp => hp.counted rfl) (Nat.not_lt.mpr hn), fun _ => ⟨rfl, rfl, rfl, hleft, rfl⟩⟩

theorem begun_replicate (n : Nat) : Begun (requestLine :: List.replicate n [0x41]) where
  lines line hm := by
    rcases List.mem_cons.mp hm with rfl | hm
    · exact ⟨requestLine_spec.1, requestLine_spec.2.1⟩
    · rw [List.eq_of_mem_replicate hm]
      exact ⟨by decide, by decide⟩
  headers line hm := by
    rw [List.eq_of_mem_replicate hm]
    decide

/-- A request with 99 headers passes, one with 100 does not. The empty line of either comes in
a chunk of its own. -/
theorem headers_within_limit_edge :
    let s := fun n => Stream.ofChunks 100
      [ofLines (requestLine :: List.replicate n [0x41]), [0x0d, 0x0a, 7]]
    Passed (accept (s 99)) [7] ∧ (accept (s 100)).1 = .error (.protocol .tooManyHeaders) ∧
      (connect (s 100)).2.2.rest = [0x0d, 0x0a, 7] := by
  intro s
  have hchunks : ∀ n, ∀ c ∈ [ofLines (requestLine :: List.replicate n [0x41]), [0x0d, 0x0a, 7]], c ≠ [] := by
    simp [ofLines]
  have hbytes : ∀ n, [ofLines (requestLine :: List.replicate n [0x41]), [0x0d, 0x0a, 7]].flatten =
      ofLines (requestLine :: List.replicate n [0x41]) ++ ([0x0d] ++ 0x0a :: [7]) := by
    intro n
    simp
  obtain ⟨hfew, -, -⟩ := headers_within_limit 100 (hchunks 99) (begun_replicate 99) (by decide) (hbytes 99)
  obtain ⟨-, -, hmany⟩ := headers_within_limit 100 (hchunks 100) (begun_replicate 100) (by decide) (hbytes 100)
  obtain ⟨haccept, -, -, hleft, heq⟩ := hmany (by simp [headerLimit])
  exact ⟨hfew.mpr (by simp [headerLimit]), haccept, heq.trans hleft⟩

/-- **Not every head with at most `headerLimit` headers passes**, on either side. One with
exactly so many is refused. -/
theorem not_all_headers_within_limit :
    ¬ ∀ (limit : Nat) (chunks : List Bytes) (first blank rest : Bytes) (headers : List Bytes),
      (∀ c ∈ chunks, c ≠ []) → Begun (first :: headers) → IsBlank blank →
      chunks.flatten = ofLines (first :: headers) ++ (blank ++ 0x0a :: rest) →
      (Passed (accept (.ofChunks limit chunks)) rest ↔ headers.length ≤ headerLimit) ∧
      (Passed (connect (.ofChunks limit chunks)) rest ↔ headers.length ≤ headerLimit) := by
  intro h
  let headers : List Bytes := List.replicate headerLimit [0x41]
  let bs : Bytes := ofLines (requestLine :: headers) ++ [0x0a]
  have hchunks : ∀ c ∈ [bs], c ≠ [] := by simp [bs]
  have hbytes : [bs].flatten = ofLines (requestLine :: headers) ++ ([] ++ 0x0a :: []) := by simp [bs]
  have hlen : headers.length = headerLimit := List.length_replicate
  obtain ⟨hpassed, -⟩ := h 100 [bs] requestLine [] [] headers hchunks (begun_replicate headerLimit) (by decide)
    hbytes
  have hs : Holds 100 (ofLines (requestLine :: headers) ++ [0x0a]) (.ofChunks 100 [bs]) := by
    have hholds : Holds 100 [bs].flatten (.ofChunks 100 [bs]) := holds_ofChunks hchunks
    rwa [hbytes] at hholds
  obtain ⟨s', -, haccept, -⟩ := given_up (begun_replicate headerLimit) hlen.ge hs
  rw [haccept] at hpassed
  exact (hpassed.mpr hlen.le).counted rfl

end Tunnel
end Callwire
