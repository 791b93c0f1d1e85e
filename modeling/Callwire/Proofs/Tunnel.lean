/-
# The heads of a tunnel

Each side of a tunnel says one line and an empty one, and the other side reads these two
and not one byte more, wherever the stream is cut and whatever comes next. So from then on
the stream is, to any reader, the stream of what comes next.

Key definitions: `Tunnel.requestLine`, `Tunnel.statusLine`.
Key theorems: `Stream.readLine_front`, `Stream.readLine_free`, `Stream.readLine_long`,
`Tunnel.readHead_bare`, `Tunnel.accept_request`, `Tunnel.connect_opened`.
-/
import Callwire.Proofs.Handshake
import Callwire.Proofs.Readers
import Callwire.Tunnel

namespace Callwire

/-- Bytes that go on to be a line and more have its end already, or no line feed at all. -/
theorem Bytes.line_cases {u tail line more : Bytes} (hn : 0x0a ∉ line)
    (h : u ++ tail = line ++ 0x0a :: more) :
    (∃ u', u = line ++ 0x0a :: u') ∨ (0x0a ∉ u ∧ u.length ≤ line.length) := by
  rcases List.append_eq_append_iff.mp h with ⟨e, rfl, -⟩ | ⟨e, rfl, he⟩
  · refine .inr ⟨fun hu => hn (List.mem_append_left _ hu), ?_⟩
    rw [List.length_append]
    omega
  · cases e with
    | nil =>
      rw [List.append_nil]
      exact .inr ⟨hn, Nat.le_refl _⟩
    | cons x e =>
      obtain rfl := (List.cons.inj he).1
      exact .inl ⟨e, rfl⟩

namespace Frame.Buffer

variable {n : Nat}

/-- A line that is all there is taken. -/
theorem takeLine_of_line {line : Bytes} (hn : 0x0a ∉ line) (hl : line.length ≤ n) (more : Bytes)
    (limit : Nat) :
    ({ unread := line ++ 0x0a :: more, limit := limit } : Buffer).takeLine n =
      (.ok (some (stripReturn line)), { unread := more, limit := limit }) := by
  have hall : (line ++ 0x0a :: more) ++ [] = line ++ 0x0a :: more := List.append_nil _
  obtain ⟨u, ht, hu⟩ | ⟨-, hfree⟩ := Stream.takeLine_front
    (b := { unread := line ++ 0x0a :: more, limit := limit }) hn hl hall
  · rw [ht, ← hu, List.append_nil]
  · exact absurd (by simp) hfree

theorem findIdx?_of_free {u : Bytes} (hn : 0x0a ∉ u) : u.findIdx? (· == 0x0a) = none := by
  rw [List.findIdx?_eq_none_iff]
  intro x hx
  exact beq_eq_false_iff_ne.mpr fun h => hn (h ▸ hx)

theorem takeLine_of_free {u : Bytes} (hn : 0x0a ∉ u) (hl : u.length ≤ n) (limit : Nat) :
    ({ unread := u, limit := limit } : Buffer).takeLine n = (.ok none, { unread := u, limit := limit }) := by
  simp only [takeLine, findIdx?_of_free hn, if_neg (Nat.not_lt.mpr hl)]

/-- More than a line may have without a line feed is too long, whatever comes after it. -/
theorem takeLine_of_long {u : Bytes} (hn : 0x0a ∉ u) (hl : n < u.length) (more : Bytes) (limit : Nat) :
    ({ unread := u ++ more, limit := limit } : Buffer).takeLine n =
      (.error (.lineTooLong n), { unread := u ++ more, limit := limit }) := by
  have hfront : ({ unread := u, limit := limit } : Buffer).takeLine n =
      (.error (.lineTooLong n), { unread := u, limit := limit }) := by
    simp only [takeLine, findIdx?_of_free hn, if_pos hl]
  exact takeLine_extend hfront (by simp) more

end Frame.Buffer

namespace Stream

variable {s t t' : Stream} {u line more : Bytes} {limit n : Nat} {after : List Arrival}

theorem Alike.readLine_eq {r : Except Fault (Option Bytes)} (hs : s.Alike t) (ht : t.readLine n = (r, t')) :
    ∃ s', s.readLine n = (r, s') ∧ s'.Alike t' := by
  obtain ⟨hread, hrest⟩ := readLine_alike hs n
  rw [ht] at hread hrest
  exact ⟨(s.readLine n).2, Prod.ext hread rfl, hrest⟩

/-- A line at the front of what a stream holds is read, and the rest stays. -/
theorem readLine_front (hn : 0x0a ∉ line) (hl : line.length ≤ n)
    (hs : s.Alike ⟨{ unread := line ++ 0x0a :: more, limit := limit }, after⟩) :
    ∃ s', s.readLine n = (.ok (some (Frame.Buffer.stripReturn line)), s') ∧
      s'.Alike ⟨{ unread := more, limit := limit }, after⟩ := by
  refine hs.readLine_eq ?_
  rw [readLine_mk, Frame.Buffer.takeLine_of_line hn hl more limit]
  rfl

/-- Where a stream ends before a line does nothing is read, and all stays. -/
theorem readLine_free (hn : 0x0a ∉ u) (hl : u.length ≤ n) (hs : s.Alike ⟨{ unread := u, limit := limit }, []⟩) :
    ∃ s', s.readLine n = (.ok none, s') ∧ s'.Alike ⟨{ unread := u, limit := limit }, []⟩ := by
  refine hs.readLine_eq ?_
  rw [readLine_mk, Frame.Buffer.takeLine_of_free hn hl]

/-- Where a line is too long nothing is read, and all stays. -/
theorem readLine_long (hn : 0x0a ∉ u) (hl : n < u.length)
    (hs : s.Alike ⟨{ unread := u ++ more, limit := limit }, after⟩) :
    ∃ s', s.readLine n = (.error (.protocol (.lineTooLong n)), s') ∧
      s'.Alike ⟨{ unread := u ++ more, limit := limit }, after⟩ := by
  refine hs.readLine_eq ?_
  rw [readLine_mk, Frame.Buffer.takeLine_of_long hn hl]
  rfl

end Stream

namespace Tunnel

/-- The line of the request. -/
def requestLine : Bytes := Bytes.ofText ("CONNECT " ++ path ++ " HTTP/1.0")

/-- The line of the answer that opens the tunnel. -/
def statusLine : Bytes := Bytes.ofText ("HTTP/1.0 " ++ connected)

theorem request_eq : request = requestLine ++ [0x0a, 0x0a] := by decide +kernel

theorem opened_eq : opened = statusLine ++ [0x0a, 0x0a] := by decide +kernel

theorem request_append (more : Bytes) : request ++ more = requestLine ++ 0x0a :: 0x0a :: more := by
  rw [request_eq, List.append_assoc]
  rfl

/-- The line of the request fits, and asks for the tunnel. -/
theorem requestLine_spec : 0x0a ∉ requestLine ∧ requestLine.length ≤ lineLimit ∧
    Frame.Buffer.stripReturn requestLine = requestLine ∧
    verdict (Text.ofBytesLossy requestLine) = (opened, .ok ()) := by
  refine ⟨by decide +kernel, by decide +kernel, by decide +kernel, ?_⟩
  have hwords : Text.words (Text.ofBytesLossy requestLine) = ["CONNECT", path, "HTTP/1.0"] := by
    decide +kernel
  simp [verdict, hwords]

theorem statusLine_spec : 0x0a ∉ statusLine ∧ statusLine.length ≤ lineLimit ∧
    Frame.Buffer.stripReturn statusLine = statusLine ∧
    granted (Text.ofBytesLossy statusLine) = .ok () := by
  refine ⟨by decide +kernel, by decide +kernel, by decide +kernel, ?_⟩
  have hstatus : statusOf (Text.ofBytesLossy statusLine) = connected := by decide +kernel
  rw [granted, if_pos hstatus]

variable {s : Stream} {line more : Bytes} {limit : Nat} {after : List Arrival}

/-- **A head of one line is read, and not one byte more.** -/
theorem readHead_bare (hn : 0x0a ∉ line) (hl : line.length ≤ lineLimit)
    (hs : s.Alike ⟨{ unread := line ++ 0x0a :: 0x0a :: more, limit := limit }, after⟩) :
    ∃ s', readHead (headerLimit + 1) .empty s =
        (.ok (Text.ofBytesLossy (Frame.Buffer.stripReturn line)), s') ∧
      s'.Alike ⟨{ unread := more, limit := limit }, after⟩ := by
  obtain ⟨s₁, hfirst, h₁⟩ := Stream.readLine_front hn hl hs
  have hsecond : s₁.Alike ⟨{ unread := [] ++ 0x0a :: more, limit := limit }, after⟩ := h₁
  obtain ⟨s₂, hblank, h₂⟩ := Stream.readLine_front List.not_mem_nil (Nat.zero_le lineLimit) hsecond
  refine ⟨s₂, ?_, h₂⟩
  have hempty : (Text.ofBytesLossy (Frame.Buffer.stripReturn [])).isEmpty = true := by decide +kernel
  have hlimit : headerLimit = 99 + 1 := rfl
  simp only [readHead, readHeadLine, hfirst, Head.feed, hlimit, hblank, hempty, if_true]

/-- **The accepting side takes the request**, answers that the tunnel is open, and has all
that comes after the request. -/
theorem accept_request (hs : s.Alike ⟨{ unread := request ++ more, limit := limit }, after⟩) :
    ∃ s', accept s = (.ok (), opened, s') ∧ s'.Alike ⟨{ unread := more, limit := limit }, after⟩ := by
  obtain ⟨hn, hl, hstrip, hverdict⟩ := requestLine_spec
  rw [request_append] at hs
  obtain ⟨s', hread, hrest⟩ := readHead_bare hn hl hs
  refine ⟨s', ?_, hrest⟩
  rw [accept, hread, hstrip]
  show ((verdict _).2, (verdict _).1, s') = _
  rw [hverdict]

/-- **The dialing side takes the answer**, and has all that comes after it. -/
theorem connect_opened (hs : s.Alike ⟨{ unread := opened ++ more, limit := limit }, after⟩) :
    ∃ s', connect s = (.ok (), request, s') ∧ s'.Alike ⟨{ unread := more, limit := limit }, after⟩ := by
  obtain ⟨hn, hl, hstrip, hgranted⟩ := statusLine_spec
  rw [opened_eq, List.append_assoc] at hs
  obtain ⟨s', hread, hrest⟩ := readHead_bare hn hl hs
  refine ⟨s', ?_, hrest⟩
  rw [connect, hread, hstrip]
  show (granted _, request, s') = _
  rw [hgranted]

theorem written_connect (s : Stream) : (connect s).2.1 = request := by
  rw [connect]
  split <;> rfl

theorem verdict_cases (line : String) :
    verdict line = (opened, .ok ()) ∨ ∃ why, (verdict line).2 = .error why := by
  simp only [verdict]
  split
  · exact .inr ⟨_, rfl⟩
  · split
    · exact .inr ⟨_, rfl⟩
    · exact .inl rfl

theorem written_accept (h : (accept s).1 = .ok ()) : (accept s).2.1 = opened := by
  rw [accept] at h ⊢
  split at h
  · cases h
  · rename_i line s' _
    obtain hv | ⟨why, hv⟩ := verdict_cases line
    · exact congrArg Prod.fst hv
    · exact absurd (hv.symm.trans h) (by simp)

end Tunnel
end Callwire
