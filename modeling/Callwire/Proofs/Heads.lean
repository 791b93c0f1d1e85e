/-
# What the bytes of a stream come to as a head

A head is a first line, then header lines that are not empty, then an empty line. Any bytes
begin with a whole head, or with lines that can be no head: the bytes end before the head
does, a line is too long, or there are too many lines without an empty one. Both sides of a
tunnel find out which of these it is, wherever the stream is cut, and have all that comes
after a whole head. The accepting side answers a whole head with one reply, which its first
line decides, and says nothing to anything else; the dialing side looks for the status in
the first line.

Key definitions: `Tunnel.Begun`, `Tunnel.Whole`, `Tunnel.Broken`, `Tunnel.reply`,
`Tunnel.SaysOpen`.
Key theorems: `Tunnel.readHead_begun`, `Tunnel.readHead_whole`, `Tunnel.readHead_full`,
`Tunnel.readHead_broken`, `Tunnel.whole_or_broken`, `Tunnel.answer_of_whole`,
`Tunnel.fail_of_broken`, `Tunnel.head_decides`.
-/
import Callwire.Proofs.Tunnel

namespace Callwire

/-! ### Text -/

/-- Bytes that began a text go on to be one. -/
theorem Text.Lossy.go_ne_nil {bs : Bytes} {p : Option Pending} {out : List Char}
    (h : bs ≠ [] ∨ p.isSome = true ∨ out ≠ []) : go bs p out ≠ [] := by
  fun_induction go bs p out
  case case1 => simpa using h
  case case2 => simp
  case case3 ih | case5 ih | case7 ih => exact ih (.inr (.inr (List.cons_ne_nil _ _)))
  case case4 ih | case6 ih | case8 ih => exact ih (.inr (.inl rfl))

theorem Text.isEmpty_ofBytesLossy (bs : Bytes) : (ofBytesLossy bs).isEmpty = bs.isEmpty := by
  cases bs with
  | nil => rfl
  | cons b bs =>
    have hne : Lossy.go (b :: bs) none [] ≠ [] := Lossy.go_ne_nil (.inl (List.cons_ne_nil b bs))
    rw [ofBytesLossy, List.isEmpty_cons, ← Bool.not_eq_true, String.isEmpty_iff]
    intro h
    exact hne (by simpa using congrArg String.toList h)

namespace Tunnel

open Frame.Buffer (stripReturn)

/-! ### Heads -/

/-- A line that a head may have, without its line feed. -/
structure IsLine (line : Bytes) : Prop where
  free : 0x0a ∉ line
  short : line.length ≤ lineLimit

/-- A line with nothing in it, but for a carriage return. -/
def IsBlank (line : Bytes) : Prop := stripReturn line = []

instance (line : Bytes) : Decidable (IsBlank line) := inferInstanceAs (Decidable (_ = _))

/-- The text of a line. -/
def textOf (line : Bytes) : String := Text.ofBytesLossy (stripReturn line)

/-- The lines, each with its line feed. -/
def ofLines (ls : List Bytes) : Bytes := ls.flatMap fun line => line ++ [0x0a]

/-- The lines may begin a head: they are the first line and headers. -/
structure Begun (ls : List Bytes) : Prop where
  lines : ∀ line ∈ ls, IsLine line
  headers : ∀ line ∈ ls.tail, ¬ IsBlank line

theorem Begun.front {ls more : List Bytes} (h : Begun (ls ++ more)) : Begun ls where
  lines line hm := h.lines line (List.mem_append_left _ hm)
  headers line hm := by
    cases ls with
    | nil => cases hm
    | cons first headers => exact h.headers line (List.mem_append_left _ hm)

/-- The bytes begin with a whole head: its first line, fewer headers than lines may follow,
and an empty line. The rest comes after the head. -/
inductive Whole : Bytes → Bytes → Bytes → Prop where
  | mk {first : Bytes} {headers : List Bytes} {blank rest : Bytes} (h : Begun (first :: headers))
      (hn : headers.length < headerLimit) (hl : IsLine blank) (hb : IsBlank blank) :
      Whole (ofLines (first :: headers) ++ (blank ++ 0x0a :: rest)) first rest

/-- More than a line may have comes before a line feed. -/
def RunsOver (bs : Bytes) : Prop := ∃ front more, bs = front ++ more ∧ 0x0a ∉ front ∧ lineLimit < front.length

/-- The bytes are not a head and not more of one, and why: they end before the head does, a
line is too long, or no empty line is among those that may follow the first. -/
inductive Broken : Bytes → ProtocolFault → Prop where
  | closed {ls : List Bytes} {tail : Bytes} (h : Begun ls) (hn : ls.length ≤ headerLimit)
      (ht : IsLine tail) : Broken (ofLines ls ++ tail) .closedDuringExchange
  | tooLong {ls : List Bytes} {tail : Bytes} (h : Begun ls) (hn : ls.length ≤ headerLimit)
      (ht : RunsOver tail) : Broken (ofLines ls ++ tail) (.lineTooLong lineLimit)
  | tooMany {ls : List Bytes} {more : Bytes} (h : Begun ls) (hn : ls.length = headerLimit + 1) :
      Broken (ofLines ls ++ more) .tooManyHeaders

variable {bs first rest line more : Bytes} {ls : List Bytes} {why : ProtocolFault} {s : Stream} {limit : Nat}

theorem ofLines_cons (line : Bytes) (ls : List Bytes) (more : Bytes) :
    ofLines (line :: ls) ++ more = line ++ 0x0a :: (ofLines ls ++ more) := by
  simp [ofLines]

theorem ofLines_concat (ls : List Bytes) (line more : Bytes) :
    ofLines (ls ++ [line]) ++ more = ofLines ls ++ (line ++ 0x0a :: more) := by
  simp [ofLines]

theorem line_cases (bs : Bytes) :
    (∃ line more, IsLine line ∧ bs = line ++ 0x0a :: more) ∨ IsLine bs ∨ RunsOver bs := by
  by_cases hm : 0x0a ∈ bs
  · obtain ⟨line, more, rfl, hfree⟩ := List.eq_append_cons_of_mem hm
    by_cases hl : line.length ≤ lineLimit
    · exact .inl ⟨line, more, ⟨hfree, hl⟩, rfl⟩
    · exact .inr (.inr ⟨line, 0x0a :: more, rfl, hfree, by omega⟩)
  · by_cases hl : bs.length ≤ lineLimit
    · exact .inr (.inl ⟨hm, hl⟩)
    · exact .inr (.inr ⟨bs, [], (List.append_nil bs).symm, hm, by omega⟩)

/-! ### Reading one line -/

theorem isEmpty_textOf (line : Bytes) : (textOf line).isEmpty = decide (IsBlank line) := by
  rw [textOf, Text.isEmpty_ofBytesLossy, Bool.eq_iff_iff, List.isEmpty_iff, decide_eq_true_iff]
  exact Iff.rfl

/-- The stream holds these bytes and ends. -/
def Holds (limit : Nat) (bs : Bytes) (s : Stream) : Prop := s.Alike ⟨{ unread := bs, limit := limit }, []⟩

theorem Holds.rest_eq (h : Holds limit bs s) : s.rest = bs := by
  rw [Stream.Alike.rest h]
  exact List.append_nil bs

/-- A line is read and what comes of it is told from the head so far. -/
theorem readHead_line (hl : IsLine line) (hs : Holds limit (line ++ 0x0a :: more) s) (fuel : Nat) (h : Head) :
    ∃ s', Holds limit more s' ∧ readHead (fuel + 1) h s =
      match h.feed (textOf line) with
      | .complete first => (.ok first, s')
      | .tooMany => (.error (.protocol .tooManyHeaders), s')
      | .more h => readHead fuel h s' := by
  obtain ⟨s', hread, hrest⟩ := Stream.readLine_front hl.free hl.short hs
  refine ⟨s', hrest, ?_⟩
  simp only [readHead, readHeadLine, hread]
  rfl

/-- A header is read, and one line less may follow. -/
theorem readHead_header {left : Nat} (hl : IsLine line) (hb : ¬ IsBlank line)
    (hs : Holds limit (line ++ 0x0a :: more) s) (hn : 1 < left) (text : String) :
    ∃ s', Holds limit more s' ∧
      readHead left (.begun text left) s = readHead (left - 1) (.begun text (left - 1)) s' := by
  obtain ⟨s', hrest, hread⟩ := readHead_line hl hs (left - 1) (.begun text left)
  refine ⟨s', hrest, ?_⟩
  have hleft : left - 1 + 1 = left := by omega
  have hfeed : Head.feed (.begun text left) (textOf line) =
      .more (.begun text (left - 1)) := by
    rw [Head.feed, isEmpty_textOf, if_neg (by simpa using hb), if_neg (by omega)]
  rw [hleft, hfeed] at hread
  exact hread

/-- Headers are read one after the other, while lines may follow. -/
theorem readHead_headers {left : Nat} (hls : ∀ line ∈ ls, IsLine line ∧ ¬ IsBlank line)
    (hs : Holds limit (ofLines ls ++ more) s) (hn : ls.length < left) (text : String) :
    ∃ s', Holds limit more s' ∧
      readHead left (.begun text left) s =
        readHead (left - ls.length) (.begun text (left - ls.length)) s' := by
  induction ls generalizing left s with
  | nil => exact ⟨s, hs, rfl⟩
  | cons line ls ih =>
    rw [List.forall_mem_cons] at hls
    rw [ofLines_cons] at hs
    rw [List.length_cons] at hn
    have hfollow : 1 < left ∧ ls.length < left - 1 := by omega
    obtain ⟨s₁, hs₁, hone⟩ := readHead_header hls.1.1 hls.1.2 hs hfollow.1 text
    obtain ⟨s', hs', hmore⟩ := ih hls.2 hs₁ hfollow.2
    have hleft : left - 1 - ls.length = left - (line :: ls).length := by
      rw [List.length_cons]
      omega
    rw [hleft] at hmore
    exact ⟨s', hs', hone.trans hmore⟩

/-! ### Reading a head -/

/-- The head that lines make which are not its end. -/
def headOf : List Bytes → Head
  | [] => .empty
  | first :: headers => .begun (textOf first) (headerLimit - headers.length)

/-- **The lines of a head are read one after the other**, and as many may follow as are left. -/
theorem readHead_begun (h : Begun ls) (hn : ls.length ≤ headerLimit) (hs : Holds limit (ofLines ls ++ more) s) :
    ∃ s', Holds limit more s' ∧
      readHead (headerLimit + 1) .empty s = readHead (headerLimit + 1 - ls.length) (headOf ls) s' := by
  cases ls with
  | nil => exact ⟨s, hs, rfl⟩
  | cons first headers =>
    rw [ofLines_cons] at hs
    rw [List.length_cons] at hn
    obtain ⟨s₁, hs₁, hfirst⟩ := readHead_line (h.lines first List.mem_cons_self) hs headerLimit .empty
    have hheaders : ∀ line ∈ headers, IsLine line ∧ ¬ IsBlank line := fun line hm =>
      ⟨h.lines line (List.mem_cons_of_mem _ hm), h.headers line hm⟩
    obtain ⟨s', hs', hmore⟩ := readHead_headers hheaders hs₁ hn (textOf first)
    have hleft : headerLimit + 1 - (first :: headers).length = headerLimit - headers.length := by
      rw [List.length_cons]
      omega
    rw [hleft]
    exact ⟨s', hs', hfirst.trans hmore⟩

/-- **A whole head is read, and not one byte more.** -/
theorem readHead_whole (h : Whole bs first rest) (hs : Holds limit bs s) :
    ∃ s', Holds limit rest s' ∧
      readHead (headerLimit + 1) .empty s = (.ok (textOf first), s') := by
  cases h with
  | @mk _ headers blank _ h hn hl hb =>
    obtain ⟨s₁, hs₁, hlines⟩ := readHead_begun h hn hs
    obtain ⟨s', hs', hblank⟩ := readHead_line hl hs₁ (headerLimit - (first :: headers).length)
      (headOf (first :: headers))
    have hfuel : headerLimit - (first :: headers).length + 1 = headerLimit + 1 - (first :: headers).length :=
      (Nat.succ_sub hn).symm
    rw [hfuel] at hblank
    refine ⟨s', hs', hlines.trans (hblank.trans ?_)⟩
    rw [headOf, Head.feed, isEmpty_textOf, if_pos (by simpa using hb)]

theorem readHeadLine_of_isLine (h : IsLine bs) (hs : Holds limit bs s) :
    (readHeadLine s).1 = .error (.protocol .closedDuringExchange) := by
  obtain ⟨s', hread, -⟩ := Stream.readLine_free h.free h.short hs
  rw [readHeadLine, hread]

theorem readHeadLine_of_runsOver (h : RunsOver bs) (hs : Holds limit bs s) :
    (readHeadLine s).1 = .error (.protocol (.lineTooLong lineLimit)) := by
  obtain ⟨front, more, rfl, hfree, hlong⟩ := h
  obtain ⟨s', hread, -⟩ := Stream.readLine_long hfree hlong hs
  rw [readHeadLine, hread]

/-- A head is not read where its next line is not. -/
theorem readHead_of_error {e : Fault} (h : Begun ls) (hn : ls.length ≤ headerLimit)
    (hs : Holds limit (ofLines ls ++ more) s)
    (he : ∀ s', Holds limit more s' → (readHeadLine s').1 = .error e) :
    (readHead (headerLimit + 1) .empty s).1 = .error e := by
  obtain ⟨s', hs', hlines⟩ := readHead_begun h hn hs
  have hfuel : headerLimit + 1 - ls.length = headerLimit - ls.length + 1 := Nat.succ_sub hn
  have hline := he s' hs'
  rw [hlines, hfuel, readHead]
  rcases hr : readHeadLine s' with ⟨r, s''⟩
  obtain rfl : r = .error e := by rw [← hline, hr]
  rfl

/-- **As many lines as may follow are read, and not one more**, if none of them is empty. -/
theorem readHead_full (h : Begun ls) (hn : ls.length = headerLimit + 1) (hs : Holds limit (ofLines ls ++ more) s) :
    ∃ s', Holds limit more s' ∧
      readHead (headerLimit + 1) .empty s = (.error (.protocol .tooManyHeaders), s') := by
  obtain rfl | ⟨front, last, rfl⟩ := List.eq_nil_or_concat' ls
  · cases hn
  have hfront : front.length = headerLimit := by simpa using hn
  rw [ofLines_concat] at hs
  obtain ⟨s₁, hs₁, hlines⟩ := readHead_begun h.front hfront.le hs
  obtain ⟨s', hs', hlast⟩ := readHead_line (h.lines last (by simp)) hs₁ 0 (headOf front)
  have hfuel : headerLimit + 1 - front.length = 0 + 1 := by omega
  refine ⟨s', hs', ?_⟩
  rw [hlines, hfuel, hlast]
  cases front with
  | nil => cases hfront
  | cons first headers =>
    have hleft : headerLimit - headers.length ≤ 1 := by
      rw [List.length_cons] at hfront
      omega
    have hheader : ¬ IsBlank last := h.headers last (by simp)
    rw [headOf, Head.feed, isEmpty_textOf, if_neg (by simpa using hheader), if_pos hleft]

/-- **What can be no head is not read**, and the fault says why. -/
theorem readHead_broken (h : Broken bs why) (hs : Holds limit bs s) :
    (readHead (headerLimit + 1) .empty s).1 = .error (.protocol why) := by
  cases h with
  | closed h hn ht => exact readHead_of_error h hn hs fun s' => readHeadLine_of_isLine ht
  | tooLong h hn ht => exact readHead_of_error h hn hs fun s' => readHeadLine_of_runsOver ht
  | tooMany h hn =>
    obtain ⟨s', -, hread⟩ := readHead_full h hn hs
    exact congrArg Prod.fst hread

/-! ### Every stream -/

/-- Lines are taken until one is empty or none is left, or as many as may follow are taken. -/
theorem headers_cases (left : Nat) (bs : Bytes) :
    ∃ headers more, bs = ofLines headers ++ more ∧ (∀ line ∈ headers, IsLine line ∧ ¬ IsBlank line) ∧
      (headers.length = left ∨ headers.length < left ∧
        ((∃ blank rest, IsLine blank ∧ IsBlank blank ∧ more = blank ++ 0x0a :: rest) ∨
          IsLine more ∨ RunsOver more)) := by
  induction left generalizing bs with
  | zero => exact ⟨[], bs, rfl, nofun, .inl rfl⟩
  | succ left ih =>
    rcases line_cases bs with ⟨line, more, hl, rfl⟩ | hend
    · by_cases hb : IsBlank line
      · exact ⟨[], _, rfl, nofun, .inr ⟨Nat.succ_pos left, .inl ⟨line, more, hl, hb, rfl⟩⟩⟩
      · obtain ⟨headers, rest, rfl, hheaders, hstop⟩ := ih more
        refine ⟨line :: headers, rest, (ofLines_cons line headers rest).symm,
          List.forall_mem_cons.mpr ⟨⟨hl, hb⟩, hheaders⟩, ?_⟩
        rw [List.length_cons]
        exact hstop.imp (congrArg (· + 1)) (And.imp_left Nat.succ_lt_succ)
    · exact ⟨[], bs, rfl, nofun, .inr ⟨Nat.succ_pos left, .inr hend⟩⟩

/-- **Bytes begin with a whole head or are none.** -/
theorem whole_or_broken (bs : Bytes) : (∃ first rest, Whole bs first rest) ∨ ∃ why, Broken bs why := by
  have hnone : Begun [] := ⟨nofun, nofun⟩
  rcases line_cases bs with ⟨first, more, hl, rfl⟩ | hend | hlong
  · obtain ⟨headers, tail, rfl, hheaders, hstop⟩ := headers_cases headerLimit more
    have h : Begun (first :: headers) :=
      ⟨List.forall_mem_cons.mpr ⟨hl, fun line hm => (hheaders line hm).1⟩, fun line hm => (hheaders line hm).2⟩
    rw [← ofLines_cons]
    rcases hstop with hall | ⟨hn, ⟨blank, rest, hbl, hbb, rfl⟩ | hend | hlong⟩
    · exact .inr ⟨_, .tooMany h (congrArg (· + 1) hall)⟩
    · exact .inl ⟨first, rest, .mk h hn hbl hbb⟩
    · exact .inr ⟨_, .closed h hn hend⟩
    · exact .inr ⟨_, .tooLong h hn hlong⟩
  · exact .inr ⟨_, .closed hnone (Nat.zero_le _) hend⟩
  · exact .inr ⟨_, .tooLong hnone (Nat.zero_le _) hlong⟩

/-- A reply from beginning to end: the line of its status, header lines, an empty line, and
what it says. -/
def reply (status : String) (headers : List String) (body : String) : Bytes :=
  ofLines (Bytes.ofText ("HTTP/1.0 " ++ status) :: headers.map Bytes.ofText) ++ 0x0a :: Bytes.ofText body

/-- The header of a reply that says something. -/
def plainText : String := "Content-Type: text/plain; charset=utf-8"

theorem wrongMethod_eq :
    wrongMethod = reply "405 Method Not Allowed" [plainText] "405 must CONNECT\n" := by decide +kernel

theorem wrongPath_eq : wrongPath = reply "404 Not Found" [plainText] "404 page not found\n" := by
  decide +kernel

theorem opened_eq_reply : opened = reply "200 Connected to Tiny RPC" [] "" := by decide +kernel

/-- The reply to a request line, and what the accepting side makes of it. -/
theorem verdict_eq (text : String) :
    verdict text =
      if (Text.words text)[0]? ≠ some "CONNECT" then
        (reply "405 Method Not Allowed" [plainText] "405 must CONNECT\n",
          .error (.protocol (.unexpectedMethod ((Text.words text)[0]?.getD ""))))
      else if (Text.words text)[1]? ≠ some path then
        (reply "404 Not Found" [plainText] "404 page not found\n",
          .error (.protocol (.unexpectedPath ((Text.words text)[1]?.getD ""))))
      else (reply "200 Connected to Tiny RPC" [] "", .ok ()) := by
  have hconnect : "" ≠ "CONNECT" := by decide
  have hpath : "" ≠ path := by decide
  rw [← wrongMethod_eq, ← wrongPath_eq, ← opened_eq_reply]
  unfold verdict
  rcases Text.words text with _ | ⟨method, _ | ⟨place, ws⟩⟩
  · simp [hconnect]
  · simp [hpath]
  · by_cases hm : method = "CONNECT"
    · by_cases hp : place = path
      · simp [hm, hp]
      · simp [hm, hp]
    · simp [hm]

theorem verdict_eq_ok_iff {text : String} :
    (verdict text).2 = .ok () ↔
      (Text.words text)[0]? = some "CONNECT" ∧ (Text.words text)[1]? = some path := by
  rw [verdict_eq]
  split
  · rename_i h₀
    exact iff_of_false nofun fun h => h₀ h.1
  · rename_i h₀
    split
    · rename_i h₁
      exact iff_of_false nofun fun h => h₁ h.2
    · rename_i h₁
      exact iff_of_true rfl ⟨not_not.mp h₀, not_not.mp h₁⟩

/-- What stands after the first space of a text, without blanks around it, is the status of an
open tunnel. -/
def SaysOpen (text : String) : Prop :=
  ∃ a b, text.toList = a ++ ' ' :: b ∧ ' ' ∉ a ∧ Text.trim (String.ofList b) = connected

theorem granted_eq_ok_iff {text : String} : granted text = .ok () ↔ SaysOpen text := by
  have hok : granted text = .ok () ↔ statusOf text = connected := by
    rw [granted]
    split <;> simp [*]
  rw [hok, statusOf, SaysOpen]
  cases hs : Text.splitFirst? ' ' text.toList with
  | none =>
    have hne : "" ≠ connected := by decide
    refine iff_of_false hne ?_
    rintro ⟨a, b, hab, ha, -⟩
    rw [Text.splitFirst?_eq_some_iff.mpr ⟨hab, ha⟩] at hs
    cases hs
  | some p =>
    obtain ⟨hsplit, hfree⟩ := Text.splitFirst?_eq_some_iff.mp hs
    have htrim : ∀ b, Text.trim (String.ofList b) = String.ofList (Text.trimChars b) := by
      intro b
      rw [Text.trim, String.toList_ofList]
    constructor
    · intro h
      exact ⟨p.1, p.2, hsplit, hfree, (htrim p.2).trans h⟩
    · rintro ⟨a, b, hab, ha, h⟩
      rw [Text.splitFirst?_eq_some_iff.mpr ⟨hab, ha⟩] at hs
      cases hs
      exact (htrim b).symm.trans h

theorem granted_of_not_saysOpen {text : String} (h : ¬ SaysOpen text) :
    granted text = .error (.protocol (.unexpectedReply text)) := by
  have hstatus : statusOf text ≠ connected := fun hs => h (granted_eq_ok_iff.mp (if_pos hs))
  exact if_neg hstatus

/-- **What can be no head is answered with nothing**, and both sides fail. -/
theorem fail_of_broken (h : Broken bs why) (hs : Holds limit bs s) :
    (accept s).1 = .error (.protocol why) ∧ (accept s).2.1 = [] ∧ (connect s).1 = .error (.protocol why) := by
  have hread := readHead_broken h hs
  unfold accept connect
  rcases hr : readHead (headerLimit + 1) .empty s with ⟨r, s'⟩
  obtain rfl : r = .error (.protocol why) := by rw [← hread, hr]
  exact ⟨rfl, rfl, rfl⟩

/-- **A whole head is answered as its first line says**, and both sides have what comes after
it. -/
theorem answer_of_whole (h : Whole bs first rest) (hs : Holds limit bs s) :
    ∃ s', s'.rest = rest ∧ accept s = ((verdict (textOf first)).2, (verdict (textOf first)).1, s') ∧
      connect s = (granted (textOf first), request, s') := by
  obtain ⟨s', hs', hread⟩ := readHead_whole h hs
  refine ⟨s', hs'.rest_eq, ?_, ?_⟩
  · rw [accept, hread]
  · rw [connect, hread]

theorem accept_eq_ok_iff (hs : Holds limit bs s) :
    (accept s).1 = .ok () ↔ ∃ first rest, Whole bs first rest ∧
      (Text.words (textOf first))[0]? = some "CONNECT" ∧ (Text.words (textOf first))[1]? = some path := by
  constructor
  · intro hok
    rcases whole_or_broken bs with ⟨first, rest, h⟩ | ⟨why, h⟩
    · obtain ⟨s', -, haccept, -⟩ := answer_of_whole h hs
      rw [haccept] at hok
      exact ⟨first, rest, h, verdict_eq_ok_iff.mp hok⟩
    · cases (fail_of_broken h hs).1.symm.trans hok
  · rintro ⟨first, rest, h, hwords⟩
    obtain ⟨s', -, haccept, -⟩ := answer_of_whole h hs
    rw [haccept]
    exact verdict_eq_ok_iff.mpr hwords

theorem connect_eq_ok_iff (hs : Holds limit bs s) :
    (connect s).1 = .ok () ↔ ∃ first rest, Whole bs first rest ∧ SaysOpen (textOf first) := by
  constructor
  · intro hok
    rcases whole_or_broken bs with ⟨first, rest, h⟩ | ⟨why, h⟩
    · obtain ⟨s', -, -, hconnect⟩ := answer_of_whole h hs
      rw [hconnect] at hok
      exact ⟨first, rest, h, granted_eq_ok_iff.mp hok⟩
    · cases (fail_of_broken h hs).2.2.symm.trans hok
  · rintro ⟨first, rest, h, hstatus⟩
    obtain ⟨s', -, -, hconnect⟩ := answer_of_whole h hs
    rw [hconnect]
    exact granted_eq_ok_iff.mpr hstatus

theorem holds_ofChunks {chunks : List Bytes} (h : ∀ c ∈ chunks, c ≠ []) :
    Holds limit chunks.flatten (.ofChunks limit chunks) := Stream.alike_ofChunks limit h

/-- **The head decides what becomes of a tunnel.** A stream comes in any chunks and ends. Its
bytes begin with a whole head or are none.

* If they are none, because they end too early, a line is too long or there are too many lines,
  both sides fail with this fault, and the accepting side writes nothing.
* If there is a whole head, both sides have what comes after it, and the accepting side writes
  one reply from beginning to end: with the status 405 if the first word of the first line is
  not CONNECT, else with 404 if the second word is not the path, else with 200. Only then it
  succeeds.
* The dialing side succeeds if and only if there is a whole head and what stands after the
  first space of its first line, without blanks around it, is the status of an open tunnel. -/
theorem head_decides (limit : Nat) (chunks : List Bytes) (hchunks : ∀ c ∈ chunks, c ≠ []) :
    let s := Stream.ofChunks limit chunks
    ((∃ first rest, Whole chunks.flatten first rest) ∨ ∃ why, Broken chunks.flatten why) ∧
    (∀ why, Broken chunks.flatten why →
      (accept s).1 = .error (.protocol why) ∧ (accept s).2.1 = [] ∧ (connect s).1 = .error (.protocol why)) ∧
    (∀ first rest, Whole chunks.flatten first rest →
      let words := Text.words (textOf first)
      (accept s).2.2.rest = rest ∧ (connect s).2.2.rest = rest ∧
      (words[0]? ≠ some "CONNECT" →
        (accept s).2.1 = reply "405 Method Not Allowed" [plainText] "405 must CONNECT\n" ∧
        (accept s).1 = .error (.protocol (.unexpectedMethod (words[0]?.getD "")))) ∧
      (words[0]? = some "CONNECT" → words[1]? ≠ some path →
        (accept s).2.1 = reply "404 Not Found" [plainText] "404 page not found\n" ∧
        (accept s).1 = .error (.protocol (.unexpectedPath (words[1]?.getD "")))) ∧
      (words[0]? = some "CONNECT" → words[1]? = some path →
        (accept s).2.1 = reply "200 Connected to Tiny RPC" [] "" ∧
        (accept s).1 = .ok ()) ∧
      (¬ SaysOpen (textOf first) →
        (connect s).1 = .error (.protocol (.unexpectedReply (textOf first))))) ∧
    ((accept s).1 = .ok () ↔ ∃ first rest, Whole chunks.flatten first rest ∧
      (Text.words (textOf first))[0]? = some "CONNECT" ∧ (Text.words (textOf first))[1]? = some path) ∧
    ((connect s).1 = .ok () ↔
      ∃ first rest, Whole chunks.flatten first rest ∧ SaysOpen (textOf first)) := by
  intro s
  have hs : Holds limit chunks.flatten s := holds_ofChunks hchunks
  refine ⟨whole_or_broken _, fun why h => fail_of_broken h hs, fun first rest h => ?_,
    accept_eq_ok_iff hs, connect_eq_ok_iff hs⟩
  obtain ⟨s', hrest, haccept, hconnect⟩ := answer_of_whole h hs
  rw [haccept, hconnect, verdict_eq]
  refine ⟨hrest, hrest, fun h₀ => ?_, fun h₀ h₁ => ?_, fun h₀ h₁ => ?_, granted_of_not_saysOpen⟩
  · rw [if_pos h₀]
    exact ⟨rfl, rfl⟩
  · rw [if_neg (not_not.mpr h₀), if_pos h₁]
    exact ⟨rfl, rfl⟩
  · rw [if_neg (not_not.mpr h₀), if_neg (not_not.mpr h₁)]
    exact ⟨rfl, rfl⟩

theorem whole_of_isLine (h : IsLine line) : Whole (line ++ [0x0a, 0x0a]) line [] := by
  have hbegun : Begun [line] := ⟨List.forall_mem_singleton.mpr h, nofun⟩
  have hwhole : Whole (ofLines [line] ++ ([] ++ 0x0a :: [])) line [] :=
    .mk hbegun (by decide) ⟨List.not_mem_nil, Nat.zero_le _⟩ rfl
  rwa [ofLines_cons] at hwhole

/-- A request with a header, in three chunks, and a byte behind it. It is no answer. And two
requests that are told what is wrong. -/
theorem head_decides_request :
    let first := Bytes.ofText "CONNECT /_tinyrpc_ HTTP/1.0\r"
    let header := Bytes.ofText "Host: b\r"
    let s := Stream.ofChunks 100 [first ++ [0x0a], header ++ [0x0a, 0x0d], [0x0a, 7]]
    let other := Stream.ofChunks 100 [Bytes.ofText "GET /_tinyrpc_" ++ [0x0a, 0x0a]]
    let elsewhere := Stream.ofChunks 100 [Bytes.ofText "CONNECT /" ++ [0x0a, 0x0a]]
    (accept s).1 = .ok () ∧ (accept s).2.1 = Bytes.ofText "HTTP/1.0 200 Connected to Tiny RPC\n\n" ∧
      (accept s).2.2.rest = [7] ∧
      (connect s).1 = .error (.protocol (.unexpectedReply "CONNECT /_tinyrpc_ HTTP/1.0")) ∧
      (accept other).2.1 = Bytes.ofText ("HTTP/1.0 405 Method Not Allowed\n" ++
        "Content-Type: text/plain; charset=utf-8\n\n405 must CONNECT\n") ∧
      (accept elsewhere).2.1 = Bytes.ofText ("HTTP/1.0 404 Not Found\n" ++
        "Content-Type: text/plain; charset=utf-8\n\n404 page not found\n") := by
  intro first header s other elsewhere
  have hbegun : Begun [first, header] := by
    refine ⟨fun line hm => ?_, fun line hm => ?_⟩
    · rcases List.mem_pair.mp hm with rfl | rfl
      · exact ⟨by decide +kernel, by decide +kernel⟩
      · exact ⟨by decide +kernel, by decide +kernel⟩
    · rw [List.mem_singleton.mp hm]
      decide +kernel
  have hbytes : [first ++ [0x0a], header ++ [0x0a, 0x0d], [0x0a, 7]].flatten =
      ofLines [first, header] ++ ([0x0d] ++ 0x0a :: [7]) := by decide +kernel
  have hhead : Whole (ofLines [first, header] ++ ([0x0d] ++ 0x0a :: [7])) first [7] :=
    .mk hbegun (by decide) ⟨by decide, by decide⟩ (by decide)
  have htext : textOf first = "CONNECT /_tinyrpc_ HTTP/1.0" := by decide +kernel
  have hclosed : ¬ SaysOpen (textOf first) := by
    rw [htext, ← granted_eq_ok_iff, granted, if_neg (by decide +kernel)]
    exact nofun
  obtain ⟨-, -, hwhole, -, -⟩ := head_decides 100
    [first ++ [0x0a], header ++ [0x0a, 0x0d], [0x0a, 7]] (by simp)
  obtain ⟨hrest, -, -, -, hopens, hrefuses⟩ := hwhole first [7] (hbytes ▸ hhead)
  obtain ⟨hwrites, hok⟩ := hopens (by decide +kernel) (by decide +kernel)
  obtain ⟨-, -, hother, -, -⟩ := head_decides 100 [Bytes.ofText "GET /_tinyrpc_" ++ [0x0a, 0x0a]] (by simp)
  obtain ⟨-, -, hmethod, -, -⟩ := hother (Bytes.ofText "GET /_tinyrpc_") []
    (List.flatten_singleton ▸ whole_of_isLine ⟨by decide +kernel, by decide +kernel⟩)
  obtain ⟨-, -, helsewhere, -, -⟩ := head_decides 100 [Bytes.ofText "CONNECT /" ++ [0x0a, 0x0a]] (by simp)
  obtain ⟨-, -, -, hplace, -⟩ := helsewhere (Bytes.ofText "CONNECT /") []
    (List.flatten_singleton ▸ whole_of_isLine ⟨by decide +kernel, by decide +kernel⟩)
  refine ⟨hok, hwrites.trans ?_, hrest, htext ▸ hrefuses hclosed, (hmethod ?_).1.trans ?_,
    (hplace ?_ ?_).1.trans ?_⟩
  all_goals decide +kernel

end Tunnel
end Callwire
