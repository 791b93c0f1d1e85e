/-
# What a buffer hands over

A buffer can be given bytes, it can be asked for the next frame, and both can be done at once:
a push gives bytes and takes all frames that are there. Whatever is done, the frames of all
bytes are told apart into those that were handed over, those that were dropped, and those that
still wait, in this order. Only a push that fails drops frames: it comes upon lengths that break
a limit, and the frames before them, which it has taken already, are not in its answer.

Lengths that break a limit stay where they are. From then on every push and every question for
a frame is answered with the same fault, no byte is taken and no frame is handed over.

Key definitions: `Frame.Buffer.Ask`, `Buffer.ask`, `Buffer.handed`, `Buffer.lost`,
`Buffer.Stuck`, `Buffer.Reached`.
Key theorems: `Frame.Buffer.push_eq`, `Buffer.Stuck.ask_eq`, `Buffer.violation_stays`,
`Buffer.parse_ask`, `Buffer.parse_asks`, `Buffer.violation_of_lost`, `Buffer.handed_or_dropped`.
-/
import Callwire.Proofs.Readers

namespace Callwire

open Outbox (bytesOf)

namespace Frame

/-- What a push says of frames that it has taken: a violation is said instead of them. -/
def Ending.answer (fs : List Frame) : Ending → Except FramingFault (List Frame)
  | violation why => .error why
  | _ => .ok fs

namespace Buffer

/-! ### What is asked -/

/-- What a buffer can be asked to do. -/
inductive Ask where
  | push (bs : Bytes)
  | extend (bs : Bytes)
  | next

/-- Does what is asked and says which frames are handed over, or what is wrong. -/
def ask (b : Buffer) : Ask → Except FramingFault (List Frame) × Buffer
  | .push bs => b.push bs
  | .extend bs => (.ok [], b.extend bs)
  | .next => (b.next.1.map Option.toList, b.next.2)

/-- The buffer when all of it is done. -/
def asked (b : Buffer) (asks : List Ask) : Buffer := asks.foldl (fun b a => (b.ask a).2) b

/-- What is answered, one after the other. -/
def answers (b : Buffer) : List Ask → List (Except FramingFault (List Frame))
  | [] => []
  | a :: asks => (b.ask a).1 :: (b.ask a).2.answers asks

/-- The frames of an answer. -/
def framesOf : Except FramingFault (List Frame) → List Frame
  | .ok fs => fs
  | .error _ => []

/-- The frames that are handed over. -/
def handed (b : Buffer) (asks : List Ask) : List Frame := (b.answers asks).flatMap framesOf

/-- The bytes that come with a question. -/
def Ask.bytes : Ask → Bytes
  | push bs => bs
  | extend bs => bs
  | next => []

/-- What is answered where lengths that break a limit are at the front. -/
def Ask.refused (e : FramingFault) : Ask → Except FramingFault (List Frame)
  | extend _ => .ok []
  | _ => .error e

/-- The buffers that a new one becomes, whatever it is asked, and whatever lines are taken
from it. -/
inductive Reached (limit : Nat) : Buffer → Prop
  | new : Reached limit { limit := limit }
  | ask {b : Buffer} (h : Reached limit b) (a : Ask) : Reached limit (b.ask a).2
  | line {b : Buffer} (h : Reached limit b) (n : Nat) : Reached limit (b.takeLine n).2

variable {b b' : Buffer} {a : Ask} {asks : List Ask} {e : FramingFault} {limit : Nat}

theorem asked_append (b : Buffer) (xs ys : List Ask) : b.asked (xs ++ ys) = (b.asked xs).asked ys :=
  List.foldl_append

theorem handed_cons (b : Buffer) (a : Ask) (asks : List Ask) :
    b.handed (a :: asks) = framesOf (b.ask a).1 ++ (b.ask a).2.handed asks := rfl

/-! ### Lengths that break a limit -/

/-- Lengths that break a limit are at the front. -/
def Stuck (b : Buffer) (e : FramingFault) : Prop := b.next = (.error e, b)

theorem stuck_of_next (h : b.next = (.error e, b')) : b' = b ∧ b.Stuck e := by
  obtain ⟨rfl, -⟩ := parse_front_error h []
  exact ⟨rfl, h⟩

theorem stuck_of_drain {fuel : Nat} {out : List Frame} (h : drain fuel b out = (.error e, b')) : b'.Stuck e := by
  induction fuel generalizing b out with
  | zero => cases h
  | succ fuel ih =>
    rw [drain] at h
    split at h
    · rename_i hn
      cases h
      obtain ⟨rfl, hs⟩ := stuck_of_next hn
      exact hs
    · cases h
    · exact ih h

/-- A fault is answered only where lengths that break a limit are at the front then. -/
theorem stuck_of_ask (h : b.ask a = (.error e, b')) : b'.Stuck e := by
  cases a with
  | push bs => exact stuck_of_drain h
  | extend bs => cases h
  | next =>
    simp only [ask] at h
    rcases hn : b.next with ⟨why | f, b₁⟩
    · rw [hn] at h
      cases h
      obtain ⟨rfl, hs⟩ := stuck_of_next hn
      exact hs
    · rw [hn] at h
      cases h

theorem Stuck.extend (h : b.Stuck e) (bs : Bytes) : (b.extend bs).Stuck e := next_extend h nofun bs

/-- **What is asked from then on changes nothing but for the bytes that come with it.** -/
theorem Stuck.ask_eq (h : b.Stuck e) (a : Ask) : b.ask a = (a.refused e, b.extend a.bytes) := by
  cases a with
  | push bs =>
    have hnext : (b.extend bs).next = (.error e, b.extend bs) := h.extend bs
    simp only [ask, push, drain, hnext]
    rfl
  | extend bs => rfl
  | next =>
    have hnext : b.next = (.error e, b) := h
    simp only [ask, hnext, Ask.bytes, extend_nil]
    rfl

theorem Stuck.asks_eq (h : b.Stuck e) (asks : List Ask) :
    b.answers asks = asks.map (Ask.refused e) ∧ b.asked asks = b.extend (asks.flatMap Ask.bytes) := by
  induction asks generalizing b with
  | nil => exact ⟨rfl, (extend_nil b).symm⟩
  | cons a asks ih =>
    obtain ⟨hanswers, hasked⟩ := ih (h.extend a.bytes)
    constructor
    · rw [answers, h.ask_eq, hanswers, List.map_cons]
    · rw [List.flatMap_cons, ← extend_extend, ← hasked]
      exact congrArg (fun b' => asked b' asks) (congrArg Prod.snd (h.ask_eq a))

theorem framesOf_refused (e : FramingFault) (a : Ask) : framesOf (a.refused e) = [] := by
  cases a <;> rfl

theorem Stuck.handed_eq (h : b.Stuck e) (asks : List Ask) : b.handed asks = [] := by
  rw [handed, (h.asks_eq asks).1, List.flatMap_map, List.flatMap_eq_nil_iff]
  exact fun a _ => framesOf_refused e a

/-- **After lengths that break a limit a buffer never finds a frame again.** Once a push or a
question for a frame was answered with a fault, then whatever is asked:

* every push and every question for a frame is answered with this fault,
* no frame is handed over,
* the buffer has all the bytes that it had, and behind them those that came, and no byte is
  taken: there are as many more as came. -/
theorem violation_stays (h : b.ask a = (.error e, b')) (asks : List Ask) :
    b'.answers asks = asks.map (Ask.refused e) ∧ b'.handed asks = [] ∧
    b'.asked asks = b'.extend (asks.flatMap Ask.bytes) ∧
    (b'.asked asks).unread.length = b'.unread.length + (asks.map fun a => a.bytes.length).sum := by
  have hs := stuck_of_ask h
  obtain ⟨hanswers, hasked⟩ := hs.asks_eq asks
  refine ⟨hanswers, hs.handed_eq asks, hasked, ?_⟩
  rw [hasked, Buffer.extend, List.length_append, List.length_flatMap]

/-- A frame that keeps the limits, then lengths that do not, then what looks like a frame. -/
theorem violation_stays_empty :
    let b : Buffer := { limit := 4 }
    let bad : Lengths := ⟨0, 0⟩
    let f : Frame := ⟨[7], [8]⟩
    let b' := (b.ask (.push (f.toBytes ++ bad.encode))).2
    (b.ask (.push (f.toBytes ++ bad.encode))).1 = .error .emptyHeader ∧
      b'.answers [.push f.toBytes, .next] = [.error .emptyHeader, .error .emptyHeader] ∧
      (b'.asked [.push f.toBytes, .next]).unread.length = 18 := by
  intro b bad f b'
  have h : b.ask (.push (f.toBytes ++ bad.encode)) = (.error .emptyHeader, b') := by decide +kernel
  obtain ⟨hanswers, -, -, hlen⟩ := violation_stays h [.push f.toBytes, .next]
  have hleft : b'.unread.length = 8 := by decide +kernel
  rw [hleft] at hlen
  exact ⟨congrArg Prod.fst h, hanswers, hlen⟩

/-! ### The frames of a push -/

theorem length_unread_next (hb : b.Checked) {f : Frame} (h : b.next = (.ok (some f), b')) :
    b'.unread.length < b.unread.length := by
  obtain ⟨hfront, hfit, hawait, -⟩ := next_frame h
  obtain ⟨hheader, -, -⟩ := Lengths.check_eq_ok_iff.mp (hfit hb).1
  have hfew : b.front.length ≤ Lengths.size + b.unread.length := by
    rw [front]
    split
    · omega
    · rw [List.length_append, Lengths.length_encode]
  have hleft : b'.front = b'.unread := by rw [front, hawait]
  rw [hfront, List.length_append, length_toBytes, hleft] at hfew
  have hpos : 0 < f.header.length := hheader
  omega

/-- **All frames that are there are taken**, up to the first lengths that break a limit, and what
is left stays in front. -/
theorem drain_eq (hb : b.Checked) {fuel : Nat} (hfuel : b.unread.length < fuel) (out : List Frame) :
    ∃ b', drain fuel b out = ((parse b.limit b.front).2.answer (out.reverse ++ (parse b.limit b.front).1), b') ∧
      b.front = bytesOf (parse b.limit b.front).1 ++ b'.front ∧ b'.Checked ∧ b'.limit = b.limit := by
  induction fuel generalizing b out with
  | zero => exact absurd hfuel (Nat.not_lt_zero _)
  | succ fuel ih =>
    rw [drain]
    rcases hn : b.next with ⟨why | _ | f, b₁⟩
    · obtain ⟨rfl, hp⟩ := parse_front_error hn []
      rw [List.append_nil] at hp
      rw [hp]
      exact ⟨b₁, rfl, rfl, hb, rfl⟩
    · obtain ⟨hfront, hlimit, hchecked⟩ := next_none hn
      rw [parse_front_eq hn hb, List.append_nil]
      refine ⟨b₁, ?_, hfront.symm, hchecked hb, hlimit⟩
      cases b₁.isMidFrame <;> rfl
    · obtain ⟨hfront, hfit, hawait, hlimit⟩ := next_frame hn
      have hfew := length_unread_next hb hn
      obtain ⟨b', hdrain, hleft, hb', hlimit'⟩ :=
        ih (checked_of_awaited_eq_none hawait) (Nat.lt_of_lt_of_le hfew (Nat.le_of_lt_succ hfuel)) (f :: out)
      rw [hlimit] at hdrain hleft hlimit'
      refine ⟨b', ?_, ?_, hb', hlimit'⟩
      · rw [hfront, parse_append (hfit hb)]
        simp only [hdrain, List.reverse_cons, List.append_assoc, List.singleton_append]
      · rw [hfront, parse_append (hfit hb), bytesOf_cons, List.append_assoc, ← hleft]

/-- **A push takes the frames of all bytes that are there**, and answers with them, or with what
comes after them if that breaks a limit. -/
theorem push_eq (hb : b.Checked) (bs : Bytes) :
    ∃ b', b.push bs = ((parse b.limit (b.front ++ bs)).2.answer (parse b.limit (b.front ++ bs)).1, b') ∧
      b.front ++ bs = bytesOf (parse b.limit (b.front ++ bs)).1 ++ b'.front ∧ b'.Checked ∧
      b'.limit = b.limit := by
  have h := drain_eq (hb.extend bs) (Nat.lt_succ_self _) []
  rw [front_extend] at h
  exact h

/-! ### The frames of all that is asked -/

/-- The frames that are taken and not handed over: those before the lengths that break a limit,
if a push fails. -/
def dropped (b : Buffer) : Ask → List Frame
  | .push bs =>
    match (b.push bs).1 with
    | .error _ => (parse b.limit (b.front ++ bs)).1
    | .ok _ => []
  | _ => []

/-- The frames that are dropped, one answer after the other. -/
def lost (b : Buffer) : List Ask → List Frame
  | [] => []
  | a :: asks => b.dropped a ++ (b.ask a).2.lost asks

/-- **What is asked moves frames from the front, and makes no others.** With whatever comes
later, the frames of the bytes are those that are handed over, those that are dropped and those
that are still there. -/
theorem parse_ask (hb : b.Checked) (a : Ask) :
    (b.ask a).2.Checked ∧ (b.ask a).2.limit = b.limit ∧ ∀ more,
      parse b.limit (b.front ++ (a.bytes ++ more)) =
        (framesOf (b.ask a).1 ++ b.dropped a ++ (parse b.limit ((b.ask a).2.front ++ more)).1,
          (parse b.limit ((b.ask a).2.front ++ more)).2) := by
  cases a with
  | push bs =>
    obtain ⟨b', hpush, hleft, hb', hlimit⟩ := push_eq hb bs
    have hfits : ∀ f ∈ (parse b.limit (b.front ++ bs)).1, f.Fits b.limit := fun f hf => fits_of_mem_parse hf
    have hanswer : framesOf ((parse b.limit (b.front ++ bs)).2.answer (parse b.limit (b.front ++ bs)).1) ++
        b.dropped (.push bs) = (parse b.limit (b.front ++ bs)).1 := by
      rw [dropped, hpush]
      cases (parse b.limit (b.front ++ bs)).2 with
      | violation why => rfl
      | clean | cutShort => exact List.append_nil _
    simp only [ask, hpush, hanswer]
    refine ⟨hb', hlimit, fun more => ?_⟩
    have hbytes : b.front ++ (bs ++ more) =
        bytesOf (parse b.limit (b.front ++ bs)).1 ++ (b'.front ++ more) := by
      rw [← List.append_assoc, ← List.append_assoc, ← hleft]
    exact (congrArg _ hbytes).trans (parse_bytesOf_append hfits _)
  | extend bs =>
    refine ⟨hb.extend bs, rfl, fun more => ?_⟩
    simp only [ask, Ask.bytes, front_extend, List.append_assoc, framesOf, dropped, List.nil_append]
  | next =>
    have hask : b.ask .next = (b.next.1.map Option.toList, b.next.2) := rfl
    rw [hask]
    rcases hn : b.next with ⟨why | _ | f, b₁⟩
    · obtain ⟨rfl, -⟩ := stuck_of_next hn
      exact ⟨hb, rfl, fun more => rfl⟩
    · obtain ⟨hfront, hlimit, hchecked⟩ := next_none hn
      refine ⟨hchecked hb, hlimit, fun more => ?_⟩
      rw [hfront]
      rfl
    · obtain ⟨hfront, hfit, hawait, hlimit⟩ := next_frame hn
      refine ⟨checked_of_awaited_eq_none hawait, hlimit, fun more => ?_⟩
      rw [hfront, List.append_assoc]
      exact parse_append (hfit hb) _

theorem Reached.checked (h : Reached limit b) : b.Checked ∧ b.limit = limit := by
  induction h with
  | new => exact ⟨checked_of_awaited_eq_none rfl, rfl⟩
  | ask _ a ih =>
    obtain ⟨hc, hl, -⟩ := parse_ask ih.1 a
    exact ⟨hc, hl.trans ih.2⟩
  | @line b _ n ih =>
    have hline : (b.takeLine n).2.awaited = b.awaited ∧ (b.takeLine n).2.limit = b.limit := by
      rw [takeLine]
      split <;> split <;> exact ⟨rfl, rfl⟩
    refine ⟨?_, hline.2.trans ih.2⟩
    rw [Checked, hline.1, hline.2]
    exact ih.1

theorem stuck_of_dropped (h : b.dropped a ≠ []) : ∃ e, (b.ask a).2.Stuck e := by
  cases a with
  | push bs =>
    rcases hp : b.push bs with ⟨why | fs, b'⟩
    · exact ⟨why, stuck_of_ask (a := .push bs) (b := b) (by simp only [ask, hp])⟩
    · simp [dropped, hp] at h
  | extend bs => exact absurd rfl h
  | next => exact absurd rfl h

theorem stuck_of_lost (h : b.lost asks ≠ []) : ∃ e, (b.asked asks).Stuck e := by
  induction asks generalizing b with
  | nil => exact absurd rfl h
  | cons a asks ih =>
    by_cases hd : b.dropped a = []
    · rw [lost, hd, List.nil_append] at h
      exact ih h
    · obtain ⟨e, hs⟩ := stuck_of_dropped hd
      have hasked : b.asked (a :: asks) = (b.ask a).2.extend (asks.flatMap Ask.bytes) := (hs.asks_eq asks).2
      rw [hasked]
      exact ⟨e, hs.extend _⟩

/-- **The frames of all bytes are those that were handed over, those that were dropped, and those
that still wait**, in this order. -/
theorem parse_asks (hb : b.Checked) (asks : List Ask) :
    (b.asked asks).Checked ∧ (b.asked asks).limit = b.limit ∧ ∀ more,
      parse b.limit (b.front ++ (asks.flatMap Ask.bytes ++ more)) =
        (b.handed asks ++ b.lost asks ++ (parse b.limit ((b.asked asks).front ++ more)).1,
          (parse b.limit ((b.asked asks).front ++ more)).2) := by
  induction asks generalizing b with
  | nil => exact ⟨hb, rfl, fun more => rfl⟩
  | cons a asks ih =>
    obtain ⟨hchecked, hlimit, hask⟩ := parse_ask hb a
    obtain ⟨hchecked', hlimit', hasks⟩ := ih hchecked
    rw [hlimit] at hasks hlimit'
    refine ⟨hchecked', hlimit', fun more => ?_⟩
    have hswap : b.dropped a ++ (b.ask a).2.handed asks = (b.ask a).2.handed asks ++ b.dropped a := by
      by_cases hd : b.dropped a = []
      · rw [hd, List.nil_append, List.append_nil]
      · obtain ⟨e, hs⟩ := stuck_of_dropped hd
        rw [hs.handed_eq asks, List.nil_append, List.append_nil]
    have hasked : b.asked (a :: asks) = (b.ask a).2.asked asks := rfl
    rw [List.flatMap_cons, List.append_assoc, hask, hasks, hasked, handed_cons, lost]
    refine Prod.ext ?_ rfl
    generalize (parse b.limit (((b.ask a).2.asked asks).front ++ more)).1 = waiting
    calc framesOf (b.ask a).1 ++ b.dropped a ++ ((b.ask a).2.handed asks ++ (b.ask a).2.lost asks ++ waiting)
      _ = framesOf (b.ask a).1 ++ (b.dropped a ++ (b.ask a).2.handed asks) ++ (b.ask a).2.lost asks ++ waiting := by
        simp only [List.append_assoc]
      _ = framesOf (b.ask a).1 ++ (b.ask a).2.handed asks ++ (b.dropped a ++ (b.ask a).2.lost asks) ++ waiting := by
        rw [hswap]
        simp only [List.append_assoc]

theorem violation_of_lost (hb : b.Checked) (h : b.lost asks ≠ []) :
    ∃ why, (parse b.limit (b.front ++ asks.flatMap Ask.bytes)).2 = .violation why := by
  obtain ⟨e, hs⟩ := stuck_of_lost h
  obtain ⟨-, hlimit, hasks⟩ := parse_asks hb asks
  have hend := congrArg Prod.snd (hasks [])
  have hviolation := (parse_front_error hs []).2
  rw [hlimit] at hviolation
  rw [List.append_nil, hviolation] at hend
  exact ⟨e, hend⟩

/-! ### Pushes, and then questions -/

theorem lost_append (b : Buffer) (xs ys : List Ask) : b.lost (xs ++ ys) = b.lost xs ++ (b.asked xs).lost ys := by
  induction xs generalizing b with
  | nil => rfl
  | cons a xs ih =>
    rw [List.cons_append, lost, lost, ih, List.append_assoc]
    rfl

theorem lost_of_no_push (h : ∀ a ∈ asks, ∀ bs, a ≠ .push bs) : b.lost asks = [] := by
  induction asks generalizing b with
  | nil => rfl
  | cons a asks ih =>
    obtain ⟨ha, hasks⟩ := List.forall_mem_cons.mp h
    rw [lost, ih hasks, List.append_nil]
    cases a with
    | push bs => exact absurd rfl (ha bs)
    | extend bs => rfl
    | next => rfl

theorem lost_nexts (b : Buffer) (n : Nat) : b.lost (List.replicate n .next) = [] := by
  refine lost_of_no_push fun a ha => ?_
  rw [List.eq_of_mem_replicate ha]
  nofun

theorem lost_extends (b : Buffer) (chunks : List Bytes) : b.lost (chunks.map .extend) = [] := by
  refine lost_of_no_push fun a ha => ?_
  obtain ⟨c, -, rfl⟩ := List.mem_map.mp ha
  nofun

/-- Nothing is lost by pushes if none of them drops a frame. -/
theorem lost_pushes_eq_nil_iff {chunks : List Bytes} :
    b.lost (chunks.map .push) = [] ↔ ∀ before bs after, chunks = before ++ bs :: after →
      (b.asked (before.map .push)).dropped (.push bs) = [] := by
  induction chunks generalizing b with
  | nil => exact iff_of_true rfl (by simp)
  | cons c chunks ih =>
    rw [List.map_cons, lost, List.append_eq_nil_iff, ih]
    constructor
    · rintro ⟨hfirst, hlater⟩ before bs after he
      cases before with
      | nil =>
        obtain ⟨rfl, -⟩ := List.cons.inj he
        exact hfirst
      | cons d before =>
        obtain ⟨rfl, hchunks⟩ := List.cons.inj he
        exact hlater before bs after hchunks
    · intro h
      exact ⟨h [] c chunks rfl, fun before bs after he => h (c :: before) bs after (by rw [he]; rfl)⟩

theorem dropped_push_eq_nil_iff {bs : Bytes} :
    b.dropped (.push bs) = [] ↔ ∀ why, (b.push bs).1 = .error why → (parse b.limit (b.front ++ bs)).1 = [] := by
  rw [dropped]
  rcases (b.push bs).1 with why | fs
  · exact ⟨fun h _ _ => h, fun h => h why rfl⟩
  · exact iff_of_true rfl nofun

theorem parse_next (hb : b.Checked) :
    (parse b.limit (b.ask .next).2.front).1 = (parse b.limit b.front).1.tail := by
  have hask : (b.ask .next).2 = b.next.2 := rfl
  rw [hask]
  rcases hn : b.next with ⟨why | _ | f, b₁⟩
  · obtain ⟨rfl, hp⟩ := next_error hn []
    rw [List.append_nil] at hp
    rw [hp]
    rfl
  · rw [(next_none hn).1, parse_front hn hb]
    rfl
  · obtain ⟨hfront, hfit, -, -⟩ := next_frame hn
    rw [hfront, parse_append (hfit hb)]
    rfl

theorem parse_nexts (hb : b.Checked) (n : Nat) :
    (parse b.limit (b.asked (List.replicate n .next)).front).1 = (parse b.limit b.front).1.drop n := by
  induction n generalizing b with
  | zero => rfl
  | succ n ih =>
    obtain ⟨hchecked, hlimit, -⟩ := parse_ask hb .next
    have h := ih hchecked
    rw [hlimit, parse_next hb, List.drop_tail] at h
    exact h

/-- Once as many frames were asked for as there may be, none waits. -/
theorem handed_lost_eq (hb : b.Checked) (asks : List Ask) {n : Nat}
    (hn : (parse b.limit (b.front ++ asks.flatMap Ask.bytes)).1.length ≤ n) :
    b.handed (asks ++ List.replicate n .next) ++ b.lost asks =
      (parse b.limit (b.front ++ asks.flatMap Ask.bytes)).1 := by
  obtain ⟨hchecked, hlimit, hasks⟩ := parse_asks hb asks
  have hfew := hasks []
  rw [List.append_nil, List.append_nil] at hfew
  have hwait : (parse b.limit (b.asked asks).front).1.length ≤ n := by
    rw [hfew, List.length_append] at hn
    omega
  have hnone := parse_nexts hchecked n
  rw [hlimit, ← asked_append, List.drop_eq_nil_of_le hwait] at hnone
  have hbytes : (asks ++ List.replicate n Ask.next).flatMap Ask.bytes ++ [] = asks.flatMap Ask.bytes := by
    rw [List.append_nil, List.flatMap_append, List.append_right_eq_self, List.flatMap_eq_nil_iff]
    intro a ha
    rw [List.eq_of_mem_replicate ha]
    rfl
  obtain ⟨-, -, hall⟩ := parse_asks hb (asks ++ List.replicate n .next)
  have hframes := congrArg Prod.fst (hall [])
  rw [hbytes, List.append_nil, hnone, List.append_nil, lost_append, lost_nexts, List.append_nil] at hframes
  exact hframes.symm

theorem bytes_push (chunks : List Bytes) : (chunks.map Ask.push).flatMap Ask.bytes = chunks.flatten := by
  rw [List.flatMap_map]
  exact List.flatMap_id

theorem bytes_extend (chunks : List Bytes) : (chunks.map Ask.extend).flatMap Ask.bytes = chunks.flatten := by
  rw [List.flatMap_map]
  exact List.flatMap_id

/-- **Pushes hand over all frames, unless one fails that has taken some.** A buffer, whatever was
done with it before, gets chunks by pushes, and is then asked for frames as often as there may
be frames. The stream is what was in front of it and the chunks.

* The frames of the stream are its bytes up to where it ends, or breaks off, or breaks a limit.
* They are those that are handed over and those that are lost, in this order, each once.
* All are handed over if and only if each push that fails has found no whole frame before the
  lengths that break a limit. Where the stream breaks no limit all are.
* If the chunks are only added, and the frames asked for, then all are handed over. -/
theorem handed_or_dropped (hb : Reached limit b) (chunks : List Bytes) {n : Nat}
    (hn : (parse limit (b.front ++ chunks.flatten)).1.length ≤ n) :
    let stream : Bytes := b.front ++ chunks.flatten
    let frames := (parse limit stream).1
    let handed := b.handed (chunks.map .push ++ List.replicate n .next)
    (∃ left, stream = bytesOf frames ++ left ∧ (parse limit stream).2.Leaves limit left) ∧
    handed ++ b.lost (chunks.map .push) = frames ∧
    (handed = frames ↔ ∀ before bs after why, chunks = before ++ bs :: after →
      ((b.asked (before.map .push)).push bs).1 = .error why →
        (parse limit ((b.asked (before.map .push)).front ++ bs)).1 = []) ∧
    ((∀ why, (parse limit stream).2 ≠ .violation why) → handed = frames) ∧
    b.handed (chunks.map .extend ++ List.replicate n .next) = frames := by
  intro stream frames handed
  obtain ⟨hc, rfl⟩ := hb.checked
  have hpush := handed_lost_eq hc (chunks.map .push) (n := n) (by rwa [bytes_push])
  have hextend := handed_lost_eq hc (chunks.map .extend) (n := n) (by rwa [bytes_extend])
  rw [bytes_push] at hpush
  rw [bytes_extend, lost_extends, List.append_nil] at hextend
  have hall : handed = frames ↔ b.lost (chunks.map .push) = [] := by
    rw [show frames = handed ++ b.lost (chunks.map .push) from hpush.symm, List.self_eq_append_right]
  refine ⟨parse_leaves b.limit stream, hpush, ?_, fun hends => ?_, hextend⟩
  · rw [hall, lost_pushes_eq_nil_iff]
    have hlimit : ∀ before : List Bytes, (b.asked (before.map .push)).limit = b.limit :=
      fun before => (parse_asks hc _).2.1
    simp only [dropped_push_eq_nil_iff, hlimit]
    exact ⟨fun h before bs after why he => h before bs after he why,
      fun h before bs after he why => h before bs after why he⟩
  · refine hall.mpr (by_contra fun hlost => ?_)
    obtain ⟨why, hwhy⟩ := violation_of_lost hc hlost
    rw [bytes_push] at hwhy
    exact hends why hwhy

/-- A frame and lengths that break a limit, in one piece: pushed, the frame is lost; added and
asked for, it is handed over. -/
theorem handed_or_dropped_piece :
    let f : Frame := ⟨[7], [8]⟩
    let piece : Bytes := f.toBytes ++ (⟨0, 0⟩ : Lengths).encode
    let b : Buffer := { limit := 4 }
    b.handed [.push piece, .next] = [] ∧ b.lost [.push piece] = [f] ∧ b.handed [.extend piece, .next] = [f] := by
  intro f piece b
  have hframes : (parse 4 (b.front ++ [piece].flatten)).1 = [f] := by decide +kernel
  have hone : (parse 4 (b.front ++ [piece].flatten)).1.length ≤ 1 := by rw [hframes]; decide
  obtain ⟨-, hpushed, -, -, hadded⟩ := handed_or_dropped (.new : Reached 4 b) [piece] hone
  have hnone : b.handed [.push piece, .next] = [] := by decide +kernel
  refine ⟨hnone, ?_, hadded.trans hframes⟩
  rw [hframes] at hpushed
  exact (congrArg (· ++ b.lost [.push piece]) hnone).symm.trans hpushed

/-- **Not all frames before a violation are handed over.** A push that gets a frame and lengths
that break a limit has taken the frame and does not give it back. -/
theorem not_all_handed :
    ¬ ∀ (limit : Nat) (b : Buffer) (chunks : List Bytes) (n : Nat), Reached limit b →
      (parse limit (b.front ++ chunks.flatten)).1.length ≤ n →
      b.handed (chunks.map .push ++ List.replicate n .next) = (parse limit (b.front ++ chunks.flatten)).1 := by
  intro h
  let f : Frame := ⟨[7], [8]⟩
  let piece : Bytes := f.toBytes ++ (⟨0, 0⟩ : Lengths).encode
  let b : Buffer := { limit := 4 }
  have hframes : (parse 4 (b.front ++ [piece].flatten)).1 = [f] := by decide +kernel
  have hhanded := h 4 b [piece] 1 .new (by rw [hframes]; decide)
  have hnone : b.handed ([piece].map .push ++ List.replicate 1 .next) = [] := by decide +kernel
  rw [hnone, hframes] at hhanded
  cases hhanded

end Buffer
end Frame
end Callwire
