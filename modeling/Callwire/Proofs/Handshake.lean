/-
# The handshake

The line that a client begins with is short enough, and a server reads from it what
the client asked for. It takes the line and not one byte more, wherever the stream is
cut, so the frames that follow are all there. A stream whose first line is no such line
leaves no trace: nothing is written, no request is taken, and the rest of the server is
as if the connection had never done anything.

Key definitions: `Options.Unacceptable`, `Server.Event.isOf`, `Server.EqBeside`,
`Server.Untouched`.
Key theorems: `Options.length_text_le`, `Stream.readLine_line`, `Options.receive_line`,
`Options.unacceptable_iff`, `Connection.Blank.step`, `Server.untouched_of_unacceptable`,
`Server.handshake`.
-/
import Callwire.Client
import Callwire.Proofs.Connection.Answered
import Callwire.Proofs.Streams

namespace Callwire

open Outbox (bytesOf)

variable {σ : Type}

/-! ### How long a line of options is -/

/-- A number below a power of ten has no more digits than that power has zeros. -/
theorem Json.length_digits_le {n k : Nat} (h : n < 10 ^ (k + 1)) : (digits n).length ≤ k + 1 := by
  induction k generalizing n with
  | zero =>
    rw [digits, if_pos (by simpa using h)]
    simp
  | succ k ih =>
    unfold digits
    by_cases hn : n < 10
    · rw [if_pos hn]
      simp
    · have hdiv : n / 10 < 10 ^ (k + 1) := by
        rw [Nat.div_lt_iff_lt_mul (by decide), ← Nat.pow_succ]
        exact h
      have hlen := ih hdiv
      rw [if_neg hn, List.length_append, List.length_singleton]
      omega

theorem Json.length_written_word {n : Nat} (h : n < 2 ^ 64) : (written (.int n)).length ≤ 20 := by
  have hlen : (digits n).length ≤ 20 := length_digits_le (Nat.lt_trans h (by decide))
  rw [written_int, integer, if_neg (by omega), Int.natAbs_natCast]
  exact hlen

namespace Options

/-- **Every line that a client writes is short enough to be read.** -/
theorem length_text_le {o : Options} (hm : o.magic = magicNumber) : o.text.length ≤ lineLimit := by
  have hmagic : (Json.written (.int o.magic)).length ≤ 20 := by
    rw [hm]
    exact Json.length_written_word (by decide)
  have hconnect := Json.length_written_word (wireMillis_lt o.connectTimeout)
  have hhandle := Json.length_written_word (wireMillis_lt o.handleTimeout)
  have hcodec : (Json.written (.text o.codec.id)).length ≤ 21 := by
    cases o.codec <;> decide +kernel
  have hnames : (Json.written (.text "magicNumber")).length = 13 ∧
      (Json.written (.text "codecID")).length = 9 ∧
      (Json.written (.text "connectTimeout")).length = 16 ∧
      (Json.written (.text "handleTimeout")).length = 15 := by decide +kernel
  rw [text_eq, Json.written_datum]
  simp only [entries, Json.fieldBytes, List.length_append, List.length_cons, List.length_nil,
    if_true, Bool.false_eq_true, if_false, lineLimit]
  omega

theorem opens_line {o : Options} (hm : o.magic = magicNumber) (rest : Bytes) :
    Opens (o.line ++ rest) o.received rest := by
  refine ⟨o.text, ?_, not_mem_text hm, length_text_le hm, ?_⟩
  · rw [line, List.append_assoc]
    rfl
  · rw [stripReturn_text]
    exact parse_text hm

end Options

/-! ### A line of a stream that comes in chunks -/

namespace Stream

theorem readLine_mk (b : Frame.Buffer) (as : List Arrival) (limit : Nat) :
    readLine ⟨b, as⟩ limit =
      match b.takeLine limit with
      | (.ok none, b) =>
        match as with
        | [] => (.ok none, ⟨b, []⟩)
        | .fault why :: as => (.error (.stream why), ⟨b, as⟩)
        | .chunk [] :: as => (.ok none, ⟨b, as⟩)
        | .chunk (x :: xs) :: as => readLine ⟨b.extend (x :: xs), as⟩ limit
      | (r, b) => (r.mapError .protocol, ⟨b, as⟩) := by
  rw [readLine, readUntil_one]
  rcases b.takeLine limit with ⟨_ | _ | line, b'⟩ <;> rfl

/-- A line that is short enough is taken once its end is there, and until then nothing
is. -/
theorem takeLine_front {b : Frame.Buffer} {limit : Nat} {line tail more : Bytes} (hn : 0x0a ∉ line)
    (hl : line.length ≤ limit) (h : b.unread ++ tail = line ++ 0x0a :: more) :
    (∃ u, b.takeLine limit = (.ok (some (Frame.Buffer.stripReturn line)), { b with unread := u }) ∧
      u ++ tail = more) ∨ (b.takeLine limit = (.ok none, b) ∧ 0x0a ∉ b.unread) := by
  rcases ht : b.takeLine limit with ⟨_ | _ | line', b'⟩
  · have hlong := Frame.Buffer.takeLine_error ht h
    omega
  · obtain ⟨rfl, hfree⟩ := Frame.Buffer.takeLine_none ht
    exact .inr ⟨rfl, hfree⟩
  · obtain ⟨pre, hu, hpre, -, rfl, hb⟩ := Frame.Buffer.takeLine_line ht
    rw [hu, List.append_assoc, List.cons_append] at h
    obtain ⟨rfl, hmore⟩ := Frame.Buffer.line_inj hpre hn h
    exact .inl ⟨b'.unread, by rw [← hb], hmore⟩

/-- **A line is taken from a stream, and not one byte more**, wherever the stream is
cut. -/
theorem readLine_line {limit : Nat} {line more : Bytes} (hn : 0x0a ∉ line) (hl : line.length ≤ limit)
    {s : Stream} (hs : Solid s.arrivals) (haw : s.buffer.awaited = none)
    (ha : s.ahead = line ++ 0x0a :: more) :
    ∃ s', s.readLine limit = (.ok (some (Frame.Buffer.stripReturn line)), s') ∧ s'.ahead = more ∧
      Solid s'.arrivals ∧ s'.buffer.awaited = none ∧ s'.buffer.limit = s.buffer.limit := by
  have hahead : ∀ (b : Frame.Buffer) (as : List Arrival), b.awaited = none →
      ahead ⟨b, as⟩ = b.unread ++ rest.go as := by
    intro b as hb
    rw [ahead, Frame.Buffer.front, hb]
  obtain ⟨b, as⟩ := s
  have hb : b.awaited = none := haw
  induction as generalizing b with
  | nil =>
    rw [hahead _ _ hb] at ha
    rw [readLine_mk]
    obtain ⟨u, ht, hu⟩ | ⟨-, hfree⟩ := takeLine_front hn hl ha
    · rw [ht]
      exact ⟨⟨{ b with unread := u }, []⟩, rfl, (hahead { b with unread := u } _ hb).trans hu, hs, hb, rfl⟩
    · have hgo : rest.go [] = [] := rfl
      rw [hgo, List.append_nil] at ha
      exact absurd (ha ▸ by simp) hfree
  | cons a as ih =>
    rw [hahead _ _ hb] at ha
    rw [readLine_mk]
    obtain ⟨u, ht, hu⟩ | ⟨ht, -⟩ := takeLine_front hn hl ha
    · rw [ht]
      exact ⟨⟨{ b with unread := u }, a :: as⟩, rfl, (hahead { b with unread := u } _ hb).trans hu, hs, hb, rfl⟩
    · obtain ⟨x, xs, rfl⟩ := hs _ List.mem_cons_self
      have hmore : ahead ⟨b.extend (x :: xs), as⟩ = line ++ 0x0a :: more := by
        rw [← ha, hahead (b.extend (x :: xs)) as hb]
        exact List.append_assoc _ _ _
      rw [ht]
      exact ih (b.extend (x :: xs)) (fun a ha => hs a (List.mem_cons_of_mem _ ha)) hb hmore hb

end Stream

namespace Options

/-- **A server reads from the stream of a client what it asked for**, and the rest of the
stream is still ahead. -/
theorem receive_line {o : Options} (hm : o.magic = magicNumber) (limit : Nat) {chunks : List Bytes}
    {rest : Bytes} (hne : ∀ c ∈ chunks, c ≠ []) (hc : chunks.flatten = o.line ++ rest) :
    ∃ s, receive (.ofChunks limit chunks) = (.ok o.received, s) ∧ s.ahead = rest ∧
      s.results = (Frame.parse limit rest).1.map (fun f => .ok (some f)) ++
        [(Frame.parse limit rest).2.result] := by
  have hahead : (Stream.ofChunks limit chunks).ahead = o.text ++ 0x0a :: rest := by
    rw [Stream.ahead_ofChunks, hc, line, List.append_assoc]
    rfl
  obtain ⟨s, hread, hs, hsolid, haw, hlim⟩ :=
    Stream.readLine_line (not_mem_text hm) (length_text_le hm) (Stream.solid_ofChunks hne) rfl hahead
  refine ⟨s, ?_, hs, ?_⟩
  · unfold receive
    rw [hread, stripReturn_text]
    show (parse o.text, s) = _
    rw [parse_text hm]
  · have hlimit : s.buffer.limit = limit := hlim
    rw [Stream.results_eq s hsolid (Frame.Buffer.checked_of_awaited_eq_none haw), hs, hlimit]

/-! ### A first line that is no line of options -/

theorem parse_eq_ok_iff {bs : Bytes} {o : Options} :
    parse bs = .ok o ↔ ∃ d, Json.read shape bs = .ok d ∧ ofDatum? d = some o ∧ o.magic = magicNumber := by
  unfold parse
  cases hr : Json.read shape bs with
  | error why => simp [Except.mapError, bind, Except.bind]
  | ok d =>
    cases hd : ofDatum? d with
    | none => simp [Except.mapError, bind, Except.bind, hd, throw, throwThe, MonadExceptOf.throw]
    | some o' =>
      by_cases hm : o'.magic = magicNumber
      · have hc : o'.check = .ok () := by rw [check, if_pos hm]
        simp only [Except.mapError, bind, Except.bind, hd, hc, pure, Except.pure, Except.ok.injEq]
        constructor
        · rintro rfl
          exact ⟨d, rfl, hd, hm⟩
        · rintro ⟨_, rfl, ho, -⟩
          exact Option.some.inj (hd.symm.trans ho)
      · have hc : o'.check = .error (.protocol (.wrongMagic o'.magic)) := by rw [check, if_neg hm]
        simp only [Except.mapError, bind, Except.bind, hd, hc]
        constructor
        · intro h
          cases h
        · rintro ⟨d', he, ho, hmagic⟩
          obtain rfl := Except.ok.inj he
          obtain rfl := Option.some.inj (hd.symm.trans ho)
          exact absurd hmagic hm

/-- The first line of a stream has no end, or is too long, or its text is none of
options, as when it names another codec, or its magic number is another one. -/
inductive Unacceptable (input : Bytes) : Prop where
  | endless (hn : 0x0a ∉ input)
  | long {line rest : Bytes} (he : input = line ++ 0x0a :: rest) (hn : 0x0a ∉ line)
      (hl : lineLimit < line.length)
  | illegible {line rest : Bytes} (he : input = line ++ 0x0a :: rest) (hn : 0x0a ∉ line)
      (hr : ∀ d, Json.read shape (Frame.Buffer.stripReturn line) = .ok d → ofDatum? d = none)
  | strange {line rest : Bytes} {d : Datum} {o : Options} (he : input = line ++ 0x0a :: rest)
      (hn : 0x0a ∉ line) (hr : Json.read shape (Frame.Buffer.stripReturn line) = .ok d)
      (hd : ofDatum? d = some o) (hm : o.magic ≠ magicNumber)

/-- There are no other streams that open without options. -/
theorem unacceptable_iff {input : Bytes} : Unacceptable input ↔ ∀ o rest, ¬ Opens input o rest := by
  constructor
  · rintro h o rest ⟨line, he, hn, hl, hp⟩
    obtain ⟨d, hread, hdata, hmagic⟩ := parse_eq_ok_iff.mp hp
    cases h with
    | endless hfree =>
      rw [he] at hfree
      simp at hfree
    | long he' hn' hlong =>
      obtain ⟨rfl, -⟩ := Frame.Buffer.line_inj hn hn' (he.symm.trans he')
      omega
    | illegible he' hn' hr =>
      obtain ⟨rfl, -⟩ := Frame.Buffer.line_inj hn hn' (he.symm.trans he')
      rw [hr d hread] at hdata
      cases hdata
    | strange he' hn' hr hd hm =>
      obtain ⟨rfl, -⟩ := Frame.Buffer.line_inj hn hn' (he.symm.trans he')
      obtain rfl := Except.ok.inj (hread.symm.trans hr)
      obtain rfl := Option.some.inj (hdata.symm.trans hd)
      exact hm hmagic
  · intro h
    by_cases hmem : 0x0a ∈ input
    · obtain ⟨line, rest, he, hn⟩ := List.eq_append_cons_of_mem hmem
      by_cases hl : line.length ≤ lineLimit
      · by_cases hr : ∀ d, Json.read shape (Frame.Buffer.stripReturn line) = .ok d → ofDatum? d = none
        · exact .illegible he hn hr
        · push Not at hr
          obtain ⟨d, hread, hne⟩ := hr
          obtain ⟨o, hd⟩ := Option.ne_none_iff_exists'.mp hne
          refine .strange he hn hread hd fun hm => ?_
          exact h o rest ⟨line, he, hn, hl, parse_eq_ok_iff.mpr ⟨d, hread, hd, hm⟩⟩
      · exact .long he hn (by omega)
    · exact .endless hmem

end Options

/-! ### What comes of such a stream -/

namespace Connection

/-- Nothing was ever taken from the connection or handed to it. -/
structure Blank (c : Connection σ) : Prop where
  tickets : c.tickets = 0
  running : c.running = []
  detached : c.detached = []
  answered : c.answered = []
  queue : c.outbox.queue = []
  batch : c.outbox.batch = .empty
  wire : c.outbox.wire = []

variable {now : Nat} {r r' : Registry σ} {c c' : Connection σ} {e : Event}

/-- **Before the options nothing happens**, to the connection or to the services. -/
theorem Blank.step (h : Step now r c e c' r') (hb : c.Blank) (hh : ∀ hd, c.stage ≠ .head hd)
    (hs : c.terms? = none) : r' = r ∧ c'.Blank := by
  have hns : ∀ terms i, c.stage ≠ .serving terms i := by
    intro terms i hst
    simp [terms?, hst] at hs
  cases h with
  | receive _ | hangUp | lose => exact ⟨rfl, { hb with }⟩
  | head hst _ => exact absurd hst (hh _)
  | options hst hr =>
    rcases readOptions_cases hr with ⟨line, b, o, -, -, -, rfl⟩ | ⟨⟨b, -, rfl⟩, -⟩ <;>
      exact ⟨rfl, { hb with }⟩
  | frame hst _ | stop hst _ | refuse hst _ | drop hst _ | start hst _ => exact absurd hst (hns _ _)
  | finish hst _ _ | expire hst _ | release hst _ _ _ | write hst _ _ => exact absurd hst (hns _ _)
  | retire hc =>
    rw [hb.detached] at hc
    cases hc
  | post ha _ | discard ha _ =>
    rw [hb.answered] at ha
    cases ha

end Connection

namespace Server

/-- The event is one of a connection. -/
def Event.isOf (i : Nat) : Event → Bool
  | .connection k _ => k == i
  | _ => false

/-- The servers are the same, one connection apart. -/
structure EqBeside (i : Nat) (s s' : Server σ) : Prop where
  config : s.config = s'.config
  registry : s.registry = s'.registry
  now : s.now = s'.now
  length : s.connections.length = s'.connections.length
  connections : ∀ k, k ≠ i → s.connections[k]? = s'.connections[k]?

variable {s s' t : Server σ} {i : Nat} {e : Event}

theorem EqBeside.refl (i : Nat) (s : Server σ) : EqBeside i s s :=
  ⟨rfl, rfl, rfl, rfl, fun _ _ => rfl⟩

theorem EqBeside.trans (h : EqBeside i s s') (h' : EqBeside i s' t) : EqBeside i s t :=
  ⟨h.config.trans h'.config, h.registry.trans h'.registry, h.now.trans h'.now,
    h.length.trans h'.length, fun k hk => (h.connections k hk).trans (h'.connections k hk)⟩

theorem EqBeside.put (s : Server σ) (i : Nat) (c : Connection σ) : EqBeside i (s.put i (c, s.registry)) s := by
  refine ⟨rfl, rfl, rfl, ?_, fun k hk => ?_⟩
  · rw [Server.put, List.length_set]
  · rw [Server.put, List.getElem?_set_ne hk.symm]

theorem EqBeside.apply (h : EqBeside i s s') (he : e.isOf i = false) :
    EqBeside i (s.apply e) (s'.apply e) := by
  cases e with
  | arrive tunnelled =>
    refine ⟨h.config, h.registry, h.now, ?_, fun k hk => ?_⟩
    · show (s.connections ++ _).length = (s'.connections ++ _).length
      rw [List.length_append, List.length_append, h.length]
      rfl
    · show (s.connections ++ _)[k]? = (s'.connections ++ _)[k]?
      rw [List.getElem?_append, List.getElem?_append, h.length, h.config, h.connections k hk]
  | tick n => exact ⟨h.config, h.registry, congrArg (· + n) h.now, h.length, h.connections⟩
  | connection k ce =>
    have hk : k ≠ i := by simpa [Event.isOf] using he
    have hck := h.connections k hk
    unfold Server.apply
    cases hc : s'.connections[k]? with
    | none =>
      have hn : ∀ u : Server σ, u.connections[k]? = none → u.step (.connection k ce) = none := by
        intro u hu
        simp [step, hu]
      rw [hn s (hck.trans hc), hn s' hc]
      exact h
    | some c =>
      have hstep : ∀ u : Server σ, u.connections[k]? = some c →
          u.step (.connection k ce) = (c.step u.now u.registry ce).map (u.put k) := by
        intro u hu
        simp only [step, hu, bind, Option.bind, pure]
        cases c.step u.now u.registry ce <;> rfl
      rw [hstep s (hck.trans hc), hstep s' hc, h.now, h.registry]
      cases c.step s'.now s'.registry ce with
      | none => exact h
      | some p =>
        refine ⟨h.config, rfl, h.now, ?_, fun m hm => ?_⟩
        · show (s.connections.set k p.1).length = (s'.connections.set k p.1).length
          rw [List.length_set, List.length_set, h.length]
        · show (s.connections.set k p.1)[m]? = (s'.connections.set k p.1)[m]?
          rw [List.getElem?_set, List.getElem?_set, h.length, h.connections m hm]

/-! ### In a run of a server -/

/-- Nothing comes of the connection that comes: nothing is taken from it or handed to it,
and all else is as it is without its events. -/
structure Untouched (s : Server σ) (es : List Event) : Prop where
  blank : ∃ c, (s.follow es).1.connections[s.connections.length]? = some c ∧ c.Blank
  journal : (s.follow es).2.exchanges = [] ∧ (s.follow es).2.posted = []
  beside : EqBeside s.connections.length (s.follow es).1
    (s.follow (es.filter fun e => !e.isOf s.connections.length)).1

theorem follow_concat (s : Server σ) (es : List Event) (e : Event) :
    s.follow (es ++ [e]) = observe s.connections.length (s.follow es) e := by
  rw [follow, follow, List.foldl_append]
  rfl

theorem blank_of_follow {es : List Event} {c : Connection σ}
    (hc : (s.follow es).1.connections[s.connections.length]? = some c) (ht : c.terms? = none) :
    c.Blank := by
  let P (c : Connection σ) (j : Journal σ) : Prop :=
    Connection.Kept s.registry s.config c j ∧ (c.terms? = none → c.Blank)
  obtain ⟨-, d, hd, -, hblank⟩ := follow_keeps s es (P := P) (fun now r r' c c' j ce hp hstep ⟨hk, hb⟩ => by
    refine ⟨hk.step hstep hp, fun hnone => ?_⟩
    have hst := Connection.Step.of_step hstep
    have hbefore : c.terms? = none := Option.eq_none_iff_forall_ne_some.mpr fun terms hs => by
      rw [Connection.terms?_step hst hs] at hnone
      cases hnone
    exact ((hb hbefore).step hst hk.head_ne hbefore).2) ⟨kept_fresh _ _, fun _ => ⟨rfl, rfl, rfl, rfl, rfl, rfl, rfl⟩⟩
  obtain rfl : c = d := Option.some.inj (hc.symm.trans hd)
  exact hblank ht

/-- Without a line of options none was read. -/
theorem terms?_of_unopened {es : List Event} {c : Connection σ}
    (hc : (s.follow es).1.connections[s.connections.length]? = some c)
    (ho : ∀ o rest, ¬ Options.Opens (s.follow es).2.input o rest) : c.terms? = none := by
  obtain ⟨hk, -⟩ := kept_of_follow hc
  refine Option.eq_none_iff_forall_ne_some.mpr fun terms hs => ?_
  obtain ⟨o, rest, hopens, -⟩ := (hk.served hs).heard
  exact ho o rest hopens

theorem input_observe (i : Nat) (p : Server σ × Journal σ) (e : Event) :
    ∃ bs, (observe i p e).2.input = p.2.input ++ bs := by
  have hsame : ∃ bs, p.2.input = p.2.input ++ bs := ⟨[], (List.append_nil _).symm⟩
  unfold observe
  cases p.1.step e with
  | none => exact hsame
  | some s =>
    show ∃ bs, (record i p.1 e s p.2).input = p.2.input ++ bs
    unfold record
    split
    · split
      · split
        · exact ⟨_, Connection.input_note⟩
        · exact hsame
      · exact hsame
    · exact hsame

/-- An event of a connection without options changes nothing beside it. -/
theorem EqBeside.own {es : List Event} (ce : Connection.Event)
    (ho : ∀ o rest, ¬ Options.Opens (s.follow es).2.input o rest) :
    EqBeside s.connections.length
      ((s.follow es).1.apply (.connection s.connections.length ce)) (s.follow es).1 := by
  obtain ⟨c, hc, hk, -⟩ := kept_follow s es
  have hnone := terms?_of_unopened hc ho
  unfold Server.apply
  simp only [step, hc, bind, Option.bind, pure]
  cases hstep : c.step (s.follow es).1.now (s.follow es).1.registry ce with
  | none => exact .refl _ _
  | some p =>
    obtain ⟨c', r'⟩ := p
    obtain ⟨rfl, -⟩ := (blank_of_follow hc hnone).step (.of_step hstep) hk.head_ne hnone
    exact .put _ _ c'

/-- **The rest of the server is as if the connection had done nothing.** -/
theorem eqBeside_of_unopened (s : Server σ) (es : List Event)
    (ho : ∀ o rest, ¬ Options.Opens (s.follow es).2.input o rest) :
    EqBeside s.connections.length (s.follow es).1
      (s.follow (es.filter fun e => !e.isOf s.connections.length)).1 := by
  induction es using List.reverseRecOn with
  | nil => exact .refl _ _
  | append_singleton es e ih =>
    have hbefore : ∀ o rest, ¬ Options.Opens (s.follow es).2.input o rest := by
      intro o rest h
      obtain ⟨bs, hbs⟩ := input_observe s.connections.length (s.follow es) e
      refine ho o (rest ++ bs) ?_
      rw [follow_concat, hbs]
      exact h.append bs
    have ih := ih hbefore
    rw [follow_concat, fst_observe, List.filter_append]
    by_cases he : e.isOf s.connections.length
    · have hfilter : [e].filter (fun e => !e.isOf s.connections.length) = [] := by simp [he]
      rw [hfilter, List.append_nil]
      cases e with
      | connection k ce =>
        obtain rfl : k = s.connections.length := by simpa [Event.isOf] using he
        exact (EqBeside.own ce hbefore).trans ih
      | arrive _ | tick _ => cases he
    · have hne : e.isOf s.connections.length = false := by simpa using he
      have hfilter : [e].filter (fun e => !e.isOf s.connections.length) = [e] := by simp [hne]
      rw [hfilter, follow_concat, fst_observe]
      exact ih.apply hne

/-- **A stream that does not open with options leaves no trace.** -/
theorem untouched_of_unacceptable {es : List Event}
    (h : Options.Unacceptable (s.follow es).2.input) : s.Untouched es := by
  have ho := Options.unacceptable_iff.mp h
  obtain ⟨c, hc, hk, -⟩ := kept_follow s es
  have hnone := terms?_of_unopened hc ho
  have hu := hk.unserved hnone
  exact ⟨⟨c, hc, blank_of_follow hc hnone⟩, ⟨hu.exchanges, hu.posted⟩, eqBeside_of_unopened s es ho⟩

/-- **The handshake.** Whatever a client asks for, and wherever the stream is cut, a
server reads the codec of the client from its line, and what a reader then gives are the
frames and the end of the bytes that follow; if these are frames, it gives them all and
nothing else. A connection that has read all that came serves with that codec and has
taken the frames whose headers it can read. From a stream whose first line is no such
line, so far as it has come, nothing is taken; nothing is written, no handler starts, and
the services and the other connections are as they are without the connection's events. -/
theorem handshake :
    (∀ (o : Options) (limit : Nat) (chunks : List Bytes) (rest : Bytes), (∀ c ∈ chunks, c ≠ []) →
      chunks.flatten = (Client.start o).outbox.wire ++ rest →
      ∃ asked s, Options.receive (.ofChunks limit chunks) = (.ok asked, s) ∧ asked.codec = o.codec ∧
        s.ahead = rest ∧
        s.results = (Frame.parse limit rest).1.map (fun f => .ok (some f)) ++
          [(Frame.parse limit rest).2.result] ∧
        ∀ fs, rest = bytesOf fs → (∀ f ∈ fs, f.Fits limit) →
          s.results = fs.map (fun f => .ok (some f)) ++ [.ok none]) ∧
    (∀ (s : Server σ) (es : List Event) (o : Options) (rest : Bytes) (c : Connection σ),
      s.config.Sound → (s.follow es).2.input = (Client.start o).outbox.wire ++ rest →
      (s.follow es).1.connections[s.connections.length]? = some c → c.AtRest →
      ∃ terms, c.terms? = some terms ∧ terms.codec = o.codec ∧
        Journal.requests (s.follow es).2.exchanges =
          Frame.readable o.codec (Frame.parse s.config.maxBody rest).1) ∧
    ∀ (s : Server σ) (es : List Event), Options.Unacceptable (s.follow es).2.input → s.Untouched es := by
  refine ⟨fun o limit chunks rest hne hc => ?_, fun s es o rest c hsound hinput hc hrest => ?_,
    fun s es h => untouched_of_unacceptable h⟩
  · obtain ⟨s, hreceive, hahead, hresults⟩ :=
      Options.receive_line (o := { o with magic := Options.magicNumber }) rfl limit hne hc
    refine ⟨_, s, hreceive, rfl, hahead, hresults, ?_⟩
    rintro fs rfl hfits
    rw [hresults, Frame.parse_clean hfits]
    rfl
  · have hopens : Options.Opens (s.follow es).2.input
        ({ o with magic := Options.magicNumber } : Options).received rest := by
      rw [hinput]
      exact Options.opens_line rfl rest
    obtain ⟨hk, -⟩ := kept_of_follow hc
    obtain ⟨i, hs, hserved⟩ := hrest.serving hk hsound hopens
    exact ⟨_, hrest.terms? hk hsound hopens, rfl, hrest.requests hs hserved hopens⟩

end Server

namespace Sample

/-- What a caller asks for who gives another magic number. -/
def strangeOptions : Options := ⟨0, .json, .ofSeconds 1, .ofMillis 50⟩

/-- Two frames, the second without a body. -/
def shortFrames : List Frame := [⟨[1], [2, 3]⟩, ⟨[4], []⟩]

/-- The stream of that caller, cut within the line. -/
def cutStream : List Bytes :=
  [(Client.start strangeOptions).outbox.wire.take 7,
    (Client.start strangeOptions).outbox.wire.drop 7 ++ bytesOf shortFrames]

/-- The options as the caller gave them, and a request after them. -/
def strangeStream : Bytes := strangeOptions.line ++ (lenRequest ⟨"Foo.Len", 1, ""⟩).toBytes

/-- That stream comes, and whatever can be done is done. -/
def strangeRun : List Server.Event :=
  .connection 0 (.receive strangeStream) ::
    [.read, .read, .start, .finish 0, .post 0, .hangUp].map (.connection 0)

end Sample

namespace Server

theorem handshake_len :
    (∃ asked s, Options.receive (.ofChunks 2 Sample.cutStream) = (.ok asked, s) ∧ asked.codec = .json ∧
      s.results = [.ok (some ⟨[1], [2, 3]⟩), .ok (some ⟨[4], []⟩), .ok none]) ∧
    (∃ c terms, (Sample.lenServer.follow (Sample.lenRun ⟨"Foo.Len", 1, ""⟩ 44)).1.connections[0]? = some c ∧
      c.terms? = some terms ∧ terms.codec = .messagePack) ∧
    Sample.lenServer.Untouched Sample.strangeRun := by
  obtain ⟨hread, hserve, hstrange⟩ := handshake (σ := Sample.Receiver)
  refine ⟨?_, ?_, hstrange _ _ ?_⟩
  · have hflat : Sample.cutStream.flatten =
        (Client.start Sample.strangeOptions).outbox.wire ++ bytesOf Sample.shortFrames := by
      decide +kernel
    have hfits : ∀ f ∈ Sample.shortFrames, f.Fits 2 := by
      unfold Frame.Fits Lengths.Worded
      decide +kernel
    obtain ⟨asked, s, hreceive, hcodec, -, -, hframes⟩ :=
      hread Sample.strangeOptions 2 Sample.cutStream _ (by decide +kernel) hflat
    exact ⟨asked, s, hreceive, hcodec, hframes _ rfl hfits⟩
  · have hend : ((Sample.lenServer.follow (Sample.lenRun ⟨"Foo.Len", 1, ""⟩ 44)).1.connections[0]?).any
        (fun c => c.outbox.state == .closed) = true := by decide +kernel
    obtain ⟨c, hc, hclosed⟩ := (Option.any_eq_true _ _).mp hend
    have hinput : (Sample.lenServer.follow (Sample.lenRun ⟨"Foo.Len", 1, ""⟩ 44)).2.input =
        (Client.start .default).outbox.wire ++ (Sample.lenRequest ⟨"Foo.Len", 1, ""⟩).toBytes := by
      decide +kernel
    obtain ⟨terms, ht, hcodec, -⟩ := hserve _ _ _ _ c (by decide) hinput hc (.inr (by simpa using hclosed))
    exact ⟨c, terms, hc, ht, hcodec⟩
  · have hinput : (Sample.lenServer.follow Sample.strangeRun).2.input = Sample.strangeStream := by
      decide +kernel
    have hline : Sample.strangeStream = Sample.strangeOptions.text ++ 0x0a ::
        (Sample.lenRequest ⟨"Foo.Len", 1, ""⟩).toBytes := by decide +kernel
    have hasked : (Json.read Options.shape (Frame.Buffer.stripReturn Sample.strangeOptions.text)).toOption.bind
        Options.ofDatum? = some Sample.strangeOptions := by decide +kernel
    obtain ⟨d, hd, ho⟩ := Option.bind_eq_some_iff.mp hasked
    rw [hinput]
    cases hr : Json.read Options.shape (Frame.Buffer.stripReturn Sample.strangeOptions.text) with
    | error why =>
      rw [hr] at hd
      cases hd
    | ok d' =>
      rw [hr] at hd
      cases hd
      exact .strange hline (by decide +kernel) hr ho (by decide)

end Server
end Callwire
