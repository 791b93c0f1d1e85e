/-
# What becomes of a call

A call that is taken gets a number that no other call has, and its frame, if it has
one, carries that number, the name of the method and the encoded argument, with no
error. The frame is handed to the outbox once at most. A call stands in the table of pending
calls from then on until it has an outcome, and an outcome that the peer gave is
what a frame says that came with the number of the call. All this holds as long as
fewer than `2^64` calls were taken: then numbers come again.

Key definitions: `Header.outcome`, `Booking.frame?`, `Client.Backs`,
`Client.Honest`, `Client.Faithful`, `Client.Change`.
Key theorems: `Client.Log.Sound.eq_of_seq`, `Client.Faithful.change`, `Client.Faithful.step`.
-/
import Callwire.Proofs.Client.Steps

namespace Callwire

/-- What an answer of this header and body tells the caller. -/
def Header.outcome (h : Header) (body : Bytes) : Except Fault Bytes :=
  if h.isError then .error (.remote h.error) else .ok body

/-- The header that a call is sent with. -/
def Booking.header (b : Booking) : Header := ⟨b.target, b.seq, ""⟩

/-- The frame of a call. -/
def Booking.frame? (codec : Codec) (b : Booking) : Except Fault Frame :=
  Frame.ofHeader codec b.header b.body

namespace Client

/-- The outcome is the peer's word and not the client's own. -/
def isTold : Except Fault Bytes → Bool
  | .ok _ | .error (.remote _) => true
  | .error _ => false

theorem isTold_outcome (h : Header) (body : Bytes) : isTold (h.outcome body) = true := by
  rw [Header.outcome]
  split <;> rfl

/-- The first numbers, last first. They start again after `2^64`. -/
def numbers : Nat → List UInt64
  | 0 => []
  | n + 1 => .ofNat (n + 1) :: numbers n

theorem mem_numbers {n : Nat} {s : UInt64} (h : s ∈ numbers n) :
    ∃ k, 0 < k ∧ k ≤ n ∧ s = .ofNat k := by
  induction n with
  | zero => cases h
  | succ n ih =>
    rcases List.mem_cons.mp h with rfl | h
    · exact ⟨n + 1, by omega, Nat.le_refl _, rfl⟩
    · obtain ⟨k, hk, hle, hs⟩ := ih h
      exact ⟨k, hk, by omega, hs⟩

theorem ofNat_inj {a b : Nat} (ha : a < 2 ^ 64) (hb : b < 2 ^ 64) (h : UInt64.ofNat a = .ofNat b) :
    a = b := by
  have hn := congrArg UInt64.toNat h
  rwa [UInt64.toNat_ofNat', UInt64.toNat_ofNat', Nat.mod_eq_of_lt ha, Nat.mod_eq_of_lt hb] at hn

theorem not_mem_numbers {n : Nat} (hn : n + 1 < 2 ^ 64) : UInt64.ofNat (n + 1) ∉ numbers n := by
  intro h
  obtain ⟨k, -, hle, hk⟩ := mem_numbers h
  have := ofNat_inj hn (by omega) hk
  omega

theorem nodup_numbers {n : Nat} (hn : n < 2 ^ 64) : (numbers n).Nodup := by
  induction n with
  | zero => exact List.nodup_nil
  | succ n ih => exact List.nodup_cons.mpr ⟨not_mem_numbers hn, ih (by omega)⟩

theorem ne_zero_of_mem_numbers {n : Nat} (hn : n < 2 ^ 64) {s : UInt64} (h : s ∈ numbers n) : s ≠ 0 := by
  obtain ⟨k, hpos, hle, rfl⟩ := mem_numbers h
  intro hz
  have := ofNat_inj (b := 0) (by omega) (by decide) hz
  omega

/-! ### The log -/

/-- The booking is that of the call, and has what its caller asked for. -/
structure Backs (codec : Codec) (l : Log) (b : Booking) (x : Call) : Prop where
  mem : b ∈ l.booked
  id : b.id = x.id
  seq : b.seq = x.seq
  target : b.target = x.target
  asked : ∃ args, l.begun.lookup x.id = some (x.target, args) ∧ codec.encode args = .ok b.body

/-- The calls that were taken have the first numbers, and the frames that were
handed over are theirs, each once at most. -/
structure Log.Sound (codec : Codec) (l : Log) : Prop where
  numbers : l.booked.map (·.seq) = numbers l.booked.length
  sent : ∀ f ∈ l.sent, ∃ b ∈ l.booked, b.frame? codec = .ok f
  once : l.sent.Nodup

variable {codec : Codec} {l l' : Log} {x y : Call} {b b' : Booking} {f : Frame}

theorem Log.Sound.mem_numbers (h : l.Sound codec) (hb : b ∈ l.booked) :
    b.seq ∈ Client.numbers l.booked.length :=
  h.numbers ▸ List.mem_map.mpr ⟨b, hb, rfl⟩

theorem Log.Sound.ne_zero (h : l.Sound codec) (hlt : l.booked.length < 2 ^ 64) (hb : b ∈ l.booked) :
    b.seq ≠ 0 :=
  ne_zero_of_mem_numbers hlt (h.mem_numbers hb)

theorem Log.Sound.eq_of_seq (h : l.Sound codec) (hlt : l.booked.length < 2 ^ 64) (hb : b ∈ l.booked)
    (hb' : b' ∈ l.booked) (hs : b.seq = b'.seq) : b = b' := by
  have hn : (l.booked.map (·.seq)).Nodup := h.numbers ▸ nodup_numbers hlt
  exact List.inj_on_of_nodup_map hn hb hb' hs

theorem readHeader_frame? (h : b.frame? codec = .ok f) :
    f.readHeader codec = .ok b.header ∧ f.body = b.body := by
  refine ⟨Frame.readHeader_ofHeader h, ?_⟩
  obtain ⟨-, -, rfl⟩ := Frame.ofHeader_eq_ok_iff.mp h
  rfl

theorem Log.Sound.eq_of_frame? (h : l.Sound codec) (hlt : l.booked.length < 2 ^ 64) (hb : b ∈ l.booked)
    (hb' : b' ∈ l.booked) (hf : b.frame? codec = .ok f) (hf' : b'.frame? codec = .ok f) : b = b' := by
  have hh : b.header = b'.header :=
    Except.ok.inj ((readHeader_frame? hf).1.symm.trans (readHeader_frame? hf').1)
  exact h.eq_of_seq hlt hb hb' (congrArg Header.seq hh)

theorem Log.Sound.book (h : l.Sound codec) (hb : b.seq = .ofNat (l.booked.length + 1)) :
    { l with booked := b :: l.booked }.Sound codec := by
  refine ⟨?_, fun f hf => ?_, h.once⟩
  · simp [Client.numbers, hb, h.numbers]
  · obtain ⟨b', hb', hf'⟩ := h.sent f hf
    exact ⟨b', List.mem_cons_of_mem _ hb', hf'⟩

theorem Log.Sound.fresh (h : l.Sound codec) (hlt : l.booked.length + 1 < 2 ^ 64) (hb : b ∈ l.booked) :
    b.seq ≠ .ofNat (l.booked.length + 1) :=
  fun he => not_mem_numbers hlt (he ▸ h.mem_numbers hb)

/-! ### One call -/

/-- What holds of a call at all times: what it waits with is what its caller asked
for, a number has its booking, a frame that is still to be handed over is that of the
booking and was not handed over yet, and an outcome that the peer gave came with a frame
of its number. -/
structure Honest (codec : Codec) (l : Log) (x : Call) : Prop where
  waiting : ∀ body, x.phase = .waiting body → x.seq = 0 ∧ x.outcome = none ∧
    ∃ args, l.begun.lookup x.id = some (x.target, args) ∧ codec.encode args = .ok body
  numbered : x.seq ≠ 0 → ∃ b, Backs codec l b x
  sending : ∀ frame, x.phase = .sending frame → (∀ f, frame = .ok f → f ∉ l.sent) ∧
    ∃ b, Backs codec l b x ∧ b.frame? codec = frame
  told : ∀ out, x.outcome = some out → isTold out = true → x.seq ≠ 0 ∧
    ∃ f ∈ l.got, ∃ h, f.readHeader codec = .ok h ∧ h.seq = x.seq ∧ out = h.outcome f.body

theorem Backs.mono (h : Backs codec l b x) (hbegun : l'.begun.lookup x.id = l.begun.lookup x.id)
    (hbooked : l.booked ⊆ l'.booked) : Backs codec l' b x :=
  ⟨hbooked h.mem, h.id, h.seq, h.target, by rw [hbegun]; exact h.asked⟩

/-- More may happen to other calls. -/
theorem Honest.mono (h : Honest codec l x) (hbegun : l'.begun.lookup x.id = l.begun.lookup x.id)
    (hbooked : l.booked ⊆ l'.booked) (hgot : l.got ⊆ l'.got)
    (hsent : ∀ f, x.phase = .sending (.ok f) → f ∉ l'.sent) : Honest codec l' x := by
  refine ⟨by rw [hbegun]; exact h.waiting, fun hs => ?_, fun f hf => ?_, fun out ho ht => ?_⟩
  · obtain ⟨b, hb⟩ := h.numbered hs
    exact ⟨b, hb.mono hbegun hbooked⟩
  · obtain ⟨-, b, hb, hbf⟩ := h.sending f hf
    exact ⟨fun g hg => hsent g (hg ▸ hf), b, hb.mono hbegun hbooked, hbf⟩
  · obtain ⟨hs, g, hg, hr⟩ := h.told out ho ht
    exact ⟨hs, g, hgot hg, hr⟩

theorem Honest.complete (h : Honest codec l x) (hw : x.seq ≠ 0) {out : Except Fault Bytes}
    (ht : isTold out = true → ∃ f ∈ l.got, ∃ h, f.readHeader codec = .ok h ∧ h.seq = x.seq ∧
      out = h.outcome f.body) : Honest codec l { x with outcome := some out } := by
  refine ⟨fun body hb => absurd (h.waiting body hb).1 hw, fun hs => ?_, fun f hf => ?_, ?_⟩
  · obtain ⟨b, hb⟩ := h.numbered hs
    exact ⟨b, ⟨hb.mem, hb.id, hb.seq, hb.target, hb.asked⟩⟩
  · obtain ⟨hn, b, hb, hbf⟩ := h.sending f hf
    exact ⟨hn, b, ⟨hb.mem, hb.id, hb.seq, hb.target, hb.asked⟩, hbf⟩
  · intro out' ho hout
    obtain rfl := Option.some.inj ho
    exact ⟨hw, ht hout⟩

theorem Honest.leave (h : Honest codec l x) : Honest codec l { x with phase := .sent } := by
  refine ⟨nofun, fun hs => ?_, nofun, h.told⟩
  obtain ⟨b, hb⟩ := h.numbered hs
  exact ⟨b, ⟨hb.mem, hb.id, hb.seq, hb.target, hb.asked⟩⟩

theorem Honest.fail (hs : x.seq = 0) {why : Fault} (hw : isTold (.error why) = false) :
    Honest codec l { x with phase := .sent, outcome := some (.error why) } := by
  refine ⟨nofun, fun h => absurd hs h, nofun, fun out ho ht => ?_⟩
  obtain rfl := Option.some.inj ho
  rw [hw] at ht
  cases ht

theorem Honest.opening {id : Nat} {target : String} {args : Datum}
    (hl : l.begun.lookup id = some (target, args)) : Honest codec l (opening codec id target args) := by
  rw [Client.opening]
  cases he : codec.encode args with
  | error why => exact .fail (x := { id := id, target := target, phase := .sent }) rfl rfl
  | ok body =>
    refine ⟨fun body' hb => ?_, fun h => absurd rfl h, nofun, nofun⟩
    cases hb
    exact ⟨rfl, rfl, args, hl, he⟩

/-! ### All calls -/

/-- What holds of a client and its log at all times: the calls are honest, the
pending ones are calls under their numbers, and a call with a number and without an
outcome is pending. -/
structure Faithful (c : Client) (l : Log) : Prop where
  log : l.Sound c.options.codec
  next : c.nextSeq = .ofNat (l.booked.length + 1)
  ids : (c.calls.map (·.id)).Nodup
  calls : ∀ x ∈ c.calls, Honest c.options.codec l x
  pending : ∀ p ∈ c.pending, p.1 ≠ 0 ∧ ∃ x ∈ c.calls, x.id = p.2 ∧ x.seq = p.1
  awaited : ∀ x ∈ c.calls, x.seq ≠ 0 → x.outcome = none → (x.seq, x.id) ∈ c.pending

variable {c c' d : Client} {e : Event} {id : Nat} {g : Call → Call}

theorem mem_of_call? (hx : c.call? id = some x) : x ∈ c.calls ∧ x.id = id :=
  ⟨List.mem_of_find?_eq_some hx, by simpa using List.find?_some hx⟩

theorem call?_of_mem (hn : (c.calls.map (·.id)).Nodup) (hm : x ∈ c.calls) : c.call? x.id = some x := by
  cases hx : c.call? x.id with
  | none => exact absurd (beq_self_eq_true x.id) (List.find?_eq_none.mp hx x hm)
  | some y =>
    obtain ⟨hy, hid⟩ := mem_of_call? hx
    rw [List.inj_on_of_nodup_map hn hy hm hid]

theorem mem_update (hn : (c.calls.map (·.id)).Nodup) (hx : c.call? id = some x) :
    y ∈ (c.update id g).calls ↔ y = g x ∨ (y ∈ c.calls ∧ y.id ≠ id) := by
  obtain ⟨hm, hid⟩ := mem_of_call? hx
  simp only [update, List.mem_map]
  constructor
  · rintro ⟨z, hz, rfl⟩
    by_cases hzi : z.id = id
    · have hzx : z = x := List.inj_on_of_nodup_map hn hz hm (hzi.trans hid.symm)
      rw [if_pos hzi, hzx]
      exact .inl rfl
    · rw [if_neg hzi]
      exact .inr ⟨hz, hzi⟩
  · rintro (rfl | ⟨hy, hne⟩)
    · exact ⟨x, hm, if_pos hid⟩
    · exact ⟨y, hy, if_neg hne⟩

theorem update_update {f : Call → Call} (hf : ∀ x, (f x).id = x.id) :
    ((c.update id f).update id g).calls = (c.update id (g ∘ f)).calls := by
  simp only [update, List.map_map]
  refine List.map_congr_left fun x _ => ?_
  simp only [Function.comp_apply]
  by_cases hx : x.id = id
  · rw [if_pos hx, if_pos ((hf x).trans hx), if_pos hx]
  · rw [if_neg hx, if_neg hx, if_neg hx]

theorem ids_update (hg : ∀ x, (g x).id = x.id) :
    (c.update id g).calls.map (·.id) = c.calls.map (·.id) := by
  simp only [update, List.map_map]
  refine List.map_congr_left fun x _ => ?_
  simp only [Function.comp_apply]
  split
  · exact hg x
  · rfl

theorem Faithful.eq_of_seq (h : Faithful c l) (hlt : l.booked.length < 2 ^ 64) (hx : x ∈ c.calls)
    (hy : y ∈ c.calls) (hs : x.seq ≠ 0) (he : y.seq = x.seq) : x = y := by
  obtain ⟨b, hb⟩ := (h.calls x hx).numbered hs
  obtain ⟨b', hb'⟩ := (h.calls y hy).numbered (he ▸ hs)
  have hbb : b = b' := h.log.eq_of_seq hlt hb.mem hb'.mem (by rw [hb.seq, hb'.seq, he])
  exact List.inj_on_of_nodup_map h.ids hx hy (by rw [← hb.id, ← hb'.id, hbb])

/-- Only more of the answers is known. -/
theorem Faithful.hear (h : Faithful c l) (hbegun : l'.begun = l.begun) (hbooked : l'.booked = l.booked)
    (hsent : l'.sent = l.sent) (hgot : l.got ⊆ l'.got) : Faithful c l' := by
  refine ⟨⟨?_, ?_, ?_⟩, ?_, h.ids, fun x hx => ?_, h.pending, h.awaited⟩
  · rw [hbooked]
    exact h.log.numbers
  · rw [hbooked, hsent]
    exact h.log.sent
  · rw [hsent]
    exact h.log.once
  · rw [hbooked]
    exact h.next
  · have hxh := h.calls x hx
    refine hxh.mono (by rw [hbegun]) (by rw [hbooked]; exact List.Subset.refl _) hgot fun f hf => ?_
    rw [hsent]
    exact (hxh.sending _ hf).1 f rfl

/-- The client `d` with its log `l'` is `c`, but for one call that changes by `g`. The
other calls stay honest, and a call with a number and without an outcome is pending. -/
structure Change (c d : Client) (l' : Log) (id : Nat) (x : Call) (g : Call → Call) : Prop where
  ids : ∀ y, (g y).id = y.id
  calls : d.calls = (c.update id g).calls
  options : d.options = c.options
  log : l'.Sound c.options.codec
  next : d.nextSeq = .ofNat (l'.booked.length + 1)
  self : Honest c.options.codec l' (g x)
  others : ∀ y ∈ c.calls, y.id ≠ id → Honest c.options.codec l' y
  seq : x.seq ≠ 0 → (g x).seq = x.seq
  pending : ∀ p ∈ d.pending, p ∈ c.pending ∨ p = ((g x).seq, id) ∧ (g x).seq ≠ 0
  kept : ∀ y ∈ c.calls, y.id ≠ id → (y.seq, y.id) ∈ c.pending → (y.seq, y.id) ∈ d.pending
  awaited : (g x).seq ≠ 0 → (g x).outcome = none → ((g x).seq, id) ∈ d.pending

theorem Faithful.change (h : Faithful c l) (hx : c.call? id = some x) (hc : Change c d l' id x g) :
    Faithful d l' := by
  obtain ⟨hm, hid⟩ := mem_of_call? hx
  have hmem : ∀ y, y ∈ d.calls ↔ y = g x ∨ (y ∈ c.calls ∧ y.id ≠ id) := by
    intro y
    rw [hc.calls]
    exact mem_update h.ids hx
  have hgx : (g x).id = id := (hc.ids x).trans hid
  constructor
  case log =>
    rw [hc.options]
    exact hc.log
  case next => exact hc.next
  case ids =>
    rw [hc.calls, ids_update hc.ids]
    exact h.ids
  case calls =>
    rw [hc.options]
    intro y hy
    rcases (hmem y).mp hy with rfl | ⟨hy, hne⟩
    · exact hc.self
    · exact hc.others y hy hne
  case pending =>
    intro p hp
    rcases hc.pending p hp with hp | ⟨rfl, hs⟩
    · obtain ⟨hs, y, hy, hyi, hys⟩ := h.pending p hp
      refine ⟨hs, ?_⟩
      by_cases hyx : y.id = id
      · have hxy : y = x := List.inj_on_of_nodup_map h.ids hy hm (hyx.trans hid.symm)
        subst hxy
        have hne : y.seq ≠ 0 := hys ▸ hs
        exact ⟨g y, (hmem _).mpr (.inl rfl), (hc.ids y).trans hyi, (hc.seq hne).trans hys⟩
      · exact ⟨y, (hmem y).mpr (.inr ⟨hy, hyx⟩), hyi, hys⟩
    · exact ⟨hs, g x, (hmem _).mpr (.inl rfl), hgx, rfl⟩
  case awaited =>
    intro y hy hs ho
    rcases (hmem y).mp hy with rfl | ⟨hy, hne⟩
    · rw [hgx]
      exact hc.awaited hs ho
    · exact hc.kept y hy hne (h.awaited y hy hs ho)

/-! ### One event -/

theorem id_opening (codec : Codec) (id : Nat) (target : String) (args : Datum) :
    (opening codec id target args).id = id := by
  rw [opening]
  split <;> rfl

theorem seq_opening (codec : Codec) (id : Nat) (target : String) (args : Datum) :
    (opening codec id target args).seq = 0 := by
  rw [opening]
  split <;> rfl

/-- A call that is begun has a name of its own. -/
theorem nodup_ids_begin (h : (c.calls.map (·.id)).Nodup) (hn : c.call? id = none) (codec : Codec)
    (target : String) (args : Datum) :
    ((c.calls ++ [opening codec id target args]).map (·.id)).Nodup := by
  rw [List.map_append, List.map_singleton, id_opening, List.nodup_append]
  refine ⟨h, List.nodup_singleton id, fun a ha b hb => ?_⟩
  obtain ⟨x, hx, rfl⟩ := List.mem_map.mp ha
  rw [List.mem_singleton.mp hb]
  simpa using List.find?_eq_none.mp hn x hx

theorem Faithful.begin (h : Faithful c l) (hn : c.call? id = none) (target : String) (args : Datum) :
    Faithful { c with calls := c.calls ++ [Client.opening c.options.codec id target args] }
      { l with begun := (id, target, args) :: l.begun } := by
  have hfresh : ∀ x ∈ c.calls, x.id ≠ id := fun x hx => by
    simpa using List.find?_eq_none.mp hn x hx
  constructor
  case log => exact ⟨h.log.numbers, h.log.sent, h.log.once⟩
  case next => exact h.next
  case ids => exact nodup_ids_begin h.ids hn _ _ _
  case calls =>
    intro x hx
    rcases List.mem_append.mp hx with hx | hx
    · have hne : (x.id == id) = false := by simpa using hfresh x hx
      have hsending := fun f hf => ((h.calls x hx).sending (.ok f) hf).1 f rfl
      exact (h.calls x hx).mono (by simp [List.lookup_cons, hne]) (List.Subset.refl _)
        (List.Subset.refl _) hsending
    · rw [List.mem_singleton.mp hx]
      exact .opening (by simp)
  case pending =>
    intro p hp
    obtain ⟨hs, x, hx, hxp⟩ := h.pending p hp
    exact ⟨hs, x, List.mem_append_left _ hx, hxp⟩
  case awaited =>
    intro x hx hs ho
    rcases List.mem_append.mp hx with hx | hx
    · exact h.awaited x hx hs ho
    · rw [List.mem_singleton.mp hx] at hs
      exact absurd (seq_opening _ _ _ _) hs

theorem Faithful.abandon (h : Faithful c l) (hlt : l.booked.length < 2 ^ 64)
    (hx : c.call? id = some x) : Faithful (c.abandon x) l := by
  obtain ⟨hm, hid⟩ := mem_of_call? hx
  have hmem : ∀ y, y ∈ (c.abandon x).calls ↔ y ∈ c.calls ∧ y.id ≠ x.id := by
    intro y
    simp [Client.abandon]
  constructor
  case log => exact h.log
  case next => exact h.next
  case ids => exact h.ids.sublist (List.Sublist.map _ List.filter_sublist)
  case calls => exact fun y hy => h.calls y ((hmem y).mp hy).1
  case pending =>
    intro p hp
    simp only [Client.abandon, forget, List.mem_filter, bne_iff_ne] at hp
    obtain ⟨hs, y, hy, hyi, hys⟩ := h.pending p hp.1
    have hne : y.id ≠ x.id := by
      intro he
      apply hp.2
      rw [← hys, List.inj_on_of_nodup_map h.ids hy hm he]
    exact ⟨hs, y, (hmem y).mpr ⟨hy, hne⟩, hyi, hys⟩
  case awaited =>
    intro y hy hs ho
    obtain ⟨hy, hne⟩ := (hmem y).mp hy
    simp only [Client.abandon, forget, List.mem_filter, bne_iff_ne]
    refine ⟨h.awaited y hy hs ho, fun he => hne ?_⟩
    rw [h.eq_of_seq hlt hy hm hs he.symm]

/-- What becomes of the call whose turn it is: the client takes no more calls, or the call
gets the next number, and a frame if one can be built. -/
theorem enter_cases (c : Client) (id : Nat) (target : String) (body : Bytes) :
    ((c.outbox.released ∨ c.closing ∨ c.shutdown) ∧
      c.enter id target body =
        { c with
          calls := (c.update id fun x =>
            { x with phase := .sent, outcome := some (.error .shutdown) }).calls }) ∨
    (¬ (c.outbox.released ∨ c.closing ∨ c.shutdown) ∧
      c.enter id target body =
        { c with
          nextSeq := c.nextSeq + 1
          pending := c.pending ++ [(c.nextSeq, id)]
          calls := (c.update id fun x =>
            { x with
              seq := c.nextSeq
              phase := .sending (Frame.ofHeader c.options.codec ⟨target, c.nextSeq, ""⟩ body) }).calls }) := by
  rw [enter]
  split
  · rename_i hc
    refine .inl ⟨hc, ?_⟩
    have hu := @update_update c id (fun x => { x with phase := .sent })
      (fun x => { x with outcome := some (.error .shutdown) }) fun _ => rfl
    rw [complete, Client.mk.injEq]
    exact ⟨rfl, rfl, hu, rfl, rfl, rfl, rfl, rfl, rfl, rfl, rfl⟩
  · rename_i hc
    exact .inr ⟨hc, rfl⟩

theorem Faithful.turnAway {body : Bytes} (h : Faithful c l) (hx : c.call? id = some x)
    (hp : x.phase = .waiting body) :
    Faithful { c with
      calls := (c.update id fun y =>
        { y with phase := .sent, outcome := some (.error .shutdown) }).calls } l := by
  obtain ⟨hm, -⟩ := mem_of_call? hx
  obtain ⟨hseq, -, -⟩ := (h.calls x hm).waiting body hp
  refine h.change hx (g := fun y => { y with phase := .sent, outcome := some (.error .shutdown) }) ?_
  exact {
    ids := fun _ => rfl
    calls := rfl
    options := rfl
    log := h.log
    next := h.next
    self := .fail hseq rfl
    others := fun y hy _ => h.calls y hy
    seq := fun _ => rfl
    pending := fun p hp => .inl hp
    kept := fun y _ _ hy => hy
    awaited := nofun }

theorem Faithful.next_succ (h : Faithful c l) :
    c.nextSeq + 1 = .ofNat (l.booked.length + 1 + 1) := by
  rw [h.next, ← UInt64.ofNat_one, ← UInt64.ofNat_add]

theorem Faithful.next_ne_zero (h : Faithful c l) (hlt : l.booked.length + 1 < 2 ^ 64) :
    c.nextSeq ≠ 0 := by
  have hm : c.nextSeq ∈ numbers (l.booked.length + 1) := h.next ▸ List.mem_cons_self
  exact ne_zero_of_mem_numbers hlt hm

theorem Faithful.ne_next (h : Faithful c l) (hlt : l.booked.length + 1 < 2 ^ 64) (hb : b ∈ l.booked) :
    b.seq ≠ c.nextSeq := by
  rw [h.next]
  exact h.log.fresh hlt hb

theorem Faithful.honest_book (h : Faithful c l) (b : Booking) (hy : y ∈ c.calls) :
    Honest c.options.codec { l with booked := b :: l.booked } y := by
  have hsending := fun f hf => ((h.calls y hy).sending (.ok f) hf).1 f rfl
  exact (h.calls y hy).mono rfl (List.subset_cons_self _ _) (List.Subset.refl _) hsending

/-- The call gets the next number, and a frame if one can be built. -/
theorem Faithful.book {body : Bytes} (h : Faithful c l) (hx : c.call? id = some x)
    (hp : x.phase = .waiting body) (hlt : l.booked.length + 1 < 2 ^ 64)
    {frame : Except Fault Frame}
    (hf : Frame.ofHeader c.options.codec ⟨x.target, c.nextSeq, ""⟩ body = frame) :
    Faithful { c with
      nextSeq := c.nextSeq + 1
      pending := c.pending ++ [(c.nextSeq, id)]
      calls := (c.update id fun y => { y with seq := c.nextSeq, phase := .sending frame }).calls }
      { l with booked := ⟨id, c.nextSeq, x.target, body⟩ :: l.booked } := by
  obtain ⟨hm, hid⟩ := mem_of_call? hx
  obtain ⟨hseq, hout, hasked⟩ := (h.calls x hm).waiting body hp
  let b : Booking := ⟨id, c.nextSeq, x.target, body⟩
  let l' : Log := { l with booked := b :: l.booked }
  have hlog : l'.Sound c.options.codec := h.log.book h.next
  have hb : Backs c.options.codec l' b { x with seq := c.nextSeq, phase := .sending frame } :=
    ⟨List.mem_cons_self, hid.symm, rfl, rfl, hasked⟩
  have hnew : ∀ f, frame = .ok f → f ∉ l.sent := by
    rintro f rfl hs
    obtain ⟨b', hb', hf'⟩ := h.log.sent f hs
    have hbb : b' = b := hlog.eq_of_frame? hlt (List.mem_cons_of_mem _ hb') List.mem_cons_self hf' hf
    exact h.ne_next hlt hb' (by rw [hbb])
  refine h.change hx (g := fun y => { y with seq := c.nextSeq, phase := .sending frame }) ?_
  exact {
    ids := fun _ => rfl
    calls := rfl
    options := rfl
    log := hlog
    next := h.next_succ
    self := by
      refine ⟨nofun, fun _ => ⟨b, hb⟩, fun g hg => ?_, fun out ho => ?_⟩
      · cases hg
        exact ⟨hnew, b, hb, hf⟩
      · exact absurd (hout.symm.trans ho) nofun
    others := fun y hy _ => h.honest_book _ hy
    seq := fun hs => absurd hseq hs
    pending := fun p hp => by
      rcases List.mem_append.mp hp with hp | hp
      · exact .inl hp
      · exact .inr ⟨List.mem_singleton.mp hp, h.next_ne_zero hlt⟩
    kept := fun y _ _ hy => List.mem_append_left _ hy
    awaited := fun _ _ => List.mem_append_right _ List.mem_cons_self }

theorem Faithful.register {body : Bytes} (h : Faithful c l) (hx : c.call? id = some x)
    (hp : x.phase = .waiting body) (hlt : (l.note c (.register id)).booked.length < 2 ^ 64) :
    Faithful (c.enter id x.target body) (l.note c (.register id)) := by
  rw [Log.note_register hx hp] at hlt ⊢
  rcases enter_cases c id x.target body with ⟨hc, he⟩ | ⟨hc, he⟩
  · rw [he, if_pos hc]
    exact h.turnAway hx hp
  · rw [if_neg hc] at hlt ⊢
    rw [he]
    exact h.book hx hp hlt rfl

theorem Faithful.post {o : Outbox} (h : Faithful c l) (hlt : l.booked.length < 2 ^ 64)
    (hx : c.call? id = some x) (hp : x.phase = .sending (.ok f)) :
    Faithful { c.update id (fun y => { y with phase := .sent }) with outbox := o }
      { l with sent := l.sent ++ [f] } := by
  obtain ⟨hm, hid⟩ := mem_of_call? hx
  obtain ⟨hnew, b, hb, hbf⟩ := (h.calls x hm).sending (.ok f) hp
  have hlog : { l with sent := l.sent ++ [f] }.Sound c.options.codec := by
    refine ⟨h.log.numbers, fun g hg => ?_, ?_⟩
    · rcases List.mem_append.mp hg with hg | hg
      · exact h.log.sent g hg
      · rw [List.mem_singleton.mp hg]
        exact ⟨b, hb.mem, hbf⟩
    · rw [List.nodup_append]
      refine ⟨h.log.once, by simp, ?_⟩
      rintro g hg g' hg' rfl
      exact hnew f rfl (List.mem_singleton.mp hg' ▸ hg)
  have hothers : ∀ y ∈ c.calls, y.id ≠ id →
      Honest c.options.codec { l with sent := l.sent ++ [f] } y := by
    intro y hy hne
    refine (h.calls y hy).mono rfl (List.Subset.refl _) (List.Subset.refl _) fun g hg hs => ?_
    obtain ⟨hnot, b', hb', hbf'⟩ := (h.calls y hy).sending (.ok g) hg
    rcases List.mem_append.mp hs with hs | hs
    · exact hnot g rfl hs
    · rw [List.mem_singleton.mp hs] at hbf'
      have hbb : b = b' := h.log.eq_of_frame? hlt hb.mem hb'.mem hbf hbf'
      exact hne (by rw [← hb'.id, ← hbb, hb.id, hid])
  refine h.change hx (g := fun y => { y with phase := .sent }) ?_
  exact {
    ids := fun _ => rfl
    calls := rfl
    options := rfl
    log := hlog
    next := h.next
    self := (h.calls x hm).leave.mono rfl (List.Subset.refl _) (List.Subset.refl _) nofun
    others := hothers
    seq := fun _ => rfl
    pending := fun p hp => .inl hp
    kept := fun y _ _ hy => hy
    awaited := fun hs ho => hid ▸ h.awaited x hm hs ho }

theorem Faithful.forget (h : Faithful c l) (hlt : l.booked.length < 2 ^ 64) (hm : x ∈ c.calls) :
    ∀ y ∈ c.calls, y.id ≠ x.id → (y.seq, y.id) ∈ c.pending →
      (y.seq, y.id) ∈ c.pending.filter (·.1 != x.seq) := by
  intro y hy hne hp
  refine List.mem_filter.mpr ⟨hp, bne_iff_ne.mpr fun hs => hne ?_⟩
  rw [h.eq_of_seq hlt hy hm (h.pending _ hp).1 hs.symm]

theorem Withheld.not_told {frame : Except Fault Frame} {why : Fault} (hw : c.Withheld frame why)
    (hb : b.frame? codec = frame) : isTold (.error why) = false := by
  obtain rfl | ⟨f, rfl, -, rfl⟩ := hw
  · obtain ⟨why', rfl⟩ := Frame.framing_of_ofHeader hb
    rfl
  · rfl

theorem Faithful.withdraw {frame : Except Fault Frame} {why : Fault} (h : Faithful c l)
    (hlt : l.booked.length < 2 ^ 64) (hx : c.call? id = some x) (hp : x.phase = .sending frame)
    (hw : c.Withheld frame why) : Faithful (c.withdraw id x.seq why) l := by
  obtain ⟨hm, hid⟩ := mem_of_call? hx
  obtain ⟨-, b, hb, hbf⟩ := (h.calls x hm).sending frame hp
  have hne : x.seq ≠ 0 := hb.seq ▸ h.log.ne_zero hlt hb.mem
  have hleave := (h.calls x hm).leave
  have htold : isTold (.error why) = false := hw.not_told hbf
  rw [Client.withdraw]
  split
  · refine h.change hx (g := fun y => { y with phase := .sent, outcome := some (.error why) }) ?_
    exact {
      ids := fun _ => rfl
      calls := update_update fun _ => rfl
      options := rfl
      log := h.log
      next := h.next
      self := hleave.complete hne fun ht => absurd (htold.symm.trans ht) nofun
      others := fun y hy _ => h.calls y hy
      seq := fun _ => rfl
      pending := fun p hp => .inl (List.mem_filter.mp hp).1
      kept := fun y hy hn hp => h.forget hlt hm y hy (by rwa [hid]) hp
      awaited := nofun }
  · refine h.change hx (g := fun y => { y with phase := .sent }) ?_
    exact {
      ids := fun _ => rfl
      calls := rfl
      options := rfl
      log := h.log
      next := h.next
      self := hleave
      others := fun y hy _ => h.calls y hy
      seq := fun _ => rfl
      pending := fun p hp => .inl hp
      kept := fun y _ _ hp => hp
      awaited := fun hs ho => hid ▸ h.awaited x hm hs ho }

/-- An answer completes the call of its number and no other. -/
theorem Faithful.deliver (h : Faithful c l) (hlt : l.booked.length < 2 ^ 64) (hf : f ∈ l.got) {hd : Header}
    (hh : f.readHeader c.options.codec = .ok hd) : Faithful (c.deliver hd f.body) l := by
  rw [Client.deliver]
  split
  · exact h
  · rename_i id hl
    obtain ⟨p, q, hpq, -⟩ := List.lookup_eq_some_iff.mp hl
    obtain ⟨hne, x, hm, rfl, hseq⟩ : hd.seq ≠ 0 ∧ ∃ x ∈ c.calls, x.id = id ∧ x.seq = hd.seq :=
      h.pending (hd.seq, id) (by simp [hpq])
    rw [← hseq]
    refine h.change (call?_of_mem h.ids hm) (g := fun y => { y with outcome := some (hd.outcome f.body) }) ?_
    exact {
      ids := fun _ => rfl
      calls := rfl
      options := rfl
      log := h.log
      next := h.next
      self := (h.calls x hm).complete (hseq ▸ hne) fun _ => ⟨f, hf, hd, hh, hseq.symm, rfl⟩
      others := fun y hy _ => h.calls y hy
      seq := fun _ => rfl
      pending := fun p hp => .inl (List.mem_filter.mp hp).1
      kept := h.forget hlt hm
      awaited := nofun }

theorem Faithful.terminate (h : Faithful c l) : Faithful c.terminate l := by
  have hcall : ∀ x ∈ c.calls, (c.pending.map (·.2)).contains x.id → x.seq ≠ 0 := by
    intro x hx hc
    obtain ⟨p, hp, hpx⟩ := List.mem_map.mp (List.contains_iff_mem.mp hc)
    obtain ⟨hs, y, hy, hyi, hys⟩ := h.pending p hp
    have hyx : y = x := List.inj_on_of_nodup_map h.ids hy hx (hyi.trans hpx)
    exact hyx ▸ hys ▸ hs
  refine ⟨h.log, h.next, ?_, ?_, nofun, ?_⟩
  · rw [Client.terminate, List.map_map]
    have hids : c.calls.map ((·.id) ∘ fun x => if (c.pending.map (·.2)).contains x.id then
        { x with outcome := some (.error .shutdown) } else x) = c.calls.map (·.id) := by
      refine List.map_congr_left fun x _ => ?_
      simp only [Function.comp_apply]
      split <;> rfl
    rw [hids]
    exact h.ids
  · intro y hy
    obtain ⟨x, hx, rfl⟩ := List.mem_map.mp hy
    split
    · rename_i hc
      exact (h.calls x hx).complete (hcall x hx hc) nofun
    · exact h.calls x hx
  · intro y hy hs ho
    obtain ⟨x, hx, rfl⟩ := List.mem_map.mp hy
    by_cases hc : (c.pending.map (·.2)).contains x.id
    · rw [if_pos hc] at ho
      cases ho
    · rw [if_neg hc] at hs ho
      exact absurd (List.contains_iff_mem.mpr (List.mem_map.mpr ⟨_, h.awaited x hx hs ho, rfl⟩)) hc

theorem length_booked_note (c : Client) (e : Event) (l : Log) :
    l.booked.length ≤ (l.note c e).booked.length := by
  cases e with
  | register id =>
    rw [Log.note]
    split
    · split
      · exact Nat.le_refl _
      · exact Nat.le_succ _
    · exact Nat.le_refl _
  | post id =>
    rw [Log.note]
    split
    · split <;> exact Nat.le_refl _
    · exact Nat.le_refl _
  | read =>
    rw [Log.note]
    split <;> exact Nat.le_refl _
  | _ => exact Nat.le_refl _

/-- **What holds of a client holds after every event.** -/
theorem Faithful.step (hs : Step c e c') (h : Faithful c l)
    (hlt : (l.note c e).booked.length < 2 ^ 64) : Faithful c' (l.note c e) := by
  have hlt' : l.booked.length < 2 ^ 64 := Nat.lt_of_le_of_lt (length_booked_note c e l) hlt
  have hread : Faithful c (l.note c .read) := by
    rw [Log.note]
    split
    · exact h.hear rfl rfl rfl (List.subset_append_left _ _)
    · exact h
  cases hs with
  | begin hn => exact h.begin hn _ _
  | abandon hx => exact h.abandon hlt' hx
  | close | hangUp | lose | release _ _ _ | write _ => exact { h with }
  | @receive bs he =>
    have hh : Faithful c (l.note c (.receive bs)) := h.hear rfl rfl rfl (List.Subset.refl _)
    exact { hh with }
  | register hx hp _ => exact h.register hx hp hlt
  | post hx hp ho =>
    rw [Log.note_post hx hp, ho]
    exact h.post hlt' hx hp
  | unsent hx hp hw =>
    rw [Log.note_withheld hx hp hw]
    exact h.withdraw hlt' hx hp hw
  | @deliver f b hd hr hn hh =>
    have hf : f ∈ (l.note c .read).got := by simp [Log.note, hn]
    have hb : Faithful { c with buffer := b } (l.note c .read) := { hread with }
    exact hb.deliver hlt hf hh
  | endReading _ _ =>
    have ht := Faithful.terminate hread
    exact { ht with }
  | stop _ _ | watch _ =>
    have ht := h.terminate
    exact { ht with }

end Client
end Callwire
