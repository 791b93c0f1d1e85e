/-
# The table of pending calls

A number stands in the table for a call that had its turn and has no outcome yet.
So whatever takes a number out of the table and completes its call completes a call
that had no outcome, and a call that has one keeps it until its caller gives it up.
A client that was shut down has an empty table. None of this depends on how many
calls there were.

Key definitions: `Client.Ordered`, `Client.Turn`, `Client.run`.
Key theorems: `Client.Ordered.step`, `Client.Step.turn`, `Client.Ordered.settled`,
`Client.Step.origin`, `Client.ordered_run`.
-/
import Callwire.Proofs.Client.Calls

namespace Callwire
namespace Client

variable {c c' d : Client} {e : Event} {id : Nat} {x y : Call} {g : Call → Call}

/-! ### Calls by name -/

theorem call?_map {f : Call → Call} (hf : ∀ y, (f y).id = y.id) (hd : d.calls = c.calls.map f) (id : Nat) :
    d.call? id = (c.call? id).map f := by
  rw [call?, call?, hd, List.find?_map]
  have hp : (fun y : Call => y.id == id) ∘ f = fun y => y.id == id := by
    funext y
    simp only [Function.comp_apply, hf]
  rw [hp]

theorem call?_update (hg : ∀ y, (g y).id = y.id) (hd : d.calls = (c.update id g).calls)
    (hx : c.call? id = some x) : d.call? id = some (g x) := by
  have hf : ∀ y : Call, (if y.id = id then g y else y).id = y.id := by
    intro y
    split
    · exact hg y
    · rfl
  rw [call?_map hf hd, hx, Option.map_some, if_pos (mem_of_call? hx).2]

theorem call?_update_ne (hg : ∀ y, (g y).id = y.id) (hd : d.calls = (c.update id g).calls) {i : Nat}
    (hi : i ≠ id) : d.call? i = c.call? i := by
  have hf : ∀ y : Call, (if y.id = id then g y else y).id = y.id := by
    intro y
    split
    · exact hg y
    · rfl
  rw [call?_map hf hd]
  cases hx : c.call? i with
  | none => rfl
  | some x => rw [Option.map_some, if_neg (by rw [(mem_of_call? hx).2]; exact hi)]

/-- What a client that is shut down makes of its calls. -/
def terminated (c : Client) (x : Call) : Call :=
  if (c.pending.map (·.2)).contains x.id then { x with outcome := some (.error .shutdown) } else x

theorem calls_terminate : c.terminate.calls = c.calls.map c.terminated := rfl

theorem id_terminated (x : Call) : (c.terminated x).id = x.id := by
  rw [terminated]
  split <;> rfl

theorem phase_terminated (x : Call) : (c.terminated x).phase = x.phase := by
  rw [terminated]
  split <;> rfl

/-! ### The table -/

/-- Calls have different names; one that waits for its turn has no number and no
outcome; a call that has its turn and no frame is too large for one; every number in the
table is that of a call that had its turn and has no outcome; and a client that was shut
down has no pending call. -/
structure Ordered (c : Client) : Prop where
  ids : (c.calls.map (·.id)).Nodup
  waiting : ∀ x ∈ c.calls, ∀ body, x.phase = .waiting body → x.seq = 0 ∧ x.outcome = none
  unframed : ∀ x ∈ c.calls, ∀ why, x.phase = .sending (.error why) → ∃ e, why = .framing e
  pending : ∀ p ∈ c.pending, ∃ x ∈ c.calls, x.id = p.2 ∧ x.seq = p.1 ∧ x.outcome = none ∧
    ∀ body, x.phase ≠ .waiting body
  shut : c.shutdown = true → c.pending = []

theorem Ordered.owner (h : Ordered c) {p : UInt64 × Nat} (hp : p ∈ c.pending) (hx : c.call? p.2 = some x) :
    x.seq = p.1 ∧ x.outcome = none ∧ ∀ body, x.phase ≠ .waiting body := by
  obtain ⟨y, hy, hid, hseq, ho, hw⟩ := h.pending p hp
  rw [← hid, call?_of_mem h.ids hy] at hx
  cases hx
  exact ⟨hseq, ho, hw⟩

theorem Ordered.not_pending (h : Ordered c) (hx : c.call? id = some x) {body : Bytes}
    (hp : x.phase = .waiting body) : ∀ p ∈ c.pending, p.2 ≠ id := by
  rintro p hp' rfl
  exact (h.owner hp' hx).2.2 body hp

theorem Ordered.call?_lookup (h : Ordered c) {s : UInt64} (hl : c.pending.lookup s = some id) :
    (s, id) ∈ c.pending ∧ ∃ x, c.call? id = some x := by
  obtain ⟨p, q, hpq, -⟩ := List.lookup_eq_some_iff.mp hl
  have hm : (s, id) ∈ c.pending := by simp [hpq]
  obtain ⟨x, hx, rfl, -⟩ : ∃ x ∈ c.calls, x.id = id ∧ _ := h.pending _ hm
  exact ⟨hm, x, call?_of_mem h.ids hx⟩

/-- One call that had its turn changes, and nobody enters the table but it. -/
theorem Ordered.update (h : Ordered c) (hx : c.call? id = some x) (hg : ∀ y, (g y).id = y.id)
    (hd : d.calls = (c.update id g).calls) (hw : ∀ body, (g x).phase ≠ .waiting body)
    (hf : ∀ why, (g x).phase = .sending (.error why) → ∃ e, why = .framing e)
    (hp : ∀ p ∈ d.pending, (p ∈ c.pending ∧ p.2 ≠ id) ∨ (p = ((g x).seq, id) ∧ (g x).outcome = none))
    (hs : d.shutdown = true → d.pending = []) : Ordered d := by
  have hmem : ∀ y, y ∈ d.calls ↔ y = g x ∨ (y ∈ c.calls ∧ y.id ≠ id) := by
    intro y
    rw [hd]
    exact mem_update h.ids hx
  have hid : (g x).id = id := (hg x).trans (mem_of_call? hx).2
  refine ⟨?_, ?_, ?_, ?_, hs⟩
  · rw [hd, ids_update hg]
    exact h.ids
  · intro y hy body hb
    rcases (hmem y).mp hy with rfl | ⟨hy, -⟩
    · exact absurd hb (hw body)
    · exact h.waiting y hy body hb
  · intro y hy why hb
    rcases (hmem y).mp hy with rfl | ⟨hy, -⟩
    · exact hf why hb
    · exact h.unframed y hy why hb
  · intro p hpd
    rcases hp p hpd with ⟨hpc, hne⟩ | ⟨rfl, ho⟩
    · obtain ⟨y, hy, hyi, hy'⟩ := h.pending p hpc
      exact ⟨y, (hmem y).mpr (.inr ⟨hy, hyi ▸ hne⟩), hyi, hy'⟩
    · exact ⟨g x, (hmem _).mpr (.inl rfl), hid, rfl, ho, hw⟩

theorem ordered_start (o : Options) : Ordered (start o) where
  ids := List.nodup_nil
  waiting _ hx := nomatch hx
  unframed _ hx := nomatch hx
  pending := nofun
  shut := nofun

theorem Ordered.begin (h : Ordered c) (hn : c.call? id = none) (target : String) (args : Datum) :
    Ordered { c with calls := c.calls ++ [opening c.options.codec id target args] } := by
  refine ⟨nodup_ids_begin h.ids hn _ _ _, fun x hx body hb => ?_, fun x hx why hb => ?_,
    fun p hp => ?_, h.shut⟩
  · rcases List.mem_append.mp hx with hx | hx
    · exact h.waiting x hx body hb
    · rw [List.mem_singleton.mp hx] at hb ⊢
      rw [opening] at hb ⊢
      split
      · exact ⟨rfl, rfl⟩
      · rename_i hw
        simp [hw] at hb
  · rcases List.mem_append.mp hx with hx | hx
    · exact h.unframed x hx why hb
    · rw [List.mem_singleton.mp hx, opening] at hb
      split at hb <;> cases hb
  · obtain ⟨x, hx, hx'⟩ := h.pending p hp
    exact ⟨x, List.mem_append_left _ hx, hx'⟩

theorem Ordered.abandon (h : Ordered c) (hx : c.call? id = some x) : Ordered (c.abandon x) := by
  obtain ⟨hm, -⟩ := mem_of_call? hx
  refine ⟨h.ids.sublist (List.Sublist.map _ List.filter_sublist),
    fun y hy => h.waiting y (List.mem_filter.mp hy).1, fun y hy => h.unframed y (List.mem_filter.mp hy).1,
    fun p hp => ?_, fun hs => ?_⟩
  · obtain ⟨hp, hne⟩ := List.mem_filter.mp hp
    obtain ⟨y, hy, hyi, hys, hy'⟩ := h.pending p hp
    refine ⟨y, List.mem_filter.mpr ⟨hy, ?_⟩, hyi, hys, hy'⟩
    refine bne_iff_ne.mpr fun he => bne_iff_ne.mp hne ?_
    rw [← hys, List.inj_on_of_nodup_map h.ids hy hm he]
  · simp [Client.abandon, forget, h.shut hs]

theorem Ordered.register {body : Bytes} (h : Ordered c) (hx : c.call? id = some x)
    (hw : x.phase = .waiting body) : Ordered (c.enter id x.target body) := by
  obtain ⟨-, hout⟩ := h.waiting x (mem_of_call? hx).1 body hw
  have hne := h.not_pending hx hw
  rcases enter_cases c id x.target body with ⟨hc, he⟩ | ⟨hc, he⟩
  · rw [he]
    exact h.update hx (g := fun y => { y with phase := .sent, outcome := some (.error .shutdown) })
      (fun _ => rfl) rfl nofun nofun (fun p hp => .inl ⟨hp, hne p hp⟩) h.shut
  · rw [he]
    refine h.update hx (g := fun y => { y with seq := c.nextSeq, phase := .sending _ })
      (fun _ => rfl) rfl nofun (fun _ hf => Frame.framing_of_ofHeader (Call.Phase.sending.inj hf))
      (fun p hp => ?_) fun hs => absurd (.inr (.inr hs)) hc
    rcases List.mem_append.mp hp with hp | hp
    · exact .inl ⟨hp, hne p hp⟩
    · exact .inr ⟨List.mem_singleton.mp hp, hout⟩

theorem Ordered.sent (h : Ordered c) (hx : c.call? id = some x) :
    Ordered (c.update id fun y => { y with phase := .sent }) := by
  refine h.update hx (g := fun y => { y with phase := .sent }) (fun _ => rfl) rfl nofun nofun
    (fun p hpc => ?_) h.shut
  by_cases hid : p.2 = id
  · obtain ⟨hs, ho, -⟩ := h.owner hpc (hid ▸ hx)
    exact .inr ⟨by rw [hs, ← hid], ho⟩
  · exact .inl ⟨hpc, hid⟩

theorem Ordered.complete (h : Ordered c) (hx : c.call? id = some x) (hw : ∀ body, x.phase ≠ .waiting body)
    (out : Except Fault Bytes) : Ordered ((c.forget x.seq).complete id out) := by
  refine h.update hx (g := fun y => { y with outcome := some out }) (fun _ => rfl) rfl hw
    (h.unframed x (mem_of_call? hx).1) (fun p hp => ?_) fun hs => ?_
  · obtain ⟨hpc, hne⟩ := List.mem_filter.mp hp
    refine .inl ⟨hpc, ?_⟩
    rintro rfl
    exact bne_iff_ne.mp hne (h.owner hpc hx).1.symm
  · exact List.filter_eq_nil_iff.mpr fun p hp => by simp [h.shut hs] at hp

theorem Ordered.deliver (h : Ordered c) (hd : Header) (body : Bytes) : Ordered (c.deliver hd body) := by
  rw [Client.deliver]
  split
  · exact h
  · rename_i id hl
    obtain ⟨hp, x, hx⟩ := h.call?_lookup hl
    obtain ⟨hs, -, hw⟩ : x.seq = hd.seq ∧ _ := h.owner hp hx
    exact hs ▸ h.complete hx hw _

theorem Ordered.terminate (h : Ordered c) : Ordered c.terminate := by
  refine ⟨?_, fun y hy body hb => ?_, fun y hy why hb => ?_, nofun, fun _ => rfl⟩
  · have hids : (·.id) ∘ c.terminated = (·.id) := funext id_terminated
    rw [calls_terminate, List.map_map, hids]
    exact h.ids
  · obtain ⟨x, hx, rfl⟩ := List.mem_map.mp hy
    change (c.terminated x).phase = .waiting body at hb
    change (c.terminated x).seq = 0 ∧ (c.terminated x).outcome = none
    rw [terminated] at hb ⊢
    split
    · rename_i hc
      rw [if_pos hc] at hb
      obtain ⟨p, hp, hpx⟩ := List.mem_map.mp (List.contains_iff_mem.mp hc)
      exact absurd hpx (h.not_pending (call?_of_mem h.ids hx) hb p hp)
    · rename_i hc
      rw [if_neg hc] at hb
      exact h.waiting x hx body hb
  · obtain ⟨x, hx, rfl⟩ := List.mem_map.mp hy
    change (c.terminated x).phase = .sending (.error why) at hb
    rw [phase_terminated] at hb
    exact h.unframed x hx why hb

/-- **The table is in order after every event.** -/
theorem Ordered.step (hs : Step c e c') (h : Ordered c) : Ordered c' := by
  cases hs with
  | begin hn => exact h.begin hn _ _
  | abandon hx => exact h.abandon hx
  | close | receive _ | hangUp | lose | release _ _ _ | write _ => exact { h with }
  | register hx hp _ => exact h.register hx hp
  | post hx _ _ => exact { h.sent hx with }
  | @unsent id x _ why hx _ _ =>
    have hsent := h.sent hx
    rw [withdraw]
    -- the call may have been completed since it got its number
    split
    · have hx' : (c.update id fun y => { y with phase := .sent }).call? id =
          some { x with phase := .sent } :=
        call?_update (g := fun y => { y with phase := .sent }) (fun _ => rfl) rfl hx
      exact hsent.complete hx' (fun _ hp => by cases hp) _
    · exact hsent
  | @deliver f b hd _ _ _ =>
    have hb : Ordered { c with buffer := b } := { h with }
    exact hb.deliver hd f.body
  | @endReading b _ _ =>
    have hb : Ordered { c with buffer := b } := { h with }
    exact { hb.terminate with }
  | stop _ _ => exact { h.terminate with }
  | watch _ => exact h.terminate

/-! ### One call -/

/-- The entry that an event makes in the table: a call gets the next number. -/
def entering (c : Client) (e : Event) : List (UInt64 × Nat) :=
  (({} : Log).note c e).booked.map fun b => (b.seq, b.id)

/-- The frame that an event takes from the stream. -/
def taking (c : Client) (e : Event) : List Frame := (({} : Log).note c e).got

theorem entering_register {body : Bytes} (hx : c.call? id = some x) (hp : x.phase = .waiting body) :
    c.entering (.register id) =
      if c.outbox.released ∨ c.closing ∨ c.shutdown then [] else [(c.nextSeq, id)] := by
  rw [entering, Log.note_register hx hp]
  split <;> rfl

theorem taking_read {f : Frame} {b : Frame.Buffer} (hn : c.buffer.next = (.ok (some f), b)) :
    c.taking .read = [f] := by
  simp only [taking, Log.note, hn, List.nil_append]

/-- What a call is that was turned away. -/
def turnedAway (x : Call) : Call := { x with phase := .sent, outcome := some (.error .shutdown) }

/-- What an event makes of a call: nothing; its frame is handed over, or cannot be; when
it has its turn, it is turned away or gets a number; or it was pending and gets an outcome,
which is the peer's word only if a frame says so that has its number. -/
inductive Turn (c : Client) (e : Event) (x : Call) : Call → Prop where
  | stay : Turn c e x x
  | sent {frame : Except Fault Frame} (hp : x.phase = .sending frame) :
      Turn c e x { x with phase := .sent }
  | away {body : Bytes} (hp : x.phase = .waiting body) : Turn c e x (turnedAway x)
  | book {body : Bytes} {frame : Except Fault Frame} (hp : x.phase = .waiting body)
      (he : c.entering e = [(c.nextSeq, x.id)]) :
      Turn c e x { x with seq := c.nextSeq, phase := .sending frame }
  | settle {ph : Call.Phase} {out : Except Fault Bytes} (hm : (x.seq, x.id) ∈ c.pending)
      (hp : ph = x.phase ∨ ph = .sent)
      (ht : isTold out = true → ∃ f h, c.taking e = [f] ∧ f.readHeader c.options.codec = .ok h ∧
        h.seq = x.seq ∧ out = h.outcome f.body) :
      Turn c e x { x with phase := ph, outcome := some out }

theorem Turn.register {body : Bytes} (hx : c.call? id = some x) (hp : x.phase = .waiting body) :
    ∃ y, (c.enter id x.target body).call? id = some y ∧ Turn c (.register id) x y := by
  have hid := (mem_of_call? hx).2
  rcases enter_cases c id x.target body with ⟨-, hc⟩ | ⟨hn, hc⟩
  · exact ⟨_, call?_update (g := turnedAway) (fun _ => rfl) (hc ▸ rfl) hx, .away hp⟩
  · have he : c.entering (.register id) = [(c.nextSeq, x.id)] := by
      rw [entering_register hx hp, if_neg hn, hid]
    rw [hc]
    exact ⟨_, call?_update (g := fun y => { y with seq := c.nextSeq, phase := .sending _ })
      (fun _ => rfl) rfl hx, .book hp he⟩

theorem call?_enter_ne {target : String} {body : Bytes} {i : Nat} (hi : i ≠ id) :
    (c.enter id target body).call? i = c.call? i := by
  rcases enter_cases c id target body with ⟨-, hc⟩ | ⟨-, hc⟩
  all_goals
    rw [hc]
    exact call?_update_ne (fun _ => by rfl) rfl hi

theorem call?_sent_ne {i : Nat} (hi : i ≠ id) :
    (c.update id fun y => { y with phase := .sent }).call? i = c.call? i :=
  call?_update_ne (g := fun y => { y with phase := .sent }) (fun _ => rfl) rfl hi

theorem call?_withdraw_ne {i : Nat} (hi : i ≠ id) (s : UInt64) (why : Fault) :
    (c.withdraw id s why).call? i = c.call? i := by
  rw [withdraw]
  split
  · exact (call?_update_ne (g := fun y => { y with outcome := some (.error why) })
      (fun _ => rfl) rfl hi).trans (call?_sent_ne hi)
  · exact call?_sent_ne hi

/-- An answer completes the call that the table names, and the others stay. -/
theorem call?_deliver_ne {h : Header} {i : Nat} (hi : ∀ j, c.pending.lookup h.seq = some j → i ≠ j)
    (body : Bytes) : (c.deliver h body).call? i = c.call? i := by
  rw [Client.deliver]
  split
  · rfl
  · rename_i j hl
    exact call?_update_ne (g := fun y => { y with outcome := some (h.outcome body) })
      (fun _ => rfl) rfl (hi j hl)

/-- Nothing is sent of the call. It fails if it is pending. -/
theorem Ordered.turn_withdraw {frame : Except Fault Frame} {why : Fault} (h : Ordered c)
    (hx : c.call? id = some x) (hp : x.phase = .sending frame) (hw : c.Withheld frame why)
    (hown : ∀ i, c.pending.lookup x.seq = some i → i = id) :
    ∃ y, (c.withdraw id x.seq why).call? id = some y ∧ Turn c (.post id) x y := by
  obtain ⟨hxm, hid⟩ := mem_of_call? hx
  have hsent : (c.update id fun y => { y with phase := .sent }).call? id =
      some { x with phase := .sent } :=
    call?_update (g := fun y => { y with phase := .sent }) (fun _ => rfl) rfl hx
  have htold : isTold (.error why) = false := by
    obtain rfl | ⟨f, -, -, rfl⟩ := hw
    · obtain ⟨e, rfl⟩ := h.unframed x hxm why hp
      rfl
    · rfl
  rw [withdraw]
  split
  · rename_i hl
    obtain ⟨i, hl⟩ := Option.isSome_iff_exists.mp hl
    have hm : (x.seq, x.id) ∈ c.pending := by
      rw [hid, ← hown i hl]
      exact (h.call?_lookup hl).1
    exact ⟨_, call?_update (g := fun y => { y with outcome := some (.error why) })
      (fun _ => rfl) rfl hsent, .settle hm (.inr rfl) fun ht => Bool.noConfusion (htold.symm.trans ht)⟩
  · exact ⟨_, hsent, .sent hp⟩

theorem Ordered.turn_deliver {f : Frame} {hd : Header} {b : Frame.Buffer} (h : Ordered c)
    (hn : c.buffer.next = (.ok (some f), b)) (hh : f.readHeader c.options.codec = .ok hd)
    (hx : c.call? id = some x) :
    ∃ y, ({ c with buffer := b }.deliver hd f.body).call? id = some y ∧ Turn c .read x y := by
  rw [Client.deliver]
  split
  · exact ⟨x, hx, .stay⟩
  · rename_i i hl
    obtain ⟨hm, -⟩ := h.call?_lookup hl
    by_cases hi : id = i
    · subst hi
      have hseq : x.seq = hd.seq := (h.owner hm hx).1
      refine ⟨_, call?_update (g := fun y => { y with outcome := some (hd.outcome f.body) })
        (fun _ => rfl) rfl hx, .settle ?_ (.inl rfl) fun _ => ⟨f, hd, taking_read hn, hh, hseq.symm, rfl⟩⟩
      rw [hseq, (mem_of_call? hx).2]
      exact hm
    · exact ⟨x, (call?_update_ne (g := fun y => { y with outcome := some (hd.outcome f.body) })
        (fun _ => rfl) rfl hi).trans hx, .stay⟩

theorem Ordered.turn_terminated (h : Ordered c) (hx : c.call? id = some x) :
    Turn c e x (c.terminated x) := by
  rw [terminated]
  split
  · rename_i hc
    obtain ⟨p, hp, hpx⟩ := List.mem_map.mp (List.contains_iff_mem.mp hc)
    have hm : (x.seq, x.id) ∈ c.pending := by
      obtain ⟨hseq, -⟩ := h.owner hp (by rw [hpx, (mem_of_call? hx).2, hx])
      rw [hseq, ← hpx]
      exact hp
    exact .settle hm (.inl rfl) nofun
  · exact .stay

/-- **What an event makes of a call that is not given up.** No other call may be in the
table under the number of a call that is being sent. -/
theorem Step.turn (hs : Step c e c') (h : Ordered c) (hx : c.call? id = some x)
    (hown : ∀ f, x.phase = .sending f → ∀ i, c.pending.lookup x.seq = some i → i = id)
    (he : e ≠ .abandon id) : ∃ y, c'.call? id = some y ∧ Turn c e x y := by
  have hterm : ∀ d : Client, d.calls = c.calls.map c.terminated →
      ∃ y, d.call? id = some y ∧ Turn c e x y := by
    intro d hd
    refine ⟨c.terminated x, ?_, h.turn_terminated hx⟩
    rw [call?_map id_terminated hd, hx, Option.map_some]
  cases hs with
  | begin hn =>
    refine ⟨x, ?_, .stay⟩
    change List.find? _ (c.calls ++ _) = some x
    rw [List.find?_append]
    exact Option.or_eq_some_iff.mpr (.inl hx)
  | @abandon id' y hy =>
    have hm : x ∈ (c.abandon y).calls := by
      refine List.mem_filter.mpr ⟨(mem_of_call? hx).1, bne_iff_ne.mpr fun hi => he ?_⟩
      rw [← (mem_of_call? hy).2, ← hi, (mem_of_call? hx).2]
    exact ⟨x, (mem_of_call? hx).2 ▸ call?_of_mem (h.abandon hy).ids hm, .stay⟩
  | close | receive _ | hangUp | lose | release _ _ _ | write _ => exact ⟨x, hx, .stay⟩
  | @register id' y body hy hp _ =>
    by_cases hi : id = id'
    · subst hi
      cases hx.symm.trans hy
      exact Turn.register hx hp
    · exact ⟨x, (call?_enter_ne hi).trans hx, .stay⟩
  | @post id' y f o hy hp _ =>
    by_cases hi : id = id'
    · subst hi
      cases hx.symm.trans hy
      exact ⟨_, call?_update (g := fun y => { y with phase := .sent }) (fun _ => rfl) rfl hx, .sent hp⟩
    · exact ⟨x, (call?_sent_ne hi).trans hx, .stay⟩
  | @unsent id' y frame why hy hp hw =>
    by_cases hi : id = id'
    · subst hi
      cases hx.symm.trans hy
      exact h.turn_withdraw hx hp hw (hown frame hp)
    · exact ⟨x, (call?_withdraw_ne hi y.seq why).trans hx, .stay⟩
  | deliver _ hn hh => exact h.turn_deliver hn hh hx
  | endReading _ _ | stop _ _ | watch _ => exact hterm _ rfl

/-- **A call that has an outcome keeps it** until its caller gives it up; all that may
still happen to it is that its frame is handed over. -/
theorem Ordered.settled (hs : Step c e c') (h : Ordered c) (hx : c.call? id = some x)
    (hown : ∀ f, x.phase = .sending f → ∀ i, c.pending.lookup x.seq = some i → i = id)
    (ho : x.outcome ≠ none) (he : e ≠ .abandon id) :
    c'.call? id = some x ∨ c'.call? id = some { x with phase := .sent } := by
  obtain ⟨hm, hid⟩ := mem_of_call? hx
  obtain ⟨y, hy, ht⟩ := hs.turn h hx hown he
  cases ht with
  | stay => exact .inl hy
  | sent _ => exact .inr hy
  | away hp | book hp _ => exact absurd (h.waiting x hm _ hp).2 ho
  | settle hp => exact absurd (h.owner hp (hid ▸ hx)).2.1 ho

/-! ### Where a call comes from -/

theorem Step.call?_eq_none (hs : Step c e c') (ho : Ordered c) (hn : c.call? id = none)
    (he : ∀ target args, e ≠ .begin id target args) : c'.call? id = none := by
  have hne : ∀ {i : Nat} {x : Call}, c.call? i = some x → id ≠ i := by
    rintro i x hx rfl
    cases hn.symm.trans hx
  have hterm : ∀ d : Client, d.calls = c.calls.map c.terminated → d.call? id = none := by
    intro d hd
    rw [call?_map id_terminated hd, hn, Option.map_none]
  cases hs with
  | @begin id' target args _ =>
    have hid : id' ≠ id := fun hi => he target args (by rw [hi])
    change List.find? _ (c.calls ++ _) = none
    rw [List.find?_append, Option.or_eq_none_iff]
    exact ⟨hn, by simp [id_opening, hid]⟩
  | abandon _ =>
    exact List.find?_eq_none.mpr fun y hy => List.find?_eq_none.mp hn y (List.mem_filter.mp hy).1
  | close | receive _ | hangUp | lose | release _ _ _ | write _ => exact hn
  | register hx _ _ => exact (call?_enter_ne (hne hx)).trans hn
  | post hx _ _ => exact (call?_sent_ne (hne hx)).trans hn
  | unsent hx _ _ => exact (call?_withdraw_ne (hne hx) _ _).trans hn
  | @deliver f b hd _ _ _ =>
    have hlookup : ∀ i, c.pending.lookup hd.seq = some i → id ≠ i := by
      intro i hl
      obtain ⟨-, x, hx⟩ := ho.call?_lookup hl
      exact hne hx
    exact (call?_deliver_ne (c := { c with buffer := b }) hlookup f.body).trans hn
  | endReading _ _ | stop _ _ | watch _ => exact hterm _ rfl

/-- **A call was just begun, or it was there and this is what the event made of it.** -/
theorem Step.origin (hs : Step c e c') (ho : Ordered c)
    (hown : ∀ x ∈ c.calls, ∀ f, x.phase = .sending f → ∀ i, c.pending.lookup x.seq = some i → i = x.id)
    (hy : y ∈ c'.calls) :
    (c.call? y.id = none ∧ ∃ target args, y = opening c.options.codec y.id target args) ∨
      ∃ x, c.call? y.id = some x ∧ Turn c e x y := by
  have hcall : c'.call? y.id = some y := call?_of_mem (ho.step hs).ids hy
  cases hx : c.call? y.id with
  | none =>
    refine .inl ⟨rfl, ?_⟩
    by_cases he : ∃ target args, e = .begin y.id target args
    · obtain ⟨target, args, rfl⟩ := he
      cases hs
      change List.find? _ (c.calls ++ _) = some y at hcall
      rw [List.find?_append, show c.calls.find? _ = none from hx, Option.none_or] at hcall
      exact ⟨target, args, (List.mem_singleton.mp (List.mem_of_find?_eq_some hcall))⟩
    · rw [hs.call?_eq_none ho hx fun target args h => he ⟨target, args, h⟩] at hcall
      cases hcall
  | some x =>
    obtain ⟨hm, hid⟩ := mem_of_call? hx
    have he : e ≠ .abandon y.id := by
      rintro rfl
      cases hs with
      | abandon hx' =>
        cases hx.symm.trans hx'
        exact bne_iff_ne.mp (List.mem_filter.mp hy).2 hid.symm
    obtain ⟨y', hy', ht⟩ := hs.turn ho hx (fun f hp i hi => (hown x hm f hp i hi).trans hid) he
    cases hy'.symm.trans hcall
    exact .inr ⟨x, rfl, ht⟩

/-! ### Runs -/

/-- A client after some events. Events that cannot happen do nothing. -/
def run (o : Options) (es : List Event) : Client := es.foldl apply (start o)

theorem run_append (o : Options) (es es' : List Event) :
    run o (es ++ es') = es'.foldl apply (run o es) :=
  List.foldl_append

/-- **What holds before some events, and after every one of them, holds after all.** -/
theorem foldl_keeps {P : Client → Prop} {es : List Event}
    (hstep : ∀ c e c', e ∈ es → Step c e c' → P c → P c') (hc : P c) : P (es.foldl apply c) := by
  induction es generalizing c with
  | nil => exact hc
  | cons e es ih =>
    refine ih (fun c e' c' he => hstep c e' c' (List.mem_cons_of_mem _ he)) ?_
    rw [apply]
    cases hs : c.step e with
    | none => exact hc
    | some c' => exact hstep c e c' List.mem_cons_self (.of_step hs) hc

theorem Ordered.foldl (h : Ordered c) (es : List Event) : Ordered (es.foldl apply c) :=
  foldl_keeps (fun _ _ _ _ hs h => h.step hs) h

theorem ordered_run (o : Options) (es : List Event) : Ordered (run o es) :=
  (ordered_start o).foldl es

end Client
end Callwire
