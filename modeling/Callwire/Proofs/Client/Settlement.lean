/-
# Every call is settled once

Every number that enters the table of pending calls leaves it once or is still there. The
caller of the call is told at most one outcome, and that one stays. What a caller is told
as the peer's word is what the first frame says that had the number of the call while it
was in the table.

Key definitions: `Client.Settled`.
Key theorems: `Client.Settled.step`, `Client.settled_run`, `Client.settled_once`.
-/
import Callwire.Proofs.Client.Hearing
import Callwire.Proofs.Client.History

namespace Callwire
namespace Client

variable {c c' : Client} {e : Event} {l : Log} {hs : History} {x y : Call} {id : Nat} {f : Frame} {h : Header}
  {p : UInt64 × Nat}

/-! ### The invariant -/

theorem outcome_opening {codec : Codec} {target : String} {args : Datum} :
    ((opening codec id target args).outcome = none →
      ∃ body, (opening codec id target args).phase = .waiting body) ∧
      ∀ out, (opening codec id target args).outcome = some out → isTold out = false := by
  rw [opening]
  split
  · rename_i body _
    exact ⟨fun _ => ⟨body, rfl⟩, by simp⟩
  · refine ⟨by simp, fun out ho => ?_⟩
    rw [← Option.some.inj ho]
    rfl

/-- What holds of a client and its history at all times: the calls that were taken made
the entries; each entry left or is in the table; a call with no number and no outcome
waits for its turn; what a call was told when its number left is its outcome; no frame
of a number that is in the table was passed over; and what was told as the peer's word
was the first frame of the number. -/
structure Settled (c : Client) (l : Log) (hs : History) : Prop where
  booked : hs.entered = l.booked.map fun b => (b.seq, b.id)
  accounts : (hs.left ++ c.pending).Perm hs.entered
  waiting : ∀ x ∈ c.calls, x.seq = 0 → x.outcome = none → ∃ body, x.phase = .waiting body
  kept : ∀ x ∈ c.calls, x.seq ≠ 0 → ∀ t, .left x.seq x.id t ∈ hs → t = x.outcome
  unheard : ∀ p ∈ c.pending, hs.Unheard c.options.codec p
  answered : ∀ s id out, .left s id (some out) ∈ hs → isTold out = true →
    hs.Answered c.options.codec (s, id) out

variable {codec : Codec}

theorem Log.Sound.nodup_entries (h : l.Sound codec) (hlt : l.booked.length < 2 ^ 64) :
    ((l.booked.map fun b => (b.seq, b.id)).map (·.1)).Nodup := by
  rw [List.map_map]
  exact h.numbers ▸ nodup_numbers hlt

theorem Settled.nodup_entered (h : Settled c l hs) (hf : Faithful c l) (hlt : l.booked.length < 2 ^ 64) :
    (hs.entered.map (·.1)).Nodup := by
  rw [h.booked]
  exact hf.log.nodup_entries hlt

theorem Settled.nodup_accounts (h : Settled c l hs) (hf : Faithful c l) (hlt : l.booked.length < 2 ^ 64) :
    (hs.left.map (·.1) ++ c.pending.map (·.1)).Nodup := by
  rw [← List.map_append]
  exact (h.accounts.map _).nodup_iff.mpr (h.nodup_entered hf hlt)

theorem Settled.nodup_left (h : Settled c l hs) (hf : Faithful c l) (hlt : l.booked.length < 2 ^ 64) :
    (hs.left.map (·.1)).Nodup :=
  (h.nodup_accounts hf hlt).of_append_left

theorem Settled.nodup_pending (h : Settled c l hs) (hf : Faithful c l) (hlt : l.booked.length < 2 ^ 64) :
    (c.pending.map (·.1)).Nodup :=
  (h.nodup_accounts hf hlt).of_append_right

theorem Settled.not_pending (h : Settled c l hs) (hf : Faithful c l) (hlt : l.booked.length < 2 ^ 64)
    {s : UInt64} {i j : Nat} (hl : (s, i) ∈ hs.left) : (s, j) ∉ c.pending := by
  intro hp
  obtain ⟨-, -, hdisj⟩ := List.nodup_append.mp (h.nodup_accounts hf hlt)
  exact hdisj s (List.mem_map.mpr ⟨_, hl, rfl⟩) s (List.mem_map.mpr ⟨_, hp, rfl⟩) rfl

theorem Settled.entered_call (h : Settled c l hs) (hf : Faithful c l) (hx : x ∈ c.calls) (hs0 : x.seq ≠ 0) :
    (x.seq, x.id) ∈ hs.entered := by
  obtain ⟨b, hb⟩ := (hf.calls x hx).numbered hs0
  rw [h.booked]
  exact List.mem_map.mpr ⟨b, hb.mem, by rw [hb.seq, hb.id]⟩

theorem Faithful.own (hf : Faithful c l) (hlt : l.booked.length < 2 ^ 64) (hx : x ∈ c.calls) {i : Nat}
    (hl : c.pending.lookup x.seq = some i) : i = x.id := by
  obtain ⟨p, q, hpq, -⟩ := List.lookup_eq_some_iff.mp hl
  obtain ⟨hne, y, hy, hid, hseq⟩ := hf.pending (x.seq, i) (by simp [hpq])
  rw [hf.eq_of_seq hlt hx hy hne hseq]
  exact hid.symm

theorem Ordered.outcome_entry (ho : Ordered c) (hp : p ∈ c.pending ∨ p ∈ c.entering e)
    (hx : c.call? p.2 = some x) : x.outcome = none := by
  rcases hp with hp | hp
  · exact (ho.owner hp hx).2.1
  · obtain ⟨-, -, x', body, hx', hw⟩ := entering_cases hp
    cases hx.symm.trans hx'
    exact (ho.waiting x (mem_of_call? hx).1 body hw).2

/-- What an event makes of the calls, as long as numbers do not come again. -/
theorem Faithful.origin (hstep : Step c e c') (hf : Faithful c l) (ho : Ordered c)
    (hlt : l.booked.length < 2 ^ 64) (hy : y ∈ c'.calls) :
    (c.call? y.id = none ∧ ∃ target args, y = opening c.options.codec y.id target args) ∨
      ∃ x, c.call? y.id = some x ∧ Turn c e x y :=
  hstep.origin ho (fun _ hx _ _ _ hl => hf.own hlt hx hl) hy

/-- The number that is entered is a new one. -/
theorem Settled.fresh (hset : Settled c l hs) (hf : Faithful c l)
    (hlt : (l.note c e).booked.length < 2 ^ 64) (he : c.entering e = [(c.nextSeq, id)]) :
    c.nextSeq ≠ 0 ∧ ∀ i, (c.nextSeq, i) ∉ hs.left := by
  rw [length_booked, he, List.length_singleton, Nat.add_comm] at hlt
  refine ⟨hf.next_ne_zero hlt, fun i hi => ?_⟩
  have hentered : (c.nextSeq, i) ∈ hs.entered := hset.accounts.subset (List.mem_append_left _ hi)
  rw [hset.booked] at hentered
  obtain ⟨b, hb, hbi⟩ := List.mem_map.mp hentered
  exact hf.ne_next hlt hb (congrArg Prod.fst hbi)

/-- A frame that is taken was not passed over by a call that is pending afterwards. -/
theorem Settled.unheard_step (hstep : Step c e c') (hset : Settled c l hs) (hp : p ∈ c'.pending) :
    (c.record e c' hs).Unheard c.options.codec p := by
  have htaking : ∀ f ∈ c.taking e, ∀ h, f.readHeader c.options.codec = .ok h → h.seq ≠ p.1 := by
    intro f hft h hr
    rw [pending_of_taking hstep hft hr] at hp
    exact (bne_iff_ne.mp (List.mem_filter.mp hp).2).symm
  rcases mem_of_pending hstep hp with hold | hnew
  · obtain ⟨new, hrec, hnew⟩ := record_eq_append c e c' hs
    rw [hrec]
    exact (hset.unheard p hold).append new fun f hft => htaking f (hnew f hft)
  · obtain ⟨he, hone, -⟩ := entering_cases hnew
    have hnone : c.taking e = [] := by
      refine List.eq_nil_iff_forall_not_mem.mpr fun f hft => ?_
      cases (taking_cases hft).1.symm.trans he
    refine ⟨(c.gone e c').map fun p => .left p.1 p.2 (c'.outcome? p.2), hs, ?_, ?_⟩
    · rw [record, hnone, hone]
      rfl
    · simp

section Step

variable (hstep : Step c e c') (hset : Settled c l hs) (hf : Faithful c l) (ho : Ordered c)
  (hlt : (l.note c e).booked.length < 2 ^ 64)

include hstep hset hf ho hlt

theorem Settled.waiting_step (hy : y ∈ c'.calls) (hseq : y.seq = 0) (hout : y.outcome = none) :
    ∃ body, y.phase = .waiting body := by
  have hlt' : l.booked.length < 2 ^ 64 := Nat.lt_of_le_of_lt (length_booked_note c e l) hlt
  rcases hf.origin hstep ho hlt' hy with ⟨-, target, args, hy'⟩ | ⟨x, hx, ht⟩
  · rw [hy'] at hout ⊢
    exact outcome_opening.1 hout
  · obtain ⟨hm, -⟩ := mem_of_call? hx
    cases ht with
    | stay => exact hset.waiting y hm hseq hout
    | @sent f hp =>
      obtain ⟨-, b, hb, -⟩ := (hf.calls x hm).sending f hp
      exact absurd hseq (hb.seq ▸ hf.log.ne_zero hlt' hb.mem)
    | book _ he => exact absurd hseq (hset.fresh hf hlt he).1
    | away _ | settle _ _ _ => cases hout

/-- What a call was told when its number left is its outcome for good. -/
theorem Settled.kept_step (hy : y ∈ c'.calls) (hseq : y.seq ≠ 0) {t : Option (Except Fault Bytes)}
    (ht : .left y.seq y.id t ∈ c.record e c' hs) : t = y.outcome := by
  have hlt' : l.booked.length < 2 ^ 64 := Nat.lt_of_le_of_lt (length_booked_note c e l) hlt
  rcases mem_record ht with ⟨-, rfl⟩ | hold
  · rw [outcome?, call?_of_mem (ho.step hstep).ids hy, Option.bind_some]
  · have hgone : (y.seq, y.id) ∈ hs.left := History.mem_left hold
    rcases hf.origin hstep ho hlt' hy with ⟨-, target, args, hy'⟩ | ⟨x, hx, hturn⟩
    · rw [hy', seq_opening] at hseq
      exact absurd rfl hseq
    · obtain ⟨hm, hid⟩ := mem_of_call? hx
      cases hturn with
      | stay => exact hset.kept y hm hseq t hold
      | sent _ => exact hset.kept x hm hseq t hold
      | away hp => exact absurd (ho.waiting x hm _ hp).1 hseq
      | book _ he => exact absurd hgone ((hset.fresh hf hlt he).2 _)
      | settle hp => exact absurd hp (hset.not_pending hf hlt' hgone)

/-- What is told as the peer's word is what the frame says that was just taken. -/
theorem Settled.answered_step {s : UInt64} {out : Except Fault Bytes}
    (hleft : .left s id (some out) ∈ c.record e c' hs) (htold : isTold out = true) :
    (c.record e c' hs).Answered c.options.codec (s, id) out := by
  have hlt' : l.booked.length < 2 ^ 64 := Nat.lt_of_le_of_lt (length_booked_note c e l) hlt
  rcases mem_record hleft with ⟨hgone, hout⟩ | hold
  · obtain ⟨y, hy, hyo⟩ := Option.bind_eq_some_iff.mp hout.symm
    obtain ⟨hym, rfl⟩ := mem_of_call? hy
    have hentry := mem_gone hgone
    rcases hf.origin hstep ho hlt' hym with ⟨-, target, args, hy'⟩ | ⟨x, hx, hturn⟩
    · rw [hy'] at hyo
      cases htold.symm.trans (outcome_opening.2 out hyo)
    · have hxo : x.outcome = none := ho.outcome_entry hentry hx
      cases hturn with
      | stay | sent _ | book _ _ => cases hxo.symm.trans hyo
      | away _ =>
        cases hyo
        cases htold
      | @settle ph out' hm _ ht =>
        cases hyo
        obtain ⟨f, h, htaking, hr, hseq, rfl⟩ := ht htold
        have hft : f ∈ c.taking e := by simp [htaking]
        obtain ⟨rfl, -, -⟩ := taking_cases hft
        have hnone : c.entering .read = [] := entering_eq_nil nofun
        have hpend : (s, x.id) ∈ c.pending := by
          rw [hnone] at hentry
          exact hentry.resolve_right List.not_mem_nil
        have hxs : x.seq = s := (ho.owner hpend hx).1
        have hone : c.gone .read c' = [(s, x.id)] :=
          gone_of_taking hstep (hset.nodup_pending hf hlt') hft hr hpend (hxs.symm.trans hseq.symm)
        refine ⟨[], f, h, hs, ?_, hr, hseq.trans hxs, rfl, hset.unheard _ hpend⟩
        have hout' : c'.outcome? x.id = some (h.outcome f.body) := hout.symm
        rw [record, hone, htaking, hnone, List.map_singleton, hout']
        rfl
  · obtain ⟨new, hrec, -⟩ := record_eq_append c e c' hs
    rw [hrec]
    exact (hset.answered s id out hold htold).append new

/-- **What holds of a client and its history holds after every event.** -/
theorem Settled.step : Settled c' (l.note c e) (c.record e c' hs) where
  booked := by
    rw [entered_record, booked_note, List.map_append, hset.booked, entering]
  accounts := accounts_record hstep hset.accounts
  waiting := fun _ hy => hset.waiting_step hstep hf ho hlt hy
  kept := fun _ hy hseq _ => hset.kept_step hstep hf ho hlt hy hseq
  unheard := fun _ hp => by
    rw [options_step hstep]
    exact hset.unheard_step hstep hp
  answered := fun _ _ _ hleft htold => by
    rw [options_step hstep]
    exact hset.answered_step hstep hf ho hlt hleft htold

end Step

/-! ### Every run -/

theorem faithful_start (o : Options) : Faithful (start o) {} where
  log := ⟨rfl, nofun, List.nodup_nil⟩
  next := rfl
  ids := List.nodup_nil
  calls _ hx := nomatch hx
  pending := nofun
  awaited _ hx := nomatch hx

theorem settled_start (o : Options) : Settled (start o) {} [] where
  booked := rfl
  accounts := .nil
  waiting _ hx := nomatch hx
  kept _ hx := nomatch hx
  unheard := nofun
  answered := nofun

/-- **In every run of a client that takes fewer than `2^64` calls, every call is settled
once.** -/
theorem settled_run (o : Options) (es : List Event) (hlt : (history o es).entered.length < 2 ^ 64) :
    ∃ l, l.booked.length < 2 ^ 64 ∧ Faithful (run o es) l ∧ Settled (run o es) l (history o es) := by
  let P (c : Client) (hs : History) : Prop :=
    Ordered c ∧ (hs.entered.length < 2 ^ 64 →
      ∃ l, l.booked.length < 2 ^ 64 ∧ Faithful c l ∧ Settled c l hs)
  suffices hrun : P (run o es) (history o es) from hrun.2 hlt
  refine historyFrom_keeps (P := P) ?_
    ⟨ordered_start o, fun _ => ⟨{}, Nat.two_pow_pos 64, faithful_start o, settled_start o⟩⟩ es
  rintro c e c' hs hstep ⟨ho, hset⟩
  -- entries only get more, so the bound on all of them bounds those so far
  refine ⟨ho.step hstep, fun hlt => ?_⟩
  rw [entered_record, List.length_append] at hlt
  obtain ⟨l, -, hf, hset⟩ := hset (Nat.lt_of_le_of_lt (Nat.le_add_left _ _) hlt)
  have hlt' : (l.note c e).booked.length < 2 ^ 64 := by
    rw [hset.booked, List.length_map] at hlt
    rwa [length_booked]
  exact ⟨l.note c e, hlt', hf.step hstep hlt', hset.step hstep hf ho hlt'⟩

theorem options_run (o : Options) (es : List Event) : (run o es).options = (start o).options :=
  foldl_keeps (P := fun c => c.options = (start o).options) (fun _ _ _ _ hs hc => (options_step hs).trans hc)
    rfl

theorem codec_run (o : Options) (es : List Event) : (run o es).options.codec = o.codec := by
  rw [options_run]
  rfl

theorem Settled.told_eq (hset : Settled c l hs) (hf : Faithful c l) (ho : Ordered c)
    (hlt : l.booked.length < 2 ^ 64) (hx : x ∈ c.calls) (hseq : x.seq ≠ 0) :
    hs.told x.seq = x.outcome.toList := by
  cases hout : x.outcome with
  | none =>
    have hpend : (x.seq, x.id) ∈ c.pending := hf.awaited x hx hseq hout
    refine List.eq_nil_iff_forall_not_mem.mpr fun out hm => ?_
    obtain ⟨i, hleft⟩ := History.mem_told_iff.mp hm
    exact hset.not_pending hf hlt (History.mem_left hleft) hpend
  | some out =>
    have hentered : (x.seq, x.id) ∈ hs.left ++ c.pending :=
      hset.accounts.mem_iff.mpr (hset.entered_call hf hx hseq)
    rcases List.mem_append.mp hentered with hleft | hpend
    · obtain ⟨t, ht⟩ := History.exists_of_mem_left hleft
      have htold : out ∈ hs.told x.seq := by
        rw [hset.kept x hx hseq t ht, hout] at ht
        exact History.mem_told_iff.mpr ⟨x.id, ht⟩
      have hlen : (hs.told x.seq).length ≤ 1 := History.length_told_le (hset.nodup_left hf hlt)
      obtain ⟨a, ha⟩ := List.length_eq_one_iff.mp (Nat.le_antisymm hlen (List.length_pos_of_mem htold))
      rw [ha] at htold ⊢
      rw [List.mem_singleton.mp htold]
      rfl
    · have hnone := (ho.owner hpend (call?_of_mem ho.ids hx)).2.1
      cases hnone.symm.trans hout

/-- **Every call is settled once.** Whatever the callers and the peer of a client do, as
long as fewer than `2^64` calls are taken:

* no number enters the table twice, and every entry left once or is still there;
* no number has its caller told twice, and what the caller of a call was told is the
  outcome of the call, or nothing if it has none;
* a call that had its turn and has no outcome is in the table under its own number;
* no frame that has the number of a call in the table was taken since the call entered;
* a call that was told the peer's word was told what a frame says that was just taken and
  has the number of the call, and that is the first such frame since the call entered. -/
theorem settled_once (o : Options) (es : List Event) (hlt : (history o es).entered.length < 2 ^ 64) :
    ((history o es).entered.map (·.1)).Nodup ∧
    ((history o es).left ++ (run o es).pending).Perm (history o es).entered ∧
    (∀ s, ((history o es).told s).length ≤ 1) ∧
    (∀ x ∈ (run o es).calls, x.seq ≠ 0 →
      (x.seq, x.id) ∈ (history o es).entered ∧ (history o es).told x.seq = x.outcome.toList) ∧
    (∀ x ∈ (run o es).calls, (∀ body, x.phase ≠ .waiting body) → x.outcome = none →
      x.seq ≠ 0 ∧ (x.seq, x.id) ∈ (run o es).pending) ∧
    (∀ p ∈ (run o es).pending, (history o es).Unheard o.codec p) ∧
    (∀ s id out, .left s id (some out) ∈ history o es → isTold out = true →
      (history o es).Answered o.codec (s, id) out) := by
  obtain ⟨l, hlt', hf, hset⟩ := settled_run o es hlt
  have ho : Ordered (run o es) := ordered_run o es
  refine ⟨hset.nodup_entered hf hlt', hset.accounts, fun s => ?_, fun x hx hseq => ?_,
    fun x hx hw hout => ?_, fun p hp => ?_, fun s id out hleft htold => ?_⟩
  · exact History.length_told_le (hset.nodup_left hf hlt')
  · exact ⟨hset.entered_call hf hx hseq, hset.told_eq hf ho hlt' hx hseq⟩
  · have hseq : x.seq ≠ 0 := by
      intro hs
      obtain ⟨body, hb⟩ := hset.waiting x hx hs hout
      exact hw body hb
    exact ⟨hseq, hf.awaited x hx hseq hout⟩
  · exact codec_run o es ▸ hset.unheard p hp
  · exact codec_run o es ▸ hset.answered s id out hleft htold

/-- Two calls have a number each. Then an answer to no call comes, and two to the second
call. -/
def twoCalls : List Event :=
  let answer (seq : UInt64) (body : Bytes) : Bytes :=
    (Frame.mk (Header.bytes .messagePack ⟨"Foo.Len", seq, ""⟩) body).toBytes
  [.begin 1 "Foo.Len" (.text "ab"), .register 1, .post 1, .begin 2 "Foo.Len" (.text "c"), .register 2,
    .receive (answer 9 [7] ++ answer 2 [1] ++ answer 2 [8]), .read, .read, .read]

theorem settled_once_len :
    (history .default twoCalls).told 2 = [.ok [1]] ∧
      (∃ id, (history .default twoCalls).Answered .messagePack (2, id) (.ok [1])) ∧
      (1, 1) ∈ (run .default twoCalls).pending := by
  have hlt : (history .default twoCalls).entered.length < 2 ^ 64 := by decide +kernel
  obtain ⟨-, -, -, htold, hpend, -, hanswered⟩ := settled_once .default twoCalls hlt
  have hfirst : ((run .default twoCalls).call? 1).any fun x =>
      x.seq == 1 && decide (x.outcome = none) := by decide +kernel
  have hsecond : ((run .default twoCalls).call? 2).any fun x =>
      x.seq == 2 && decide (x.outcome = some (.ok [1])) := by decide +kernel
  simp only [Option.any_eq_true, Bool.and_eq_true, beq_iff_eq, decide_eq_true_eq] at hfirst hsecond
  obtain ⟨x, hx, hxs, hxo⟩ := hfirst
  obtain ⟨y, hy, hys, hyo⟩ := hsecond
  obtain ⟨hxm, hxid⟩ := mem_of_call? hx
  have htwo : (history .default twoCalls).told 2 = [.ok [1]] := by
    rw [← hys, (htold y (mem_of_call? hy).1 (by rw [hys]; decide)).2, hyo]
    rfl
  obtain ⟨id, hleft⟩ := History.mem_told_iff.mp (htwo ▸ List.mem_singleton_self _)
  refine ⟨htwo, ⟨id, hanswered 2 id _ hleft rfl⟩, ?_⟩
  obtain ⟨l, -, hf, -⟩ := settled_run .default twoCalls hlt
  have hturn : ∀ body, x.phase ≠ .waiting body := by
    intro body hb
    cases hxs.symm.trans ((hf.calls x hxm).waiting body hb).1
  have hone := (hpend x hxm hturn hxo).2
  rwa [hxs, hxid] at hone

end Client
end Callwire
