/-
# Every pending number is somebody's

A number is in the table of pending calls because a call is being sent and holds it, or
because its caller has the handle and waits for the outcome; and there is just one such call.
Giving up any calls takes their numbers out of the table and no others, also if some of them
never had one. So nothing is left in the table once nobody waits any more.

Key definitions: `Call.Owns`, `Call.isPending`.
Key theorems: `Client.Faithful.id_eq_iff`, `Client.pending_foldl_abandon`, `Client.pending_perm`,
`Client.leaves_pending`, `Client.pending_owned`.
-/
import Callwire.Proofs.Client.Settlement

namespace Callwire

/-- The call owns an entry of the table: it has no outcome, and it is being sent or its
caller has the handle. -/
structure Call.Owns (x : Call) (p : UInt64 × Nat) : Prop where
  seq : x.seq = p.1
  id : x.id = p.2
  unfinished : x.outcome = none
  party : (∃ f, x.phase = .sending f) ∨ x.phase = .sent

/-- The call has a number and no outcome. -/
def Call.isPending (x : Call) : Bool := x.seq != 0 && x.outcome.isNone

namespace Client

variable {c c' : Client} {e : Event} {l : Log} {x y : Call} {id : Nat} {p : UInt64 × Nat}

/-! ### Owners -/

theorem Ordered.owns (ho : Ordered c) (hp : p ∈ c.pending) : ∃ x ∈ c.calls, x.Owns p := by
  obtain ⟨x, hx, hid, hseq, hout, hwait⟩ := ho.pending p hp
  refine ⟨x, hx, hseq, hid, hout, ?_⟩
  cases hph : x.phase with
  | waiting body => exact absurd hph (hwait body)
  | sending f => exact .inl ⟨f, rfl⟩
  | sent => exact .inr rfl

theorem Faithful.id_eq_iff (hf : Faithful c l) (ho : Ordered c) (hlt : l.booked.length < 2 ^ 64)
    (hx : c.call? id = some x) (hp : p ∈ c.pending) : p.1 = x.seq ↔ p.2 = id := by
  obtain ⟨hm, hid⟩ := mem_of_call? hx
  constructor
  · intro hseq
    obtain ⟨hne, y, hy, hyid, hyseq⟩ := hf.pending p hp
    have hxy : x = y := hf.eq_of_seq hlt hm hy (hseq ▸ hne) (hyseq.trans hseq)
    rw [← hyid, ← hxy, hid]
  · rintro rfl
    exact (ho.owner hp hx).1.symm

/-- Nobody else has the number or the name of an entry. -/
theorem Faithful.owner_unique (hf : Faithful c l) (ho : Ordered c) (hlt : l.booked.length < 2 ^ 64)
    (hp : p ∈ c.pending) (hx : x ∈ c.calls) (hown : x.Owns p) (hy : y ∈ c.calls)
    (h : y.seq = p.1 ∨ y.id = p.2) : y = x := by
  have hycall : c.call? y.id = some y := call?_of_mem ho.ids hy
  have hyid : y.id = p.2 := by
    rcases h with hseq | hid
    · exact ((hf.id_eq_iff ho hlt hycall hp).mp hseq.symm).symm
    · exact hid
  exact List.inj_on_of_nodup_map ho.ids hy hx (hyid.trans hown.id.symm)

theorem mem_pending_iff (hf : Faithful c l) (ho : Ordered c) :
    p ∈ c.pending ↔ ∃ x ∈ c.calls, x.isPending = true ∧ (x.seq, x.id) = p := by
  constructor
  · intro hp
    obtain ⟨x, hx, hown⟩ := ho.owns hp
    have hne : x.seq ≠ 0 := hown.seq ▸ (hf.pending p hp).1
    refine ⟨x, hx, ?_, Prod.ext hown.seq hown.id⟩
    simp [Call.isPending, hne, hown.unfinished]
  · rintro ⟨x, hx, hpend, rfl⟩
    rw [Call.isPending, Bool.and_eq_true, bne_iff_ne, Option.isNone_iff_eq_none] at hpend
    exact hf.awaited x hx hpend.1 hpend.2

/-- **The table has one entry for each call that is pending**, and no others. -/
theorem pending_perm (hf : Faithful c l) (ho : Ordered c) (hn : c.pending.Nodup) :
    c.pending.Perm ((c.calls.filter Call.isPending).map fun x => (x.seq, x.id)) := by
  have hcalls : ((c.calls.filter Call.isPending).map fun x => (x.seq, x.id)).Nodup := by
    refine List.Nodup.of_map Prod.snd ?_
    rw [List.map_map]
    exact ho.ids.sublist (List.filter_sublist.map _)
  refine (List.perm_ext_iff_of_nodup hn hcalls).mpr fun p => ?_
  rw [mem_pending_iff hf ho, List.mem_map]
  simp only [List.mem_filter, and_assoc]

/-! ### Calls that are given up -/

theorem pending_abandon (hf : Faithful c l) (ho : Ordered c) (hlt : l.booked.length < 2 ^ 64)
    (hx : c.call? id = some x) : (c.abandon x).pending = c.pending.filter (·.2 != id) := by
  show c.pending.filter (·.1 != x.seq) = _
  refine List.filter_congr fun p hp => ?_
  rw [Bool.eq_iff_iff, bne_iff_ne, bne_iff_ne]
  exact not_congr (hf.id_eq_iff ho hlt hx hp)

theorem Ordered.name_ne (ho : Ordered c) (hn : c.call? id = none) (hp : p ∈ c.pending) : p.2 ≠ id := by
  rintro rfl
  obtain ⟨x, hx, hown⟩ := ho.owns hp
  have hcall : c.call? p.2 = some x := hown.id ▸ call?_of_mem ho.ids hx
  rw [hn] at hcall
  cases hcall

/-- **Giving up calls takes their entries out**, and no others. -/
theorem pending_foldl_abandon (hf : Faithful c l) (ho : Ordered c) (hlt : l.booked.length < 2 ^ 64)
    (ids : List Nat) :
    ((ids.map Event.abandon).foldl apply c).pending = c.pending.filter fun p => !ids.contains p.2 := by
  induction ids generalizing c with
  | nil => exact (List.filter_eq_self.mpr fun _ _ => rfl).symm
  | cons id ids ih =>
    have hone : (c.apply (.abandon id)).pending = c.pending.filter (·.2 != id) ∧
        Faithful (c.apply (.abandon id)) l := by
      have happly : c.apply (.abandon id) = ((c.call? id).map c.abandon).getD c := rfl
      rw [happly]
      cases hx : c.call? id with
      | none =>
        refine ⟨(List.filter_eq_self.mpr fun p hp => ?_).symm, hf⟩
        exact bne_iff_ne.mpr (ho.name_ne hx hp)
      | some x => exact ⟨pending_abandon hf ho hlt hx, hf.abandon hlt hx⟩
    rw [List.map_cons, List.foldl_cons, ih hone.2 (ho.foldl [.abandon id]), hone.1, List.filter_filter]
    refine List.filter_congr fun p _ => ?_
    rw [List.contains_cons, Bool.not_or, Bool.and_comm]
    rfl

/-! ### What takes an entry out -/

/-- The events that can take an entry out of the table: its call is given up, or cannot be
sent, an answer of its number came, or the client was shut down. -/
def Removes (c : Client) (e : Event) (c' : Client) (p : UInt64 × Nat) : Prop :=
  e = .abandon p.2 ∨ e = .post p.2 ∨
    (e = .read ∧ ∃ f h, c.buffer.next.1 = .ok (some f) ∧ f.readHeader c.options.codec = .ok h ∧ h.seq = p.1) ∨
      (c.shutdown = false ∧ c'.shutdown = true)

/-- **An entry leaves for a reason of its own**, or with all others. -/
theorem leaves_pending (hs : Step c e c') (hf : Faithful c l) (ho : Ordered c)
    (hlt : l.booked.length < 2 ^ 64) (hp : p ∈ c.pending) (hgone : p ∉ c'.pending) : Removes c e c' p := by
  have hlive : c.shutdown = false := by
    rw [← Bool.not_eq_true]
    intro hshut
    rw [ho.shut hshut] at hp
    cases hp
  have hout : ∀ s, p ∉ c.pending.filter (·.1 != s) → p.1 = s := by
    intro s hn
    by_contra hne
    exact hn (List.mem_filter.mpr ⟨hp, bne_iff_ne.mpr hne⟩)
  cases hs with
  | begin _ | close | receive _ | hangUp | lose | release _ _ _ | write _ | post _ _ _ =>
    exact absurd hp hgone
  | @abandon id x hx =>
    left
    rw [(hf.id_eq_iff ho hlt hx hp).mp (hout x.seq hgone)]
  | @register id x body hx hw _ =>
    exfalso
    rcases enter_cases c id x.target body with ⟨-, he⟩ | ⟨-, he⟩
    · rw [he] at hgone
      exact hgone hp
    · rw [he] at hgone
      exact hgone (List.mem_append_left _ hp)
  | @unsent id x _ why hx _ _ =>
    right; left
    rw [withdraw] at hgone
    split at hgone
    · rw [(hf.id_eq_iff ho hlt hx hp).mp (hout x.seq hgone)]
    · exact absurd hp hgone
  | @deliver f b h hr hn hh =>
    right; right; left
    have hnext : c.buffer.next.1 = .ok (some f) := by rw [hn]
    have htaking : f ∈ c.taking .read := by
      rw [taking_read hn]
      exact List.mem_singleton_self f
    rw [pending_of_taking (.deliver hr hn hh) htaking hh] at hgone
    exact ⟨rfl, f, h, hnext, hh, (hout h.seq hgone).symm⟩
  | endReading _ _ | stop _ _ | watch _ => exact .inr (.inr (.inr ⟨hlive, rfl⟩))

/-! ### Every run -/

/-- **Every pending number is somebody's.** Whatever the callers and the peer of a client do,
as long as fewer than `2^64` calls were taken:

* every entry of the table is owned by a call that is being sent, or that its caller has a
  handle on, and no other call has its number or its name;
* the entries are those of the calls that have a number and no outcome, one for each;
* once every call that is left has its outcome or waits for its turn, the table is empty;
* giving up any calls takes the entries that name them out and leaves the others, also if
  some of these calls have no number or their outcome already. If no call that waits for an
  outcome is left then, the table is empty;
* an entry leaves because its own call is given up or cannot be sent, because an answer of
  its number came, or because the client is shut down. -/
theorem pending_owned (o : Options) (es : List Event) (hlt : (history o es).entered.length < 2 ^ 64) :
    (∀ p ∈ (run o es).pending, ∃ x ∈ (run o es).calls, x.Owns p ∧
      ∀ y ∈ (run o es).calls, y.seq = p.1 ∨ y.id = p.2 → y = x) ∧
    (run o es).pending.Perm (((run o es).calls.filter Call.isPending).map fun x => (x.seq, x.id)) ∧
    ((∀ x ∈ (run o es).calls, x.outcome = none → ∃ body, x.phase = .waiting body) →
      (run o es).pending = []) ∧
    (∀ ids : List Nat,
      (run o (es ++ ids.map .abandon)).pending = (run o es).pending.filter (fun p => !ids.contains p.2) ∧
      ((∀ x ∈ (run o es).calls, x.outcome = none → x.id ∈ ids) →
        (run o (es ++ ids.map .abandon)).pending = [])) ∧
    (∀ e, ∀ p ∈ (run o es).pending, p ∉ (run o (es ++ [e])).pending →
      Removes (run o es) e (run o (es ++ [e])) p) := by
  obtain ⟨l, hlt', hf, hset⟩ := settled_run o es hlt
  have ho : Ordered (run o es) := ordered_run o es
  refine ⟨fun p hp => ?_, ?_, fun hdone => ?_, fun ids => ?_, fun e p hp hgone => ?_⟩
  · obtain ⟨x, hx, hown⟩ := ho.owns hp
    exact ⟨x, hx, hown, fun y hy h => hf.owner_unique ho hlt' hp hx hown hy h⟩
  · exact pending_perm hf ho (hset.nodup_pending hf hlt').of_map
  · refine List.eq_nil_iff_forall_not_mem.mpr fun p hp => ?_
    obtain ⟨x, hx, -, -, hout, hwait⟩ := ho.pending p hp
    obtain ⟨body, hbody⟩ := hdone x hx hout
    exact hwait body hbody
  · have hpending : (run o (es ++ ids.map .abandon)).pending =
        (run o es).pending.filter fun p => !ids.contains p.2 := by
      rw [run_append]
      exact pending_foldl_abandon hf ho hlt' ids
    refine ⟨hpending, fun hall => ?_⟩
    rw [hpending]
    refine List.filter_eq_nil_iff.mpr fun p hp => ?_
    obtain ⟨x, hx, hown⟩ := ho.owns hp
    have hmem : p.2 ∈ ids := hown.id ▸ hall x hx hown.unfinished
    simp [hmem]
  · have hrun : run o (es ++ [e]) = (run o es).apply e := run_append o es [e]
    rw [hrun] at hgone ⊢
    unfold apply at hgone ⊢
    cases hs : (run o es).step e with
    | none =>
      rw [hs] at hgone
      exact absurd hp hgone
    | some c' =>
      rw [hs] at hgone
      exact leaves_pending (.of_step hs) hf ho hlt' hp hgone

/-- Of three calls one is sent, one has a number and waits for room, and one waits for its
turn. -/
theorem pending_owned_len :
    let es : List Event := [.begin 1 "Foo.Len" (.text "ab"), .register 1, .post 1,
      .begin 2 "Foo.Len" (.text "c"), .register 2, .begin 3 "Foo.Len" (.text "d")]
    (run .default (es ++ [3, 1].map .abandon)).pending = [(2, 2)] ∧
      (run .default (es ++ [3, 1, 2].map .abandon)).pending = [] ∧
      ∃ x ∈ (run .default es).calls, x.Owns (1, 1) := by
  intro es
  have hlt : (history .default es).entered.length < 2 ^ 64 := by decide +kernel
  obtain ⟨howned, -, -, hgiven, -⟩ := pending_owned .default es hlt
  have hpending : (run .default es).pending = [(1, 1), (2, 2)] := by decide +kernel
  have hall : ∀ x ∈ (run .default es).calls, x.outcome = none → x.id ∈ [3, 1, 2] := by decide +kernel
  have hmem : (1, 1) ∈ (run .default es).pending := by
    rw [hpending]
    exact List.mem_cons_self
  obtain ⟨x, hx, hown, -⟩ := howned (1, 1) hmem
  refine ⟨?_, (hgiven [3, 1, 2]).2 hall, x, hx, hown⟩
  rw [(hgiven [3, 1]).1, hpending]
  rfl

end Client
end Callwire
