/-
# The history of the table of pending calls

The history of a client tells what its table of pending calls went through: which number
was entered for which call, which frames were taken from the stream, and which number
left, with what the caller was told then. Every number that was entered left or is still
there.

Key definitions: `Client.Happening`, `Client.History`, `Client.record`, `Client.history`,
`Client.History.Unheard`, `Client.History.Answered`.
Key theorems: `Client.gone_perm`, `Client.gone_of_taking`, `Client.accounts_record`,
`Client.historyFrom_keeps`.
-/
import Callwire.Proofs.Client.Table

namespace Callwire
namespace Client

/-- What happens to the table of pending calls: a number enters it for a call, a frame is
taken from the stream, or a number leaves, and this is the outcome that the call has
then. A call that its caller gave up has none. -/
inductive Happening where
  | entered (seq : UInt64) (id : Nat)
  | took (f : Frame)
  | left (seq : UInt64) (id : Nat) (told : Option (Except Fault Bytes))

/-- What happened, last first. -/
abbrev History := List Happening

namespace History

/-- The entries that were made. -/
def entered (hs : History) : List (UInt64 × Nat) :=
  hs.filterMap fun
    | .entered s id => some (s, id)
    | _ => none

/-- The entries that left. -/
def left (hs : History) : List (UInt64 × Nat) :=
  hs.filterMap fun
    | .left s id _ => some (s, id)
    | _ => none

/-- What the caller of this number was told. -/
def told (s : UInt64) (hs : History) : List (Except Fault Bytes) :=
  hs.filterMap fun
    | .left s' _ t => if s' = s then t else none
    | _ => none

/-- The entry was made, and no frame of its number was taken since. -/
def Unheard (codec : Codec) (p : UInt64 × Nat) (hs : History) : Prop :=
  ∃ mid past, hs = mid ++ .entered p.1 p.2 :: past ∧
    ∀ f, .took f ∈ mid → ∀ h, f.readHeader codec = .ok h → h.seq ≠ p.1

/-- The entry left when a frame of its number was taken, the first one since it was made,
and the outcome is what this frame says. -/
def Answered (codec : Codec) (p : UInt64 × Nat) (out : Except Fault Bytes) (hs : History) : Prop :=
  ∃ later f h past, hs = later ++ .left p.1 p.2 (some out) :: .took f :: past ∧
    f.readHeader codec = .ok h ∧ h.seq = p.1 ∧ out = h.outcome f.body ∧ Unheard codec p past

variable {hs hs' : History} {codec : Codec} {p : UInt64 × Nat} {s : UInt64} {id : Nat}
  {t : Option (Except Fault Bytes)} {out : Except Fault Bytes}

theorem mem_left (h : .left s id t ∈ hs) : (s, id) ∈ hs.left :=
  List.mem_filterMap.mpr ⟨_, h, rfl⟩

theorem exists_of_mem_left (h : (s, id) ∈ hs.left) : ∃ t, .left s id t ∈ hs := by
  obtain ⟨a, ha, has⟩ := List.mem_filterMap.mp h
  cases a with
  | left s' id' t =>
    cases has
    exact ⟨t, ha⟩
  | _ => cases has

theorem mem_told_iff : out ∈ hs.told s ↔ ∃ id, .left s id (some out) ∈ hs := by
  rw [told, List.mem_filterMap]
  constructor
  · rintro ⟨a, ha, has⟩
    cases a with
    | left s' id t =>
      simp only [Option.ite_none_right_eq_some] at has
      obtain ⟨rfl, rfl⟩ := has
      exact ⟨id, ha⟩
    | _ => cases has
  · rintro ⟨id, h⟩
    exact ⟨_, h, if_pos rfl⟩

theorem length_told_le_count (s : UInt64) (hs : History) :
    (hs.told s).length ≤ (hs.left.map (·.1)).count s := by
  induction hs with
  | nil => exact Nat.le_refl 0
  | cons a hs ih =>
    cases a with
    | left s' id t =>
      by_cases h : s' = s
      · subst h
        cases t with
        | none => simpa [told, left] using Nat.le_succ_of_le ih
        | some out => simpa [told, left] using ih
      · simpa [told, left, h] using ih
    | _ => exact ih

/-- A number that leaves once is settled once. -/
theorem length_told_le (hn : (hs.left.map (·.1)).Nodup) : (hs.told s).length ≤ 1 :=
  Nat.le_trans (length_told_le_count s hs) (List.nodup_iff_count_le_one.mp hn s)

theorem Unheard.append (h : Unheard codec p hs) (later : History)
    (hl : ∀ f, .took f ∈ later → ∀ hd, f.readHeader codec = .ok hd → hd.seq ≠ p.1) :
    Unheard codec p (later ++ hs) := by
  obtain ⟨mid, past, rfl, hmid⟩ := h
  refine ⟨later ++ mid, past, by rw [List.append_assoc], fun f hf => ?_⟩
  rcases List.mem_append.mp hf with hf | hf
  · exact hl f hf
  · exact hmid f hf

theorem Answered.append (h : Answered codec p out hs) (later : History) :
    Answered codec p out (later ++ hs) := by
  obtain ⟨later', f, hd, past, rfl, h⟩ := h
  exact ⟨later ++ later', f, hd, past, by rw [List.append_assoc], h⟩

end History

variable {c c' : Client} {e : Event} {l : Log} {hs : History} {x y : Call} {id : Nat} {f : Frame} {h : Header}
  {p : UInt64 × Nat}

/-- The entries that an event takes out of the table. -/
def gone (c : Client) (e : Event) (c' : Client) : List (UInt64 × Nat) :=
  (c.pending ++ c.entering e).filter fun p => !c'.pending.contains p

/-- What an event that makes `c'` of `c` adds to the history. -/
def record (c : Client) (e : Event) (c' : Client) (hs : History) : History :=
  ((c.gone e c').map fun p => .left p.1 p.2 (c'.outcome? p.2)) ++
    ((c.taking e).map .took ++ ((c.entering e).map (fun p => .entered p.1 p.2) ++ hs))

/-- The history of a client after more events. -/
def historyFrom (c : Client) (hs : History) : List Event → History
  | [] => hs
  | e :: es =>
    match c.step e with
    | none => historyFrom c hs es
    | some c' => historyFrom c' (c.record e c' hs) es

/-- The history of a client. -/
def history (o : Options) (es : List Event) : History := historyFrom (start o) [] es

/-! ### What is recorded -/

theorem entered_record : (c.record e c' hs).entered = c.entering e ++ hs.entered := by
  simp [record, History.entered, List.filterMap_append, List.filterMap_map]

theorem left_record : (c.record e c' hs).left = c.gone e c' ++ hs.left := by
  simp [record, History.left, List.filterMap_append, List.filterMap_map]

theorem mem_record {s : UInt64} {t : Option (Except Fault Bytes)} (hm : .left s id t ∈ c.record e c' hs) :
    ((s, id) ∈ c.gone e c' ∧ t = c'.outcome? id) ∨ .left s id t ∈ hs := by
  simp only [record, List.mem_append, List.mem_map] at hm
  rcases hm with ⟨q, hq, hl⟩ | ⟨f, -, hl⟩ | ⟨q, -, hl⟩ | hm
  · cases hl
    exact .inl ⟨hq, rfl⟩
  · cases hl
  · cases hl
  · exact .inr hm

/-- What is added tells of no frame but the one that was taken. -/
theorem record_eq_append (c : Client) (e : Event) (c' : Client) (hs : History) :
    ∃ new, c.record e c' hs = new ++ hs ∧ ∀ f, .took f ∈ new → f ∈ c.taking e := by
  refine ⟨((c.gone e c').map fun p => .left p.1 p.2 (c'.outcome? p.2)) ++
    ((c.taking e).map .took ++ (c.entering e).map fun p => .entered p.1 p.2), ?_, fun f hf => ?_⟩
  · simp only [record, List.append_assoc]
  · simpa using hf

theorem booked_note (c : Client) (e : Event) (l : Log) :
    (l.note c e).booked = (({} : Log).note c e).booked ++ l.booked := by
  cases e with
  | register id =>
    simp only [Log.note]
    split
    · split <;> rfl
    · rfl
  | post id =>
    simp only [Log.note]
    split
    · split <;> rfl
    · rfl
  | read =>
    simp only [Log.note]
    split <;> rfl
  | _ => rfl

theorem length_booked (c : Client) (e : Event) (l : Log) :
    (l.note c e).booked.length = (c.entering e).length + l.booked.length := by
  rw [booked_note, List.length_append, entering, List.length_map]

theorem taking_cases (hf : f ∈ c.taking e) :
    e = .read ∧ c.buffer.next.1 = .ok (some f) ∧ c.taking e = [f] := by
  cases e with
  | read =>
    refine ⟨rfl, ?_⟩
    simp only [taking, Log.note] at hf ⊢
    split at hf
    · rename_i g hn
      obtain rfl := List.mem_singleton.mp hf
      exact ⟨hn, rfl⟩
    · cases hf
  | register id =>
    simp only [taking, Log.note] at hf
    split at hf
    · split at hf <;> cases hf
    · cases hf
  | post id =>
    simp only [taking, Log.note] at hf
    split at hf
    · split at hf <;> cases hf
    · cases hf
  | _ => cases hf

theorem entering_cases (hp : p ∈ c.entering e) :
    e = .register p.2 ∧ c.entering e = [p] ∧ ∃ x body, c.call? p.2 = some x ∧ x.phase = .waiting body := by
  cases e with
  | register id =>
    simp only [entering, Log.note] at hp ⊢
    split at hp
    · rename_i id' target seq body out hx
      split at hp
      · cases hp
      · rename_i hc
        obtain rfl := List.mem_singleton.mp hp
        exact ⟨rfl, by simp [hc], _, body, hx, rfl⟩
    · cases hp
  | read =>
    simp only [entering, Log.note] at hp
    split at hp <;> cases hp
  | post id =>
    simp only [entering, Log.note] at hp
    split at hp
    · split at hp <;> cases hp
    · cases hp
  | _ => cases hp

theorem entering_eq_nil (he : ∀ id, e ≠ .register id) : c.entering e = [] := by
  refine List.eq_nil_iff_forall_not_mem.mpr fun p hp => ?_
  exact he p.2 (entering_cases hp).1

/-! ### The table -/

theorem exists_pending_eq (hs : Step c e c') :
    ∃ q : UInt64 × Nat → Bool, c'.pending = (c.pending ++ c.entering e).filter q := by
  have hstay : ∀ d : Client, d.pending = c.pending → c.entering e = [] →
      ∃ q : UInt64 × Nat → Bool, d.pending = (c.pending ++ c.entering e).filter q := by
    intro d hd he
    exact ⟨fun _ => true, by rw [List.filter_true, he, List.append_nil, hd]⟩
  have hdrop : ∀ (d : Client) (q : UInt64 × Nat → Bool), d.pending = c.pending.filter q →
      c.entering e = [] → ∃ q : UInt64 × Nat → Bool, d.pending = (c.pending ++ c.entering e).filter q := by
    intro d q hd he
    exact ⟨q, by rw [he, List.append_nil, hd]⟩
  have hclear : ∀ d : Client, d.pending = [] →
      ∃ q : UInt64 × Nat → Bool, d.pending = (c.pending ++ c.entering e).filter q := by
    intro d hd
    exact ⟨fun _ => false, by rw [List.filter_false, hd]⟩
  cases hs with
  | begin _ | close | receive _ | hangUp | lose | release _ _ _ | write _ | post _ _ _ =>
    exact hstay _ rfl (entering_eq_nil (by simp))
  | abandon _ => exact hdrop _ _ rfl (entering_eq_nil (by simp))
  | @register id x body hx hp _ =>
    rw [entering_register hx hp]
    rcases enter_cases c id x.target body with ⟨hc, he⟩ | ⟨hc, he⟩
    · rw [he, if_pos hc, List.append_nil]
      exact ⟨fun _ => true, (List.filter_true _).symm⟩
    · rw [he, if_neg hc]
      exact ⟨fun _ => true, (List.filter_true _).symm⟩
  | unsent _ _ _ =>
    rw [withdraw]
    split
    · exact hdrop _ _ rfl (entering_eq_nil (by simp))
    · exact hstay _ rfl (entering_eq_nil (by simp))
  | deliver _ _ _ =>
    rw [Client.deliver]
    split
    · exact hstay _ rfl (entering_eq_nil (by simp))
    · exact hdrop _ _ rfl (entering_eq_nil (by simp))
  | endReading _ _ | stop _ _ | watch _ => exact hclear _ rfl

theorem mem_of_pending (hs : Step c e c') (hp : p ∈ c'.pending) : p ∈ c.pending ∨ p ∈ c.entering e := by
  obtain ⟨q, hq⟩ := exists_pending_eq hs
  rw [hq] at hp
  exact List.mem_append.mp (List.mem_filter.mp hp).1

/-- **What was in the table or is entered either leaves or is there afterwards.** -/
theorem gone_perm (hs : Step c e c') : (c.gone e c' ++ c'.pending).Perm (c.pending ++ c.entering e) := by
  obtain ⟨q, hq⟩ := exists_pending_eq hs
  have hgone : c.gone e c' = (c.pending ++ c.entering e).filter fun p => !q p := by
    refine List.filter_congr fun p hp => ?_
    have hmem : c'.pending.contains p = q p := by
      rw [hq, Bool.eq_iff_iff, List.contains_iff_mem, List.mem_filter]
      exact and_iff_right hp
    rw [hmem]
  rw [hgone, hq]
  exact List.perm_append_comm.trans (List.filter_append_perm q _)

theorem mem_gone (hp : p ∈ c.gone e c') : p ∈ c.pending ∨ p ∈ c.entering e :=
  List.mem_append.mp (List.mem_filter.mp hp).1

theorem pending_of_taking (hs : Step c e c') (hf : f ∈ c.taking e)
    (hr : f.readHeader c.options.codec = .ok h) :
    c'.pending = c.pending.filter (·.1 != h.seq) := by
  obtain ⟨rfl, hn, -⟩ := taking_cases hf
  cases hs with
  | @deliver g b hd _ hn' hr' =>
    rw [hn'] at hn
    cases hn
    cases hr.symm.trans hr'
    rw [Client.deliver]
    split
    · rename_i hl
      refine (List.filter_eq_self.mpr fun p hp => ?_).symm
      rw [bne_iff_ne]
      exact fun hp' => absurd (List.lookup_eq_none_iff.mp hl p hp) (by simp [hp'])
    · rfl
  | endReading _ hn' =>
    rcases hn' with ⟨why, hn'⟩ | ⟨hn', -⟩ | ⟨g, why, hn', hr'⟩
    · rw [hn'] at hn
      cases hn
    · rw [hn'] at hn
      cases hn
    · rw [hn'] at hn
      cases hn
      cases hr.symm.trans hr'

/-- The entry of the number of a frame is the only one that the frame removes. -/
theorem gone_of_taking (hs : Step c e c') (hn : (c.pending.map (·.1)).Nodup) (hf : f ∈ c.taking e)
    (hr : f.readHeader c.options.codec = .ok h) (hp : p ∈ c.pending) (hseq : p.1 = h.seq) :
    c.gone e c' = [p] := by
  obtain ⟨rfl, -, -⟩ := taking_cases hf
  have hnone : c.entering .read = [] := entering_eq_nil nofun
  -- numbers in the table are distinct, so what goes is `p` alone
  have hmem : ∀ q, q ∈ c.gone .read c' ↔ q = p := by
    intro q
    rw [gone, hnone, List.append_nil, pending_of_taking hs hf hr, List.mem_filter]
    constructor
    · rintro ⟨hq, hqn⟩
      have hqs : q.1 = h.seq := by simpa [hq] using hqn
      exact List.inj_on_of_nodup_map hn hq hp (hqs.trans hseq.symm)
    · rintro rfl
      exact ⟨hp, by simp [hseq]⟩
  have hnodup : (c.gone .read c').Nodup := by
    rw [gone, hnone, List.append_nil]
    exact hn.of_map.filter _
  refine List.perm_singleton.mp ((List.perm_ext_iff_of_nodup hnodup (List.nodup_singleton p)).mpr ?_)
  simpa using hmem

/-- **The accounts balance after every event.** -/
theorem accounts_record (hstep : Step c e c') (ha : (hs.left ++ c.pending).Perm hs.entered) :
    ((c.record e c' hs).left ++ c'.pending).Perm (c.record e c' hs).entered := by
  rw [left_record, entered_record]
  calc List.Perm (c.gone e c' ++ hs.left ++ c'.pending) (hs.left ++ c.gone e c' ++ c'.pending) :=
      List.perm_append_comm.append_right _
    List.Perm _ (hs.left ++ (c.pending ++ c.entering e)) := by
      rw [List.append_assoc]
      exact (gone_perm hstep).append_left _
    List.Perm _ (hs.entered ++ c.entering e) := by
      rw [← List.append_assoc]
      exact ha.append_right _
    List.Perm _ (c.entering e ++ hs.entered) := List.perm_append_comm

/-! ### Every run -/

/-- **What holds before some events with a history, and after every one of them, holds
after all.** -/
theorem historyFrom_keeps {P : Client → History → Prop}
    (hstep : ∀ c e c' hs, Step c e c' → P c hs → P c' (c.record e c' hs)) (hc : P c hs) (es : List Event) :
    P (es.foldl apply c) (historyFrom c hs es) := by
  induction es generalizing c hs with
  | nil => exact hc
  | cons e es ih =>
    rw [List.foldl_cons, historyFrom, apply]
    cases hs' : c.step e with
    | none => exact ih hc
    | some c' => exact ih (hstep c e c' hs (.of_step hs') hc)

end Client
end Callwire
