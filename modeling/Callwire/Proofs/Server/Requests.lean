/-
# What the requests of a stream ask for

A stream asks for a codec in its first line, and then for calls. What its requests are
depends on the codec and on the bytes after the line; the timeouts in the line make no
difference. A request asks for a call if its method is there and its argument can be
read. The calls in the journal of a connection are those that the requests taken so far
ask for, and when there is nothing more to do these are all requests of the stream.

Key definitions: `Options.gist?`, `Config.requests`, `Registry.assign?`,
`Connection.asked`.
Key theorems: `Options.gist?_start`, `Server.jobs_perm`, `Server.asked_at_rest`.
-/
import Callwire.Proofs.Connection.Isolation
import Callwire.Proofs.Handshake
import Callwire.Proofs.Server.Chronicle

namespace Callwire

variable {σ : Type}

/-! ### Streams -/

namespace Options

/-- The options that a stream opens with, and what follows. -/
def opening? (input : Bytes) : Option (Options × Bytes) :=
  match ({ limit := 0, unread := input } : Frame.Buffer).takeLine lineLimit with
  | (.ok (some line), b) =>
    match parse line with
    | .ok o => some (o, b.unread)
    | .error _ => none
  | _ => none

theorem opening?_eq_some_iff {input rest : Bytes} {o : Options} :
    opening? input = some (o, rest) ↔ Opens input o rest := by
  unfold opening?
  constructor
  · intro h
    split at h
    · rename_i line b ht
      split at h
      · rename_i o' hp
        cases h
        exact Connection.opens_of_takeLine ht hp
      · cases h
    · cases h
  · rintro ⟨line, rfl, hn, hl, hp⟩
    let b : Frame.Buffer := { limit := 0, unread := line ++ 0x0a :: rest }
    have hall : b.unread ++ [] = line ++ 0x0a :: rest := List.append_nil _
    obtain ⟨u, ht, hu⟩ | ⟨-, hfree⟩ := Stream.takeLine_front hn hl hall
    · rw [List.append_nil] at hu
      simp only [b] at ht
      simp only [ht, hp, hu]
    · simp [b] at hfree

/-- What the requests of a stream depend on: the codec that it asks for, and what follows
the options. The timeouts do not count. -/
def gist? (input : Bytes) : Option (Codec × Bytes) :=
  (opening? input).map fun p => (p.1.codec, p.2)

/-- Whatever timeouts a client asks for, what it says afterwards is the same. -/
theorem gist?_start (o : Options) (rest : Bytes) :
    gist? ((Client.start o).outbox.wire ++ rest) = some (o.codec, rest) := by
  have hopens := opens_line (o := { o with magic := magicNumber }) rfl rest
  rw [gist?, Client.start, opening?_eq_some_iff.mpr hopens]
  rfl

end Options

/-- The requests that a stream has for a server: all frames up to the first that cannot be
read. A server that cannot have its bounds takes none. -/
def Server.Config.requests (k : Server.Config) (g : Codec × Bytes) : List (Codec × Frame) :=
  if k.Sound then (Frame.readable g.1 (Frame.parse k.maxBody g.2).1).map (Prod.mk g.1) else []

/-- The call that a request asks for, if its method is there and its argument can be read. -/
def Registry.assign? (r : Registry σ) (q : Codec × Frame) : Option (Invocation σ) :=
  match q.2.readHeader q.1 with
  | .error _ => none
  | .ok h => (r.assign q.1 h.target q.2.body).toOption

/-- The calls that requests became. -/
def Journal.jobs (xs : List (Exchange σ)) : List (Invocation σ) := xs.filterMap (·.job)

/-! ### Requests that were taken -/

namespace Connection

variable {now : Nat} {r r' reg : Registry σ} {c c' : Connection σ} {e : Event} {k : Server.Config}
  {j : Journal σ} {o : Option (Journal σ)}

/-- The requests that were taken so far. -/
def asked (c : Connection σ) (o : Option (Journal σ)) : List (Codec × Frame) :=
  match c.terms?, o with
  | some terms, some j => (Journal.requests j.exchanges).map (Prod.mk terms.codec)
  | _, _ => []

/-- The calls in a journal, if there is one. -/
def jobsOf (o : Option (Journal σ)) : List (Invocation σ) :=
  o.elim [] fun j => Journal.jobs j.exchanges

/-- The gist of the stream that came. -/
def gistOf? (o : Option (Journal σ)) : Option (Codec × Bytes) := o.bind fun j => Options.gist? j.input

/-- Each request became the call that it asks for, if there is one. -/
def Faithful (reg : Registry σ) (c : Connection σ) (j : Journal σ) : Prop :=
  ∀ terms, c.terms? = some terms → ∀ x ∈ j.exchanges,
    x.job = (reg.assign terms.codec x.header.target x.request.body).toOption

theorem job_begin (hp : r.plan = reg.plan) (terms : Terms) (c : Connection σ) (f : Frame) (h : Header) :
    let x := Exchange.begin terms r c f h
    x.job = (reg.assign terms.codec x.header.target x.request.body).toOption := by
  intro x
  have hg := assign_of_invoke hp terms.codec h.target f.body
  cases hi : r.invoke terms.codec h.target f.body with
  | ok q =>
    have hx : x = { request := f, header := h, job := some q.1 } := by simp only [x, Exchange.begin, hi]
    rw [hx]
    simp only [hg, hi, Except.map, Except.toOption]
  | error why =>
    have hx : x.job = none ∧ x.header = h ∧ x.request = f := by simp only [x, Exchange.begin, hi, and_self]
    rw [hx.1, hx.2.1, hx.2.2, hg, hi]
    rfl

theorem Faithful.step (h : Step now r c e c' r') (hp : r.plan = reg.plan) (hk : Kept reg k c j)
    (hf : Faithful reg c j) : Faithful reg c' (j.note r c e c') := by
  intro terms hs
  have hterms : ∀ t, c.terms? = some t → t = terms := fun t ht =>
    Option.some.inj ((terms?_step h ht).symm.trans hs)
  refine forall_note (fun t f hd ht _ => ?_) (fun _ _ hx => hx) (fun _ _ _ _ _ _ hx => hx) ?_
  · rw [← hterms t ht]
    exact job_begin hp t c' f hd
  · cases hbefore : c.terms? with
    | none =>
      rw [(hk.unserved hbefore).exchanges]
      exact List.forall_mem_nil _
    | some t =>
      rw [← hterms t hbefore]
      exact hf t hbefore

theorem Kept.jobs_perm (hk : Kept reg k c j) (hf : Faithful reg c j) :
    (Journal.jobs j.exchanges).Perm ((c.asked (some j)).filterMap reg.assign?) := by
  cases hs : c.terms? with
  | none =>
    rw [(hk.unserved hs).exchanges]
    simp [Journal.jobs, asked, hs]
  | some terms =>
    have hserved := hk.served hs
    have hone : ∀ x ∈ j.exchanges, reg.assign? (terms.codec, x.request) = x.job := by
      intro x hx
      rw [hf terms hs x hx, Registry.assign?, hserved.accounts.read x hx]
    have hall : (c.asked (some j)).filterMap reg.assign? = Journal.jobs j.exchanges.reverse := by
      simp only [asked, hs, Journal.requests, List.map_map, List.filterMap_map]
      exact List.filterMap_congr fun x hx => hone x (List.mem_reverse.mp hx)
    rw [hall]
    exact (j.exchanges.reverse_perm.filterMap _).symm

end Connection

/-! ### In every run -/

namespace Server

variable {k : Config} {reg : Registry σ} {as : List Act} {c : Connection σ} {o : Option (Journal σ)}

/-- In every run a connection that serves has bounds that it can have, and each request
became the call that it asks for. -/
theorem faithful_of_mem_chronicle (hx : (c, o) ∈ (chronicle k reg as).entries) :
    (c.terms? ≠ none → k.Sound) ∧ ∀ j, o = some j → c.Faithful reg j := by
  refine ((chronicle_keeps (k := k) (P := fun _ c o => Connection.Known reg k c o ∧
    (c.terms? ≠ none → k.Sound) ∧ ∀ j, o = some j → c.Faithful reg j) ?_ ?_ ?_ ?_ as).2.2 (c, o) hx).2
  · intro now tunnelled
    refine ⟨Connection.known_fresh reg k tunnelled, fun hs => ?_, fun j hj => ?_⟩
    · cases tunnelled <;> exact absurd rfl hs
    · cases tunnelled <;> cases hj
      exact fun _ _ => List.forall_mem_nil _
  · exact fun _ _ _ _ _ h => h
  · rintro now r r' c c' o e hp hstep ⟨hk, hs, hf⟩
    have hk' := hk.step hstep hp
    have h := Connection.Step.of_step hstep
    cases o with
    | some j =>
      refine ⟨hk', Connection.sound_step h hk hs, fun j' hj => ?_⟩
      obtain rfl : j.note r c e c' = j' := Option.some.inj hj
      exact (hf j rfl).step h hp hk
    | none =>
      have hnone : c'.terms? = none := by
        simp only [Journal.watch] at hk'
        split at hk'
        · rename_i hst
          simp only [Connection.terms?, hst]
        · have ht : c'.Tunnelling k := hk'
          rcases ht.stage with ⟨hd, hst⟩ | hst <;> simp only [Connection.terms?, hst]
      refine ⟨hk', fun hs' => absurd hnone hs', fun j _ terms hs' => ?_⟩
      rw [hnone] at hs'
      cases hs'
  · rintro now c o n ⟨hk, hs, hf⟩
    exact ⟨hk.collect n, hs, hf⟩

/-- **The calls in the journals are those that the requests ask for.** -/
theorem jobs_perm (hx : (c, o) ∈ (chronicle k reg as).entries) :
    (Connection.jobsOf o).Perm ((c.asked o).filterMap reg.assign?) := by
  have hk := known_of_mem_chronicle hx
  cases o with
  | none =>
    have hnil : c.asked none = [] := by
      unfold Connection.asked
      split <;> trivial
    rw [hnil]
    exact .refl _
  | some j => exact Connection.Kept.jobs_perm hk ((faithful_of_mem_chronicle hx).2 j rfl)

/-- **When there is nothing more to do, all requests of the stream were taken.** -/
theorem asked_at_rest (hx : (c, o) ∈ (chronicle k reg as).entries) (hrest : c.AtRest) :
    c.asked o = (Connection.gistOf? o).elim [] k.requests := by
  have hk := known_of_mem_chronicle hx
  obtain ⟨hsound, -⟩ := faithful_of_mem_chronicle hx
  cases o with
  | none =>
    unfold Connection.asked
    split <;> trivial
  | some j =>
    have hkept : Connection.Kept reg k c j := hk
    cases hs : c.terms? with
    | some terms =>
      have hserved := hkept.served hs
      obtain ⟨i, hst⟩ := Connection.exists_serving hs
      obtain ⟨o', rest, hopens, rfl, -⟩ := hserved.heard
      have hreqs := hrest.requests hst hserved hopens
      simp only [Connection.asked, hs, hreqs, Connection.gistOf?, Option.bind_some, Options.gist?,
        Options.opening?_eq_some_iff.mpr hopens, Option.map_some, Option.elim_some, Config.requests]
      rw [if_pos (hsound (by simp [hs]))]
    | none =>
      have hnil : c.asked (some j) = [] := by simp only [Connection.asked, hs]
      rw [hnil]
      cases hg : Options.opening? j.input with
      | none => simp [Connection.gistOf?, Options.gist?, hg]
      | some q =>
        have hopens := Options.opening?_eq_some_iff.mp hg
        have hnot : ¬ k.Sound := fun hk' => by
          rw [hrest.terms? hkept hk' hopens] at hs
          cases hs
        simp [Connection.gistOf?, Options.gist?, hg, Config.requests, if_neg hnot]

end Server
end Callwire
