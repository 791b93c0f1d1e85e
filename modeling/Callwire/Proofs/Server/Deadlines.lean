/-
# Handlers against budgets

A handler and the budget of its connection run against each other from the moment the
call gets its permit. If time does not pass while something has to happen, the one that
is over first decides the call, at that moment; the answer is handed over at that moment
too, and nothing is ever handed over for the call again. How long the call waited for its
permit is no matter, and neither is what else happens on the connection or on others.

Nothing keeps time from passing so: whatever has to happen at a moment comes to an end.
The clock of a server, which jumps to the next timer when nothing else can happen, passes
no such moment either.

Key definitions: `Server.attend`, `Server.Prompt`, `Server.RoomFor`, `Server.Attended`,
`Server.Watched`.
Key theorems: `Server.Watched.step`, `Server.watched`, `Server.prompt_extends`,
`Connection.still_of_next?`, `Server.first_over_decides`.
-/
import Callwire.Proofs.Connection.Courses
import Callwire.Proofs.Server.Permits

namespace Callwire

variable {σ : Type}

/-! ### Runs -/

namespace Server

/-- The courses of the calls of a connection after an event of its server. -/
def noteCourses (i : Nat) (s : Server σ) (e : Event) (s' : Server σ) (xs : List (Course σ)) :
    List (Course σ) :=
  match e with
  | .connection k ce =>
    if k = i then
      match s.connections[i]?, s'.connections[i]? with
      | some c, some c' => Course.note s.now s.registry c ce c' xs
      | _, _ => xs
    else xs
  | _ => xs

/-- A server and the courses of the calls of one of its connections after an event, if it
can happen. -/
def watchCourses (i : Nat) (p : Server σ × List (Course σ)) (e : Event) : Server σ × List (Course σ) :=
  match p.1.step e with
  | some s => (s, noteCourses i p.1 e s p.2)
  | none => p

/-- A server after some events, and the courses of the calls of a connection that comes,
through a tunnel or not. Events that cannot happen do nothing. -/
def attend (s : Server σ) (tunnelled : Bool) (es : List Event) : Server σ × List (Course σ) :=
  es.foldl (watchCourses s.connections.length) (s.arrive tunnelled, [])

/-- Time passes only while nothing has to happen to a call of the connection. -/
def Prompt (s : Server σ) (tunnelled : Bool) (es : List Event) : Prop :=
  ∀ as n bs, es = as ++ .tick n :: bs → ∀ c,
    (s.attend tunnelled as).1.connections[s.connections.length]? = some c →
    ∀ m < n, c.Still ((s.attend tunnelled as).1.now + m) (s.attend tunnelled as).1.registry

/-- The answer of a call finds room whenever it waits. -/
def RoomFor (s : Server σ) (tunnelled : Bool) (es : List Event) (x : Course σ) : Prop :=
  ∀ as bs, es = as ++ bs → ∀ c,
    (s.attend tunnelled as).1.connections[s.connections.length]? = some c → x.Roomy c

/-- The handler of the call started when its request got a permit. -/
def Began (s : Server σ) (tunnelled : Bool) (es : List Event) (x : Course σ) : Prop :=
  ∃ as bs c terms, es = as ++ .connection s.connections.length .start :: bs ∧
    (s.attend tunnelled as).1.connections[s.connections.length]? = some c ∧
    c.stage = .serving terms (.parked x.call.header x.call.job) ∧ c.permits ≠ 0 ∧
    (s.attend tunnelled as).1.now = x.began

/-- The handler of the call acted at a time, on the services as they were then, and gave
the outcome. -/
def Acted (s : Server σ) (tunnelled : Bool) (es : List Event) (x : Course σ) (m : Nat) (o : Outcome) :
    Prop :=
  ∃ as bs, es = as ++ .connection s.connections.length (.finish x.call.ticket) :: bs ∧
    (s.attend tunnelled as).1.now = m ∧ o = ((s.attend tunnelled as).1.registry.act x.call.job).1

variable {s s' : Server σ} {i : Nat} {tunnelled : Bool} {es : List Event} {c : Connection σ} {e : Event}
  {xs : List (Course σ)}

theorem fst_watchCourses (i : Nat) (p : Server σ × List (Course σ)) (e : Event) :
    (watchCourses i p e).1 = p.1.apply e := by
  rw [watchCourses, apply]
  cases p.1.step e <;> rfl

theorem attend_concat (s : Server σ) (tunnelled : Bool) (es : List Event) (e : Event) :
    s.attend tunnelled (es ++ [e]) = watchCourses s.connections.length (s.attend tunnelled es) e := by
  rw [attend, attend, List.foldl_append]
  rfl

theorem fst_attend (s : Server σ) (tunnelled : Bool) (es : List Event) :
    (s.attend tunnelled es).1 = es.foldl apply (s.arrive tunnelled) := by
  induction es using List.reverseRecOn with
  | nil => rfl
  | append_singleton es e ih => rw [attend_concat, fst_watchCourses, ih, List.foldl_append]; rfl

/-- An event of a server lets time pass, or does something to the connection, or neither. -/
theorem watchCourses_cases (h : s.step e = some s') (hc : s.connections[i]? = some c)
    (xs : List (Course σ)) :
    (∃ n, e = .tick n ∧ s'.now = s.now + n ∧ s'.connections[i]? = some c ∧
        noteCourses i s e s' xs = xs) ∨
      ((∀ n, e ≠ .tick n) ∧ s'.now = s.now ∧ s'.connections[i]? = some c ∧
        noteCourses i s e s' xs = xs) ∨
      ∃ ce c', e = .connection i ce ∧ c.step s.now s.registry ce = some (c', s'.registry) ∧
        s'.now = s.now ∧ s'.connections[i]? = some c' ∧
        noteCourses i s e s' xs = Course.note s.now s.registry c ce c' xs := by
  obtain ⟨-, ⟨hne, hc', -⟩ | ⟨ce, c', hce, rfl, hc', -⟩⟩ := observe_cases (j := {}) h hc
  · cases e with
    | tick n =>
      cases h
      exact .inl ⟨n, rfl, rfl, hc', rfl⟩
    | arrive _ =>
      cases h
      exact .inr (.inl ⟨nofun, rfl, hc', rfl⟩)
    | connection k ce =>
      have hk : k ≠ i := fun he => hne ce (by rw [he])
      obtain ⟨d, -, h⟩ := Option.bind_eq_some_iff.mp h
      obtain ⟨p, -, h⟩ := Option.bind_eq_some_iff.mp h
      cases h
      exact .inr (.inl ⟨nofun, rfl, hc', by simp [noteCourses, hk]⟩)
  · have hnow : s'.now = s.now := by
      obtain ⟨d, -, h⟩ := Option.bind_eq_some_iff.mp h
      obtain ⟨p, -, h⟩ := Option.bind_eq_some_iff.mp h
      cases h
      rfl
    exact .inr (.inr ⟨ce, c', rfl, hce, hnow, hc', by simp [noteCourses, hc, hc']⟩)

theorem Prompt.front {es : List Event} {e : Event} (h : s.Prompt tunnelled (es ++ [e])) :
    s.Prompt tunnelled es := by
  rintro as n bs rfl
  exact h as n (bs ++ [e]) (by simp)

theorem RoomFor.front {x y : Course σ} (h : s.RoomFor tunnelled (es ++ [e]) y) (hy : y.call = x.call) :
    s.RoomFor tunnelled es x := by
  rintro as bs rfl c hc
  have hroom := h as (bs ++ [e]) (by simp) c hc
  rwa [Course.Roomy, hy] at hroom

theorem Began.concat {x y : Course σ} (h : s.Began tunnelled es x) (e : Event)
    (hy : y.call = x.call ∧ y.began = x.began) : s.Began tunnelled (es ++ [e]) y := by
  obtain ⟨as, bs, c, terms, rfl, h⟩ := h
  rw [← hy.1, ← hy.2] at h
  exact ⟨as, bs ++ [e], c, terms, by simp, h⟩

theorem Acted.concat {x y : Course σ} {m : Nat} {o : Outcome} (h : s.Acted tunnelled es x m o) (e : Event)
    (hy : y.call = x.call) : s.Acted tunnelled (es ++ [e]) y m o := by
  obtain ⟨as, bs, rfl, h⟩ := h
  rw [← hy] at h ⊢
  exact ⟨as, bs ++ [e], by simp, h⟩

end Server

namespace Server

variable {s s' : Server σ} {i : Nat} {tunnelled : Bool} {es : List Event} {c : Connection σ} {e : Event}
  {xs : List (Course σ)}

/-- What holds of the course of a call in every run: it began with a permit, what decided
it is what its handler gave, and if the run is prompt and there is room for the answer, the
call is in time. -/
structure Attended (s : Server σ) (tunnelled : Bool) (es : List Event) (terms : Terms)
    (c : Connection σ) (x : Course σ) : Prop where
  set : x.Set terms c
  began : s.Began tunnelled es x
  acted : ∀ m o, (m, .returned o) ∈ x.decided → s.Acted tunnelled es x m o
  phase : s.Prompt tunnelled es → s.RoomFor tunnelled es x →
    x.Phase terms (s.attend tunnelled es).1.now c

theorem Attended.concat {terms : Terms} {c c' : Connection σ} {x y : Course σ}
    (hx : s.Attended tunnelled es terms c x) (e : Event) (ht : c.tickets ≤ c'.tickets)
    (hy : y.call = x.call ∧ y.began = x.began)
    (ha : ∀ m o, (m, .returned o) ∈ y.decided →
      (m, .returned o) ∈ x.decided ∨ s.Acted tunnelled (es ++ [e]) y m o)
    (hp : s.Prompt tunnelled (es ++ [e]) → s.RoomFor tunnelled es x →
      x.Phase terms (s.attend tunnelled es).1.now c →
      y.Phase terms (s.attend tunnelled (es ++ [e])).1.now c') :
    s.Attended tunnelled (es ++ [e]) terms c' y where
  set := hx.set.keep ht hy
  began := hx.began.concat e hy
  acted m o hm := (ha m o hm).elim (fun h => (hx.acted m o h).concat e hy.1) id
  phase hprompt hroom := hp hprompt (hroom.front hy.1) (hx.phase hprompt.front (hroom.front hy.1))

/-- What holds of a connection and its courses in every run: each ticket has one course,
and every call is attended to. -/
structure Watched (s : Server σ) (tunnelled : Bool) (es : List Event) (c : Connection σ) : Prop where
  here : (s.attend tunnelled es).1.connections[s.connections.length]? = some c
  staffed : c.Staffed (max 1 s.config.maxCalls)
  tickets : (s.attend tunnelled es).2.map (·.call.ticket) = List.range c.tickets
  covers : ∀ call ∈ c.running, ∃ x ∈ (s.attend tunnelled es).2, x.call = call
  unheard : c.terms? = none → (s.attend tunnelled es).2 = []
  calls : ∀ terms, c.terms? = some terms → ∀ x ∈ (s.attend tunnelled es).2,
    s.Attended tunnelled es terms c x

/-- What happens beside the connection changes nothing there, if it lets no time pass that
its calls cannot wait. -/
theorem Watched.beside (h : s.Watched tunnelled es c)
    (hcat : s.attend tunnelled (es ++ [e]) = (s', (s.attend tunnelled es).2))
    (hc : s'.connections[s.connections.length]? = some c)
    (hwait : ∀ terms (x : Course σ), c.terms? = some terms → s.Prompt tunnelled (es ++ [e]) → x.Roomy c →
      x.Phase terms (s.attend tunnelled es).1.now c → x.Phase terms s'.now c) :
    s.Watched tunnelled (es ++ [e]) c := by
  refine ⟨by rw [hcat]; exact hc, h.staffed, by rw [hcat]; exact h.tickets, by rw [hcat]; exact h.covers,
    by rw [hcat]; exact h.unheard, fun terms hs x hx => ?_⟩
  rw [hcat] at hx
  refine (h.calls terms hs x hx).concat e (Nat.le_refl _) ⟨rfl, rfl⟩ (fun _ _ => .inl)
    fun hprompt hroom hphase => ?_
  rw [hcat]
  exact hwait terms x hs hprompt (hroom es [] (by simp) c h.here) hphase

/-- A call of the connection stays attended to over an event there. -/
theorem Watched.attended_update {c' : Connection σ} {r' : Registry σ} {ce : Connection.Event}
    {terms : Terms} {x : Course σ} (h : s.Watched tunnelled es c)
    (hstep : Connection.Step (s.attend tunnelled es).1.now (s.attend tunnelled es).1.registry c ce c' r')
    (hnow : (s.attend tunnelled (es ++ [.connection s.connections.length ce])).1.now =
      (s.attend tunnelled es).1.now)
    (hs : c.terms? = some terms) (hx : x ∈ (s.attend tunnelled es).2) :
    s.Attended tunnelled (es ++ [.connection s.connections.length ce]) terms c'
      (x.update (s.attend tunnelled es).1.now (s.attend tunnelled es).1.registry c ce) := by
  have hx' := h.calls terms hs x hx
  have hsame := x.update_same (s.attend tunnelled es).1.now (s.attend tunnelled es).1.registry c ce
  refine hx'.concat _ (hstep.shift h.staffed.unfinished.nodup).tickets_le hsame (fun m o hm => ?_)
    fun _ hroom hphase => ?_
  · rcases Course.returned_update hm with hm | ⟨rfl, rfl, call, hcall, rfl⟩
    · exact .inl hm
    · obtain ⟨hrun, hticket⟩ := Connection.mem_of_call? hcall
      obtain ⟨z, hz, rfl⟩ := h.covers call hrun
      obtain rfl := Course.eq_of_ticket h.tickets hz hx hticket
      exact .inr ⟨es, [], by rw [hsame.1], rfl, by rw [hsame.1]⟩
  · rw [hnow]
    exact hphase.step hstep hs h.staffed.holders.nodup hx'.set.issued (hroom es [] (by simp) c h.here)

/-- **An event of the connection** leaves every call attended to. -/
theorem Watched.step {c' : Connection σ} {ce : Connection.Event} (h : s.Watched tunnelled es c)
    (hstep : Connection.Step (s.attend tunnelled es).1.now (s.attend tunnelled es).1.registry c ce c'
      s'.registry)
    (hnow : s'.now = (s.attend tunnelled es).1.now)
    (hcat : s.attend tunnelled (es ++ [.connection s.connections.length ce]) =
      (s', Course.note (s.attend tunnelled es).1.now (s.attend tunnelled es).1.registry c ce c'
        (s.attend tunnelled es).2))
    (hc : s'.connections[s.connections.length]? = some c') :
    s.Watched tunnelled (es ++ [.connection s.connections.length ce]) c' := by
  have hterms : ∀ terms, c.terms? = some terms → c'.terms? = some terms :=
    fun terms hs => Connection.terms?_step hstep hs
  refine ⟨by rw [hcat]; exact hc, h.staffed.step hstep,
    by rw [hcat]; exact Course.tickets_note hstep h.tickets,
    by rw [hcat]; exact Course.covers_note hstep h.covers, fun hs' => ?_, fun terms hs' y hy => ?_⟩
  · have hs : c.terms? = none := Option.eq_none_iff_forall_ne_some.mpr fun terms hs => by
      rw [hterms terms hs] at hs'
      cases hs'
    rw [hcat]
    refine List.eq_nil_iff_forall_not_mem.mpr fun y hy => ?_
    rcases Course.mem_note hstep hy with ⟨x, hx, -⟩ | ⟨-, -, -, -, terms, hst, -⟩
    · rw [h.unheard hs] at hx
      cases hx
    · simp [Connection.terms?, hst] at hs
  · rw [hcat] at hy
    rcases Course.mem_note hstep hy with ⟨x, hx, rfl⟩ | ⟨rfl, hp, hb, hnew, terms', hst, hset, hphase⟩
    · have hs : c.terms? = some terms := by
        cases hs : c.terms? with
        | none =>
          rw [h.unheard hs] at hx
          cases hx
        | some terms' => exact (hterms terms' hs).symm.trans hs'
      exact h.attended_update hstep (by rw [hcat, hnow]) hs hx
    · have hs : c.terms? = some terms' := by simp [Connection.terms?, hst]
      obtain rfl := Option.some.inj ((hterms terms' hs).symm.trans hs')
      refine ⟨hset, ⟨es, [], c, terms', rfl, h.here, hst, hp, hb.symm⟩, fun m o hm => ?_, fun _ _ => ?_⟩
      · rw [hnew] at hm
        cases hm
      · rw [hcat, hnow]
        exact hphase

/-- **In every run** each ticket of the connection has one course, and every call is
attended to. -/
theorem watched (s : Server σ) (tunnelled : Bool) (es : List Event) : ∃ c, s.Watched tunnelled es c := by
  induction es using List.reverseRecOn with
  | nil =>
    exact ⟨_, List.getElem?_concat_length, Connection.staffed_fresh _ _ _ _, rfl, nofun, fun _ => rfl,
      fun _ _ _ hx => by cases hx⟩
  | append_singleton es e ih =>
    obtain ⟨c, h⟩ := ih
    have hcat := attend_concat s tunnelled es e
    rw [watchCourses] at hcat
    cases hstep : (s.attend tunnelled es).1.step e with
    | none =>
      simp only [hstep] at hcat
      exact ⟨c, h.beside hcat h.here fun _ _ _ _ _ hphase => hphase⟩
    | some s' =>
      simp only [hstep] at hcat
      obtain ⟨n, rfl, hnow, hc, hn⟩ | ⟨hne, hnow, hc, hn⟩ | ⟨ce, c', rfl, hce, hnow, hc, hn⟩ :=
        watchCourses_cases hstep h.here (s.attend tunnelled es).2
      · rw [hn] at hcat
        refine ⟨c, h.beside hcat hc fun terms x hs hprompt hroom hphase => ?_⟩
        rw [hnow]
        exact hphase.wait hs h.staffed.holders.nodup hroom (hprompt es n [] rfl c h.here)
      · rw [hn] at hcat
        exact ⟨c, h.beside hcat hc fun _ _ _ _ _ hphase => hnow ▸ hphase⟩
      · rw [hn] at hcat
        exact ⟨c', h.step (Connection.Step.of_step hce) hnow hcat hc⟩

/-! ### Time can pass -/

theorem Prompt.concat (hp : s.Prompt tunnelled es) (e : Event)
    (he : ∀ n, e = .tick n → ∀ c, (s.attend tunnelled es).1.connections[s.connections.length]? = some c →
      ∀ m < n, c.Still ((s.attend tunnelled es).1.now + m) (s.attend tunnelled es).1.registry) :
    s.Prompt tunnelled (es ++ [e]) := by
  intro as n bs h
  rcases List.eq_nil_or_concat bs with rfl | ⟨bs, b, rfl⟩
  · obtain ⟨rfl, he'⟩ := List.append_inj' h rfl
    exact he n (by simpa using he')
  · have hsplit : es ++ [e] = (as ++ .tick n :: bs) ++ [b] := by simpa using h
    obtain ⟨rfl, -⟩ := List.append_inj' hsplit rfl
    exact hp as n bs rfl

/-- What has to happen at a moment comes to an end. -/
theorem exists_still (hp : s.Prompt tunnelled es)
    (hc : (s.attend tunnelled es).1.connections[s.connections.length]? = some c) :
    ∃ more c', s.Prompt tunnelled (es ++ more) ∧
      (s.attend tunnelled (es ++ more)).1.now = (s.attend tunnelled es).1.now ∧
      (s.attend tunnelled (es ++ more)).1.connections[s.connections.length]? = some c' ∧
      c'.Still (s.attend tunnelled (es ++ more)).1.now (s.attend tunnelled (es ++ more)).1.registry := by
  induction c using Connection.wellFounded_follows.induction generalizing es with
  | _ c ih =>
    by_cases hstill : c.Still (s.attend tunnelled es).1.now (s.attend tunnelled es).1.registry
    · exact ⟨[], c, by simpa using hp, by simp, by simpa using hc, by simpa using hstill⟩
    · -- one of these events can happen, and there is less to do after it
      obtain ⟨ce, c', r', hown, hce⟩ : ∃ ce c' r', Connection.Event.isOwn ce = true ∧
          c.step (s.attend tunnelled es).1.now (s.attend tunnelled es).1.registry ce = some (c', r') := by
        by_contra hno
        push Not at hno
        refine hstill fun t => ⟨?_, ?_, ?_⟩ <;>
          exact Option.eq_none_iff_forall_ne_some.mpr fun p hs => hno _ p.1 p.2 rfl hs
      have hstep : (s.attend tunnelled es).1.step (.connection s.connections.length ce) =
          some ((s.attend tunnelled es).1.put s.connections.length (c', r')) := by
        simp [step, hc, hce]
      have hcat := attend_concat s tunnelled es (.connection s.connections.length ce)
      simp only [watchCourses, hstep] at hcat
      have hget : ((s.attend tunnelled es).1.put s.connections.length
          (c', r')).connections[s.connections.length]? = some c' := by
        rw [put, List.getElem?_set_self (List.getElem?_eq_some_iff.mp hc).1]
      obtain ⟨more, d, hprompt, hnow, hd, hstill'⟩ := ih c' ⟨_, _, _, ce, hown, hce⟩
        (hp.concat (.connection s.connections.length ce) fun n he => by cases he) (by rw [hcat]; exact hget)
      refine ⟨.connection s.connections.length ce :: more, d, ?_⟩
      rw [List.append_cons]
      refine ⟨hprompt, hnow.trans ?_, hd, hstill'⟩
      rw [hcat]
      rfl

/-- **Time can always pass promptly.** -/
theorem prompt_extends (hp : s.Prompt tunnelled es) (t : Nat) :
    ∃ more, s.Prompt tunnelled (es ++ more) ∧ t ≤ (s.attend tunnelled (es ++ more)).1.now := by
  induction t with
  | zero => exact ⟨[], by simpa using hp, Nat.zero_le _⟩
  | succ t ih =>
    obtain ⟨more, hprompt, hle⟩ := ih
    obtain ⟨c, hwatched⟩ := watched s tunnelled (es ++ more)
    obtain ⟨last, d, hprompt', hnow, hd, hstill⟩ := exists_still hprompt hwatched.here
    refine ⟨more ++ last ++ [.tick 1], ?_, ?_⟩
    · rw [← List.append_assoc, ← List.append_assoc]
      refine hprompt'.concat _ fun n he c' hc' m hm => ?_
      cases he
      obtain rfl := Option.some.inj (hd.symm.trans hc')
      obtain rfl : m = 0 := by omega
      exact hstill
    · rw [← List.append_assoc, ← List.append_assoc, attend_concat]
      show t + 1 ≤ (s.attend tunnelled (es ++ more ++ last)).1.now + 1
      omega

end Server

namespace Connection

variable {now n t : Nat} {r : Registry σ} {c : Connection σ}

theorem step_eq_none_of_next? (h : c.next? now r = none) {e : Event} (he : e ∈ c.candidates now) :
    c.step now r e = none :=
  List.findSome?_eq_none_iff.mp h e he

/-- A handler acts, or a call is given up, for a call that runs. -/
theorem exists_call_of_step {p : Connection σ × Registry σ}
    (h : c.step now r (.finish t) = some p ∨ c.step now r (.expire t) = some p) :
    ∃ terms call, c.terms? = some terms ∧ call ∈ c.running ∧ call.ticket = t ∧
      call? call.ticket c.running = some call := by
  obtain ⟨c', r'⟩ := p
  rcases h with h | h
  · cases Step.of_step h with
    | @finish terms _ _ call hst hc _ =>
      obtain ⟨hm, rfl⟩ := mem_of_call? hc
      exact ⟨terms, call, by simp [terms?, hst], hm, rfl, hc⟩
  · cases Step.of_step h with
    | @expire terms _ _ call hst hc _ =>
      obtain ⟨hm, rfl⟩ := mem_of_call? hc
      exact ⟨terms, call, by simp [terms?, hst], hm, rfl, hc⟩

/-- **A clock that jumps to the next timer passes no moment at which something has to
happen**, if nothing can happen before it jumps. -/
theorem still_of_next? (h : c.next? now r = none)
    (ht : ∀ τ ∈ c.timers, now < τ → now + n ≤ τ) : ∀ m < n, c.Still (now + m) r := by
  have hdue : ∀ {m τ}, m < n → τ ∈ c.timers → τ ≤ now + m → τ ≤ now := by
    intro m τ hm hτ hle
    by_contra hlt
    have := ht τ hτ (by omega)
    omega
  intro m hm t
  refine ⟨Option.eq_none_iff_forall_ne_some.mpr fun p hp => ?_,
    Option.eq_none_iff_forall_ne_some.mpr fun p hp => ?_,
    Option.eq_none_iff_forall_ne_some.mpr fun p hp => ?_⟩
  · obtain ⟨terms, call, hs, hc, rfl, hcall⟩ := exists_call_of_step (.inl hp)
    have hle := hdue hm (by
      simp only [timers, List.mem_append, List.mem_map]
      exact .inl (.inl ⟨call, hc, rfl⟩))
      ((isSome_finish_iff hs hcall).mp (by rw [hp]; rfl))
    have hnone := step_eq_none_of_next? h (e := .finish call.ticket) (by
      simp only [candidates, List.mem_append, List.mem_map, List.mem_filter]
      exact .inl (.inl (.inl (.inl (.inl (.inr ⟨call, ⟨hc, by simpa using hle⟩, rfl⟩))))))
    have hsome : (c.step now r (.finish call.ticket)).isSome := (isSome_finish_iff hs hcall).mpr hle
    rw [hnone] at hsome
    cases hsome
  · obtain ⟨terms, call, hs, hc, rfl, hcall⟩ := exists_call_of_step (.inr hp)
    obtain ⟨d, hd, hle⟩ := (isSome_expire_iff hs hcall).mp (by rw [hp]; rfl)
    have hle := hdue hm (by
      simp only [timers, List.mem_append, List.mem_filterMap]
      exact .inl (.inr ⟨call, hc, hd⟩)) hle
    have hnone := step_eq_none_of_next? h (e := .expire call.ticket) (by
      simp only [candidates, List.mem_append, List.mem_map, List.mem_filter]
      exact .inl (.inl (.inl (.inl (.inr ⟨call, ⟨hc, by simpa [hd] using hle⟩, rfl⟩)))))
    have hsome : (c.step now r (.expire call.ticket)).isSome :=
      (isSome_expire_iff hs hcall).mpr ⟨d, hd, hle⟩
    rw [hnone] at hsome
    cases hsome
  · obtain ⟨f, hl⟩ : ∃ f, c.answered.lookup t = some f := by
      obtain ⟨c', r'⟩ := p
      cases Step.of_step hp with
      | post ha _ | discard ha _ => exact ⟨_, ha⟩
    obtain ⟨as, bs, hsplit, -⟩ := List.lookup_eq_some_iff.mp hl
    have hnone := step_eq_none_of_next? h (e := .post t) (by
      simp only [candidates, List.mem_append, List.mem_map]
      exact .inl (.inl (.inr ⟨(t, f), by rw [hsplit]; simp, rfl⟩)))
    have hsame : c.step now r (.post t) = c.step (now + m) r (.post t) := rfl
    rw [← hsame, hnone] at hp
    cases hp

end Connection

namespace Server

variable {s : Server σ} {tunnelled : Bool} {es : List Event}

/-- A server that does all it can before time passes, and lets none of the connection's
timers pass, is prompt. -/
theorem prompt_of_next? (h : ∀ as n bs, es = as ++ .tick n :: bs → ∀ c,
    (s.attend tunnelled as).1.connections[s.connections.length]? = some c →
    c.next? (s.attend tunnelled as).1.now (s.attend tunnelled as).1.registry = none ∧
      ∀ τ ∈ c.timers, (s.attend tunnelled as).1.now < τ → (s.attend tunnelled as).1.now + n ≤ τ) :
    s.Prompt tunnelled es := by
  intro as n bs he c hc
  obtain ⟨hnext, htimers⟩ := h as n bs he c hc
  exact Connection.still_of_next? hnext htimers

/-- **Handlers race their budget.** On every connection of every server, whatever else
happens, as long as time passes only while nothing has to happen there: each ticket that
was given out has one course, and it began when a request that waited got its permit. If
there is room for the answer of the call, then, without a budget or if the handler is
done first, the call is decided and answered the moment its handler is done, by what
the handler gave; and if the budget is over first, the call is decided and answered the
moment it is over, by the fault that names the budget. There is no answer before, and no
other one ever. -/
theorem first_over_decides (s : Server σ) (tunnelled : Bool) (es : List Event) (hp : s.Prompt tunnelled es) :
    let p := s.attend tunnelled es
    ∃ c, p.1.connections[s.connections.length]? = some c ∧
      p.2.map (·.call.ticket) = List.range c.tickets ∧
      ∀ x ∈ p.2, s.Began tunnelled es x ∧ (s.RoomFor tunnelled es x →
        ∃ terms, c.terms? = some terms ∧
          let wait := x.call.job.behaviour.wait.nanos
          let budget := terms.budget.nanos
          let complaint := x.call.header.withError
            ("rpc: request handle timeout: expect within " ++ terms.budget.text)
          (budget = 0 ∨ wait < budget →
            ∃ o, x.Answered terms.codec p.1.now (x.began + wait) (.returned o) ∧
              (x.began + wait < p.1.now → s.Acted tunnelled es x (x.began + wait) o)) ∧
          (0 < budget → budget < wait →
            x.Answered terms.codec p.1.now (x.began + budget) (.late terms.budget) ∧
            (complaint.HasRoom terms.codec → x.began + budget < p.1.now →
              ∃ f, x.handed = [(x.began + budget, f)] ∧ f.readHeader terms.codec = .ok complaint ∧
                f.body = terms.codec.unitBytes))) := by
  intro p
  obtain ⟨c, h⟩ := watched s tunnelled es
  refine ⟨c, h.here, h.tickets, fun x hx => ?_⟩
  cases hs : c.terms? with
  | none =>
    have hnil : p.2 = [] := h.unheard hs
    rw [hnil] at hx
    cases hx
  | some terms =>
    obtain ⟨hset, hbegan, hacted, hphase⟩ := h.calls terms hs x hx
    have hzero : terms.budget = .zero ↔ terms.budget.nanos = 0 := by
      rw [Duration.mk.injEq terms.budget.nanos 0 |>.symm]
      exact Iff.rfl
    refine ⟨hbegan, fun hroom => ⟨terms, rfl, fun hfirst => ?_, fun hpos hlt => ?_⟩⟩
    · have hd : ∀ d, x.call.deadline = some d → x.call.due < d := by
        intro d hd
        rw [hset.deadline] at hd
        split at hd
        · cases hd
        · rename_i hne
          rw [hzero] at hne
          obtain rfl := Option.some.inj hd
          rw [hset.due]
          omega
      obtain ⟨o, ho⟩ := (hphase hp hroom).returned hd
      rw [hset.due] at ho
      refine ⟨o, ho, fun hpast => hacted _ _ ?_⟩
      rw [(ho.after hpast).1]
      exact List.mem_singleton_self _
    · have hne : ¬ terms.budget = .zero := fun hz => by
        rw [hzero] at hz
        omega
      have hdl : x.call.deadline = some (x.began + terms.budget.nanos) := by
        rw [hset.deadline, if_neg hne]
      have hlate := (hphase hp hroom).late hdl (by rw [hset.due]; omega)
      refine ⟨hlate, fun hroomy hpast => ?_⟩
      exact hlate.told hpast hroomy

end Server

namespace Sample

/-- A server with room for one call at a time. -/
def narrowServer : Server Receiver := { config := narrow, registry := sleepRegistry }

/-- Events of the first connection. -/
def onFirst (es : List Connection.Event) : List Server.Event := es.map (.connection 0)

/-- A request that takes a second and one that takes ten milliseconds come together, to be
answered within fifty milliseconds each. The second one gets the permit of the first when
that is too late. -/
def raceRun : List Server.Event :=
  onFirst [.receive (hurried.line ++ (sleepRequest 1 1000).toBytes ++ (sleepRequest 2 10).toBytes),
    .read, .read, .start, .read] ++
  .tick 50000000 :: onFirst [.expire 0, .post 0, .start, .write .take, .write (.write 94)] ++
  .tick 10000000 :: onFirst [.finish 1, .post 1, .write .take, .write (.write 46)] ++
  [.tick 1]

/-- That server after the first events of the run. -/
def raceServer (k : Nat) : Server Receiver := (narrowServer.attend false (raceRun.take k)).1

/-- Before time passes there is nothing to do, and no timer is passed. -/
def calm (n : Nat) (s : Server Receiver) : Bool :=
  s.connections[0]?.all fun c => (c.next? s.now s.registry).isNone &&
    c.timers.all fun τ => decide (s.now < τ → s.now + n ≤ τ)

/-- What waits has room. -/
def roomy (s : Server Receiver) : Bool :=
  s.connections[0]?.all fun c => c.answered.all fun _ =>
    decide (c.outbox.state = .working ∧ c.outbox.queue.length < c.outbox.capacity)

theorem calm_raceServer : (List.range raceRun.length).all (fun k =>
    match raceRun[k]? with
    | some (.tick n) => calm n (raceServer k)
    | _ => true) = true := by
  decide +kernel

theorem roomy_raceServer :
    (List.range (raceRun.length + 1)).all (fun k => roomy (raceServer k)) = true := by
  decide +kernel

theorem prompt_raceRun : narrowServer.Prompt false raceRun := by
  refine Server.prompt_of_next? fun as n bs he c hc => ?_
  have htake : raceRun.take as.length = as := by rw [he, List.take_left]
  have hget : raceRun[as.length]? = some (.tick n) := by
    rw [he, List.getElem?_append_right (Nat.le_refl _)]
    simp
  have hlen : as.length < raceRun.length := by rw [he]; simp
  have hcalm := List.all_eq_true.mp calm_raceServer as.length (List.mem_range.mpr hlen)
  simp only [hget, calm, raceServer, htake] at hcalm
  rw [show (narrowServer.attend false as).1.connections[0]? = some c from hc] at hcalm
  simpa only [Option.all_some, Bool.and_eq_true, Option.isNone_iff_eq_none, List.all_eq_true,
    decide_eq_true_eq] using hcalm

theorem roomFor_raceRun (x : Course Receiver) : narrowServer.RoomFor false raceRun x := by
  rintro as bs he c hc f hf
  have htake : raceRun.take as.length = as := by rw [he, List.take_left]
  have hlen : as.length < raceRun.length + 1 := by
    rw [he, List.length_append]
    omega
  have hroomy := List.all_eq_true.mp roomy_raceServer as.length (List.mem_range.mpr hlen)
  simp only [roomy, raceServer, htake] at hroomy
  rw [show (narrowServer.attend false as).1.connections[0]? = some c from hc, Option.all_some,
    List.all_eq_true] at hroomy
  have hroom := of_decide_eq_true (hroomy _ hf)
  exact ⟨{ c.outbox with queue := c.outbox.queue ++ [f] },
    by rw [Outbox.send, if_neg (by simpa using hroom.1), if_pos hroom.2]⟩

end Sample

namespace Server

/-- The first call is given up after fifty milliseconds; the second starts then, and is
answered ten milliseconds later. -/
theorem first_over_decides_narrow :
    let p := Sample.narrowServer.attend false Sample.raceRun
    ∃ x ∈ p.2, ∃ y ∈ p.2, x.began = 0 ∧ y.began = 50000000 ∧
      (∃ f, x.handed = [(50000000, f)] ∧ f.readHeader .messagePack =
        .ok ⟨"Foo.Sleep", 1, "rpc: request handle timeout: expect within 50ms"⟩) ∧
      ∃ o, y.decided = [(60000000, .returned o)] := by
  intro p
  obtain ⟨c, hc, -, hall⟩ := first_over_decides Sample.narrowServer false Sample.raceRun Sample.prompt_raceRun
  have hterms : c.terms? = some ⟨.messagePack, .ofMillis 50⟩ := by
    have h : (p.1.connections[0]?.bind (·.terms?)) = some ⟨.messagePack, .ofMillis 50⟩ := by
      decide +kernel
    rwa [show p.1.connections[0]? = some c from hc] at h
  have hnow : p.1.now = 60000001 := by decide +kernel
  have hfirst : p.2.head?.any (fun x => x.began == 0 && x.call.job.behaviour.wait == .ofMillis 1000 &&
      x.call.header == ⟨"Foo.Sleep", 1, ""⟩) = true := by decide +kernel
  have hlast : p.2.getLast?.any (fun x => x.began == 50000000 &&
      x.call.job.behaviour.wait == .ofMillis 10) = true := by decide +kernel
  obtain ⟨x, hx, hfirst⟩ := (Option.any_eq_true _ _).mp hfirst
  obtain ⟨y, hy, hlast⟩ := (Option.any_eq_true _ _).mp hlast
  simp only [Bool.and_eq_true, beq_iff_eq] at hfirst hlast
  obtain ⟨⟨hxb, hxw⟩, hxh⟩ := hfirst
  obtain ⟨hyb, hyw⟩ := hlast
  have hxm := List.mem_of_head? hx
  have hym := List.mem_of_getLast? hy
  refine ⟨x, hxm, y, hym, hxb, hyb, ?_, ?_⟩
  · obtain ⟨terms, hs, -, hlate⟩ := (hall x hxm).2 (Sample.roomFor_raceRun x)
    obtain rfl := Option.some.inj (hs.symm.trans hterms)
    obtain ⟨-, htold⟩ := hlate (by decide) (by rw [hxw]; decide)
    obtain ⟨f, hf, hread, -⟩ := htold (by rw [hxh]; decide +kernel) (by
      rw [hxb]
      show 0 + 50000000 < p.1.now
      omega)
    rw [hxb] at hf
    rw [hxh] at hread
    exact ⟨f, hf, hread.trans (by decide +kernel)⟩
  · obtain ⟨terms, hs, hreturned, -⟩ := (hall y hym).2 (Sample.roomFor_raceRun y)
    obtain rfl := Option.some.inj (hs.symm.trans hterms)
    obtain ⟨o, ho, -⟩ := hreturned (.inr (by rw [hyw]; decide))
    rw [hyb, hyw] at ho
    exact ⟨o, (ho.after (by show 50000000 + 10000000 < p.1.now; omega)).1⟩

end Server
end Callwire
