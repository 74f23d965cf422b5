import DhtKad.Client

/-!
When `find_value` gives up.

The loop ends with `NOT_FOUND` as soon as it has no candidate at its head,
however many queries are still in progress. The bookkeeping of a call
(`Books`) ties the counter `in_progress` to the tasks and the results that are
under way, so that a call that gives up with the counter at zero has heard
from every peer it queried. The counter is at zero exactly if no result was
received while the candidates had run out and another query was in progress
(`Premature`). A value that is under way is lost in one more case: an earlier
reply has an entry that does not decode, and the call panics (`Spoiled`).
Together these are all the ways to miss a value (`gaveUp_settled_iff`).
-/

namespace DhtKad.DHTClient

/-! ### The bookkeeping of a call -/

/-- Every query in progress is a task, a result in the channel or a dead task,
and every peer queried is one of these or has been heard from. -/
structure Books (l : Lookup) : Prop where
  count : l.inProgress = l.tasks.length + l.channel.length + l.dead.length
  queried : ∀ p, l.queried.count p = l.tasks.count p + (l.channel.map Prod.fst).count p +
    l.dead.count p + (l.received.map Prod.fst).count p

theorem books_initial (candidates : List Peer) : Books { candidates := candidates } :=
  ⟨rfl, by simp⟩

section Books

variable {l : Lookup} (h : Books l)
include h

theorem Books.send {p : Peer} (hp : p ∈ l.tasks) (r : Except IoError Message) :
    Books { l with tasks := l.tasks.erase p, channel := l.channel ++ [(p, r)] } := by
  have hpos := List.length_pos_of_mem hp
  refine ⟨?_, fun q => ?_⟩
  · have := h.count
    simp only [List.length_erase_of_mem hp, List.length_append, List.length_singleton]
    omega
  · have hq := h.queried q
    have hcount := List.count_pos_iff.mpr hp
    simp only [List.map_append, List.map_cons, List.map_nil, List.count_append,
      List.count_erase, List.count_singleton]
    by_cases hqp : q = p
    · subst hqp
      simp
      omega
    · simp [Ne.symm hqp]
      omega

theorem Books.die {p : Peer} (hp : p ∈ l.tasks) :
    Books { l with tasks := l.tasks.erase p, dead := l.dead ++ [p] } := by
  have hpos := List.length_pos_of_mem hp
  refine ⟨?_, fun q => ?_⟩
  · have := h.count
    simp only [List.length_erase_of_mem hp, List.length_append, List.length_singleton]
    omega
  · have hq := h.queried q
    have hcount := List.count_pos_iff.mpr hp
    simp only [List.count_append, List.count_erase, List.count_singleton]
    by_cases hqp : q = p
    · subst hqp
      simp
      omega
    · simp [Ne.symm hqp]
      omega

section Merge

variable {p : Peer} {r : Except IoError Message} {rest : List (Peer × Except IoError Message)}
  (hch : l.channel = (p, r) :: rest)
include hch

theorem Books.inProgress_ne_zero : l.inProgress ≠ 0 := by
  have := h.count
  simp only [hch, List.length_cons] at this
  omega

theorem Books.merge (new : List Peer) : Books (merge l p r rest new) := by
  refine ⟨?_, fun q => ?_⟩
  · have := h.count
    simp only [hch, List.length_cons] at this
    simp only [DHTClient.merge]
    omega
  · have hq := h.queried q
    simp only [hch, List.map_cons, List.count_cons] at hq
    simp only [DHTClient.merge, List.map_append, List.map_cons, List.map_nil,
      List.count_append, List.count_cons, List.count_nil]
    omega

end Merge

theorem Books.loopHead (client : DHTClient) (key : U128) :
    Books (client.loopHead key l).lookup := by
  by_cases hc : l.candidates = []
  · rwa [loopHead_of_nil client key hc]
  · rw [loopHead_of_ne_nil client key hc]
    refine ⟨?_, fun q => ?_⟩
    · have := h.count
      simp only [List.length_append]
      omega
    · have := h.queried q
      simp only [List.count_append]
      omega

end Books

theorem loopHead_frame (client : DHTClient) (key : U128) (l : Lookup) :
    (client.loopHead key l).lookup.channel = l.channel ∧
      (client.loopHead key l).lookup.received = l.received ∧
      (client.loopHead key l).lookup.dead = l.dead ∧
      ((client.loopHead key l).status = .awaiting ∨
        l.candidates = [] ∧ client.loopHead key l =
          { lookup := l, status := .returned (.error notFound) }) := by
  by_cases hc : l.candidates = []
  · rw [loopHead_of_nil client key hc]
    exact ⟨rfl, rfl, rfl, .inr ⟨hc, rfl⟩⟩
  · rw [loopHead_of_ne_nil client key hc]
    exact ⟨rfl, rfl, rfl, .inl rfl⟩

theorem discovered_isOk_iff {l : Lookup} {r : Except IoError Message} :
    (∃ new, discovered l r = .ok new) ↔
      ∀ resp, r = .ok resp → ∀ e ∈ resp.closerPeers, Decodes e := by
  cases r with
  | error e => simp [discovered]
  | ok resp =>
      have hmap : (∃ peers, resp.closerPeers.mapM protoPeerToPeer = .ok peers) ↔
          ∀ e ∈ resp.closerPeers, Decodes e := by
        rw [ExceptList.mapM_isOk_iff]
        exact forall₂_congr fun e _ => protoPeerToPeer_isOk_iff e
      simp only [Except.ok.injEq, forall_eq', ← hmap]
      constructor
      · rintro ⟨new, h⟩
        obtain ⟨peers, hpeers, -⟩ := ExceptList.bind_eq_ok_iff.mp h
        exact ⟨peers, hpeers⟩
      · rintro ⟨peers, hpeers⟩
        exact ⟨_, ExceptList.bind_eq_ok_iff.mpr ⟨peers, hpeers, rfl⟩⟩

theorem status_loopHead_ne (client : DHTClient) (key : U128) (l : Lookup) (v : Bytes) :
    (client.loopHead key l).status ≠ .returned (.ok v) := by
  obtain ⟨-, -, -, hawait | ⟨-, heq⟩⟩ := loopHead_frame client key l
  · rw [hawait]
    exact nofun
  · rw [heq]
    exact nofun

theorem status_loopHead_ne_panicked (client : DHTClient) (key : U128) (l : Lookup) (e : Panic) :
    (client.loopHead key l).status ≠ .panicked e := by
  obtain ⟨-, -, -, hawait | ⟨-, heq⟩⟩ := loopHead_frame client key l
  · rw [hawait]
    exact nofun
  · rw [heq]
    exact nofun

/-- One result is received next. -/
theorem channel_head_unique {l : Lookup} {p p' : Peer} {r r' : Except IoError Message}
    {rest rest' : List (Peer × Except IoError Message)} (h : l.channel = (p, r) :: rest)
    (h' : l.channel = (p', r') :: rest') : p = p' ∧ r = r' ∧ rest = rest' := by
  obtain ⟨hhead, htail⟩ := List.cons.inj (h.symm.trans h')
  obtain ⟨hp, hr⟩ := Prod.mk.inj hhead
  exact ⟨hp, hr, htail⟩

/-! ### The steps of a call -/

section Steps

variable {SocketAddr : Type} {parse : String → Option SocketAddr} {client : DHTClient}
  {key : U128}

/-- The three kinds of step, taken from a call that awaits. -/
inductive Stepped (parse : String → Option SocketAddr) (client : DHTClient) (key : U128)
    (l : Lookup) : Event → Call → Prop
  | sent (p : Peer) (r : Except IoError Message) (hp : p ∈ l.tasks)
      (hparse : (parse p.address).isSome) :
      Stepped parse client key l (.send p r)
        { lookup := { l with tasks := l.tasks.erase p, channel := l.channel ++ [(p, r)] }
          status := .awaiting }
  | died (p : Peer) (hp : p ∈ l.tasks) (hparse : (parse p.address).isNone) :
      Stepped parse client key l (.die p)
        { lookup := { l with tasks := l.tasks.erase p, dead := l.dead ++ [p] }
          status := .awaiting }
  | received (p : Peer) (r : Except IoError Message)
      (rest : List (Peer × Except IoError Message)) (hch : l.channel = (p, r) :: rest) :
      Stepped parse client key l .recv (client.turn key l p r rest)

theorem step_stepped {c c' : Call} {event : Event}
    (h : step parse client key c event = some c') :
    c.status = .awaiting ∧ Stepped parse client key c.lookup event c' := by
  obtain ⟨l, status⟩ := c
  cases status with
  | returned result => simp [step] at h
  | panicked e => simp [step] at h
  | awaiting =>
      refine ⟨rfl, ?_⟩
      cases event with
      | send p r =>
          simp only [step, Option.ite_none_right_eq_some] at h
          obtain ⟨⟨hp, hparse⟩, h⟩ := h
          obtain rfl := Option.some.inj h
          exact .sent p r hp hparse
      | die p =>
          simp only [step, Option.ite_none_right_eq_some] at h
          obtain ⟨⟨hp, hparse⟩, h⟩ := h
          obtain rfl := Option.some.inj h
          exact .died p hp hparse
      | recv =>
          cases hch : l.channel with
          | nil => simp [step, hch] at h
          | cons pr rest =>
              simp only [step, hch] at h
              obtain rfl := Option.some.inj h
              exact .received pr.1 pr.2 rest hch

/-- All that a step of a call can do while its books are in order: a turn of the
loop returns a value, panics, or leads back to the head. -/
inductive Advanced (parse : String → Option SocketAddr) (client : DHTClient) (key : U128)
    (l : Lookup) : Event → Call → Prop
  | sent (p : Peer) (r : Except IoError Message) (hp : p ∈ l.tasks)
      (hparse : (parse p.address).isSome) :
      Advanced parse client key l (.send p r)
        { lookup := { l with tasks := l.tasks.erase p, channel := l.channel ++ [(p, r)] }
          status := .awaiting }
  | died (p : Peer) (hp : p ∈ l.tasks) (hparse : (parse p.address).isNone) :
      Advanced parse client key l (.die p)
        { lookup := { l with tasks := l.tasks.erase p, dead := l.dead ++ [p] }
          status := .awaiting }
  | returned {p : Peer} {r : Except IoError Message} {v : Bytes}
      {rest : List (Peer × Except IoError Message)} (hch : l.channel = (p, r) :: rest)
      (hv : carriedValue r = some v) :
      Advanced parse client key l .recv
        { lookup := merge l p r rest [], status := .returned (.ok v) }
  | panicked {p : Peer} {r : Except IoError Message} {e : Panic}
      {rest : List (Peer × Except IoError Message)} (hch : l.channel = (p, r) :: rest)
      (hv : carriedValue r = none) (hd : discovered l r = .error e) :
      Advanced parse client key l .recv { lookup := l, status := .panicked e }
  | looped {p : Peer} {r : Except IoError Message} {new : List Peer}
      {rest : List (Peer × Except IoError Message)} (hch : l.channel = (p, r) :: rest)
      (hv : carriedValue r = none) (hd : discovered l r = .ok new) :
      Advanced parse client key l .recv (client.loopHead key (merge l p r rest new))

theorem Books.advanced {c c' : Call} {event : Event} (h : Books c.lookup)
    (hstep : step parse client key c event = some c') :
    c.status = .awaiting ∧ Advanced parse client key c.lookup event c' := by
  obtain ⟨hawait, hstepped⟩ := step_stepped hstep
  refine ⟨hawait, ?_⟩
  cases hstepped with
  | sent p r hp hparse => exact .sent p r hp hparse
  | died p hp hparse => exact .died p hp hparse
  | received p r rest hch =>
      rw [turn_eq client key (h.inProgress_ne_zero hch)]
      cases hv : carriedValue r with
      | some v => exact .returned hch hv
      | none =>
          cases hd : discovered c.lookup r with
          | error e => exact .panicked hch hv hd
          | ok new => exact .looped hch hv hd

/-- How the status of a call and the results it has received fit together: only
a call that returned a value has received one, and a call that panicked stands
at the result it could not decode. -/
def StatusInv (l : Lookup) : Status → Prop
  | .awaiting => ∀ pr ∈ l.received, carriedValue pr.2 = none
  | .returned (.ok _) => True
  | .returned (.error e) =>
      e = notFound ∧ l.candidates = [] ∧ ∀ pr ∈ l.received, carriedValue pr.2 = none
  | .panicked e =>
      ∃ p r rest, l.channel = (p, r) :: rest ∧ carriedValue r = none ∧
        discovered l r = .error e

structure CallInv (parse : String → Option SocketAddr) (c : Call) : Prop where
  books : Books c.lookup
  dead : ∀ p ∈ c.lookup.dead, (parse p.address).isNone
  status : StatusInv c.lookup c.status

theorem statusInv_loopHead (client : DHTClient) (key : U128) {l : Lookup}
    (h : ∀ pr ∈ l.received, carriedValue pr.2 = none) :
    StatusInv (client.loopHead key l).lookup (client.loopHead key l).status := by
  obtain ⟨-, hrec, -, hstatus | ⟨hc, heq⟩⟩ := loopHead_frame client key l
  · rw [hstatus]
    simpa [StatusInv, hrec] using h
  · rw [heq]
    exact ⟨rfl, hc, h⟩

theorem callInv_loopHead (client : DHTClient) (key : U128) {l : Lookup} (hbooks : Books l)
    (hdead : ∀ p ∈ l.dead, (parse p.address).isNone)
    (hrec : ∀ pr ∈ l.received, carriedValue pr.2 = none) :
    CallInv parse (client.loopHead key l) := by
  refine ⟨hbooks.loopHead client key, ?_, statusInv_loopHead client key hrec⟩
  rwa [(loopHead_frame client key l).2.2.1]

theorem callInv_start (parse : String → Option SocketAddr) (client : DHTClient) (key : U128)
    (candidates : List Peer) : CallInv parse (client.start key candidates) :=
  callInv_loopHead client key (books_initial candidates) (by simp) (by simp)

theorem callInv_hit (parse : String → Option SocketAddr) (v : Bytes) :
    CallInv parse { lookup := { candidates := [] }, status := .returned (.ok v) } :=
  ⟨books_initial [], by simp, trivial⟩

theorem CallInv.step {c c' : Call} {event : Event} (h : CallInv parse c)
    (hstep : step parse client key c event = some c') : CallInv parse c' := by
  obtain ⟨hawait, hadvanced⟩ := h.books.advanced hstep
  have hrec : ∀ pr ∈ c.lookup.received, carriedValue pr.2 = none := by
    have := h.status
    rwa [hawait] at this
  cases hadvanced with
  | sent p r hp hparse => exact ⟨h.books.send hp r, h.dead, hrec⟩
  | died p hp hparse =>
      refine ⟨h.books.die hp, ?_, hrec⟩
      intro q hq
      rcases List.mem_append.mp hq with hq | hq
      · exact h.dead q hq
      · rwa [List.mem_singleton.mp hq]
  | returned hch hv => exact ⟨h.books.merge hch [], h.dead, trivial⟩
  | panicked hch hv hd => exact ⟨h.books, h.dead, _, _, _, hch, hv, hd⟩
  | looped hch hv hd =>
      apply callInv_loopHead client key (h.books.merge hch _) h.dead
      intro pr hpr
      rcases List.mem_append.mp hpr with hpr | hpr
      · exact hrec pr hpr
      · rwa [List.mem_singleton.mp hpr]

/-- What holds of the results under way, and of those that are sent, holds of the
results under way after a step. -/
theorem Books.channel_step {c c' : Call} {event : Event} (h : Books c.lookup)
    {Q : Peer × Except IoError Message → Prop} (hchannel : ∀ pr ∈ c.lookup.channel, Q pr)
    (hsent : ∀ p r, event = .send p r → Q (p, r))
    (hstep : step parse client key c event = some c') : ∀ pr ∈ c'.lookup.channel, Q pr := by
  obtain ⟨-, hadvanced⟩ := h.advanced hstep
  cases hadvanced with
  | sent p r hp hparse =>
      intro pr hpr
      rcases List.mem_append.mp hpr with hpr | hpr
      · exact hchannel pr hpr
      · rw [List.mem_singleton.mp hpr]
        exact hsent p r rfl
  | died p hp hparse => exact hchannel
  | returned hch hv => exact fun pr hpr => hchannel pr (hch ▸ List.mem_cons_of_mem _ hpr)
  | panicked hch hv hd => exact hchannel
  | looped hch hv hd =>
      rw [(loopHead_frame client key _).1]
      exact fun pr hpr => hchannel pr (hch ▸ List.mem_cons_of_mem _ hpr)

theorem afterEvents_callInv {candidates : List Peer} {events : List Event} {c : Call}
    (h : afterEvents parse client key candidates events = some c) : CallInv parse c :=
  Run.run_invariant (fun _ _ _ hI hstep => CallInv.step hI hstep)
    (callInv_start parse client key candidates) h

end Steps

/-! ### Giving up -/

/-- The call has ended with `NOT_FOUND`. -/
def GaveUp (c : Call) : Prop := c.status = .returned (.error notFound)

instance (c : Call) : Decidable (GaveUp c) := inferInstanceAs (Decidable (_ = _))

/-- Nothing is left to try or to wait for, and every peer queried was heard
from, without a value. -/
structure Settled (l : Lookup) : Prop where
  candidates : l.candidates = []
  inProgress : l.inProgress = 0
  tasks : l.tasks = []
  channel : l.channel = []
  answered : ∀ p ∈ l.queried, ∃ r, (p, r) ∈ l.received
  valueless : ∀ pr ∈ l.received, carriedValue pr.2 = none

/-- The candidates have run out, another query is in progress, and the result
that is received next carries no value and brings no candidate. -/
def Premature (c : Call) : Event → Prop
  | .recv => c.lookup.candidates = [] ∧ 2 ≤ c.lookup.inProgress ∧
      ∃ p r rest, c.lookup.channel = (p, r) :: rest ∧ carriedValue r = none ∧
        discovered c.lookup r = .ok []
  | .send _ _ => False
  | .die _ => False

/-- The result that is received next has no value and an entry that does not
decode, while a peer that is alive and replies with a value is not heard from. -/
def Spoiled {SocketAddr : Type} (parse : String → Option SocketAddr)
    (reply : Peer → Except IoError Message) (c : Call) : Event → Prop
  | .recv =>
      (∃ p resp rest, c.lookup.channel = (p, .ok resp) :: rest ∧ resp.value = [] ∧
        ∃ e ∈ resp.closerPeers, ¬ Decodes e) ∧
      ∃ q, (parse q.address).isSome ∧ carriedValue (reply q) ≠ none ∧
        (q ∈ c.lookup.tasks ∨ (q, reply q) ∈ c.lookup.channel)
  | .send _ _ => False
  | .die _ => False

section GiveUp

variable {SocketAddr : Type} {parse : String → Option SocketAddr} {client : DHTClient}
  {key : U128} {c c' : Call} {event : Event}

theorem CallInv.settled (h : CallInv parse c) (hgave : GaveUp c)
    (hzero : c.lookup.inProgress = 0) : Settled c.lookup := by
  have hstatus := h.status
  rw [hgave] at hstatus
  obtain ⟨-, hc, hrec⟩ := hstatus
  have hcount := h.books.count
  have htasks : c.lookup.tasks = [] := List.eq_nil_of_length_eq_zero (by omega)
  have hch : c.lookup.channel = [] := List.eq_nil_of_length_eq_zero (by omega)
  have hdead : c.lookup.dead = [] := List.eq_nil_of_length_eq_zero (by omega)
  refine ⟨hc, hzero, htasks, hch, fun p hp => ?_, hrec⟩
  have hq := h.books.queried p
  have hpos := List.count_pos_iff.mpr hp
  have hmem : p ∈ c.lookup.received.map Prod.fst := by
    rw [← List.count_pos_iff]
    simp only [htasks, hch, hdead, List.map_nil, List.count_nil] at hq
    omega
  obtain ⟨⟨_, r⟩, hpr, rfl⟩ := List.mem_map.mp hmem
  exact ⟨r, hpr⟩

/-- A step that gives up has nothing in progress, unless it is premature. -/
theorem CallInv.inProgress_of_step (h : CallInv parse c)
    (hstep : DHTClient.step parse client key c event = some c')
    (hnot : ¬ Premature c event) (hgave : GaveUp c') : c'.lookup.inProgress = 0 := by
  obtain ⟨-, hadvanced⟩ := h.books.advanced hstep
  cases hadvanced with
  | sent p r hp hparse => cases hgave
  | died p hp hparse => cases hgave
  | returned hch hv => cases hgave
  | panicked hch hv hd => cases hgave
  | looped hch hv hd =>
      rename_i p r new rest
      obtain ⟨-, -, -, hawait | ⟨hc, heq⟩⟩ :=
        loopHead_frame client key (merge c.lookup p r rest new)
      · rw [GaveUp, hawait] at hgave
        cases hgave
      · obtain ⟨hnil, rfl⟩ := List.append_eq_nil_iff.mp hc
        rw [heq]
        simp only [merge]
        by_contra hne
        exact hnot ⟨hnil, by omega, p, r, rest, hch, hv, hd⟩

theorem CallInv.premature (h : CallInv parse c)
    (hstep : DHTClient.step parse client key c event = some c')
    (hpre : Premature c event) : GaveUp c' ∧ c'.lookup.inProgress ≠ 0 := by
  obtain ⟨-, hstepped⟩ := step_stepped hstep
  cases hstepped with
  | sent p r hp hparse => exact hpre.elim
  | died p hp hparse => exact hpre.elim
  | received p r rest hch =>
      obtain ⟨hc, htwo, p', r', rest', hch', hv, hd⟩ := hpre
      obtain ⟨rfl, rfl, rfl⟩ := channel_head_unique hch hch'
      rw [turn_eq client key (h.books.inProgress_ne_zero hch)]
      simp only [hv, hd]
      rw [loopHead_of_nil client key (by simp [merge, hc])]
      refine ⟨rfl, ?_⟩
      simp only [merge]
      omega

/-- A step leaves a call that has not given up with a query in progress exactly
if it is not premature. -/
theorem CallInv.inProgress_iff (h : CallInv parse c)
    (hstep : DHTClient.step parse client key c event = some c') :
    (GaveUp c' → c'.lookup.inProgress = 0) ↔ ¬ Premature c event := by
  refine ⟨fun hzero hpre => ?_, fun hnot => h.inProgress_of_step hstep hnot⟩
  obtain ⟨hgave, hne⟩ := h.premature hstep hpre
  exact hne (hzero hgave)

theorem inProgress_start (client : DHTClient) (key : U128) (candidates : List Peer)
    (hgave : GaveUp (client.start key candidates)) :
    (client.start key candidates).lookup.inProgress = 0 := by
  obtain ⟨-, -, -, hawait | ⟨-, heq⟩⟩ := loopHead_frame client key { candidates := candidates }
  · rw [GaveUp, start, hawait] at hgave
    cases hgave
  · rw [start, heq]

/-- The results under way and received are the replies of their peers. -/
def ResultsFrom (reply : Peer → Except IoError Message) (c : Call) : Prop :=
  ∀ pr ∈ c.lookup.channel ++ c.lookup.received, pr.2 = reply pr.1

theorem resultsFrom_loopHead {reply : Peer → Except IoError Message} (client : DHTClient)
    (key : U128) {l : Lookup} (h : ∀ pr ∈ l.channel ++ l.received, pr.2 = reply pr.1) :
    ResultsFrom reply (client.loopHead key l) := by
  obtain ⟨hchannel, hreceived, -, -⟩ := loopHead_frame client key l
  rwa [ResultsFrom, hchannel, hreceived]

theorem ResultsFrom.step {reply : Peer → Except IoError Message} (h : ResultsFrom reply c)
    (hinv : CallInv parse c) (hsent : ∀ p r, event = .send p r → r = reply p)
    (hstep : DHTClient.step parse client key c event = some c') : ResultsFrom reply c' := by
  have hmerge {p : Peer} {r : Except IoError Message}
      {rest : List (Peer × Except IoError Message)} (hch : c.lookup.channel = (p, r) :: rest) :
      ∀ pr ∈ rest ++ (c.lookup.received ++ [(p, r)]), pr.2 = reply pr.1 := by
    intro pr hpr
    apply h pr
    rw [hch]
    simp only [List.mem_append, List.mem_cons, List.not_mem_nil, or_false] at hpr ⊢
    tauto
  obtain ⟨-, hadvanced⟩ := hinv.books.advanced hstep
  cases hadvanced with
  | sent p r hp hparse =>
      intro pr hpr
      simp only [List.mem_append, List.mem_singleton] at hpr
      rcases hpr with (hpr | rfl) | hpr
      · exact h pr (List.mem_append_left _ hpr)
      · exact hsent p r rfl
      · exact h pr (List.mem_append_right _ hpr)
  | died p hp hparse => exact h
  | returned hch hv => exact hmerge hch
  | panicked hch hv hd => exact h
  | looped hch hv hd => exact resultsFrom_loopHead client key (hmerge hch)

/-- The reply of a queried peer that would carry a value: the call has returned
one, or the reply is still under way. -/
def Answered (reply : Peer → Except IoError Message) (p : Peer) (c : Call) : Prop :=
  (∃ v, c.status = .returned (.ok v)) ∨
    (c.status = .awaiting ∧ (p ∈ c.lookup.tasks ∨ (p, reply p) ∈ c.lookup.channel))

/-- A queried peer that is alive and not heard from has a result under way. -/
theorem CallInv.underWay (h : CallInv parse c) {p : Peer} (hp : p ∈ c.lookup.queried)
    (hparse : (parse p.address).isSome) (hreceived : ∀ r, (p, r) ∉ c.lookup.received) :
    p ∈ c.lookup.tasks ∨ ∃ r, (p, r) ∈ c.lookup.channel := by
  have hcount := h.books.queried p
  have hpos := List.count_pos_iff.mpr hp
  have hdead : c.lookup.dead.count p = 0 := by
    rw [List.count_eq_zero]
    intro hmem
    simp [Option.isNone_iff_eq_none.mp (h.dead p hmem)] at hparse
  have hzero : (c.lookup.received.map Prod.fst).count p = 0 := by
    rw [List.count_eq_zero]
    intro hmem
    obtain ⟨⟨_, r⟩, hpr, rfl⟩ := List.mem_map.mp hmem
    exact hreceived r hpr
  by_cases htask : p ∈ c.lookup.tasks
  · exact .inl htask
  · have hchannel : p ∈ c.lookup.channel.map Prod.fst := by
      rw [← List.count_pos_iff]
      rw [← List.count_eq_zero] at htask
      omega
    obtain ⟨⟨_, r⟩, hpr, rfl⟩ := List.mem_map.mp hchannel
    exact .inr ⟨r, hpr⟩

/-- The call has panicked before a peer that is alive answered with a value. -/
def CutShort (parse : String → Option SocketAddr) (reply : Peer → Except IoError Message)
    (c : Call) : Prop :=
  (∃ e, c.status = .panicked e) ∧
    ∃ p ∈ c.lookup.queried, (parse p.address).isSome ∧ carriedValue (reply p) ≠ none

section Replies

variable {reply : Peer → Except IoError Message}

/-- While the loop awaits, a peer that is alive and replies with a value is not
heard from. -/
theorem CallInv.underWay_iff (h : CallInv parse c) (hawait : c.status = .awaiting)
    (hresults : ResultsFrom reply c) {p : Peer} (hparse : (parse p.address).isSome)
    (hvalue : carriedValue (reply p) ≠ none) :
    p ∈ c.lookup.queried ↔ p ∈ c.lookup.tasks ∨ (p, reply p) ∈ c.lookup.channel := by
  have hq := h.books.queried p
  constructor
  · intro hp
    have hstatus := h.status
    rw [hawait] at hstatus
    refine (h.underWay hp hparse fun r hr => ?_).imp id ?_
    · have heq : r = reply p := hresults _ (List.mem_append_right _ hr)
      exact hvalue (heq ▸ hstatus _ hr)
    · rintro ⟨r, hr⟩
      have heq : r = reply p := hresults _ (List.mem_append_left _ hr)
      exact heq ▸ hr
  · intro hunder
    rw [← List.count_pos_iff]
    rcases hunder with htask | hchannel
    · have := List.count_pos_iff.mpr htask
      omega
    · have hmem : p ∈ c.lookup.channel.map Prod.fst := List.mem_map_of_mem hchannel
      have := List.count_pos_iff.mpr hmem
      omega

theorem CallInv.cutShort_iff (h : CallInv parse c) (hresults : ResultsFrom reply c)
    (hstep : DHTClient.step parse client key c event = some c') :
    CutShort parse reply c' ↔ Spoiled parse reply c event := by
  obtain ⟨hawait, hadvanced⟩ := h.books.advanced hstep
  have hunder (q : Peer) := h.underWay_iff hawait hresults (p := q)
  cases hadvanced with
  | sent p r hp hparse => exact iff_of_false (fun hcut => nomatch hcut.1) id
  | died p hp hparse => exact iff_of_false (fun hcut => nomatch hcut.1) id
  | returned hch hv =>
      refine iff_of_false (fun hcut => nomatch hcut.1) ?_
      rintro ⟨⟨p, resp, rest, hch', hvalue, -⟩, -⟩
      obtain ⟨rfl, rfl, rfl⟩ := channel_head_unique hch hch'
      simp [carriedValue, hvalue] at hv
  | panicked hch hv hd =>
      rename_i p r e rest
      have hbad : ∃ resp, r = .ok resp ∧ ∃ e ∈ resp.closerPeers, ¬ Decodes e := by
        by_contra hnone
        push Not at hnone
        obtain ⟨new, hnew⟩ := discovered_isOk_iff.mpr hnone
        rw [hd] at hnew
        cases hnew
      obtain ⟨resp, rfl, hbad⟩ := hbad
      have hvalue : resp.value = [] := by simpa [carriedValue] using hv
      constructor
      · rintro ⟨-, q, hq, hparse, hcarried⟩
        exact ⟨⟨p, resp, rest, hch, hvalue, hbad⟩, q, hparse, hcarried,
          (hunder q hparse hcarried).mp hq⟩
      · rintro ⟨-, q, hparse, hcarried, hway⟩
        exact ⟨⟨e, rfl⟩, q, (hunder q hparse hcarried).mpr hway, hparse, hcarried⟩
  | looped hch hv hd =>
      refine iff_of_false ?_ ?_
      · rintro ⟨⟨e, he⟩, -⟩
        exact status_loopHead_ne_panicked client key _ e he
      rintro ⟨⟨p, resp, rest, hch', -, e, he, hbad⟩, -⟩
      obtain ⟨rfl, rfl, rfl⟩ := channel_head_unique hch hch'
      exact hbad (discovered_isOk_iff.mp ⟨_, hd⟩ resp rfl e he)

/-- A call that gives up only when it has settled, and is not cut short, misses
no value. -/
theorem CallInv.answered_iff (h : CallInv parse c) (hsettled : GaveUp c → Settled c.lookup)
    (hresults : ResultsFrom reply c) :
    (∀ p ∈ c.lookup.queried, (parse p.address).isSome → carriedValue (reply p) ≠ none →
      Answered reply p c) ↔ ¬ CutShort parse reply c := by
  constructor
  · rintro hanswered ⟨⟨e, he⟩, p, hp, hparse, hvalue⟩
    rcases hanswered p hp hparse hvalue with ⟨v, hv⟩ | ⟨hawait, -⟩
    · cases he.symm.trans hv
    · cases he.symm.trans hawait
  · intro hnot p hp hparse hvalue
    cases hcase : c.status with
    | awaiting =>
        exact .inr ⟨hcase, (h.underWay_iff hcase hresults hparse hvalue).mp hp⟩
    | returned result =>
        cases result with
        | ok v => exact .inl ⟨v, hcase⟩
        | error e =>
            have hstatus := h.status
            rw [hcase] at hstatus
            obtain ⟨rfl, -, hrec⟩ := hstatus
            obtain ⟨r, hr⟩ := (hsettled hcase).answered p hp
            have heq : r = reply p := hresults _ (List.mem_append_right _ hr)
            exact absurd (hrec _ hr) (heq ▸ hvalue)
    | panicked e => exact absurd ⟨⟨e, hcase⟩, p, hp, hparse, hvalue⟩ hnot

/-- What a call that misses no value meets, as its steps decide it. -/
def Faultless (parse : String → Option SocketAddr) (reply : Peer → Except IoError Message)
    (c : Call) : Prop :=
  (GaveUp c → c.lookup.inProgress = 0) ∧ ¬ CutShort parse reply c

theorem faultless_of_awaiting (hawait : c.status = .awaiting) : Faultless parse reply c := by
  constructor
  · intro hgave
    cases hawait.symm.trans hgave
  · rintro ⟨⟨e, he⟩, -⟩
    cases hawait.symm.trans he

theorem faultless_start (client : DHTClient) (key : U128) (candidates : List Peer) :
    Faultless parse reply (client.start key candidates) := by
  refine ⟨inProgress_start client key candidates, ?_⟩
  rintro ⟨⟨e, he⟩, -⟩
  exact status_loopHead_ne_panicked client key _ e he

theorem CallInv.faultless_step (h : CallInv parse c) (hresults : ResultsFrom reply c)
    (hstep : DHTClient.step parse client key c event = some c') :
    Faultless parse reply c' ↔
      Faultless parse reply c ∧ ¬ Premature c event ∧ ¬ Spoiled parse reply c event := by
  obtain ⟨hawait, -⟩ := step_stepped hstep
  rw [and_iff_right (faultless_of_awaiting hawait)]
  exact and_congr (h.inProgress_iff hstep) (h.cutShort_iff hresults hstep).not

theorem CallInv.faultless_iff (h : CallInv parse c) (hresults : ResultsFrom reply c) :
    Faultless parse reply c ↔ (GaveUp c → Settled c.lookup) ∧
      ∀ p ∈ c.lookup.queried, (parse p.address).isSome → carriedValue (reply p) ≠ none →
        Answered reply p c := by
  constructor
  · rintro ⟨hzero, hnot⟩
    have hsettled : GaveUp c → Settled c.lookup := fun hgave => h.settled hgave (hzero hgave)
    exact ⟨hsettled, (h.answered_iff hsettled hresults).mpr hnot⟩
  · rintro ⟨hsettled, hanswered⟩
    exact ⟨fun hgave => (hsettled hgave).inProgress,
      (h.answered_iff hsettled hresults).mp hanswered⟩

end Replies

/-- **Giving up.** Whatever the peers reply and in whichever order: a call gives
up only when it has settled, and a reply that carries a value is not missed,
exactly if no result is received prematurely and none spoils the call. -/
theorem gaveUp_settled_iff (parse : String → Option SocketAddr) (client : DHTClient)
    (key : U128) (candidates : List Peer) (reply : Peer → Except IoError Message)
    (events : List Event) (hreply : ∀ p r, Event.send p r ∈ events → r = reply p) (c : Call)
    (hrun : afterEvents parse client key candidates events = some c) :
    ((GaveUp c → Settled c.lookup) ∧
        ∀ p ∈ c.lookup.queried, (parse p.address).isSome → carriedValue (reply p) ≠ none →
          Answered reply p c) ↔
      Run.Along (step parse client key)
        (fun c event => ¬ Premature c event ∧ ¬ Spoiled parse reply c event)
        (client.start key candidates) events := by
  let I (c : Call) : Prop := CallInv parse c ∧ ResultsFrom reply c
  let Sent (event : Event) : Prop := ∀ p r, event = Event.send p r → r = reply p
  have hstart : I (client.start key candidates) :=
    ⟨callInv_start parse client key candidates, resultsFrom_loopHead client key (by simp)⟩
  have hsent : ∀ event ∈ events, Sent event := by
    rintro event hevent p r rfl
    exact hreply p r hevent
  have hstep (s : Call) (event : Event) (t : Call) (hs : I s) (he : Sent event)
      (hst : step parse client key s event = some t) : I t :=
    ⟨hs.1.step hst, hs.2.step hs.1 he hst⟩
  have hend : I c := Run.run_invariant_along hstep hstart
    (Run.along_of_forall_mem (fun event hevent _ => hsent event hevent) _) hrun
  rw [← hend.1.faultless_iff hend.2, Run.run_iff_along_of_mem (D := Faultless parse reply)
    (fun s event t hs he hst => ⟨hstep s event t hs he hst, hs.1.faultless_step hs.2 hst⟩)
    hstart hsent hrun]
  exact and_iff_right (faultless_start client key candidates)

end GiveUp

/-! ### A value that is missed

Two peers are queried at once, and the nearer one fails first. -/

def pairClient : DHTClient := { alpha := 2, myself := { id := 0, address := "0.0.0.0:1" } }

def nearPeer : Peer := { id := 1, address := "0.0.0.0:2" }

def farPeer : Peer := { id := 2, address := "0.0.0.0:3" }

/-- Only the farther peer has the value. -/
def pairReply (p : Peer) : Except IoError Message :=
  if p = farPeer then .ok (createFindValueResponse (keyToBytes 0) [7])
  else .error { text := "connection refused" }

def nearFails : List Event := [.send nearPeer (pairReply nearPeer), .recv]

/-- The call after the failure: over, with the other query still running. -/
def missedCall : Call :=
  { lookup :=
      { candidates := []
        queried := [nearPeer, farPeer]
        inProgress := 1
        tasks := [farPeer]
        received := [(nearPeer, pairReply nearPeer)] }
    status := .returned (.error notFound) }

/-- The farther peer answers first. -/
def farAnswers : List Event := [.send farPeer (pairReply farPeer), .recv]

theorem pairReply_of_mem {events : List Event} (h : events = nearFails ∨ events = farAnswers)
    (p : Peer) (r : Except IoError Message) (hr : Event.send p r ∈ events) : r = pairReply p := by
  rcases h with rfl | rfl
  · simp only [nearFails, List.mem_cons, Event.send.injEq, reduceCtorEq, List.not_mem_nil,
      or_false] at hr
    obtain ⟨rfl, rfl⟩ := hr
    rfl
  · simp only [farAnswers, List.mem_cons, Event.send.injEq, reduceCtorEq, List.not_mem_nil,
      or_false] at hr
    obtain ⟨rfl, rfl⟩ := hr
    rfl

/-- The order decides: if the failure comes first a result is received
prematurely, if the value comes first none is. -/
theorem gaveUp_settled_iff_missed :
    ¬ Run.Along (step (some : String → Option String) pairClient 0)
        (fun c event => ¬ Premature c event ∧ ¬ Spoiled some pairReply c event)
        (pairClient.start 0 [nearPeer, farPeer]) nearFails ∧
      Run.Along (step (some : String → Option String) pairClient 0)
        (fun c event => ¬ Premature c event ∧ ¬ Spoiled some pairReply c event)
        (pairClient.start 0 [nearPeer, farPeer]) farAnswers := by
  constructor
  · intro halong
    have hiff := gaveUp_settled_iff some pairClient 0 [nearPeer, farPeer] pairReply nearFails
      (pairReply_of_mem (.inl rfl)) missedCall (by decide)
    exact absurd ((hiff.mpr halong).1 rfl).tasks (by decide)
  · have hiff := gaveUp_settled_iff some pairClient 0 [nearPeer, farPeer] pairReply farAnswers
      (pairReply_of_mem (.inr rfl))
      { lookup :=
          { candidates := []
            queried := [nearPeer, farPeer]
            inProgress := 1
            tasks := [nearPeer]
            received := [(farPeer, pairReply farPeer)] }
        status := .returned (.ok [7]) } (by decide)
    exact hiff.mp ⟨nofun, fun p _ _ _ => .inl ⟨[7], rfl⟩⟩

/-- The call gives up although a peer it queried would answer with the value. -/
theorem gaveUp_misses_value :
    ∃ c, afterEvents (some : String → Option String) pairClient 0 [nearPeer, farPeer]
        nearFails = some c ∧
      (∀ p r, Event.send p r ∈ nearFails → r = pairReply p) ∧
      farPeer ∈ c.lookup.queried ∧ carriedValue (pairReply farPeer) = some [7] ∧
      GaveUp c ∧ farPeer ∈ c.lookup.tasks ∧ ¬ Settled c.lookup := by
  refine ⟨missedCall, by decide, pairReply_of_mem (.inl rfl), by decide, by decide, rfl,
    by decide, fun hsettled => ?_⟩
  exact absurd hsettled.tasks (by decide)

end DhtKad.DHTClient
