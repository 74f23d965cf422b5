import DhtKad.Client.Frontier
import Mathlib.Data.Finset.Max

/-!
What a lookup has seen when it gives up.

A call that gives up has no candidates left, so all that it started from and all
that it was told of has been queried. If every peer that is not good enough
names a better one, by whatever measure, and every queried peer has answered,
then one of the queried peers is good enough (`Led.climbs`).
-/

namespace DhtKad.DHTClient

/-- A call from the candidates `initial`, of which every result meets `G`. -/
structure Led (G : Peer × Except IoError Message → Prop) (initial : List Peer) (c : Call) :
    Prop where
  covers : c.status = .awaiting ∨ (∃ e, c.status = .returned (.error e)) →
    Covers initial c.lookup
  channel : ∀ pr ∈ c.lookup.channel, G pr
  received : ∀ pr ∈ c.lookup.received, G pr

section Led

variable {SocketAddr : Type} {parse : String → Option SocketAddr} {client : DHTClient}
  {key : U128} {G : Peer × Except IoError Message → Prop} {initial : List Peer} {c c' : Call}
  {event : Event}

theorem led_start (client : DHTClient) (key : U128) (initial : List Peer) :
    Led G initial (client.start key initial) := by
  obtain ⟨hchannel, hreceived, -⟩ := loopHead_frame client key { candidates := initial }
  refine ⟨fun _ => (covers_initial initial).loopHead, ?_, ?_⟩
  · rw [start, hchannel]
    simp
  · rw [start, hreceived]
    simp

theorem Led.step (h : Led G initial c) (hinv : CallInv parse c)
    (hsent : ∀ p r, event = .send p r → G (p, r))
    (hstep : DHTClient.step parse client key c event = some c') : Led G initial c' := by
  have hchannel := hinv.books.channel_step h.channel hsent hstep
  obtain ⟨hawait, hadvanced⟩ := hinv.books.advanced hstep
  have hcovers := h.covers (.inl hawait)
  have hreceive {p : Peer} {r : Except IoError Message}
      {rest : List (Peer × Except IoError Message)} (hch : c.lookup.channel = (p, r) :: rest) :
      ∀ pr ∈ c.lookup.received ++ [(p, r)], G pr := by
    intro pr hpr
    rcases List.mem_append.mp hpr with hpr | hpr
    · exact h.received pr hpr
    · rw [List.mem_singleton.mp hpr]
      exact h.channel (p, r) (by simp [hch])
  cases hadvanced with
  | sent p r hp hparse => exact ⟨fun _ => hcovers, hchannel, h.received⟩
  | died p hp hparse => exact ⟨fun _ => hcovers, hchannel, h.received⟩
  | returned hch hv => exact ⟨by simp, hchannel, hreceive hch⟩
  | panicked hch hv hd => exact ⟨by simp, hchannel, h.received⟩
  | looped hch hv hd =>
      refine ⟨fun _ => (hcovers.merge hd).loopHead, hchannel, ?_⟩
      rw [(loopHead_frame client key _).2.1]
      exact hreceive hch

/-- A call that gives up has queried all that it started from and was told of, and
no reply carried a value. -/
theorem Led.gave_up (h : Led G initial c) (hinv : CallInv parse c) {e : RPCError}
    (hstatus : c.status = .returned (.error e)) :
    (∀ q, q ∈ c.lookup.queried ↔ q ∈ initial ∨ Reported c.lookup.received q) ∧
      ∀ pr ∈ c.lookup.received, carriedValue pr.2 = none := by
  have hinvStatus := hinv.status
  rw [hstatus] at hinvStatus
  obtain ⟨-, hcandidates, hnone⟩ := hinvStatus
  refine ⟨fun q => ?_, hnone⟩
  have hq := h.covers (.inr ⟨e, hstatus⟩) q
  rw [hcandidates] at hq
  simpa using hq

theorem Led.climbs (h : Led G initial c) (hinv : CallInv parse c) {e : RPCError}
    (hstatus : c.status = .returned (.error e)) (hne : initial ≠ [])
    (hanswered : ∀ q ∈ c.lookup.queried, ∃ reply, (q, .ok reply) ∈ c.lookup.received)
    (rank : Peer → ℕ) (m : ℕ)
    (hbetter : ∀ q reply, G (q, .ok reply) → carriedValue (.ok reply) = none → rank q < m →
      ∃ mp ∈ reply.closerPeers, ∃ q', protoPeerToPeer mp = .ok q' ∧ rank q < rank q') :
    ∃ q ∈ c.lookup.queried, m ≤ rank q := by
  obtain ⟨hqueried, hnone⟩ := h.gave_up hinv hstatus
  obtain ⟨q₀, hq₀⟩ := List.exists_mem_of_ne_nil initial hne
  obtain ⟨q, hq, hmax⟩ := Finset.exists_max_image c.lookup.queried.toFinset rank
    ⟨q₀, List.mem_toFinset.mpr ((hqueried q₀).mpr (.inl hq₀))⟩
  have hq := List.mem_toFinset.mp hq
  refine ⟨q, hq, not_lt.mp fun hlt => ?_⟩
  -- the best of the queried peers would have named a better one
  obtain ⟨reply, hreply⟩ := hanswered q hq
  obtain ⟨mp, hmp, q', hdecode, hlt'⟩ :=
    hbetter q reply (h.received _ hreply) (hnone _ hreply) hlt
  have hq' : q' ∈ c.lookup.queried :=
    (hqueried q').mpr (.inr ⟨q, reply, hreply, mp, hmp, hdecode⟩)
  exact absurd (hmax q' (List.mem_toFinset.mpr hq')) (not_le.mpr hlt')

end Led

theorem queries_of_recv {SocketAddr : Type} {parse : String → Option SocketAddr}
    {client : DHTClient} {key : U128} {c c' : Call} (h : CallInv parse c)
    (hstep : DHTClient.step parse client key c .recv = some c') :
    c.status = .awaiting ∧ ∃ ps, c'.lookup.tasks = c.lookup.tasks ++ ps ∧
      c'.lookup.queried = c.lookup.queried ++ ps := by
  obtain ⟨hawait, hadvanced⟩ := h.books.advanced hstep
  refine ⟨hawait, ?_⟩
  generalize hrecv : Event.recv = event at hadvanced
  cases hadvanced with
  | sent p r hp hparse => cases hrecv
  | died p hp hparse => cases hrecv
  | returned hch hv => exact ⟨[], (List.append_nil _).symm, (List.append_nil _).symm⟩
  | panicked hch hv hd => exact ⟨[], (List.append_nil _).symm, (List.append_nil _).symm⟩
  | looped hch hv hd =>
      rename_i p r new rest
      by_cases hc : (merge c.lookup p r rest new).candidates = []
      · rw [loopHead_of_nil client key hc]
        exact ⟨[], (List.append_nil _).symm, (List.append_nil _).symm⟩
      · rw [loopHead_of_ne_nil client key hc]
        exact ⟨_, rfl, rfl⟩

end DhtKad.DHTClient
