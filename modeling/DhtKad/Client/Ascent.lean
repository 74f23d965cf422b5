import DhtKad.Client.Patient
import DhtKad.Client.Spawning
import DhtKad.Lib.Climb
import DhtKad.RoutingTable.Nearest

/-!
How fast a patient lookup gets on.

With one query at a time a lookup queries next the nearest of all candidates that
it knows. If whoever it queries names somebody who shares more with the key, the
next one it queries does too: one bit or more with each query, up to where a mark
is reached (`Ascends`).
-/

namespace DhtKad.DHTClient

open RoutingTable Climb SortBy XorMetric

/-- How much a peer shares with the key. -/
def closeness (key : U128) (p : Peer) : ℕ := commonPrefixLength key p.id

/-- Where the node shares less with the key than `m`, one of the peers shares
more than it does. -/
def Better (key : U128) (m r : ℕ) (peers : List Peer) : Prop :=
  r < m → ∃ q ∈ peers, r < closeness key q

/-- A patient call whose queries climb from `r₀` up to `m`; whoever is under way
is the last one that was queried. -/
structure Ascends {SocketAddr : Type} (parse : String → Option SocketAddr) (client : DHTClient)
    (key : U128) (m r₀ : ℕ) (c : Call) : Prop extends Patient parse client c where
  climbs : Climbs m (r₀ :: c.lookup.queried.map (closeness key))
  last : ∀ p, p ∈ c.lookup.tasks ∨ (∃ r, (p, r) ∈ c.lookup.channel) ∨ p ∈ c.lookup.dead →
    c.lookup.queried.getLast? = some p

section Ascends

variable {SocketAddr : Type} {parse : String → Option SocketAddr} {client : DHTClient}
  {key : U128} {m r₀ : ℕ} {l : Lookup} {c c' : Call} {event : Event}

/-- With one query at a time and none under way, the nearest candidate is next. -/
theorem nextQueries_eq (key : U128) (halpha : client.alpha = 1) (hnone : l.inProgress = 0)
    (hc : l.candidates ≠ []) :
    ∃ q, client.nextQueries key l = [q] ∧
      ∀ p ∈ l.candidates, closeness key p ≤ closeness key q := by
  have hsorted : (sortCandidates key l.candidates).reverse.Pairwise fun p q =>
      distance key p ≤ distance key q := List.pairwise_reverse.mpr (descending_sorted key l)
  cases hlist : (sortCandidates key l.candidates).reverse with
  | nil =>
      have hperm : (sortCandidates key l.candidates).Perm l.candidates := sortBy_perm _
      rw [List.reverse_eq_nil_iff.mp hlist] at hperm
      exact absurd hperm.symm.eq_nil hc
  | cons q rest =>
      refine ⟨q, by rw [nextQueries, hlist, halpha, hnone]; rfl, fun p hp => ?_⟩
      have hmem : p ∈ q :: rest := by
        rw [← hlist, List.mem_reverse]
        exact mem_sortBy.mpr hp
      rw [hlist] at hsorted
      have hle : distance key q ≤ distance key p := by
        rcases List.mem_cons.mp hmem with rfl | hmem
        · exact le_rfl
        · exact (List.pairwise_cons.mp hsorted).1 p hmem
      rw [distance_eq_dist, distance_eq_dist] at hle
      exact prefixLength_le_of_dist_le hle

theorem climbs_loopHead (halpha : client.alpha = 1) (hnone : l.inProgress = 0)
    (hclimbs : Climbs m (r₀ :: l.queried.map (closeness key)))
    (hnext : (∀ z ∈ r₀ :: l.queried.map (closeness key), z < m) →
      ∀ r ∈ (r₀ :: l.queried.map (closeness key)).getLast?,
        ∃ q ∈ l.candidates, r < closeness key q) :
    Climbs m (r₀ :: (client.loopHead key l).lookup.queried.map (closeness key)) := by
  by_cases hc : l.candidates = []
  · rw [loopHead_of_nil client key hc]
    exact hclimbs
  · obtain ⟨q, hq, hnearest⟩ := nextQueries_eq key halpha hnone hc
    rw [loopHead_of_ne_nil client key hc]
    simp only [hq, List.map_append, List.map_cons, List.map_nil]
    rw [← List.cons_append]
    refine hclimbs.concat fun hall r hr => ?_
    obtain ⟨p, hp, hlt⟩ := hnext hall r hr
    exact hlt.trans_le (hnearest p hp)

theorem last_loopHead (halpha : client.alpha = 1) (hnone : l.inProgress = 0)
    (htasks : l.tasks = []) (hchannel : l.channel = []) (hdead : l.dead = []) :
    ∀ p, p ∈ (client.loopHead key l).lookup.tasks ∨
        (∃ r, (p, r) ∈ (client.loopHead key l).lookup.channel) ∨
        p ∈ (client.loopHead key l).lookup.dead →
      (client.loopHead key l).lookup.queried.getLast? = some p := by
  intro p hp
  obtain ⟨hframe, -, hframe', -⟩ := loopHead_frame client key l
  rw [hframe, hframe', hchannel, hdead] at hp
  by_cases hc : l.candidates = []
  · rw [loopHead_of_nil client key hc] at hp
    simp [htasks] at hp
  · obtain ⟨q, hq, -⟩ := nextQueries_eq key halpha hnone hc
    rw [loopHead_of_ne_nil client key hc] at hp ⊢
    simp only [hq, htasks, List.nil_append, List.mem_singleton, List.not_mem_nil, exists_false,
      or_false] at hp
    subst hp
    simp [hq]

theorem ascends_hit (v : Bytes) :
    Ascends parse client key m r₀ { lookup := { candidates := [] }, status := .returned (.ok v) } :=
  ⟨patient_hit v, climbs_singleton m r₀, by simp⟩

theorem ascends_start (halpha : client.alpha = 1) {candidates : List Peer}
    (h : Better key m r₀ candidates) :
    Ascends parse client key m r₀ (client.start key candidates) := by
  refine ⟨patient_start halpha key candidates, ?_, last_loopHead halpha rfl rfl rfl rfl⟩
  refine climbs_loopHead halpha rfl (climbs_singleton m r₀) fun hall r hr => ?_
  obtain rfl : r₀ = r := Option.some.inj hr
  exact h (hall r₀ List.mem_cons_self)

theorem Ascends.step (h : Ascends parse client key m r₀ c) (halpha : client.alpha = 1)
    (hsent : ∀ p r, event = .send p r → ∃ reply, r = .ok reply)
    (hbetter : ∀ p reply, (p, .ok reply) ∈ c.lookup.channel → carriedValue (.ok reply) = none →
      ∃ ps, reply.closerPeers.mapM protoPeerToPeer = .ok ps ∧ Better key m (closeness key p) ps)
    (hstep : DHTClient.step parse client key c event = some c') :
    Ascends parse client key m r₀ c' := by
  obtain ⟨hawait, hadvanced⟩ := h.inv.books.advanced hstep
  have hpatient := h.toPatient.step halpha hsent hstep
  cases hadvanced with
  | sent p r hp hparse =>
      refine ⟨hpatient, h.climbs, fun q hq => h.last q ?_⟩
      rcases hq with hq | ⟨r', hq⟩ | hq
      · exact .inl (List.mem_of_mem_erase hq)
      · rcases List.mem_append.mp hq with hq | hq
        · exact .inr (.inl ⟨r', hq⟩)
        · obtain rfl := congrArg Prod.fst (List.mem_singleton.mp hq)
          exact .inl hp
      · exact .inr (.inr hq)
  | died p hp hparse =>
      refine ⟨hpatient, h.climbs, fun q hq => h.last q ?_⟩
      rcases hq with hq | hq | hq
      · exact .inl (List.mem_of_mem_erase hq)
      · exact .inr (.inl hq)
      · rcases List.mem_append.mp hq with hq | hq
        · exact .inr (.inr hq)
        · obtain rfl := List.mem_singleton.mp hq
          exact .inl hp
  | returned hch hv =>
      refine ⟨hpatient, h.climbs, fun q hq => h.last q (hq.imp id (Or.imp ?_ id))⟩
      rintro ⟨r', hq⟩
      exact ⟨r', hch ▸ List.mem_cons_of_mem _ hq⟩
  | panicked hch hv hd => exact ⟨hpatient, h.climbs, h.last⟩
  | looped hch hv hd =>
      rename_i p r new rest
      -- the query that was answered was the only one
      have hone := h.metered.le_alpha
      have hcount := h.inv.books.count
      rw [halpha, hcount, hch, List.length_cons] at hone
      have htasks : c.lookup.tasks = [] := List.length_eq_zero_iff.mp (by omega)
      have hrest : rest = [] := List.length_eq_zero_iff.mp (by omega)
      have hdead : c.lookup.dead = [] := List.length_eq_zero_iff.mp (by omega)
      have hnone : (merge c.lookup p r rest new).inProgress = 0 := by
        have : c.lookup.inProgress = 1 := by
          rw [hcount, hch, htasks, hdead, hrest]
          rfl
        simp only [merge, this]
      refine ⟨hpatient, climbs_loopHead halpha hnone h.climbs fun hall x hx => ?_,
        last_loopHead halpha hnone htasks hrest hdead⟩
      have hlast : c.lookup.queried.getLast? = some p := h.last p (.inr (.inl ⟨r, by simp [hch]⟩))
      obtain ⟨init, hinit⟩ := List.getLast?_eq_some_iff.mp hlast
      have hqueried : (merge c.lookup p r rest new).queried = c.lookup.queried := rfl
      rw [hqueried] at hall hx
      obtain rfl : closeness key p = x := by
        have hend := hx
        rw [hinit, List.map_append, List.map_singleton, ← List.cons_append,
          List.getLast?_concat] at hend
        exact Option.some.inj hend
      obtain ⟨reply, rfl⟩ := h.answered (p, r) (by simp [hch])
      obtain ⟨ps, hps, hleads⟩ := hbetter p reply (by simp [hch]) hv
      obtain ⟨q, hq, hlt⟩ := hleads (hall _ (List.mem_of_mem_getLast? hx))
      refine ⟨q, ?_, hlt⟩
      obtain ⟨mp, hmp, hdecode⟩ := (ExceptList.mem_of_mapM hps q).mp hq
      by_cases hseen : q ∈ seen c.lookup
      · rcases List.mem_append.mp hseen with hold | hold
        · -- whom it has queried before shares no more with the key than the last one
          have hle := h.climbs.le_last hall hx _
            (List.mem_cons_of_mem _ (List.mem_map_of_mem hold))
          exact absurd hle (not_le.mpr hlt)
        · exact List.mem_append_left _ hold
      · exact List.mem_append_right _
          ((mem_discovered hd).mpr ⟨⟨reply, rfl, mp, hmp, hdecode⟩, hseen⟩)

end Ascends

end DhtKad.DHTClient
