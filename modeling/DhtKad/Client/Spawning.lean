import DhtKad.Client.Frontier

/-!
Which peers a round of `find_value` queries.

The inner loop of a round pops one candidate after the other. `spawn` is one
iteration of it, and a round is the run of as many iterations as there is room
for (`run_spawn_nextQueries`). The candidates are sorted before the round, so
in every iteration the one at the end is nearest among those that are left.

`Head` are the variables with which a call comes to the head of the loop,
where its first round or the next one starts.
-/

namespace DhtKad.DHTClient

open SortBy RoutingTable

/-- One iteration of the inner loop, which pops `peer` and queries it. -/
def spawn (alpha : ℕ) (l : Lookup) (peer : Peer) : Option Lookup :=
  if l.inProgress < alpha ∧ l.candidates.getLast? = some peer then
    some { l with
      candidates := l.candidates.dropLast
      inProgress := l.inProgress + 1
      queried := l.queried ++ [peer]
      tasks := l.tasks ++ [peer] }
  else none

def sorted (key : U128) (l : Lookup) : Lookup :=
  { l with candidates := sortCandidates key l.candidates }

/-- The candidates stand from the farthest to the nearest. -/
def Descending (key : U128) (l : Lookup) : Prop :=
  l.candidates.Pairwise fun p q => distance key q ≤ distance key p

/-- The queries of a round are the iterations of its inner loop. -/
theorem run_spawn (alpha : ℕ) (ps : List Peer) (l : Lookup) (h : l.candidates = ps.reverse) :
    Run.run (spawn alpha) l (ps.take (alpha - l.inProgress)) =
      some (spawnQueries alpha ps l) := by
  induction ps generalizing l with
  | nil => simp [spawnQueries]
  | cons p ps ih =>
      by_cases hroom : l.inProgress < alpha
      · obtain ⟨n, hn⟩ : ∃ n, alpha - l.inProgress = n + 1 :=
          ⟨alpha - l.inProgress - 1, by omega⟩
        have hn' : alpha - (l.inProgress + 1) = n := by omega
        have hlast : l.candidates.getLast? = some p := by simp [h]
        have hdrop : l.candidates.dropLast = ps.reverse := by simp [h]
        have ih' := ih { l with
          candidates := ps.reverse
          inProgress := l.inProgress + 1
          queried := l.queried ++ [p]
          tasks := l.tasks ++ [p] } rfl
        rw [hn'] at ih'
        rw [spawnQueries, if_pos hroom, hn, List.take_succ_cons, Run.run_cons, spawn,
          if_pos ⟨hroom, hlast⟩, Option.bind_some, hdrop]
        exact ih'
      · have hzero : alpha - l.inProgress = 0 := by omega
        rw [spawnQueries, if_neg hroom, hzero]
        rfl

section Round

variable {client : DHTClient} {key : U128} {l m m' : Lookup} {peer : Peer} {alpha : ℕ}

theorem run_spawn_nextQueries (client : DHTClient) (key : U128) (hc : l.candidates ≠ []) :
    Run.run (spawn client.alpha) (sorted key l) (client.nextQueries key l) =
      some (client.loopHead key l).lookup := by
  rw [loopHead, if_neg (by simpa using hc)]
  exact run_spawn client.alpha _ (sorted key l) (List.reverse_reverse _).symm

theorem descending_sorted (key : U128) (l : Lookup) : Descending key (sorted key l) :=
  pairwise_sortBy (fun p => OrderDual.toDual (distance key p)) l.candidates

theorem spawn_eq_some (h : spawn alpha m peer = some m') :
    m.candidates = m'.candidates ++ [peer] := by
  rw [spawn, Option.ite_none_right_eq_some] at h
  obtain ⟨⟨-, hlast⟩, h⟩ := h
  obtain rfl := Option.some.inj h
  exact (List.dropLast_append_getLast? peer hlast).symm

theorem Descending.spawn (hm : Descending key m) (h : DHTClient.spawn alpha m peer = some m') :
    Descending key m' := by
  rw [Descending, spawn_eq_some h] at hm
  exact (List.pairwise_append.mp hm).1

theorem Descending.nearest (hm : Descending key m)
    (h : DHTClient.spawn alpha m peer = some m') :
    peer ∈ m.candidates ∧ ∀ q ∈ m.candidates, distance key peer ≤ distance key q := by
  rw [Descending, spawn_eq_some h] at hm
  rw [spawn_eq_some h]
  refine ⟨by simp, fun q hq => ?_⟩
  rcases List.mem_append.mp hq with hq | hq
  · exact (List.pairwise_append.mp hm).2.2 q hq peer (List.mem_singleton.mpr rfl)
  · rw [List.mem_singleton.mp hq]

end Round

/-! ### The head of the loop -/

/-- The variables with which a call comes to the head of its loop: at first, or
with a result handled that did not end the call. -/
inductive Head {SocketAddr : Type} (parse : String → Option SocketAddr) (client : DHTClient)
    (key : U128) (initial : List Peer) : Lookup → Prop
  | first : Head parse client key initial { candidates := initial }
  | next {events : List Event} {c : Call} {p : Peer} {r : Except IoError Message}
      {rest : List (Peer × Except IoError Message)} {l : Lookup}
      (hrun : afterEvents parse client key initial events = some c)
      (hawait : c.status = .awaiting) (hch : c.lookup.channel = (p, r) :: rest)
      (hresult : handleResult { c.lookup with
        channel := rest, received := c.lookup.received ++ [(p, r)] } r = .ok (l, none)) :
      Head parse client key initial l

section Heads

variable {SocketAddr : Type} {parse : String → Option SocketAddr} {client : DHTClient}
  {key : U128} {initial : List Peer} {l : Lookup}

/-- Every head is one that some run of the call comes to. -/
theorem Head.continues (h : Head parse client key initial l) :
    ∃ events, afterEvents parse client key initial events = some (client.loopHead key l) := by
  cases h with
  | first => exact ⟨[], rfl⟩
  | @next events c p r rest _ hrun hawait hch hresult =>
      refine ⟨events ++ [.recv], ?_⟩
      obtain ⟨lookup, status⟩ := c
      obtain rfl : status = .awaiting := hawait
      rw [afterEvents] at hrun ⊢
      rw [Run.run_concat, hrun, Option.bind_some]
      simp only [step, turn] at hch hresult ⊢
      rw [hch]
      simp only [hresult]

theorem Head.covers (h : Head parse client key initial l) : Covers initial l := by
  cases h with
  | first => exact covers_initial initial
  | next hrun hawait hch hresult =>
      have hne := (afterEvents_callInv hrun).books.inProgress_ne_zero hch
      obtain ⟨-, new, hd, rfl⟩ := (handleResult_none_iff hne).mp hresult
      exact (coversCall_of_afterEvents hrun hawait).merge hd

end Heads

/-- **The frontier.** At every head of the loop, the candidates and the queried
peers are the initial ones and those of the replies so far. The round that
starts there queries one candidate after the other, and each is nearest to the
key among the candidates of its moment. -/
theorem head_frontier {SocketAddr : Type} (parse : String → Option SocketAddr)
    (client : DHTClient) (key : U128) (initial : List Peer) (l : Lookup)
    (h : Head parse client key initial l) :
    (∀ q, q ∈ l.candidates ∨ q ∈ l.queried ↔ q ∈ initial ∨ Reported l.received q) ∧
      (l.candidates ≠ [] →
        Run.run (spawn client.alpha) (sorted key l) (client.nextQueries key l) =
          some (client.loopHead key l).lookup) ∧
      ∀ peers m peer m', Run.run (spawn client.alpha) (sorted key l) peers = some m →
        spawn client.alpha m peer = some m' →
        peer ∈ m.candidates ∧ ∀ q ∈ m.candidates, distance key peer ≤ distance key q := by
  refine ⟨h.covers, run_spawn_nextQueries client key, fun peers m peer m' hrun hspawn => ?_⟩
  have hm : Descending key m :=
    Run.run_invariant (fun s p t hs hst => Descending.spawn hs hst) (descending_sorted key l) hrun
  exact hm.nearest hspawn

/-- The head after a reply that names two candidates. -/
theorem head_frontier_echoed :
    (∀ q, q ∈ echoedHead.candidates ∨ q ∈ echoedHead.queried ↔
        q ∈ [nearPeer] ∨ Reported echoedHead.received q) ∧
      (echoedHead.candidates ≠ [] →
        Run.run (spawn oneClient.alpha) (sorted 0 echoedHead)
          (oneClient.nextQueries 0 echoedHead) =
            some (oneClient.loopHead 0 echoedHead).lookup) ∧
      ∀ peers m peer m', Run.run (spawn oneClient.alpha) (sorted 0 echoedHead) peers = some m →
        spawn oneClient.alpha m peer = some m' →
        peer ∈ m.candidates ∧ ∀ q ∈ m.candidates, distance 0 peer ≤ distance 0 q :=
  head_frontier (some : String → Option String) oneClient 0 [nearPeer] echoedHead
    (.next (afterEvents_heard rfl echoed) rfl rfl
      ((handleResult_none_iff (by decide)).mpr ⟨rfl, _, discovered_echoed, rfl⟩))

end DhtKad.DHTClient
