import DhtKad.Client.Frontier
import DhtKad.Cluster.Reach

/-!
Tasks and the sequential models.

Between its suspensions a task of a cluster does what the sequential models of
`bootstrap` and `find_value` do at once. With every result in before the task
goes on, and with nothing else at its node, the turns of a bootstrap are the
bootstrap (`bootstrap_eq_ok_iff_turns`). A lookup is a run of the sequential one
however it is interleaved: it starts from the call of `findValue` on what its node
knew, and goes on with the results of its own queries only (`lookup_refines`).
-/

namespace DhtKad.Deployment

open RoutingTable DHTServer

variable {SocketAddr : Type} {d : Deployment SocketAddr} {a : SocketAddr} {s : DHTServer}

/-- The results of joined calls when all are in. -/
def allIn (n : ℕ) (answer : ℕ → Except IoError Message) : Results :=
  (List.range n).map fun i => some (answer i)

theorem resultAt_allIn {n i : ℕ} (answer : ℕ → Except IoError Message) (hi : i < n) :
    resultAt (allIn n answer) i = answer i := by
  have hall : (allIn n answer).reduceOption = (List.range n).map answer := by
    show ((List.range n).map fun i => some (answer i)).filterMap id = _
    rw [List.filterMap_map]
    exact congrFun List.filterMap_eq_map _
  rw [resultAt, hall, List.getD_eq_getElem _ _ (by simpa using hi)]
  simp

theorem answered_allIn (peers : List Peer) (answer : ℕ → Except IoError Message) :
    answered peers (resultAt (allIn peers.length answer)) = answered peers answer := by
  apply List.filterMap_congr
  rintro ⟨peer, i⟩ hi
  have hlt := (List.getElem?_eq_some_iff.mp (List.mem_zipIdx_iff_getElem?.mp hi)).1
  simp only [resultAt_allIn answer hlt]

theorem if_allIn {α : Type} (n : ℕ) (answer : ℕ → Except IoError Message) (x y : α) :
    (if none ∈ allIn n answer then x else y) = y :=
  if_neg (by simp [allIn])

theorem length_of_mapM_parseAddress {ps : List Peer} {targets : List SocketAddr}
    (h : ps.mapM (parseAddress d.parse) = .ok targets) : targets.length = ps.length :=
  (ExceptList.mapM_eq_ok_iff.mp h).length_eq.symm

/-- **Refinement.** The turns of a bootstrap that waits for nobody, with all results
in before it goes on, are the bootstrap. -/
theorem bootstrap_eq_ok_iff_turns (hwait : d.waitForConnection a s = .ok false)
    (findNode ping : ℕ → Except IoError Message) (table : RoutingTable) :
    DhtKad.bootstrap d.parse (d.config a).bootstrapPeers findNode ping s.routingTable = .ok table ↔
      ∃ results calls alivePeers candidatePeers results' calls',
        d.bootstrapTurn a s .begun =
          .ok (some { server := s, stage := .introducing results, calls := calls }) ∧
        d.bootstrapTurn a s (.introducing (allIn results.length findNode)) =
          .ok (some
            { server := s
              stage := .pinging alivePeers candidatePeers results'
              calls := calls' }) ∧
        d.bootstrapTurn a s (.pinging alivePeers candidatePeers (allIn results'.length ping)) =
          .ok (some { server := { s with routingTable := table }, stage := .bootstrapped }) := by
  rw [bootstrap_eq_ok_iff]
  constructor
  · rintro ⟨hconf, reported, hreported, hcandidates, htable⟩
    obtain ⟨targets, htargets⟩ := mapM_parseAddress_isOk_iff.mpr hconf
    obtain ⟨targets', htargets'⟩ := mapM_parseAddress_isOk_iff.mpr hcandidates
    have hbegun : d.bootstrapTurn a s .begun = .ok (some
        { server := s
          stage := .introducing (targets.map fun _ => none)
          calls := joined .introduction .findNode
            (createFindNodeRequest (d.config a).id (d.localPeer a)) targets }) := by
      rw [bootstrapTurn, hwait]
      simp only [bind, Except.bind, htargets]
      rfl
    let results : Results := targets.map fun _ => none
    have hintroducing : d.bootstrapTurn a s (.introducing (allIn results.length findNode)) =
        .ok (some
        { server := s
          stage := .pinging ((answered (d.config a).bootstrapPeers findNode).map Prod.fst)
            (selectCandidates (d.config a).bootstrapPeers reported.flatten)
            (targets'.map fun _ => none)
          calls := joined .ping .ping (createPingRequest (d.localPeer a)) targets' }) := by
      rw [bootstrapTurn, List.length_map, length_of_mapM_parseAddress htargets, if_allIn,
        answered_allIn]
      simp only [hreported, bind, Except.bind, htargets']
      rfl
    refine ⟨results, _, _, _, _, _, hbegun, hintroducing, ?_⟩
    rw [bootstrapTurn, List.length_map, length_of_mapM_parseAddress htargets', if_allIn,
      answered_allIn]
    simp only [htable]
    rfl
  · rintro ⟨results, calls, alivePeers, candidatePeers, results', calls', hbegun, hintroducing,
      hpinging⟩
    cases bootstrapTurn_turned hbegun with
    | introduced htargets =>
        rename_i targets
        rw [List.length_map, length_of_mapM_parseAddress htargets] at hintroducing
        cases bootstrapTurn_turned hintroducing with
        | pinged hreported htargets' =>
            rename_i reported targets'
            rw [answered_allIn] at hreported hpinging
            rw [List.length_map, length_of_mapM_parseAddress htargets', bootstrapTurn, if_allIn,
              answered_allIn] at hpinging
            obtain ⟨table', htable, hturn⟩ := ExceptList.bind_eq_ok_iff.mp hpinging
            obtain rfl : table' = table := by
              have hserver := congrArg Turn.server (Option.some.inj (Except.ok.inj hturn))
              exact congrArg DHTServer.routingTable hserver
            exact ⟨mapM_parseAddress_isOk_iff.mp ⟨_, htargets⟩, reported, hreported,
              mapM_parseAddress_isOk_iff.mp ⟨_, htargets'⟩, htable⟩

/-- A new node that is named to itself by its bootstrap peer, and answers itself. -/
theorem bootstrap_eq_ok_iff_turns_introduced :
    ∃ results calls alivePeers candidatePeers results' calls',
      Cluster.pair.bootstrapTurn false (.new 20 (pairPeer false)) .begun =
        .ok (some
          { server := .new 20 (pairPeer false)
            stage := .introducing results
            calls := calls }) ∧
      Cluster.pair.bootstrapTurn false (.new 20 (pairPeer false))
          (.introducing (allIn results.length fun _ =>
            .ok (createFindNodeResponse [pairPeer false]))) =
        .ok (some
          { server := .new 20 (pairPeer false)
            stage := .pinging alivePeers candidatePeers results'
            calls := calls' }) ∧
      Cluster.pair.bootstrapTurn false (.new 20 (pairPeer false))
          (.pinging alivePeers candidatePeers
            (allIn results'.length fun _ => .ok createPingResponse)) =
        .ok (some
          { server := { kvstore := .new, routingTable := Cluster.selfContacted }
            stage := .bootstrapped }) := by
  refine (bootstrap_eq_ok_iff_turns (d := Cluster.pair) (a := false)
    (s := .new 20 (pairPeer false)) rfl (fun _ => .ok (createFindNodeResponse [pairPeer false]))
    (fun _ => .ok createPingResponse) Cluster.selfContacted).mp ?_
  rw [bootstrap_eq_ok_iff]
  refine ⟨by decide, [[pairPeer false]], ?_, by decide, by decide⟩
  rw [ExceptList.mapM_eq_ok_iff]
  exact .cons (mapM_createFindNodeResponse [pairPeer false]) .nil

end DhtKad.Deployment

namespace DhtKad.Cluster

open RoutingTable DHTServer DHTClient

variable {SocketAddr : Type} {d : Deployment SocketAddr}

/-! ### Lookups -/

/-- A query of a lookup goes to the peer that it is for. -/
def queried (d : Deployment SocketAddr) : Assertion SocketAddr where
  node _ _ := True
  stage _ _ _ := True
  call a operation call := ∀ p key, call.slot = .query p → operation = .findValue key →
    d.parse p.address = some call.target ∧
      call.request = createFindValueRequest key (d.localPeer a)
  reply _ _ _ _ := True

section Lookups

variable (d) (c : Cluster SocketAddr) (id : ℕ) (a : SocketAddr) (key : U128)

/-- The task was handed this result of a query that it made: a failure, or the
reply that the peer has given. -/
def HandedOver (p : Peer) (r : Except IoError Message) : Prop :=
  ∃ x ∈ c.exchanges, x.caller = id ∧ x.slot = .query p ∧ d.parse p.address = some x.target ∧
    x.request = createFindValueRequest key (d.localPeer a) ∧ x.awaited = false ∧
      ∀ reply, r = .ok reply → x.progress = .replied reply

variable [DecidableEq SocketAddr]

/-- What the sequential call of `find_value` does on the store that the node had at
one point of the run, and on the table that it had at a later one. -/
def Calls (events : List (ClusterEvent SocketAddr)) (outcome : Except Panic Call) : Prop :=
  ∃ first second c₁ c₂, first <+: second ∧ second <+: events ∧
    Run.run (Cluster.step d) (new d) first = some c₁ ∧
    Run.run (Cluster.step d) (new d) second = some c₂ ∧
    (d.client a).findValue
      { kvstore := (c₁.nodes a).kvstore, routingTable := (c₂.nodes a).routingTable } key = outcome

/-- The lookup has come to this state from the sequential call by some events of
its own, and each result that was sent in them was handed over to it. -/
def Simulates (events : List (ClusterEvent SocketAddr)) (call : Call) : Prop :=
  ∃ call₀ own, Calls d a key events (.ok call₀) ∧
    Run.run (DHTClient.step d.parse (d.client a) key) call₀ own = some call ∧
    ∀ p r, .send p r ∈ own → HandedOver d c id a key p r

/-- The run has passed a point at which the node had no value for the key. -/
def Misses (events : List (ClusterEvent SocketAddr)) : Prop :=
  ∃ first c₁, first <+: events ∧ Run.run (Cluster.step d) (new d) first = some c₁ ∧
    findValueLocal (c₁.nodes a) key = none

/-- What is known of a lookup in its stages. -/
def LookupInv (events : List (ClusterEvent SocketAddr)) : Stage → Prop
  | .missed => Misses d a key events
  | .looking call => Simulates d c id a key events call
  | .panicked e => Calls d a key events (.error e)
  | _ => True

variable {d c id a key} {c' : Cluster SocketAddr} {events : List (ClusterEvent SocketAddr)}
  {event : ClusterEvent SocketAddr} {e : Event} {stage : Stage} {call call' : Call}

theorem HandedOver.step {p : Peer} {r : Except IoError Message} (h : HandedOver d c id a key p r)
    (hstep : Cluster.step d c event = some c') : HandedOver d c' id a key p r := by
  obtain ⟨x, hx, hcaller, hslot, htarget, hrequest, hawaited, hreplied⟩ := h
  obtain ⟨x', hx', hcontinues⟩ := exchange_of_step hstep hx
  rw [← hcontinues.call] at hslot htarget hrequest
  exact ⟨x', hx', hcontinues.caller.trans hcaller, hslot, htarget, hrequest,
    hcontinues.awaited hawaited, fun reply hr => hcontinues.replied reply (hreplied reply hr)⟩

theorem Calls.concat {outcome : Except Panic Call} (h : Calls d a key events outcome) :
    Calls d a key (events ++ [event]) outcome := by
  obtain ⟨first, second, c₁, c₂, hfirst, hsecond, hcall⟩ := h
  exact ⟨first, second, c₁, c₂, hfirst, hsecond.trans (List.prefix_append _ _), hcall⟩

/-- A lookup that takes a step of its own. -/
theorem Simulates.own (h : Simulates d c id a key events call)
    (hevent : ∀ p r, e = .send p r → HandedOver d c id a key p r)
    (hown : DHTClient.step d.parse (d.client a) key call e = some call') :
    Simulates d c id a key events call' := by
  obtain ⟨call₀, own, hcall₀, hrun, hsent⟩ := h
  refine ⟨call₀, own ++ [e], hcall₀, ?_, ?_⟩
  · rw [Run.run_concat, hrun]
    exact hown
  · intro p r hmem
    rcases List.mem_append.mp hmem with hmem | hmem
    · exact hsent p r hmem
    · exact hevent p r (List.mem_singleton.mp hmem).symm

theorem LookupInv.step (h : LookupInv d c id a key events stage)
    (hstep : Cluster.step d c event = some c') :
    LookupInv d c' id a key (events ++ [event]) stage := by
  cases stage with
  | missed =>
      obtain ⟨first, c₁, hfirst, h⟩ := h
      exact ⟨first, c₁, hfirst.trans (List.prefix_append _ _), h⟩
  | looking call =>
      obtain ⟨call₀, own, hcall₀, hrun, hsent⟩ := h
      exact ⟨call₀, own, hcall₀.concat, hrun, fun p r hmem => (hsent p r hmem).step hstep⟩
  | panicked e => exact Calls.concat h
  | _ => trivial

/-- A lookup that has missed at its node searches the table. -/
theorem Misses.calls (h : Misses d a key events)
    (hrun : Run.run (Cluster.step d) (new d) events = some c) :
    Calls d a key events (((c.nodes a).routingTable.kNearestPeers key).map
      ((d.client a).start key)) := by
  obtain ⟨first, c₁, hfirst, hc₁, hlocal⟩ := h
  refine ⟨first, events, c₁, c, hfirst, List.prefix_rfl, hc₁, hrun, ?_⟩
  have hlocal' : findValueLocal
      { kvstore := (c₁.nodes a).kvstore, routingTable := (c.nodes a).routingTable } key =
        none := hlocal
  rw [findValue, hlocal']
  cases (c.nodes a).routingTable.kNearestPeers key <;> rfl

end Lookups

end DhtKad.Cluster
