import DhtKad.Service

/-!
Several nodes, and a lookup among them.

A network gives every socket address its node. It changes one node at a time,
by the requests and bootstraps of that node. A lookup adds the query of one
client: a task's request is handled by the node at the address of its peer, the
reply is then in flight, and when it arrives it is sent to the loop. Between
these steps any other event of the network may take place.
-/

namespace DhtKad

open RoutingTable DHTServer

/-- The nodes of a network, by the address each of them listens on. -/
abbrev Network (SocketAddr : Type) := SocketAddr → DHTServer

abbrev NetworkEvent (SocketAddr : Type) := SocketAddr × NodeEvent

namespace Network

variable {SocketAddr : Type}

def new (k : SocketAddr → ℕ) (localPeer : SocketAddr → Peer) : Network SocketAddr :=
  fun a => DHTServer.new (k a) (localPeer a)

variable [DecidableEq SocketAddr] (parse : String → Option SocketAddr)
  (bootstrapPeers : SocketAddr → List Peer)

def step (w : Network SocketAddr) (event : NetworkEvent SocketAddr) :
    Option (Network SocketAddr) :=
  (nodeStep parse (bootstrapPeers event.1) (w event.1) event.2).map (Function.update w event.1)

variable {parse bootstrapPeers}

theorem step_eq_some {w w' : Network SocketAddr} {event : NetworkEvent SocketAddr}
    (h : step parse bootstrapPeers w event = some w') :
    ∃ s, nodeStep parse (bootstrapPeers event.1) (w event.1) event.2 = some s ∧
      w' = Function.update w event.1 s := by
  obtain ⟨s, hs, rfl⟩ := Option.map_eq_some_iff.mp h
  exact ⟨s, hs, rfl⟩

/-- What the events of a node keep at that node, the events of the network keep
there. -/
theorem step_invariant_at {I : DHTServer → Prop} {a : SocketAddr} {w w' : Network SocketAddr}
    {event : NetworkEvent SocketAddr}
    (hstep : ∀ s s', I s → event.1 = a →
      nodeStep parse (bootstrapPeers a) s event.2 = some s' → I s')
    (hI : I (w a)) (h : step parse bootstrapPeers w event = some w') : I (w' a) := by
  obtain ⟨s, hs, rfl⟩ := step_eq_some h
  by_cases ha : event.1 = a
  · subst ha
    rw [Function.update_self]
    exact hstep _ s hI rfl hs
  · rwa [Function.update_of_ne (Ne.symm ha)]

theorem run_held {k : SocketAddr → ℕ} {localPeer : SocketAddr → Peer}
    {events : List (NetworkEvent SocketAddr)} {w : Network SocketAddr}
    (h : Run.run (step parse bootstrapPeers) (new k localPeer) events = some w)
    (a : SocketAddr) : Held (k a) (localPeer a) (w a).routingTable := by
  refine Run.run_invariant
    (I := fun w : Network SocketAddr => Held (k a) (localPeer a) (w a).routingTable) ?_ ?_ h
  · intro w event w' hw hstep
    exact step_invariant_at (I := fun s => Held (k a) (localPeer a) s.routingTable)
      (fun _ _ hheld _ hnode => nodeStep_held hheld hnode) hw hstep
  · exact held_new (k a) (localPeer a)

end Network

/-! ### A lookup -/

/-- A network with a lookup under way, and the replies that have been given and
not arrived. -/
structure LookupState (SocketAddr : Type) where
  network : Network SocketAddr
  call : Call
  inFlight : List (Peer × Message) := []

inductive LookupEvent (SocketAddr : Type)
  | other (event : NetworkEvent SocketAddr)
  | handle (p : Peer)
  | arrive (p : Peer) (reply : Message)
  | recv

def LookupEvent.isOwn {SocketAddr : Type} : LookupEvent SocketAddr → Bool
  | .other _ => false
  | .handle _ => true
  | .arrive _ _ => true
  | .recv => true

namespace LookupState

variable {SocketAddr : Type} [DecidableEq SocketAddr] (parse : String → Option SocketAddr)
  (bootstrapPeers : SocketAddr → List Peer) (client : DHTClient) (key : U128)

/-- The node at the address of a peer handles the request of one of its tasks. -/
def handleQuery (s : LookupState SocketAddr) (p : Peer) : Option (LookupState SocketAddr) :=
  if (s.inFlight.map Prod.fst).count p < s.call.lookup.tasks.count p then
    match parse p.address with
    | some a =>
        match DHTServer.handle .findValue (createFindValueRequest key client.myself)
            (s.network a) with
        | .ok reply node =>
            some { s with
              network := Function.update s.network a node
              inFlight := s.inFlight ++ [(p, reply)] }
        | .error _ _ => none
    | none => none
  else none

def step (s : LookupState SocketAddr) :
    LookupEvent SocketAddr → Option (LookupState SocketAddr)
  | .other event =>
      (Network.step parse bootstrapPeers s.network event).map fun w => { s with network := w }
  | .handle p => handleQuery parse client key s p
  | .arrive p reply =>
      if (p, reply) ∈ s.inFlight then
        (DHTClient.step parse client key s.call (.send p (.ok reply))).map fun c =>
          { s with call := c, inFlight := s.inFlight.erase (p, reply) }
      else none
  | .recv =>
      (DHTClient.step parse client key s.call .recv).map fun c => { s with call := c }

end LookupState

end DhtKad
