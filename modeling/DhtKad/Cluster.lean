import DhtKad.Network
import DhtKad.Server.Steps

/-!
The whole system, interleaved at its locks.

A `Deployment` gives every address the configuration of its node. A node is
asked for bootstraps, stores and lookups; each becomes a task that runs beside
the others of the node and suspends where the source awaits: at a lock, and
while remote calls are out. `Deployment.turn` takes a task from one suspension
to the next, and `Deployment.hear` hands it a result. A remote call is an
`Exchange`. Its request is handled at the target one lock at a time
(`atomicStep`), and its reply is delivered, or the caller hears of a failure
instead, which may come at any time and does not stop the handler.

The events of a `Cluster` are such single steps, in any order.
-/

namespace DhtKad

open RoutingTable DHTServer

/-- The configuration of a node; its address is the one it is found under. -/
structure DHTConfig where
  k : ℕ
  alpha : ℕ
  bootstrapPeers : List Peer
  id : U128
  deriving DecidableEq, Repr

/-- The nodes by the address each of them listens on, and the text of an
address. -/
structure Deployment (SocketAddr : Type) where
  parse : String → Option SocketAddr
  toString : SocketAddr → String
  config : SocketAddr → DHTConfig

/-- What a node is asked for. -/
inductive Operation
  | bootstrap
  | store (key : U128) (value : Bytes)
  | findValue (key : U128)
  deriving DecidableEq, Repr

/-- What the result of a remote call is for. -/
inductive Slot
  | introduction (i : ℕ)
  | ping (i : ℕ)
  | store (i : ℕ)
  | query (p : Peer)
  deriving DecidableEq, Repr

structure RemoteCall (SocketAddr : Type) where
  slot : Slot
  target : SocketAddr
  rpc : Rpc
  request : Message

/-- The results of joined calls, as far as they are in. -/
abbrev Results := List (Option (Except IoError Message))

/-- Where a task stands. -/
inductive Stage
  | begun
  | introducing (results : Results)
  | pinging (alivePeers candidatePeers : List Peer) (results : Results)
  | bootstrapped
  | storing (results : Results)
  | stored (result : Except RPCError Unit)
  /-- `find_value`: the value is not in the local store. -/
  | missed
  | looking (call : Call)
  | panicked (e : Panic)

/-- What a task has done when it suspends again. -/
structure Turn (SocketAddr : Type) where
  server : DHTServer
  stage : Stage
  calls : List (RemoteCall SocketAddr) := []

namespace Deployment

variable {SocketAddr : Type} (d : Deployment SocketAddr) (a : SocketAddr)

def localPeer : Peer := { id := (d.config a).id, address := d.toString a }

def client : DHTClient := { alpha := (d.config a).alpha, myself := d.localPeer a }

/-! ### A task between two suspensions -/

/-- One request to each of the targets, the results of which are joined. -/
def joined (slot : ℕ → Slot) (rpc : Rpc) (request : Message) (targets : List SocketAddr) :
    List (RemoteCall SocketAddr) :=
  targets.zipIdx.map fun (target, i) =>
    { slot := slot i, target := target, rpc := rpc, request := request }

/-- The queries of a lookup. The task of a peer whose address does not parse
panics before it sends anything. -/
def queries (key : U128) (peers : List Peer) : List (RemoteCall SocketAddr) :=
  peers.filterMap fun p => (d.parse p.address).map fun target =>
    { slot := .query p
      target := target
      rpc := .findValue
      request := createFindValueRequest key (d.localPeer a) }

/-- The result with an index, of joined calls that are all in. -/
def resultAt (results : Results) (i : ℕ) : Except IoError Message :=
  results.reduceOption.getD i (.error { text := "" })

/-- Without bootstrap peers a bootstrap waits until the table holds a peer. A look
at a table without one changes nothing, and is no event of a cluster. -/
def waitForConnection (s : DHTServer) : Except Panic Bool :=
  if (d.config a).bootstrapPeers = [] then do
    let peers ← s.routingTable.nearestPeers (d.config a).id 2
    return !decide (peers.length ≥ 1)
  else .ok false

def bootstrapTurn (s : DHTServer) : Stage → Except Panic (Option (Turn SocketAddr))
  | .begun => do
      let wait ← d.waitForConnection a s
      if wait then return none
      else
        let targets ← (d.config a).bootstrapPeers.mapM (parseAddress d.parse)
        return some
          { server := s
            stage := .introducing (targets.map fun _ => none)
            calls := joined .introduction .findNode
              (createFindNodeRequest (d.config a).id (d.localPeer a)) targets }
  | .introducing results =>
      if none ∈ results then .ok none
      else do
        let introductions := answered (d.config a).bootstrapPeers (resultAt results)
        let reported ← introductions.mapM fun (_, resp) => resp.closerPeers.mapM protoPeerToPeer
        let candidatePeers := selectCandidates (d.config a).bootstrapPeers reported.flatten
        let targets ← candidatePeers.mapM (parseAddress d.parse)
        return some
          { server := s
            stage := .pinging (introductions.map Prod.fst) candidatePeers
              (targets.map fun _ => none)
            calls := joined .ping .ping (createPingRequest (d.localPeer a)) targets }
  | .pinging alivePeers candidatePeers results =>
      if none ∈ results then .ok none
      else do
        let alivePeers :=
          alivePeers ++ (answered candidatePeers (resultAt results)).map Prod.fst
        let table ← addAlive s.routingTable alivePeers
        return some { server := { s with routingTable := table }, stage := .bootstrapped }
  | _ => .ok none

def storeTurn (key : U128) (value : Bytes) (s : DHTServer) :
    Stage → Except Panic (Option (Turn SocketAddr))
  | .begun => do
      let targets ← DHTClient.storeTargets d.parse s key
      return some
        { server := s
          stage := .storing (targets.map fun _ => none)
          calls := joined .store .store (createStoreRequest (d.localPeer a) key value) targets }
  | .storing results =>
      if none ∈ results then .ok none
      else .ok (some
        { server := s, stage := .stored (DHTClient.storeResult results.reduceOption) })
  | _ => .ok none

def findValueTurn (key : U128) (s : DHTServer) :
    Stage → Except Panic (Option (Turn SocketAddr))
  | .begun =>
      match DHTClient.findValueLocal s key with
      | some v => .ok (some
          { server := s
            stage := .looking { lookup := { candidates := [] }, status := .returned (.ok v) } })
      | none => .ok (some { server := s, stage := .missed })
  | .missed => do
      let candidates ← s.routingTable.kNearestPeers key
      let call := (d.client a).start key candidates
      return some
        { server := s
          stage := .looking call
          calls := d.queries a key call.lookup.tasks }
  | .looking call =>
      match DHTClient.step d.parse (d.client a) key call .recv with
      | some call' => .ok (some
          { server := s
            stage := .looking call'
            calls := d.queries a key (call'.lookup.tasks.drop call.lookup.tasks.length) })
      | none => .ok none
  | _ => .ok none

/-- A panic ends the task, and its node goes on. -/
def caught (s : DHTServer) : Except Panic (Option (Turn SocketAddr)) → Option (Turn SocketAddr)
  | .ok turn => turn
  | .error e => some { server := s, stage := .panicked e }

/-- A task from one suspension to the next, if it is not held up. -/
def turn (operation : Operation) (s : DHTServer) (stage : Stage) : Option (Turn SocketAddr) :=
  match operation with
  | .bootstrap => caught s (d.bootstrapTurn a s stage)
  | .store key value => caught s (d.storeTurn a key value s stage)
  | .findValue key => caught s (d.findValueTurn a key s stage)

/-- A task is handed a result. Where nobody waits for it, nothing happens: the
call that a query belongs to has returned. -/
def hear (operation : Operation) (slot : Slot) (result : Except IoError Message) :
    Stage → Stage
  | .introducing results =>
      match slot with
      | .introduction i => .introducing (results.set i (some result))
      | _ => .introducing results
  | .pinging alivePeers candidatePeers results =>
      match slot with
      | .ping i => .pinging alivePeers candidatePeers (results.set i (some result))
      | _ => .pinging alivePeers candidatePeers results
  | .storing results =>
      match slot with
      | .store i => .storing (results.set i (some result))
      | _ => .storing results
  | .looking call =>
      match operation, slot with
      | .findValue key, .query p =>
          .looking
            ((DHTClient.step d.parse (d.client a) key call (.send p result)).getD call)
      | _, _ => .looking call
  | stage => stage

def lose (operation : Operation) (p : Peer) (stage : Stage) : Option Stage :=
  match operation, stage with
  | .findValue key, .looking call =>
      (DHTClient.step d.parse (d.client a) key call (.die p)).map .looking
  | _, _ => none

end Deployment

/-! ### The cluster -/

/-- How far the request of a remote call has been handled. -/
inductive Progress
  | running (point : Point)
  | replied (reply : Message)
  | broken (e : Panic)

/-- How far a request has come with a step of its handler. -/
def progressAfter : EStateM.Result Panic DHTServer (Point ⊕ Message) → Progress
  | .ok (.inl point) _ => .running point
  | .ok (.inr reply) _ => .replied reply
  | .error e _ => .broken e

/-- A remote call that was made by the task with the number `caller`. -/
structure Exchange (SocketAddr : Type) extends RemoteCall SocketAddr where
  caller : ℕ
  progress : Progress
  /-- The caller has not been handed a result. -/
  awaited : Bool

def RemoteCall.issue {SocketAddr : Type} (caller : ℕ) (call : RemoteCall SocketAddr) :
    Exchange SocketAddr :=
  { call with caller := caller, progress := .running (.opened call.rpc), awaited := true }

structure Task (SocketAddr : Type) where
  node : SocketAddr
  operation : Operation
  stage : Stage

structure Cluster (SocketAddr : Type) where
  nodes : Network SocketAddr
  tasks : List (Task SocketAddr) := []
  exchanges : List (Exchange SocketAddr) := []

inductive ClusterEvent (SocketAddr : Type)
  | begin (a : SocketAddr) (operation : Operation)
  | advance (id : ℕ)
  | lose (id : ℕ) (p : Peer)
  | serve (i : ℕ)
  | deliver (i : ℕ)
  | fail (i : ℕ) (error : IoError)

namespace Cluster

variable {SocketAddr : Type}

def new (d : Deployment SocketAddr) : Cluster SocketAddr :=
  { nodes := Network.new (fun a => (d.config a).k) d.localPeer }

variable [DecidableEq SocketAddr] (d : Deployment SocketAddr)

def advance (c : Cluster SocketAddr) (id : ℕ) : Option (Cluster SocketAddr) := do
  let task ← c.tasks[id]?
  let turn ← d.turn task.node task.operation (c.nodes task.node) task.stage
  return {
    nodes := Function.update c.nodes task.node turn.server
    tasks := c.tasks.set id { task with stage := turn.stage }
    exchanges := c.exchanges ++ turn.calls.map (RemoteCall.issue id) }

theorem advance_eq {c : Cluster SocketAddr} {id : ℕ} {task : Task SocketAddr}
    {turn : Turn SocketAddr} (htask : c.tasks[id]? = some task)
    (hturn : d.turn task.node task.operation (c.nodes task.node) task.stage = some turn) :
    advance d c id = some {
      nodes := Function.update c.nodes task.node turn.server
      tasks := c.tasks.set id { task with stage := turn.stage }
      exchanges := c.exchanges ++ turn.calls.map (RemoteCall.issue id) } := by
  rw [advance, htask]
  simp only [bind, Option.bind, hturn]
  rfl

omit [DecidableEq SocketAddr] in
def lose (c : Cluster SocketAddr) (id : ℕ) (p : Peer) : Option (Cluster SocketAddr) := do
  let task ← c.tasks[id]?
  let stage ← d.lose task.node task.operation p task.stage
  return { c with tasks := c.tasks.set id { task with stage := stage } }

/-- The handler of a request goes on to its next lock. -/
def serve (c : Cluster SocketAddr) (i : ℕ) : Option (Cluster SocketAddr) := do
  let x ← c.exchanges[i]?
  match x.progress with
  | .running point =>
      let out := atomicStep x.request point (c.nodes x.target)
      return { c with
        nodes := Function.update c.nodes x.target (stateAfter out)
        exchanges := c.exchanges.set i { x with progress := progressAfter out } }
  | .replied _ => none
  | .broken _ => none

theorem serve_eq {c : Cluster SocketAddr} {i : ℕ} {x : Exchange SocketAddr} {point : Point}
    {out : EStateM.Result Panic DHTServer (Point ⊕ Message)} (hx : c.exchanges[i]? = some x)
    (hprogress : x.progress = .running point)
    (hout : atomicStep x.request point (c.nodes x.target) = out) :
    serve c i = some { c with
      nodes := Function.update c.nodes x.target (stateAfter out)
      exchanges := c.exchanges.set i { x with progress := progressAfter out } } := by
  rw [serve, hx]
  simp only [bind, Option.bind, hprogress, hout]
  rfl

omit [DecidableEq SocketAddr] in
/-- The caller of an exchange is handed a result. -/
def answer (c : Cluster SocketAddr) (i : ℕ) (x : Exchange SocketAddr)
    (result : Except IoError Message) : Option (Cluster SocketAddr) := do
  let task ← c.tasks[x.caller]?
  if x.awaited then
    let stage := d.hear task.node task.operation x.slot result task.stage
    return { c with
      tasks := c.tasks.set x.caller { task with stage := stage }
      exchanges := c.exchanges.set i { x with awaited := false } }
  else none

def step (c : Cluster SocketAddr) : ClusterEvent SocketAddr → Option (Cluster SocketAddr)
  | .begin a operation =>
      some { c with tasks := c.tasks ++ [{ node := a, operation := operation, stage := .begun }] }
  | .advance id => advance d c id
  | .lose id p => lose d c id p
  | .serve i => serve c i
  | .deliver i => do
      let x ← c.exchanges[i]?
      match x.progress with
      | .replied reply => answer d c i x (.ok reply)
      | .running _ => none
      | .broken _ => none
  | .fail i error => do
      let x ← c.exchanges[i]?
      answer d c i x (.error error)

end Cluster

end DhtKad
