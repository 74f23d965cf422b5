import DhtKad.Lib.Run
import DhtKad.Server

/-!
`client.rs`: the two operations of a client, `store` and `find_value`.

`find_value` is a loop that spawns queries as tasks of their own and then
suspends on the channel on which they send their results. It is modelled as a
transition system: between two suspensions the loop is a function of its
variables (`handleResult`, then `loopHead`), and the events are a task that
sends a result, a task that panics because the address of its peer does not
parse, and the loop receiving the next result. Parsing a socket address is a
parameter `parse`. The channel never closes, since the loop holds a sender, so
the source's `None => break` is never taken.
-/

namespace DhtKad

open SortBy RoutingTable

/-- The parameters of a client; it shares the two locks of `DHTServer`. -/
structure DHTClient where
  alpha : ℕ
  myself : Peer
  deriving DecidableEq, Repr

/-- The variables of the loop of `find_value` and of the tasks it spawned.
Results carry the peer they come from, and `received` records those that the
loop has taken: the source keeps neither. -/
structure Lookup where
  candidates : List Peer
  queried : List Peer := []
  inProgress : ℕ := 0
  /-- Spawned, and the result not sent. -/
  tasks : List Peer := []
  channel : List (Peer × Except IoError Message) := []
  received : List (Peer × Except IoError Message) := []
  /-- Spawned, and panicked before sending. -/
  dead : List Peer := []
  deriving DecidableEq

inductive Status
  | awaiting
  | returned (result : Except RPCError Bytes)
  | panicked (e : Panic)
  deriving DecidableEq

structure Call where
  lookup : Lookup
  status : Status
  deriving DecidableEq

inductive Event
  | send (p : Peer) (result : Except IoError Message)
  | die (p : Peer)
  | recv
  deriving DecidableEq

def notFound : RPCError := { errorCode := .notFound, message := "value not found" }

/-- `peer.address.parse().unwrap()`. -/
def parseAddress {SocketAddr : Type} (parse : String → Option SocketAddr) (peer : Peer) :
    Except Panic SocketAddr :=
  match parse peer.address with
  | some addr => .ok addr
  | none => .error .addrParse

theorem parseAddress_eq_ok_iff {SocketAddr : Type} {parse : String → Option SocketAddr}
    {peer : Peer} {addr : SocketAddr} :
    parseAddress parse peer = .ok addr ↔ parse peer.address = some addr := by
  unfold parseAddress
  cases parse peer.address <;> simp

theorem parseAddress_isOk_iff {SocketAddr : Type} (parse : String → Option SocketAddr)
    (peer : Peer) : (∃ addr, parseAddress parse peer = .ok addr) ↔ (parse peer.address).isSome := by
  unfold parseAddress
  cases parse peer.address <;> simp

namespace DHTClient

/-! ### `store` -/

/-- The addresses a store is sent to. All of them are parsed before the first
request goes out. -/
def storeTargets {SocketAddr : Type} (parse : String → Option SocketAddr) (s : DHTServer)
    (key : U128) : Except Panic (List SocketAddr) := do
  let peers ← s.routingTable.kNearestPeers key
  peers.mapM (parseAddress parse)

/-- The result of `store`, from the results of its requests. -/
def storeResult (results : List (Except IoError Message)) : Except RPCError Unit :=
  let (failures, lastError) := results.foldl
    (fun (failures, lastError) r =>
      match validateStoreResult r with
      | .error e => (failures + 1, e)
      | .ok () => (failures, lastError))
    (0, ({ errorCode := .ok, message := "" } : RPCError))
  if failures = results.length then .error lastError else .ok ()

/-! ### `find_value` -/

def findValueLocal (s : DHTServer) (key : U128) : Option Bytes :=
  match s.kvstore.get (keyToBytes key) with
  | .ok v => v
  | .error _ => none

/-- Spawns queries while there is room for one, from a list of candidates with
the nearest at its head. -/
def spawnQueries (alpha : ℕ) : List Peer → Lookup → Lookup
  | [], l => l
  | peer :: rest, l =>
      if l.inProgress < alpha then
        spawnQueries alpha rest
          { l with
            candidates := rest.reverse
            inProgress := l.inProgress + 1
            queried := l.queried ++ [peer]
            tasks := l.tasks ++ [peer] }
      else l

/-- The candidates from the farthest to the nearest, as the source sorts them. -/
def sortCandidates (key : U128) (candidates : List Peer) : List Peer :=
  sortBy (fun p => OrderDual.toDual (distance key p)) candidates

/-- From the head of the loop to where it suspends. -/
def loopHead (client : DHTClient) (key : U128) (l : Lookup) : Call :=
  if l.candidates.length = 0 then { lookup := l, status := .returned (.error notFound) }
  else
    let sorted := sortCandidates key l.candidates
    -- candidates are popped from the end of the vector
    { lookup := spawnQueries client.alpha sorted.reverse { l with candidates := sorted }
      status := .awaiting }

/-- What the loop does with a result: the value to return, if the result
carries one, and the variables to go on with. -/
def handleResult (l : Lookup) (result : Except IoError Message) :
    Except Panic (Lookup × Option Bytes) :=
  if l.inProgress = 0 then .error .subtractOverflow
  else
    let l := { l with inProgress := l.inProgress - 1 }
    match result with
    | .error _ => .ok (l, none)
    | .ok response =>
        -- a code other than `OK` is only logged
        if response.value ≠ [] then .ok (l, some response.value)
        else do
          let peers ← response.closerPeers.mapM protoPeerToPeer
          let newCandidates := peers.filter fun p => p ∉ l.queried ∧ p ∉ l.candidates
          return ({ l with candidates := l.candidates ++ newCandidates }, none)

/-- One turn of the loop, with the result at the head of the channel. A panic
leaves the variables as they were. -/
def turn (client : DHTClient) (key : U128) (l : Lookup) (p : Peer)
    (result : Except IoError Message) (rest : List (Peer × Except IoError Message)) : Call :=
  match handleResult
      { l with channel := rest, received := l.received ++ [(p, result)] } result with
  | .error e => { lookup := l, status := .panicked e }
  | .ok (l', some value) => { lookup := l', status := .returned (.ok value) }
  | .ok (l', none) => client.loopHead key l'

/-- The transition system of a call. Once the call has returned its tasks no
longer matter, because their sends fail. -/
def step {SocketAddr : Type} (parse : String → Option SocketAddr) (client : DHTClient)
    (key : U128) (c : Call) (event : Event) : Option Call :=
  match c.status with
  | .awaiting =>
      match event with
      | .send p result =>
          if p ∈ c.lookup.tasks ∧ (parse p.address).isSome then
            some { c with lookup := { c.lookup with
              tasks := c.lookup.tasks.erase p
              channel := c.lookup.channel ++ [(p, result)] } }
          else none
      | .die p =>
          if p ∈ c.lookup.tasks ∧ (parse p.address).isNone then
            some { c with lookup := { c.lookup with
              tasks := c.lookup.tasks.erase p
              dead := c.lookup.dead ++ [p] } }
          else none
      | .recv =>
          match c.lookup.channel with
          | [] => none
          | (p, result) :: rest => some (client.turn key c.lookup p result rest)
  | .returned _ => none
  | .panicked _ => none

/-- The loop from a list of initial candidates, up to its first suspension. -/
def start (client : DHTClient) (key : U128) (candidates : List Peer) : Call :=
  client.loopHead key { candidates := candidates }

/-- A call of `find_value` up to its first suspension: the local store is
looked at first. -/
def findValue (client : DHTClient) (s : DHTServer) (key : U128) : Except Panic Call :=
  match findValueLocal s key with
  | some v => .ok { lookup := { candidates := [] }, status := .returned (.ok v) }
  | none => do
      let candidates ← s.routingTable.kNearestPeers key
      return client.start key candidates

def afterEvents {SocketAddr : Type} (parse : String → Option SocketAddr) (client : DHTClient)
    (key : U128) (candidates : List Peer) (events : List Event) : Option Call :=
  Run.run (step parse client key) (client.start key candidates) events

/-! ### One turn of the loop -/

/-- The value a result carries, if it is one that ends the call. -/
def carriedValue : Except IoError Message → Option Bytes
  | .error _ => none
  | .ok response => if response.value ≠ [] then some response.value else none

/-- The candidates that a result without a value adds. -/
def discovered (l : Lookup) : Except IoError Message → Except Panic (List Peer)
  | .error _ => .ok []
  | .ok response => do
      let peers ← response.closerPeers.mapM protoPeerToPeer
      return peers.filter fun p => p ∉ l.queried ∧ p ∉ l.candidates

/-- The variables after a result was taken and new candidates were added. -/
def merge (l : Lookup) (p : Peer) (result : Except IoError Message)
    (rest : List (Peer × Except IoError Message)) (new : List Peer) : Lookup :=
  { l with
    candidates := l.candidates ++ new
    inProgress := l.inProgress - 1
    channel := rest
    received := l.received ++ [(p, result)] }

def nextQueries (client : DHTClient) (key : U128) (l : Lookup) : List Peer :=
  (sortCandidates key l.candidates).reverse.take (client.alpha - l.inProgress)

theorem spawnQueries_eq (alpha : ℕ) (ps : List Peer) (l : Lookup)
    (h : l.candidates = ps.reverse) :
    spawnQueries alpha ps l =
      { l with
        candidates := (ps.drop (alpha - l.inProgress)).reverse
        inProgress := l.inProgress + (ps.take (alpha - l.inProgress)).length
        queried := l.queried ++ ps.take (alpha - l.inProgress)
        tasks := l.tasks ++ ps.take (alpha - l.inProgress) } := by
  induction ps generalizing l with
  | nil => simp [spawnQueries, ← h]
  | cons p ps ih =>
      by_cases hroom : l.inProgress < alpha
      · obtain ⟨n, hn⟩ : ∃ n, alpha - l.inProgress = n + 1 :=
          ⟨alpha - l.inProgress - 1, by omega⟩
        have hn' : alpha - (l.inProgress + 1) = n := by omega
        rw [spawnQueries, if_pos hroom, ih _ rfl, hn, hn']
        simp only [List.take_succ_cons, List.drop_succ_cons, List.length_cons,
          List.append_assoc, List.singleton_append]
        rw [Nat.add_right_comm, Nat.add_assoc]
      · have hzero : alpha - l.inProgress = 0 := by omega
        rw [spawnQueries, if_neg hroom, hzero]
        simp [← h]

theorem loopHead_of_nil (client : DHTClient) (key : U128) {l : Lookup}
    (h : l.candidates = []) :
    client.loopHead key l = { lookup := l, status := .returned (.error notFound) } := by
  simp [loopHead, h]

theorem loopHead_of_ne_nil (client : DHTClient) (key : U128) {l : Lookup}
    (h : l.candidates ≠ []) :
    client.loopHead key l =
      { lookup := { l with
          candidates := ((sortCandidates key l.candidates).reverse.drop
            (client.alpha - l.inProgress)).reverse
          inProgress := l.inProgress + (client.nextQueries key l).length
          queried := l.queried ++ client.nextQueries key l
          tasks := l.tasks ++ client.nextQueries key l }
        status := .awaiting } := by
  rw [loopHead, if_neg (by simpa using h)]
  simp only [nextQueries]
  rw [spawnQueries_eq _ _ _ (by simp)]

/-- A turn: a value ends the call, an entry that does not decode makes it
panic, and anything else leads back to the head of the loop. -/
theorem turn_eq (client : DHTClient) (key : U128) {l : Lookup} (h : l.inProgress ≠ 0)
    (p : Peer) (result : Except IoError Message)
    (rest : List (Peer × Except IoError Message)) :
    client.turn key l p result rest =
      match carriedValue result with
      | some v =>
          { lookup := merge l p result rest [], status := .returned (.ok v) }
      | none =>
          match discovered l result with
          | .error e => { lookup := l, status := .panicked e }
          | .ok new => client.loopHead key (merge l p result rest new) := by
  unfold turn handleResult
  simp only [if_neg h]
  cases result with
  | error e => simp [carriedValue, discovered, merge]
  | ok response =>
      by_cases hv : response.value ≠ []
      · simp [carriedValue, hv, merge]
      · simp only [carriedValue, if_neg hv, discovered, bind, Except.bind]
        cases response.closerPeers.mapM protoPeerToPeer with
        | error e => rfl
        | ok peers => rfl

end DHTClient

end DhtKad
