import DhtKad.Server.Requests

/-!
The request handlers, one lock at a time.

A handler holds a lock only while it works on the routing table or on the
key-value store, so between its locks other handlers of the node may run.
`atomicStep` is what a handler does under one lock: the check of the request
touches nothing shared and belongs to the first. Run without interruption, the
steps are the handler (`uninterrupted_eq_handle`). `AtomicStepped` lists what a
step can do, and the rules after it are what interleaved handlers keep.
-/

namespace DhtKad.DHTServer

open RoutingTable

/-- Where a handler stands between two of its locks. -/
inductive Point
  /-- Nothing was done yet. -/
  | opened (rpc : Rpc)
  /-- `store`: the sender is recorded, the value is put next. -/
  | storing
  /-- `find_value`: the sender is recorded, the value is looked up next. -/
  | reading
  /-- `find_value`: there is no value, the request is handled as `find_node` next. -/
  | missed
  deriving DecidableEq, Repr

/-- The procedure that a point belongs to. -/
def Point.rpc : Point → Rpc
  | .opened rpc => rpc
  | .storing => .store
  | .reading => .findValue
  | .missed => .findValue

/-- The check of a request and the update of the routing table with its sender. -/
def recordSender (message : Message) (next : Point ⊕ Message) : Handler (Point ⊕ Message) := do
  if !validateRequest message then
    return .inr createInvalidResponse
  let myself ← MonadExcept.ofExcept (unwrap message.myself)
  updateRoutingTable myself
  return next

/-- What a handler does under its next lock: it goes on to another point, or it
replies. -/
def atomicStep (message : Message) : Point → Handler (Point ⊕ Message)
  | .opened .store => recordSender message (.inl .storing)
  | .opened .findNode => do
      -- the lock is held until the nearest peers are computed
      let response ← findNodeAsync message
      return .inr response
  | .opened .findValue => recordSender message (.inl .reading)
  | .opened .ping => recordSender message (.inr createPingResponse)
  | .storing => do
      let s ← get
      let (kvstore, result) := s.kvstore.put message.key message.value
      set { s with kvstore := kvstore }
      match result with
      | .ok () => return .inr (createStoreResponse true)
      | .error _ => return .inr (createStoreResponse false)
  | .reading => do
      let s ← get
      match s.kvstore.get message.key with
      | .ok (some value) => return .inr (createFindValueResponse message.key value)
      | .ok none => return .inl .missed
      | .error _ => return .inl .missed
  | .missed => do
      let response ← findNodeAsync message
      return .inr response

theorem atomicStep_reading (message : Message) (s : DHTServer) :
    atomicStep message .reading s =
      match s.kvstore.store message.key with
      | some value => .ok (.inr (createFindValueResponse message.key value)) s
      | none => .ok (.inl .missed) s := by
  rw [atomicStep]
  simp only [bind_apply, get_apply, MemoryStore.get_eq]
  cases s.kvstore.store message.key <;> rfl

/-! ### Without interruption -/

/-- The steps from a point on, one right after the other. -/
def uninterrupted (message : Message) : ℕ → Point → Handler Message
  | 0, _ => throw .stackOverflow
  | steps + 1, point => do
      match ← atomicStep message point with
      | .inl point' => uninterrupted message steps point'
      | .inr response => return response

/-- The opening of a handler is its first step, whatever follows. -/
theorem validated_eq_recordSender (message : Message) (next : Point)
    (body : Handler Message) (s : DHTServer) :
    validated message body s =
      match recordSender message (.inl next) s with
      | .ok (.inl _) s' => body s'
      | .ok (.inr response) s' => .ok response s'
      | .error e s' => .error e s' := by
  rw [validated, recordSender]
  cases validateRequest message with
  | false => rfl
  | true =>
      simp only [Bool.not_true, Bool.false_eq_true, if_false, bind_apply, ofExcept_apply]
      cases unwrap message.myself with
      | error e => rfl
      | ok myself =>
          simp only []
          cases updateRoutingTable myself s with
          | ok _ _ => rfl
          | error _ _ => rfl

theorem recordSender_of_valid {message : Message} {myself : MessagePeer}
    (hvalid : validateRequest message = true) (hmyself : message.myself = some myself)
    (next : Point ⊕ Message) (s : DHTServer) :
    recordSender message next s =
      match updateRoutingTable myself s with
      | .ok _ s' => .ok next s'
      | .error e s' => .error e s' := by
  rw [recordSender, hvalid, hmyself]
  simp only [unwrap, Bool.not_true, Bool.false_eq_true, if_false, bind_apply, ofExcept_apply]
  cases updateRoutingTable myself s with
  | ok _ _ => rfl
  | error _ _ => rfl

theorem recordSender_of_sentBy {message : Message} {p : Peer} (h : SentBy message p)
    {s : DHTServer} {t : RoutingTable} {r : Except NoCapacityError Unit}
    (hu : s.routingTable.update p = .ok (t, r)) (next : Point ⊕ Message) :
    recordSender message next s = .ok next { s with routingTable := t } := by
  obtain ⟨hvalid, myself, hmyself, hp⟩ := h
  simp only [recordSender_of_valid hvalid hmyself, updateRoutingTable_eq, hp, hu]

theorem recordSender_cases (message : Message) (s : DHTServer) :
    (validateRequest message = false ∧
        ∀ next, recordSender message next s = .ok (.inr createInvalidResponse) s) ∨
      (validateRequest message = true ∧ ∃ e, ∀ next, recordSender message next s = .error e s) ∨
      ∃ p t r, SentBy message p ∧ s.routingTable.update p = .ok (t, r) ∧
        ∀ next, recordSender message next s = .ok next { s with routingTable := t } := by
  cases hvalid : validateRequest message with
  | false =>
      refine .inl ⟨rfl, fun next => ?_⟩
      rw [recordSender, hvalid]
      rfl
  | true =>
      obtain ⟨myself, hmyself, -⟩ := (validateRequest_eq_true_iff message).mp hvalid
      have hrecord := recordSender_of_valid hvalid hmyself
      cases hp : protoPeerToPeer myself with
      | error e =>
          refine .inr (.inl ⟨rfl, e, fun next => ?_⟩)
          rw [hrecord, updateRoutingTable_eq, hp]
      | ok p =>
          cases hu : s.routingTable.update p with
          | error e =>
              refine .inr (.inl ⟨rfl, e, fun next => ?_⟩)
              simp only [hrecord, updateRoutingTable_eq, hp, hu]
          | ok out =>
              have hsent : SentBy message p := ⟨hvalid, myself, hmyself, hp⟩
              exact .inr (.inr ⟨p, out.1, out.2, hsent, hu, recordSender_of_sentBy hsent hu⟩)

theorem uninterrupted_succ (message : Message) (steps : ℕ) (point : Point) (s : DHTServer) :
    uninterrupted message (steps + 1) point s =
      match atomicStep message point s with
      | .ok (.inl point') s' => uninterrupted message steps point' s'
      | .ok (.inr response) s' => .ok response s'
      | .error e s' => .error e s' := by
  rw [uninterrupted, bind_apply]
  cases atomicStep message point s with
  | error e s' => rfl
  | ok next s' => cases next <;> rfl

/-- **Refinement.** With nothing in between, the steps of a handler are the
handler. -/
theorem uninterrupted_eq_handle (rpc : Rpc) (message : Message) :
    uninterrupted message 3 (.opened rpc) = handle rpc message := by
  funext s
  rw [uninterrupted_succ]
  cases rpc with
  | store =>
      rw [handle, storeAsync, validated_eq_recordSender message .storing, atomicStep]
      rcases recordSender_cases message s with ⟨-, h⟩ | ⟨-, e, h⟩ | ⟨p, t, r, -, -, h⟩ <;> rw [h]
      rfl
  | findNode =>
      rw [handle, atomicStep, bind_apply]
      cases findNodeAsync message s with
      | ok response s' => rfl
      | error e s' => rfl
  | findValue =>
      rw [handle, findValueAsync, validated_eq_recordSender message .reading, atomicStep]
      rcases recordSender_cases message s with ⟨-, h⟩ | ⟨-, e, h⟩ | ⟨p, t, r, -, -, h⟩ <;> rw [h]
      simp only [uninterrupted_succ, atomicStep, bind_apply, get_apply, MemoryStore.get_eq]
      cases s.kvstore.store message.key with
      | some value => rfl
      | none =>
          simp only [pure_apply, bind_apply]
          cases findNodeAsync message { s with routingTable := t } with
          | ok response s' => rfl
          | error e s' => rfl
  | ping =>
      rw [handle, pingAsync, validated_eq_recordSender message .storing, atomicStep]
      rcases recordSender_cases message s with ⟨-, h⟩ | ⟨-, e, h⟩ | ⟨p, t, r, -, -, h⟩ <;> rw [h, h]
      rfl

theorem atomicStep_miss (key : U128) {p : Peer} {s : DHTServer} {t : RoutingTable}
    {r : Except NoCapacityError Unit} {peers : List Peer} (hp : p.address ≠ "")
    (hu : s.routingTable.update p = .ok (t, r)) (hagain : t.update p = .ok (t, r))
    (hvalue : s.kvstore.store (keyToBytes key) = none) (hpeers : t.kNearestPeers key = .ok peers) :
    atomicStep (createFindValueRequest key p) (.opened .findValue) s =
        .ok (.inl .reading) { s with routingTable := t } ∧
      atomicStep (createFindValueRequest key p) .reading { s with routingTable := t } =
        .ok (.inl .missed) { s with routingTable := t } ∧
      atomicStep (createFindValueRequest key p) .missed { s with routingTable := t } =
        .ok (.inr (createFindNodeResponse peers)) { s with routingTable := t } := by
  have hsent : SentBy (createFindValueRequest key p) p := sentBy_of_peer hp rfl
  have hkey : (createFindValueRequest key p).key = keyToBytes key := rfl
  refine ⟨recordSender_of_sentBy hsent hu _, ?_, ?_⟩
  · rw [atomicStep_reading, hkey]
    simp only [hvalue]
  · have hu' : ({ s with routingTable := t } : DHTServer).routingTable.update p = .ok (t, r) :=
      hagain
    rw [atomicStep, bind_apply, findNodeAsync_eq hsent hu', hkey]
    simp only [keyFromBytes_keyToBytes, hpeers]
    rfl

/-! ### All that a step can do -/

/-- What follows the update of the table, in the handlers that let go of it. -/
def afterRecord : Rpc → Option (Point ⊕ Message)
  | .store => some (.inl .storing)
  | .findNode => none
  | .findValue => some (.inl .reading)
  | .ping => some (.inr createPingResponse)

/-- The ways in which a step ends. -/
inductive AtomicStepped (message : Message) (s : DHTServer) :
    Point → EStateM.Result Panic DHTServer (Point ⊕ Message) → Prop
  | invalid {point : Point} (hvalid : validateRequest message = false) :
      AtomicStepped message s point (.ok (.inr createInvalidResponse) s)
  | notRecorded {point : Point} {e : Panic} (hvalid : validateRequest message = true) :
      AtomicStepped message s point (.error e s)
  | recorded {rpc : Rpc} {next : Point ⊕ Message} {p : Peer} {t : RoutingTable}
      {r : Except NoCapacityError Unit} (hnext : afterRecord rpc = some next)
      (hsent : SentBy message p) (hupdate : s.routingTable.update p = .ok (t, r)) :
      AtomicStepped message s (.opened rpc) (.ok next { s with routingTable := t })
  | nodesFound {point : Point} {p : Peer} {t : RoutingTable}
      {r : Except NoCapacityError Unit} {target : U128} {peers : List Peer}
      (hsent : SentBy message p) (hupdate : s.routingTable.update p = .ok (t, r))
      (hkey : keyFromBytes message.key = .ok target)
      (hpeers : t.kNearestPeers target = .ok peers) :
      AtomicStepped message s point
        (.ok (.inr (createFindNodeResponse peers)) { s with routingTable := t })
  | nodesPanic {point : Point} {p : Peer} {t : RoutingTable}
      {r : Except NoCapacityError Unit} {e : Panic} (hsent : SentBy message p)
      (hupdate : s.routingTable.update p = .ok (t, r)) :
      AtomicStepped message s point (.error e { s with routingTable := t })
  | put :
      AtomicStepped message s .storing (.ok (.inr (createStoreResponse true))
        { s with kvstore := (s.kvstore.put message.key message.value).1 })
  | hit {value : Bytes} (hvalue : s.kvstore.store message.key = some value) :
      AtomicStepped message s .reading
        (.ok (.inr (createFindValueResponse message.key value)) s)
  | miss (hvalue : s.kvstore.store message.key = none) :
      AtomicStepped message s .reading (.ok (.inl .missed) s)

section AtomicSteps

variable {message : Message} {s : DHTServer} {point : Point}
  {out : EStateM.Result Panic DHTServer (Point ⊕ Message)}

theorem recordSender_stepped (message : Message) (s : DHTServer) {rpc : Rpc}
    {next : Point ⊕ Message} (hnext : afterRecord rpc = some next) :
    AtomicStepped message s (.opened rpc) (recordSender message next s) := by
  rcases recordSender_cases message s with ⟨hvalid, h⟩ | ⟨hvalid, e, h⟩ | ⟨p, t, r, hp, hu, h⟩
  · rw [h]
    exact .invalid hvalid
  · rw [h]
    exact .notRecorded hvalid
  · rw [h]
    exact .recorded hnext hp hu

theorem findNodeAsync_stepped (message : Message) (s : DHTServer) (point : Point) :
    AtomicStepped message s point
      ((findNodeAsync message >>= fun response => pure (.inr response)) s) := by
  rw [bind_apply]
  have hhandled := findNodeAsync_handled message s
  generalize findNodeAsync message s = out at hhandled
  cases hhandled with
  | invalid hvalid => exact .invalid hvalid
  | notRecorded hvalid hupdate => exact .notRecorded hvalid
  | nodesFound hsent hupdate hkey hpeers => exact .nodesFound hsent hupdate hkey hpeers
  | nodesPanic hsent hupdate hpanic => exact .nodesPanic hsent hupdate

theorem atomicStep_stepped (message : Message) (s : DHTServer) (point : Point) :
    AtomicStepped message s point (atomicStep message point s) := by
  cases point with
  | opened rpc =>
      cases rpc with
      | store => exact recordSender_stepped message s rfl
      | findNode => exact findNodeAsync_stepped message s _
      | findValue => exact recordSender_stepped message s rfl
      | ping => exact recordSender_stepped message s rfl
  | storing => exact .put
  | reading =>
      rw [atomicStep]
      simp only [bind_apply, get_apply, MemoryStore.get_eq]
      cases hvalue : s.kvstore.store message.key with
      | some value => exact .hit hvalue
      | none => exact .miss hvalue
  | missed => exact findNodeAsync_stepped message s _

/-! ### What the steps keep -/

theorem AtomicStepped.routingTable {I : RoutingTable → Prop}
    (h : AtomicStepped message s point out)
    (hstep : ∀ p t r, SentBy message p → s.routingTable.update p = .ok (t, r) → I t)
    (hI : I s.routingTable) : I (stateAfter out).routingTable := by
  cases h with
  | invalid hvalid => exact hI
  | notRecorded hvalid => exact hI
  | recorded hnext hsent hupdate => exact hstep _ _ _ hsent hupdate
  | nodesFound hsent hupdate hkey hpeers => exact hstep _ _ _ hsent hupdate
  | nodesPanic hsent hupdate => exact hstep _ _ _ hsent hupdate
  | put => exact hI
  | hit hvalue => exact hI
  | miss hvalue => exact hI

theorem AtomicStepped.kvstore (h : AtomicStepped message s point out) (key : Bytes) :
    (stateAfter out).kvstore.store key = s.kvstore.store key ∨
      point = .storing ∧ message.key = key ∧
        (stateAfter out).kvstore.store key = some message.value := by
  cases h with
  | invalid hvalid => exact .inl rfl
  | notRecorded hvalid => exact .inl rfl
  | recorded hnext hsent hupdate => exact .inl rfl
  | nodesFound hsent hupdate hkey hpeers => exact .inl rfl
  | nodesPanic hsent hupdate => exact .inl rfl
  | put =>
      by_cases hkey : message.key = key
      · subst hkey
        exact .inr ⟨rfl, rfl, MemoryStore.put_store_self _ _ _⟩
      · exact .inl (MemoryStore.put_store_of_ne _ _ (Ne.symm hkey))
  | hit hvalue => exact .inl rfl
  | miss hvalue => exact .inl rfl

theorem AtomicStepped.value {reply : Message} {s' : DHTServer}
    (h : AtomicStepped message s point (.ok (.inr reply) s')) (hvalue : reply.value ≠ []) :
    s.kvstore.store message.key = some reply.value := by
  generalize hout : EStateM.Result.ok (Sum.inr reply) s' = out at h
  cases h with
  | invalid hvalid =>
      cases hout
      exact absurd rfl hvalue
  | recorded hnext hsent hupdate =>
      rename_i rpc next p t r
      cases hout
      cases rpc with
      | ping =>
          obtain rfl : createPingResponse = reply := by simpa [afterRecord] using hnext
          exact absurd rfl hvalue
      | store => simp [afterRecord] at hnext
      | findNode => simp [afterRecord] at hnext
      | findValue => simp [afterRecord] at hnext
  | nodesFound hsent hupdate hkey hpeers =>
      cases hout
      exact absurd rfl hvalue
  | put =>
      cases hout
      exact absurd rfl hvalue
  | hit hread =>
      cases hout
      exact hread
  | notRecorded hvalid => cases hout
  | nodesPanic hsent hupdate => cases hout
  | miss hnone => cases hout

theorem AtomicStepped.closerPeers {reply : Message} {s' : DHTServer}
    (h : AtomicStepped message s point (.ok (.inr reply) s')) :
    reply.closerPeers = [] ∨ ∃ target peers, s'.routingTable.kNearestPeers target = .ok peers ∧
      reply = createFindNodeResponse peers := by
  generalize hout : EStateM.Result.ok (Sum.inr reply) s' = out at h
  cases h with
  | nodesFound hsent hupdate hkey hpeers =>
      cases hout
      exact .inr ⟨_, _, hpeers, rfl⟩
  | recorded hnext hsent hupdate =>
      rename_i rpc next p t r
      cases hout
      cases rpc with
      | ping =>
          obtain rfl : createPingResponse = reply := by simpa [afterRecord] using hnext
          exact .inl rfl
      | store => simp [afterRecord] at hnext
      | findNode => simp [afterRecord] at hnext
      | findValue => simp [afterRecord] at hnext
  | invalid hvalid =>
      cases hout
      exact .inl rfl
  | put =>
      cases hout
      exact .inl rfl
  | hit hvalue =>
      cases hout
      exact .inl rfl
  | notRecorded hvalid => cases hout
  | nodesPanic hsent hupdate => cases hout
  | miss hnone => cases hout

theorem AtomicStepped.rpc_eq {point' : Point} {s' : DHTServer}
    (h : AtomicStepped message s point (.ok (.inl point') s')) : point'.rpc = point.rpc := by
  generalize hout : EStateM.Result.ok (Sum.inl point') s' = out at h
  cases h with
  | recorded hnext hsent hupdate =>
      rename_i rpc next p t r
      cases hout
      cases rpc with
      | store =>
          obtain rfl : Point.storing = point' := by simpa [afterRecord] using hnext
          rfl
      | findValue =>
          obtain rfl : Point.reading = point' := by simpa [afterRecord] using hnext
          rfl
      | findNode => simp [afterRecord] at hnext
      | ping => simp [afterRecord] at hnext
  | miss hvalue =>
      cases hout
      rfl
  | invalid hvalid => cases hout
  | notRecorded hvalid => cases hout
  | nodesFound hsent hupdate hkey hpeers => cases hout
  | nodesPanic hsent hupdate => cases hout
  | put => cases hout
  | hit hvalue => cases hout

end AtomicSteps

end DhtKad.DHTServer
