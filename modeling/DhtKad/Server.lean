import DhtKad.KVStore
import DhtKad.Messages
import DhtKad.RoutingTable.Nearest

/-!
`rpc/mod.rs`: the four request handlers of a node.

A handler runs on the state that the node's server and client share, and may
panic on the way; the changes it made before that stay. What the handlers have
in common, the check of the request and the update of the routing table with
its sender, is `validated`. `Handled` lists the ways in which a handler ends
(`handle_handled`), and everything else about requests is derived from it.
-/

namespace DhtKad

/-- The state behind the two locks of a node. -/
structure DHTServer where
  kvstore : MemoryStore
  routingTable : RoutingTable

abbrev Handler := EStateM Panic DHTServer

/-- `unwrap` of an optional field. -/
def unwrap {α : Type} : Option α → Except Panic α
  | some a => .ok a
  | none => .error .unwrapNone

namespace DHTServer

def new (k : ℕ) (localPeer : Peer) : DHTServer :=
  { kvstore := .new, routingTable := .new k localPeer }

def updateRoutingTable (peer : MessagePeer) : Handler Unit := do
  let p ← MonadExcept.ofExcept (protoPeerToPeer peer)
  let s ← get
  let (table, result) ← MonadExcept.ofExcept (s.routingTable.update p)
  set { s with routingTable := table }
  match result with
  | .ok () => return ()
  | .error _ =>
      -- the address is decoded once more, for the log
      match ByteString.fromUtf8 peer.addrs with
      | some _ => return ()
      | none => throw .invalidUtf8

/-- The opening of every handler: an invalid request is answered at once, any
other one first puts its sender into the routing table. -/
def validated (message : Message) (body : Handler Message) : Handler Message := do
  if !validateRequest message then
    return createInvalidResponse
  let myself ← MonadExcept.ofExcept (unwrap message.myself)
  updateRoutingTable myself
  body

def storeAsync (message : Message) : Handler Message :=
  validated message do
    let s ← get
    let (kvstore, result) := s.kvstore.put message.key message.value
    set { s with kvstore := kvstore }
    match result with
    | .ok () => return createStoreResponse true
    | .error _ => return createStoreResponse false

def findNodeAsync (message : Message) : Handler Message :=
  validated message do
    let s ← get
    let target ← MonadExcept.ofExcept (keyFromBytes message.key)
    let peers ← MonadExcept.ofExcept (s.routingTable.kNearestPeers target)
    return createFindNodeResponse peers

/-- On a miss the request is handled as a `find_node` request, from the start. -/
def findValueAsync (message : Message) : Handler Message :=
  validated message do
    let s ← get
    match s.kvstore.get message.key with
    | .ok (some value) => return createFindValueResponse message.key value
    | .ok none => findNodeAsync message
    | .error _ => findNodeAsync message

def pingAsync (message : Message) : Handler Message :=
  validated message do
    return createPingResponse

end DHTServer

/-- The procedures of the service. -/
inductive Rpc
  | store
  | findNode
  | findValue
  | ping
  deriving DecidableEq, Repr

namespace DHTServer

def handle : Rpc → Message → Handler Message
  | .store => storeAsync
  | .findNode => findNodeAsync
  | .findValue => findValueAsync
  | .ping => pingAsync

/-- The state after a request. Where the handler panics no reply is sent. -/
def serve (s : DHTServer) (request : Rpc × Message) : DHTServer :=
  match handle request.1 request.2 s with
  | .ok _ s' => s'
  | .error _ s' => s'

/-- The state of a new node after a sequence of requests. -/
def afterRequests (k : ℕ) (localPeer : Peer) (requests : List (Rpc × Message)) : DHTServer :=
  requests.foldl serve (new k localPeer)

/-! ### Running a handler -/

section Apply

variable {α β : Type}

theorem bind_apply (x : Handler α) (f : α → Handler β) (s : DHTServer) :
    (x >>= f) s = match x s with
      | .ok a s' => f a s'
      | .error e s' => .error e s' := by
  change EStateM.bind x f s = _
  unfold EStateM.bind
  cases x s <;> rfl

@[simp] theorem pure_apply (a : α) (s : DHTServer) : (pure a : Handler α) s = .ok a s := rfl

@[simp] theorem get_apply (s : DHTServer) : (get : Handler DHTServer) s = .ok s s := rfl

@[simp] theorem set_apply (s' s : DHTServer) : (set s' : Handler PUnit) s = .ok ⟨⟩ s' := rfl

theorem ofExcept_apply (x : Except Panic α) (s : DHTServer) :
    (MonadExcept.ofExcept x : Handler α) s = match x with
      | .ok a => .ok a s
      | .error e => .error e s := by
  cases x <;> rfl

end Apply

/-! ### The opening of a handler -/

/-- The request is valid and its sender decodes, to the peer `p`. -/
def SentBy (message : Message) (p : Peer) : Prop :=
  validateRequest message = true ∧
    ∃ myself, message.myself = some myself ∧ protoPeerToPeer myself = .ok p

theorem sentBy_of_peer {message : Message} {p : Peer} (hp : p.address ≠ "")
    (hmyself : message.myself = some (protoPeerFromPeer p)) : SentBy message p :=
  ⟨(validateRequest_of_peer hmyself).mpr hp, _, hmyself, by simp⟩

theorem SentBy.unique {message : Message} {p q : Peer} (hp : SentBy message p)
    (hq : SentBy message q) : p = q := by
  obtain ⟨-, myself, hmyself, hp⟩ := hp
  obtain ⟨-, myself', hmyself', hq⟩ := hq
  obtain rfl := Option.some.inj (hmyself.symm.trans hmyself')
  exact Except.ok.inj (hp.symm.trans hq)

/-- A valid request without a sender is one whose identifier is too short. -/
theorem sentBy_iff_of_valid {message : Message} (hvalid : validateRequest message = true) :
    (∃ p, SentBy message p) ↔
      ∀ myself, message.myself = some myself → 16 ≤ myself.id.length := by
  constructor
  · rintro ⟨p, -, myself, hmyself, hp⟩ myself' hmyself'
    obtain rfl := Option.some.inj (hmyself.symm.trans hmyself')
    exact (protoPeerToPeer_isOk_of_valid hvalid hmyself).mp ⟨p, hp⟩
  · intro h
    obtain ⟨myself, hmyself, -⟩ := (validateRequest_eq_true_iff message).mp hvalid
    obtain ⟨p, hp⟩ := (protoPeerToPeer_isOk_of_valid hvalid hmyself).mpr (h myself hmyself)
    exact ⟨p, hvalid, myself, hmyself, hp⟩

theorem updateRoutingTable_eq (peer : MessagePeer) (s : DHTServer) :
    updateRoutingTable peer s =
      match protoPeerToPeer peer with
      | .error e => .error e s
      | .ok p =>
          match s.routingTable.update p with
          | .error e => .error e s
          | .ok (table, _) => .ok () { s with routingTable := table } := by
  unfold updateRoutingTable
  simp only [bind_apply, ofExcept_apply]
  cases hp : protoPeerToPeer peer with
  | error e => rfl
  | ok p =>
      obtain ⟨-, haddr⟩ := protoPeerToPeer_eq_ok_iff.mp hp
      simp only [get_apply]
      cases hu : s.routingTable.update p with
      | error e => rfl
      | ok out =>
          obtain ⟨table, r⟩ := out
          cases r <;> simp [haddr]

section Validated

variable {message : Message} {p : Peer} (body : Handler Message) (s : DHTServer)

theorem validated_of_invalid (h : validateRequest message = false) :
    validated message body s = .ok createInvalidResponse s := by
  rw [validated, h]
  rfl

omit body in
theorem validated_of_no_sender (h : validateRequest message = true)
    (hsender : ¬ ∃ p, SentBy message p) :
    ∃ e, ∀ body, validated message body s = .error e s := by
  obtain ⟨myself, hmyself, -⟩ := (validateRequest_eq_true_iff message).mp h
  cases hp : protoPeerToPeer myself with
  | error e =>
      refine ⟨e, fun body => ?_⟩
      rw [validated, h, hmyself]
      simp only [unwrap, Bool.not_true, Bool.false_eq_true, if_false, bind_apply,
        ofExcept_apply, updateRoutingTable_eq, hp]
  | ok p => exact absurd ⟨p, h, myself, hmyself, hp⟩ hsender

theorem validated_of_sentBy (h : SentBy message p) :
    validated message body s =
      match s.routingTable.update p with
      | .error e => .error e s
      | .ok (table, _) => body { s with routingTable := table } := by
  obtain ⟨hvalid, myself, hmyself, hp⟩ := h
  rw [validated, hvalid, hmyself]
  simp only [unwrap, Bool.not_true, Bool.false_eq_true, if_false, bind_apply, ofExcept_apply,
    updateRoutingTable_eq, hp]
  cases s.routingTable.update p with
  | error e => rfl
  | ok out => rfl

end Validated

/-! ### The handlers on a request whose sender was recorded -/

section Handlers

variable {message : Message} {p : Peer} (h : SentBy message p) {s : DHTServer}
include h

/-- If the update panics so does the handler, and nothing has changed. -/
theorem handle_of_update_error (rpc : Rpc) {e : Panic}
    (hu : s.routingTable.update p = .error e) : handle rpc message s = .error e s := by
  cases rpc <;>
    simp only [handle, storeAsync, findNodeAsync, findValueAsync, pingAsync,
      validated_of_sentBy _ s h, hu]

variable {table : RoutingTable} {r : Except NoCapacityError Unit}
  (hu : s.routingTable.update p = .ok (table, r))
include hu

theorem storeAsync_eq :
    storeAsync message s = .ok (createStoreResponse true)
      { kvstore := (s.kvstore.put message.key message.value).1, routingTable := table } := by
  rw [storeAsync, validated_of_sentBy _ s h, hu]
  rfl

theorem pingAsync_eq :
    pingAsync message s = .ok createPingResponse { s with routingTable := table } := by
  rw [pingAsync, validated_of_sentBy _ s h, hu]
  rfl

theorem findNodeAsync_eq :
    findNodeAsync message s =
      match keyFromBytes message.key with
      | .error e => .error e { s with routingTable := table }
      | .ok target =>
          match table.kNearestPeers target with
          | .error e => .error e { s with routingTable := table }
          | .ok peers =>
              .ok (createFindNodeResponse peers) { s with routingTable := table } := by
  rw [findNodeAsync, validated_of_sentBy _ s h, hu]
  simp only [bind_apply, get_apply, ofExcept_apply]
  cases keyFromBytes message.key with
  | error e => rfl
  | ok target => cases h' : table.kNearestPeers target <;> simp [h']

theorem findValueAsync_eq :
    findValueAsync message s =
      match s.kvstore.store message.key with
      | some value =>
          .ok (createFindValueResponse message.key value) { s with routingTable := table }
      | none => findNodeAsync message { s with routingTable := table } := by
  rw [findValueAsync, validated_of_sentBy _ s h, hu]
  simp only [bind_apply, get_apply, MemoryStore.get_eq]
  cases s.kvstore.store message.key <;> rfl

end Handlers

/-! ### All that a handler can do -/

/-- The ways in which a handler ends. The request is invalid, or its sender
could not be recorded and the handler panicked with nothing changed; otherwise
the table is the updated one and the handler has done its own part. -/
inductive Handled (message : Message) :
    DHTServer → Rpc → EStateM.Result Panic DHTServer Message → Prop
  | invalid {s : DHTServer} {rpc : Rpc} (hvalid : validateRequest message = false) :
      Handled message s rpc (.ok createInvalidResponse s)
  | notRecorded {s : DHTServer} {rpc : Rpc} {e : Panic}
      (hvalid : validateRequest message = true)
      (hupdate : ∀ p, SentBy message p → s.routingTable.update p = .error e) :
      Handled message s rpc (.error e s)
  | stored {s : DHTServer} {p : Peer} {t : RoutingTable} {r : Except NoCapacityError Unit}
      (hsent : SentBy message p) (hupdate : s.routingTable.update p = .ok (t, r)) :
      Handled message s .store (.ok (createStoreResponse true)
        { kvstore := (s.kvstore.put message.key message.value).1, routingTable := t })
  | ponged {s : DHTServer} {p : Peer} {t : RoutingTable} {r : Except NoCapacityError Unit}
      (hsent : SentBy message p) (hupdate : s.routingTable.update p = .ok (t, r)) :
      Handled message s .ping (.ok createPingResponse { s with routingTable := t })
  | nodesFound {s : DHTServer} {p : Peer} {t : RoutingTable}
      {r : Except NoCapacityError Unit} {target : U128} {peers : List Peer}
      (hsent : SentBy message p) (hupdate : s.routingTable.update p = .ok (t, r))
      (hkey : keyFromBytes message.key = .ok target)
      (hpeers : t.kNearestPeers target = .ok peers) :
      Handled message s .findNode
        (.ok (createFindNodeResponse peers) { s with routingTable := t })
  | nodesPanic {s : DHTServer} {p : Peer} {t : RoutingTable}
      {r : Except NoCapacityError Unit} {e : Panic}
      (hsent : SentBy message p) (hupdate : s.routingTable.update p = .ok (t, r))
      (hpanic : keyFromBytes message.key = .error e ∨
        ∃ target, t.kNearestPeers target = .error e) :
      Handled message s .findNode (.error e { s with routingTable := t })
  | hit {s : DHTServer} {p : Peer} {t : RoutingTable} {r : Except NoCapacityError Unit}
      {value : Bytes} (hsent : SentBy message p)
      (hupdate : s.routingTable.update p = .ok (t, r))
      (hvalue : s.kvstore.store message.key = some value) :
      Handled message s .findValue
        (.ok (createFindValueResponse message.key value) { s with routingTable := t })
  | miss {s : DHTServer} {p : Peer} {t : RoutingTable} {r : Except NoCapacityError Unit}
      {out : EStateM.Result Panic DHTServer Message} (hsent : SentBy message p)
      (hupdate : s.routingTable.update p = .ok (t, r))
      (hvalue : s.kvstore.store message.key = none)
      (hnodes : Handled message { s with routingTable := t } .findNode out) :
      Handled message s .findValue out

section HandleHandled

variable {message : Message}

theorem handle_of_invalid (rpc : Rpc) (h : validateRequest message = false) (s : DHTServer) :
    handle rpc message s = .ok createInvalidResponse s := by
  cases rpc <;> exact validated_of_invalid _ s h

theorem request_cases (message : Message) (s : DHTServer) :
    validateRequest message = false ∨
      (validateRequest message = true ∧ ∃ e, (∀ rpc, handle rpc message s = .error e s) ∧
        ∀ p, SentBy message p → s.routingTable.update p = .error e) ∨
      ∃ p t r, SentBy message p ∧ s.routingTable.update p = .ok (t, r) := by
  by_cases hvalid : validateRequest message = true
  · by_cases hsender : ∃ p, SentBy message p
    · obtain ⟨p, hp⟩ := hsender
      cases hu : s.routingTable.update p with
      | error e =>
          refine .inr (.inl ⟨hvalid, e, fun rpc => handle_of_update_error hp rpc hu, ?_⟩)
          intro q hq
          rwa [hq.unique hp]
      | ok out => exact .inr (.inr ⟨p, out.1, out.2, hp, hu⟩)
    · obtain ⟨e, he⟩ := validated_of_no_sender s hvalid hsender
      refine .inr (.inl ⟨hvalid, e, fun rpc => ?_, fun p hp => absurd ⟨p, hp⟩ hsender⟩)
      cases rpc <;> exact he _
  · exact .inl (by simpa using hvalid)

theorem findNodeAsync_handled (message : Message) (s : DHTServer) :
    Handled message s .findNode (findNodeAsync message s) := by
  rcases request_cases message s with hinvalid | ⟨hvalid, e, he, hpanic⟩ | ⟨p, t, r, hp, hu⟩
  · rw [show findNodeAsync message s = _ from handle_of_invalid .findNode hinvalid s]
    exact .invalid hinvalid
  · rw [show findNodeAsync message s = _ from he .findNode]
    exact .notRecorded hvalid hpanic
  · rw [findNodeAsync_eq hp hu]
    cases hkey : keyFromBytes message.key with
    | error e => exact .nodesPanic hp hu (.inl hkey)
    | ok target =>
        cases hpeers : t.kNearestPeers target with
        | error e =>
            simp only [hpeers]
            exact .nodesPanic hp hu (.inr ⟨target, hpeers⟩)
        | ok peers =>
            simp only [hpeers]
            exact .nodesFound hp hu hkey hpeers

theorem handle_handled (rpc : Rpc) (message : Message) (s : DHTServer) :
    Handled message s rpc (handle rpc message s) := by
  rcases request_cases message s with hinvalid | ⟨hvalid, e, he, hpanic⟩ | ⟨p, t, r, hp, hu⟩
  · rw [handle_of_invalid rpc hinvalid s]
    exact .invalid hinvalid
  · rw [he rpc]
    exact .notRecorded hvalid hpanic
  · cases rpc with
    | store =>
        rw [handle, storeAsync_eq hp hu]
        exact .stored hp hu
    | findNode => exact findNodeAsync_handled message s
    | findValue =>
        rw [handle, findValueAsync_eq hp hu]
        cases hvalue : s.kvstore.store message.key with
        | none => exact .miss hp hu hvalue (findNodeAsync_handled message _)
        | some value => exact .hit hp hu hvalue
    | ping =>
        rw [handle, pingAsync_eq hp hu]
        exact .ponged hp hu

end HandleHandled

end DHTServer

end DhtKad
