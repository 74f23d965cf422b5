import DhtKad.Client
import DhtKad.Server.Requests

/-!
A value on its way through the wire messages: from the store request of one
client, through a server that handles any other requests in between, to the
reply in which another client looks for it.

A reply says that it carries a value by the value being non-empty. The server
stores and returns every value, so what gets lost on the way is exactly the
empty one (`roundTrip_iff`).
-/

namespace DhtKad

open RoutingTable DHTServer

namespace DHTClient

/-- The loop of `find_value`, wherever it stands, returns this value on this
reply. -/
def InterpretedAsFound (reply : Message) (value : Bytes) : Prop :=
  ∀ l : Lookup, 0 < l.inProgress → ∃ l', handleResult l (.ok reply) = .ok (l', some value)

theorem handleResult_some_iff {l : Lookup} (h : 0 < l.inProgress) (reply : Message)
    (value : Bytes) :
    (∃ l', handleResult l (.ok reply) = .ok (l', some value)) ↔
      reply.value = value ∧ value ≠ [] := by
  rw [handleResult, if_neg (by omega)]
  by_cases hv : reply.value ≠ []
  · simp only [if_pos hv, Except.ok.injEq, Prod.mk.injEq, Option.some.injEq,
      exists_and_right, exists_eq', true_and]
    exact ⟨fun heq => ⟨heq, heq ▸ hv⟩, fun heq => heq.1⟩
  · simp only [if_neg hv, bind, Except.bind]
    have hnil : reply.value = [] := by simpa using hv
    refine iff_of_false ?_ ?_
    · rintro ⟨l', h'⟩
      split at h' <;> simp [pure, Except.pure] at h'
    · rintro ⟨rfl, hne⟩
      exact hne hnil

theorem interpretedAsFound_iff (reply : Message) (value : Bytes) :
    InterpretedAsFound reply value ↔ reply.value = value ∧ value ≠ [] := by
  constructor
  · intro h
    have hone : 0 < ({ candidates := [], inProgress := 1 } : Lookup).inProgress := Nat.one_pos
    exact (handleResult_some_iff hone reply value).mp (h _ hone)
  · intro h l hl
    exact (handleResult_some_iff hl reply value).mpr h

end DHTClient

namespace DHTServer

open DHTClient

def StoresAt (key : Bytes) (request : Rpc × Message) : Prop :=
  request.1 = .store ∧ request.2.key = key

/-! ### The store in the meantime -/

theorem foldl_serve_kvstore {key : Bytes} {requests : List (Rpc × Message)}
    (hother : ∀ request ∈ requests, ¬ StoresAt key request) (s : DHTServer) :
    (requests.foldl serve s).kvstore.store key = s.kvstore.store key := by
  apply List.foldlRecOn requests serve
    (motive := fun s' => s'.kvstore.store key = s.kvstore.store key) rfl
  intro s' hs' request hrequest
  rw [← hs']
  exact (serve_kvstore s' request.1 request.2 key).resolve_right
    fun h => hother request hrequest h.1

theorem foldl_serve_roomy (requests : List (Rpc × Message)) {s : DHTServer}
    (hs : s.routingTable.Roomy) : (requests.foldl serve s).routingTable.Roomy :=
  List.foldlRecOn requests serve (motive := fun s => s.routingTable.Roomy) hs
    fun _ hs request _ => serve_roomy hs request

theorem stored_of_ok {s s' : DHTServer} (hs : s.routingTable.Untouched) {message response : Message}
    (h : handle .store message s = .ok response s')
    (hok : response.code.enumValueOrDefault = .ok) :
    validateRequest message = true ∧ s'.kvstore.store message.key = some message.value ∧
      s'.routingTable.Roomy := by
  have hhandled := handle_handled .store message s
  rw [h] at hhandled
  cases hhandled with
  | invalid hvalid =>
      rw [createInvalidResponse, enumValueOrDefault_new] at hok
      cases hok
  | stored hsent hupdate =>
      exact ⟨hsent.1, by simp, (hs.roomy_of_update hupdate).of_update hupdate⟩

/-! ### The reply -/

section Reply

variable {s : DHTServer} {key : U128} {finder : Peer}

section Stored

variable {value : Bytes} (hs : s.routingTable.Roomy)
  (hvalue : s.kvstore.store (keyToBytes key) = some value)
include hs hvalue

theorem reply_of_stored (haddr : finder.address ≠ "") :
    ∃ t : RoutingTable, t.Roomy ∧ handle .findValue (createFindValueRequest key finder) s =
      .ok (createFindValueResponse (keyToBytes key) value) { s with routingTable := t } := by
  have hsent : SentBy (createFindValueRequest key finder) finder :=
    sentBy_of_peer haddr rfl
  obtain ⟨t, r, hu, -, -⟩ := update_isOk hs.nonempty hs.k_pos finder
  have heq := findValueAsync_eq hsent hu
  rw [show (createFindValueRequest key finder).key = keyToBytes key from rfl, hvalue] at heq
  exact ⟨t, hs.of_update hu, heq⟩

theorem found_iff_of_stored :
    (∃ reply s', handle .findValue (createFindValueRequest key finder) s = .ok reply s' ∧
      InterpretedAsFound reply value) ↔ value ≠ [] ∧ finder.address ≠ "" := by
  by_cases haddr : finder.address = ""
  · have hinvalid : validateRequest (createFindValueRequest key finder) = false := by
      rw [Bool.eq_false_iff, Ne, validateRequest_of_peer (p := finder) rfl]
      simpa using haddr
    refine iff_of_false ?_ (by simp [haddr])
    rintro ⟨reply, s', hreply, hfound⟩
    rw [handle_of_invalid .findValue hinvalid s] at hreply
    cases hreply
    obtain ⟨rfl, hne⟩ := (interpretedAsFound_iff _ _).mp hfound
    exact hne rfl
  · obtain ⟨t, -, hreply⟩ := reply_of_stored hs hvalue haddr
    constructor
    · rintro ⟨reply, s', -, hfound⟩
      exact ⟨((interpretedAsFound_iff _ _).mp hfound).2, haddr⟩
    · rintro ⟨hne, -⟩
      exact ⟨_, _, hreply, (interpretedAsFound_iff _ _).mpr ⟨rfl, hne⟩⟩

end Stored

theorem not_found_of_none (hvalue : s.kvstore.store (keyToBytes key) = none) {reply : Message}
    {s' : DHTServer}
    (hreply : handle .findValue (createFindValueRequest key finder) s = .ok reply s') :
    reply.value = [] := by
  have hhandled := handle_handled .findValue (createFindValueRequest key finder) s
  rw [hreply] at hhandled
  cases hhandled with
  | invalid hvalid => rfl
  | hit hsent hupdate hhit =>
      change s.kvstore.store (keyToBytes key) = _ at hhit
      simp [hvalue] at hhit
  | miss hsent hupdate hmiss hnodes =>
      cases hnodes with
      | invalid hvalid => rfl
      | nodesFound hsent hupdate hkey hpeers => rfl

end Reply

/-- **Round trip.** In every state a node can hold (`Held.untouched`): after an
`OK` to a store request and any requests other than stores for the same key,
the reply to a find request is taken for the value stored exactly if the value
is not empty and the finder has an address to be accepted with. A reply for a
key without a value is never taken for one. -/
theorem roundTrip_iff (s : DHTServer) (hs : s.routingTable.Untouched) (requester finder : Peer)
    (key : U128) (value : Bytes) (requests : List (Rpc × Message))
    (hother : ∀ request ∈ requests, ¬ StoresAt (keyToBytes key) request) :
    (∀ response s₁, handle .store (createStoreRequest requester key value) s = .ok response s₁ →
      response.code.enumValueOrDefault = .ok →
      ((∃ reply s₂, handle .findValue (createFindValueRequest key finder)
          (requests.foldl serve s₁) = .ok reply s₂ ∧ InterpretedAsFound reply value) ↔
        value ≠ [] ∧ finder.address ≠ "")) ∧
    (s.kvstore.store (keyToBytes key) = none →
      ∀ reply s₂, handle .findValue (createFindValueRequest key finder)
          (requests.foldl serve s) = .ok reply s₂ →
        ∀ l l' v, handleResult l (.ok reply) ≠ .ok (l', some v)) := by
  constructor
  · intro response s₁ hstore hok
    obtain ⟨-, hvalue, hroomy⟩ := stored_of_ok hs hstore hok
    apply found_iff_of_stored (foldl_serve_roomy requests hroomy)
    rw [foldl_serve_kvstore hother]
    exact hvalue
  · intro hnone reply s₂ hreply l l' v hfound
    have hnil := not_found_of_none ((foldl_serve_kvstore hother s).trans hnone) hreply
    have hpos : 0 < l.inProgress := by
      by_contra hzero
      simp [handleResult, show l.inProgress = 0 by omega] at hfound
    obtain ⟨rfl, hne⟩ := (handleResult_some_iff hpos reply v).mp ⟨l', hfound⟩
    exact hne hnil

/-! ### The empty value -/

/-- A node, and a peer that stores at it and looks the key up again. -/
def emptyNode : DHTServer := .new 20 { id := 0, address := "0.0.0.0:1" }

def storingPeer : Peer := { id := 1, address := "0.0.0.0:2" }

/-- The node with that peer in its table and a value for key 5. -/
def nodeWith (value : Bytes) : DHTServer :=
  { kvstore := (MemoryStore.new.put (keyToBytes 5) value).1
    routingTable := emptyNode.routingTable.insert storingPeer }

theorem storingPeer_update : emptyNode.routingTable.update storingPeer =
    .ok (emptyNode.routingTable.insert storingPeer, .ok ()) := by
  decide

theorem store_at_emptyNode (value : Bytes) :
    handle .store (createStoreRequest storingPeer 5 value) emptyNode =
      .ok (createStoreResponse true) (nodeWith value) :=
  storeAsync_eq (sentBy_of_peer (by decide) rfl) storingPeer_update

/-- What the node is asked for in between. -/
def meanwhile : List (Rpc × Message) :=
  [(.store, createStoreRequest storingPeer 6 [9]), (.ping, createPingRequest storingPeer)]

theorem roundTrip_iff_stored :
    ∃ reply s₂, handle .findValue (createFindValueRequest 5 storingPeer)
        (meanwhile.foldl serve (nodeWith [7])) = .ok reply s₂ ∧
      InterpretedAsFound reply [7] := by
  have hother : ∀ request ∈ meanwhile, ¬ StoresAt (keyToBytes 5) request := by
    rintro request hmem ⟨hstore, hkey⟩
    rcases List.mem_cons.mp hmem with rfl | hmem
    · exact absurd (keyToBytes_injective hkey) (by decide)
    · obtain rfl := List.mem_singleton.mp hmem
      cases hstore
  exact ((roundTrip_iff emptyNode (untouched_new 20 _) storingPeer storingPeer 5 [7] meanwhile
    hother).1 _ _ (store_at_emptyNode [7]) (enumValueOrDefault_new _)).mpr (by decide)

/-- A stored empty value is not found by the loop, though the local lookup on
the same store finds it. -/
theorem empty_value_not_found :
    handle .store (createStoreRequest storingPeer 5 []) emptyNode =
        .ok (createStoreResponse true) (nodeWith []) ∧
      (createStoreResponse true).code.enumValueOrDefault = .ok ∧
      (¬ ∃ reply s₂, handle .findValue (createFindValueRequest 5 storingPeer) (nodeWith []) =
        .ok reply s₂ ∧ InterpretedAsFound reply []) ∧
      findValueLocal (nodeWith []) 5 = some [] := by
  refine ⟨store_at_emptyNode [], enumValueOrDefault_new _, ?_, ?_⟩
  · rintro ⟨reply, s₂, -, hfound⟩
    exact ((interpretedAsFound_iff _ _).mp hfound).2 rfl
  · simp [findValueLocal, nodeWith]

end DHTServer

end DhtKad
