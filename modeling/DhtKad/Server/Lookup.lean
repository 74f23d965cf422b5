import DhtKad.RoutingTable.Idempotence
import DhtKad.Server.Requests

/-!
How a node answers a lookup.

A `find_node` request names a target and its sender, and the reply lists peers;
all three are decoded as they were encoded, so what the requester reads is the
answer of the table that has just recorded it (`findNode_exchange`). A
`find_value` request for a key without a value is handed to `find_node` as it
came, and its sender is recorded for a second time; that the table is at rest
by then is why nobody can tell the two procedures apart (`update_idempotent`).
-/

namespace DhtKad.DHTServer

open RoutingTable

section Lookup

variable {message : Message} {s : DHTServer} (hs : s.routingTable.WellFormed)
  (hk : 0 < s.routingTable.k)
include hs hk

theorem findNodeAsync_answers {p : Peer} {target : U128} (hp : SentBy message p)
    (hkey : keyFromBytes message.key = .ok target) :
    ∃ t r peers, s.routingTable.update p = .ok (t, r) ∧ t.kNearestPeers target = .ok peers ∧
      findNodeAsync message s =
        .ok (createFindNodeResponse peers) { s with routingTable := t } := by
  obtain ⟨t, r, hu, hupd⟩ := hs.update_updated hk p
  obtain ⟨peers, hpeers⟩ := kNearestPeers_isOk (hupd.wellFormed hs).nonempty target
  refine ⟨t, r, peers, hu, hpeers, ?_⟩
  rw [findNodeAsync_eq hp hu, hkey]
  simp only [hpeers]

/-- On a miss `find_value` is `find_node`: the second update by the sender finds
the table as the first one left it. -/
theorem findValueAsync_of_miss (hmiss : s.kvstore.store message.key = none) :
    findValueAsync message s = findNodeAsync message s := by
  rcases request_cases message s with hinvalid | ⟨-, e, he, -⟩ | ⟨p, t, r, hp, hu⟩
  · exact (handle_of_invalid .findValue hinvalid s).trans
      (handle_of_invalid .findNode hinvalid s).symm
  · exact (he .findValue).trans (he .findNode).symm
  · have hagain : t.update p = .ok (t, r) := (hs.updated_of_update hk hu).again hs
    rw [findValueAsync_eq hp hu, hmiss, findNodeAsync_eq hp hu]
    exact findNodeAsync_eq (s := { s with routingTable := t }) hp hagain

end Lookup

/-- **Updates are idempotent.** After every history of updates a second call
returns what the first one did and leaves the table as it is. So a server with
such a table treats every request for a key without a value alike in
`find_value` and in `find_node`, and answers it if it decodes. -/
theorem update_idempotent (k : ℕ) (hk : 1 ≤ k) (localPeer : Peer) (ps : List Peer) :
    ∃ t, afterUpdates k localPeer ps = some t ∧
      (∀ p, ∃ t' r, t.update p = .ok (t', r) ∧ t'.update p = .ok (t', r)) ∧
      ∀ s : DHTServer, s.routingTable = t → ∀ message, s.kvstore.store message.key = none →
        findValueAsync message s = findNodeAsync message s ∧
          ∀ p target, SentBy message p → keyFromBytes message.key = .ok target →
            ∃ response s', findNodeAsync message s = .ok response s' := by
  obtain ⟨t, ht, hwf, rfl, -⟩ := afterUpdates_reached hk localPeer ps
  refine ⟨t, ht, fun p => ?_, ?_⟩
  · obtain ⟨t', r, hupdate, hupd⟩ := hwf.update_updated hk p
    exact ⟨t', r, hupdate, hupd.again hwf⟩
  · rintro s rfl message hmiss
    refine ⟨findValueAsync_of_miss hwf hk hmiss, fun p target hp hkey => ?_⟩
    obtain ⟨t', r, peers, -, -, hanswer⟩ := findNodeAsync_answers hwf hk hp hkey
    exact ⟨_, _, hanswer⟩

/-- A table whose only peer the next one of its class would unfold in vain. -/
theorem update_idempotent_rejected :
    ∃ t, afterUpdates 1 ⟨0, "0.0.0.0:1"⟩ [⟨1#128 <<< 125, "0.0.0.0:2"⟩] = some t ∧
      (∀ p, ∃ t' r, t.update p = .ok (t', r) ∧ t'.update p = .ok (t', r)) ∧
      ∀ s : DHTServer, s.routingTable = t → ∀ message, s.kvstore.store message.key = none →
        findValueAsync message s = findNodeAsync message s ∧
          ∀ p target, SentBy message p → keyFromBytes message.key = .ok target →
            ∃ response s', findNodeAsync message s = .ok response s' :=
  update_idempotent 1 (by decide) _ _

/-- **The exchange of a `find_node` request.** The request of a peer with an
address passes the check; the server decodes the target and the sender from it
and records the sender; and the peers decoded from its reply are, in order, the
nearest ones of the table after that. -/
theorem findNode_exchange (k : ℕ) (hk : 1 ≤ k) (localPeer : Peer) (ps : List Peer)
    (kvstore : MemoryStore) (requester : Peer) (haddr : requester.address ≠ "")
    (target : U128) :
    (∃ t t' r peers reply, afterUpdates k localPeer ps = some t ∧
      validateRequest (createFindNodeRequest target requester) = true ∧
      keyFromBytes (createFindNodeRequest target requester).key = .ok target ∧
      (∃ myself, (createFindNodeRequest target requester).myself = some myself ∧
        protoPeerToPeer myself = .ok requester) ∧
      t.update requester = .ok (t', r) ∧ t'.kNearestPeers target = .ok peers ∧
      findNodeAsync (createFindNodeRequest target requester)
          { kvstore := kvstore, routingTable := t } =
        .ok reply { kvstore := kvstore, routingTable := t' } ∧
      reply.closerPeers.mapM protoPeerToPeer = .ok peers) ∧
    (∀ key, keyFromBytes (keyToBytes key) = .ok key) ∧
    ∀ p, protoPeerToPeer (protoPeerFromPeer p) = .ok p := by
  refine ⟨?_, keyFromBytes_keyToBytes, protoPeerToPeer_protoPeerFromPeer⟩
  obtain ⟨t, ht, hwf, rfl, -⟩ := afterUpdates_reached hk localPeer ps
  have hsent : SentBy (createFindNodeRequest target requester) requester :=
    sentBy_of_peer haddr rfl
  have hkey : keyFromBytes (createFindNodeRequest target requester).key = .ok target :=
    keyFromBytes_keyToBytes target
  obtain ⟨t', r, peers, hu, hpeers, hanswer⟩ :=
    findNodeAsync_answers (s := { kvstore := kvstore, routingTable := t }) hwf hk hsent hkey
  exact ⟨t, t', r, peers, _, ht, hsent.1, hkey, hsent.2, hu, hpeers, hanswer,
    mapM_createFindNodeResponse peers⟩

/-- A full table with another address for the identifier of the requester. -/
theorem findNode_exchange_moved :
    (∃ t t' r peers reply, afterUpdates 1 ⟨0, "0.0.0.0:1"⟩ [⟨1, "0.0.0.0:2"⟩] = some t ∧
      validateRequest (createFindNodeRequest 7 ⟨1, "0.0.0.0:3"⟩) = true ∧
      keyFromBytes (createFindNodeRequest 7 ⟨1, "0.0.0.0:3"⟩).key = .ok 7 ∧
      (∃ myself, (createFindNodeRequest 7 ⟨1, "0.0.0.0:3"⟩).myself = some myself ∧
        protoPeerToPeer myself = .ok ⟨1, "0.0.0.0:3"⟩) ∧
      t.update ⟨1, "0.0.0.0:3"⟩ = .ok (t', r) ∧ t'.kNearestPeers 7 = .ok peers ∧
      findNodeAsync (createFindNodeRequest 7 ⟨1, "0.0.0.0:3"⟩)
          { kvstore := .new, routingTable := t } =
        .ok reply { kvstore := .new, routingTable := t' } ∧
      reply.closerPeers.mapM protoPeerToPeer = .ok peers) ∧
    (∀ key, keyFromBytes (keyToBytes key) = .ok key) ∧
    ∀ p, protoPeerToPeer (protoPeerFromPeer p) = .ok p :=
  findNode_exchange 1 (by decide) _ _ .new ⟨1, "0.0.0.0:3"⟩ (by decide) 7

end DhtKad.DHTServer
