import DhtKad.Server

/-!
What arbitrary requests do to a node.

Every table invariant of `update` is an invariant of the node
(`serve_routingTable`), a store request is the only one that writes to the
key-value store (`serve_kvstore`), and a handler completes exactly if the
identifier of the sender and, where it is decoded, the key have their sixteen
bytes (`completes_iff`): the check of the request looks at neither length.
-/

namespace DhtKad.DHTServer

open RoutingTable

/-- The state a handler leaves, whether it returned or panicked. -/
def stateAfter {α : Type} : EStateM.Result Panic DHTServer α → DHTServer
  | .ok _ s => s
  | .error _ s => s

theorem serve_eq_stateAfter (s : DHTServer) (rpc : Rpc) (message : Message) :
    s.serve (rpc, message) = stateAfter (handle rpc message s) := by
  unfold serve stateAfter
  cases handle rpc message s <;> rfl

section Handled

variable {message : Message} {s : DHTServer} {rpc : Rpc}
  {out : EStateM.Result Panic DHTServer Message}

theorem Handled.routingTable {I : RoutingTable → Prop} (h : Handled message s rpc out)
    (hstep : ∀ p t t' r, SentBy message p → I t → t.update p = .ok (t', r) → I t')
    (hI : I s.routingTable) : I (stateAfter out).routingTable := by
  induction h with
  | invalid hvalid => exact hI
  | notRecorded hvalid hupdate => exact hI
  | stored hsent hupdate => exact hstep _ _ _ _ hsent hI hupdate
  | ponged hsent hupdate => exact hstep _ _ _ _ hsent hI hupdate
  | nodesFound hsent hupdate hkey hpeers => exact hstep _ _ _ _ hsent hI hupdate
  | nodesPanic hsent hupdate hpanic => exact hstep _ _ _ _ hsent hI hupdate
  | hit hsent hupdate hvalue => exact hstep _ _ _ _ hsent hI hupdate
  | miss hsent hupdate hvalue hnodes ih => exact ih (hstep _ _ _ _ hsent hI hupdate)

theorem Handled.routingTable_of_update {I : RoutingTable → Prop}
    (h : Handled message s rpc out) {p : Peer} {t : RoutingTable}
    {r : Except NoCapacityError Unit} (hp : SentBy message p)
    (hu : s.routingTable.update p = .ok (t, r))
    (hstep : ∀ p t t' r, SentBy message p → I t → t.update p = .ok (t', r) → I t') (hI : I t) :
    I (stateAfter out).routingTable := by
  have heq {q : Peer} {t' : RoutingTable} {r' : Except NoCapacityError Unit}
      (hq : SentBy message q) (hu' : s.routingTable.update q = .ok (t', r')) : I t' := by
    rw [hq.unique hp, hu] at hu'
    obtain ⟨rfl, -⟩ := Prod.mk.inj (Except.ok.inj hu')
    exact hI
  cases h with
  | invalid hvalid => simp [hp.1] at hvalid
  | notRecorded hvalid hupdate => simp [hupdate p hp] at hu
  | stored hsent hupdate => exact heq hsent hupdate
  | ponged hsent hupdate => exact heq hsent hupdate
  | nodesFound hsent hupdate hkey hpeers => exact heq hsent hupdate
  | nodesPanic hsent hupdate hpanic => exact heq hsent hupdate
  | hit hsent hupdate hvalue => exact heq hsent hupdate
  | miss hsent hupdate hvalue hnodes => exact hnodes.routingTable hstep (heq hsent hupdate)

theorem Handled.kvstore (h : Handled message s rpc out) (key : Bytes) :
    (stateAfter out).kvstore.store key = s.kvstore.store key ∨
      (rpc = .store ∧ message.key = key) ∧
        (stateAfter out).kvstore.store key = some message.value := by
  induction h with
  | invalid hvalid => exact .inl rfl
  | notRecorded hvalid hupdate => exact .inl rfl
  | stored hsent hupdate =>
      by_cases hkey : message.key = key
      · subst hkey
        exact .inr ⟨⟨rfl, rfl⟩, MemoryStore.put_store_self _ _ _⟩
      · exact .inl (MemoryStore.put_store_of_ne _ _ (Ne.symm hkey))
  | ponged hsent hupdate => exact .inl rfl
  | nodesFound hsent hupdate hkey hpeers => exact .inl rfl
  | nodesPanic hsent hupdate hpanic => exact .inl rfl
  | hit hsent hupdate hvalue => exact .inl rfl
  | miss hsent hupdate hvalue hnodes ih => exact .inl (ih.resolve_right (by simp))

end Handled

theorem serve_routingTable {I : RoutingTable → Prop} {s : DHTServer} (rpc : Rpc)
    {message : Message}
    (hstep : ∀ p t t' r, SentBy message p → I t → t.update p = .ok (t', r) → I t')
    (hI : I s.routingTable) : I (s.serve (rpc, message)).routingTable := by
  rw [serve_eq_stateAfter]
  exact (handle_handled rpc message s).routingTable hstep hI

theorem serve_kvstore (s : DHTServer) (rpc : Rpc) (message : Message) (key : Bytes) :
    (s.serve (rpc, message)).kvstore.store key = s.kvstore.store key ∨
      (rpc = .store ∧ message.key = key) ∧
        (s.serve (rpc, message)).kvstore.store key = some message.value := by
  rw [serve_eq_stateAfter]
  exact (handle_handled rpc message s).kvstore key

theorem serve_roomy {s : DHTServer} (h : s.routingTable.Roomy) (request : Rpc × Message) :
    (s.serve request).routingTable.Roomy :=
  serve_routingTable request.1 (fun _ _ _ _ _ ht hu => ht.of_update hu) h

theorem serve_held {k : ℕ} {localPeer : Peer} {s : DHTServer}
    (h : Held k localPeer s.routingTable) (request : Rpc × Message) :
    Held k localPeer (s.serve request).routingTable :=
  serve_routingTable request.1 (fun _ _ _ _ _ hheld hu => (hheld.updated_of_update hu).2.2) h

theorem afterRequests_held (k : ℕ) (localPeer : Peer) (requests : List (Rpc × Message)) :
    Held k localPeer (afterRequests k localPeer requests).routingTable :=
  List.foldlRecOn requests serve (motive := fun s => Held k localPeer s.routingTable)
    (held_new k localPeer) fun _ hs request _ => serve_held hs request

/-! ### When a handler completes -/

/-- The handler returns: the reply to a bad request, with nothing changed, or a
normal one. -/
def Completes (rpc : Rpc) (message : Message) (s : DHTServer) : Prop :=
  ∃ response s', handle rpc message s = .ok response s' ∧
    (response.code.enumValueOrDefault = .badRequest ∧ s' = s ∨
      response.code.enumValueOrDefault = .ok)

/-- The key is decoded to an identifier: always by `find_node`, and by
`find_value` on a miss. -/
def DecodesKey (rpc : Rpc) (message : Message) (s : DHTServer) : Prop :=
  rpc = .findNode ∨ rpc = .findValue ∧ s.kvstore.store message.key = none

/-- The byte strings that the handler decodes are long enough. -/
def LongEnough (rpc : Rpc) (message : Message) (s : DHTServer) : Prop :=
  (∀ myself, message.myself = some myself → 16 ≤ myself.id.length) ∧
    (DecodesKey rpc message s → 16 ≤ message.key.length)

theorem kNearestPeers_isOk {t : RoutingTable} (ht : t.buckets ≠ []) (target : U128) :
    ∃ peers, t.kNearestPeers target = .ok peers :=
  ⟨_, nearestPeers_eq ht target t.k⟩

/-- `s₀` is the state in which the request came in: a miss hands on a later one
to `find_node`, but only an invalid request has to leave it unchanged. -/
theorem Handled.completes_iff_longEnough {k : ℕ} {localPeer : Peer} {message : Message}
    {s s₀ : DHTServer} {rpc : Rpc} {out : EStateM.Result Panic DHTServer Message}
    (h : Handled message s rpc out) (hs : Held k localPeer s.routingTable)
    (hs₀ : validateRequest message = false → s = s₀) :
    (∃ response s', out = .ok response s' ∧
      (response.code.enumValueOrDefault = .badRequest ∧ s' = s₀ ∨
        response.code.enumValueOrDefault = .ok)) ↔
      validateRequest message = false ∨ 0 < k ∧ LongEnough rpc message s := by
  have hlong {p : Peer} (hsent : SentBy message p) :=
    (sentBy_iff_of_valid hsent.1).mp ⟨p, hsent⟩
  induction h with
  | invalid hvalid =>
      exact iff_of_true ⟨_, _, rfl, .inl ⟨enumValueOrDefault_new _, hs₀ hvalid⟩⟩
        (.inl hvalid)
  | notRecorded hvalid hupdate =>
      refine iff_of_false (by simp) ?_
      rintro (hinvalid | ⟨hk, hid, -⟩)
      · simp [hvalid] at hinvalid
      · obtain ⟨p, hp⟩ := (sentBy_iff_of_valid hvalid).mpr hid
        obtain ⟨t', r, hu⟩ := (hs.update_isOk_iff p).mpr hk
        simp [hupdate p hp] at hu
  | stored hsent hupdate =>
      refine iff_of_true ⟨_, _, rfl, .inr (enumValueOrDefault_new _)⟩ (.inr ?_)
      exact ⟨(hs.updated_of_update hupdate).1, hlong hsent, by simp [DecodesKey]⟩
  | ponged hsent hupdate =>
      refine iff_of_true ⟨_, _, rfl, .inr (enumValueOrDefault_new _)⟩ (.inr ?_)
      exact ⟨(hs.updated_of_update hupdate).1, hlong hsent, by simp [DecodesKey]⟩
  | nodesFound hsent hupdate hkey hpeers =>
      refine iff_of_true ⟨_, _, rfl, .inr (enumValueOrDefault_new _)⟩ (.inr ?_)
      exact ⟨(hs.updated_of_update hupdate).1, hlong hsent,
        fun _ => (keyFromBytes_isOk_iff _).mp ⟨_, hkey⟩⟩
  | nodesPanic hsent hupdate hpanic =>
      refine iff_of_false (by simp) ?_
      have hne := (hs.updated_of_update hupdate).2.2.wellFormed.nonempty
      rintro (hinvalid | ⟨-, -, hkey⟩)
      · simp [hsent.1] at hinvalid
      · obtain ⟨target, htarget⟩ := (keyFromBytes_isOk_iff _).mpr (hkey (.inl rfl))
        rcases hpanic with hshort | ⟨target', hpanic⟩
        · simp [htarget] at hshort
        · obtain ⟨peers, hpeers⟩ := kNearestPeers_isOk hne target'
          simp [hpanic] at hpeers
  | hit hsent hupdate hvalue =>
      refine iff_of_true ⟨_, _, rfl, .inr (enumValueOrDefault_new _)⟩ (.inr ?_)
      exact ⟨(hs.updated_of_update hupdate).1, hlong hsent, by simp [DecodesKey, hvalue]⟩
  | miss hsent hupdate hvalue hnodes ih =>
      have hnodes := ih (hs.updated_of_update hupdate).2.2 (by simp [hsent.1])
      simpa [LongEnough, DecodesKey, hvalue] using hnodes

/-- **Which requests a handler survives.** In every state that requests can lead
to, a handler completes exactly if the request is invalid, or else there is room
for peers at all and the identifier and the decoded key are long enough. -/
theorem completes_iff (k : ℕ) (localPeer : Peer) (requests : List (Rpc × Message)) (rpc : Rpc)
    (message : Message) :
    Completes rpc message (afterRequests k localPeer requests) ↔
      validateRequest message = false ∨
        0 < k ∧ LongEnough rpc message (afterRequests k localPeer requests) :=
  (handle_handled rpc message _).completes_iff_longEnough (afterRequests_held k localPeer requests)
    fun _ => rfl

/-- A request whose sender has a one-byte identifier passes the check and makes
the handler panic. -/
theorem ping_panics_on_short_id :
    ¬ Completes .ping { myself := some { id := [1], addrs := [97] } }
      (afterRequests 20 { id := 0, address := "0.0.0.0:1" } []) := by
  rintro ⟨response, s', h, -⟩
  cases h

end DhtKad.DHTServer
