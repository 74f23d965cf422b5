import DhtKad.Client.Coverage
import DhtKad.Cluster.Durability

/-!
Lookups that are guided by the tables of a network.

A `Guidance` says what the tables of the nodes must know, and what an answer
from such a table then tells a lookup. If the tables know it from some point on,
a lookup that begins later starts from such an answer and is given nothing else,
except by a node that holds the key: so a node that is known to hold it is not
among those that answered without a value (`guided_run`). What follows for the
lookup is up to the guidance.
-/

namespace DhtKad

open RoutingTable DHTServer DHTClient

variable {SocketAddr : Type}

namespace Deployment

variable (d : Deployment SocketAddr) (S H : SocketAddr → Prop)

/-- The peer is a node of the network `S`. -/
def Node (p : Peer) : Prop := ∃ b, S b ∧ p = d.localPeer b

/-- A network of nodes that are found under their own addresses and are
configured with each other. -/
structure Connected : Prop where
  k_pos : ∀ a, 0 < (d.config a).k
  text : ∀ a, d.parse (d.toString a) = some a
  named : ∀ a, d.toString a ≠ ""
  bootstrapPeers : ∀ a, S a → ∀ p ∈ (d.config a).bootstrapPeers, d.Node S p

variable {d S} {a b : SocketAddr}

theorem Connected.configured (h : d.Connected S) : d.Configured S (d.Node S) where
  localPeer a ha := ⟨a, ha, rfl⟩
  bootstrapPeers := h.bootstrapPeers

theorem Connected.localPeer_injective (h : d.Connected S) (heq : d.localPeer a = d.localPeer b) :
    a = b := by
  have htext : d.toString a = d.toString b := congrArg Peer.address heq
  exact Option.some.inj ((h.text a).symm.trans (htext ▸ h.text b))

theorem Connected.node_eq (h : d.Connected S) {p : Peer} (hp : d.Node S p)
    (hparse : d.parse p.address = some b) : S b ∧ p = d.localPeer b := by
  obtain ⟨b', hb', rfl⟩ := hp
  obtain rfl := Option.some.inj ((h.text b').symm.trans hparse)
  exact ⟨hb', rfl⟩

variable (d S)

/-- What the tables of a network know, and what that makes of an answer to a
lookup of the key. -/
structure Guidance (key : U128) where
  table : SocketAddr → RoutingTable → Prop
  answer : SocketAddr → List Peer → Prop
  /-- Updates keep it. -/
  update : ∀ {a t t' p r}, Held (d.config a).k (d.localPeer a) t → table a t →
    t.update p = .ok (t', r) → table a t'
  answers : ∀ {a s ps}, S a → (Cluster.known d S (d.Node S)).node a s → table a s.routingTable →
    s.routingTable.kNearestPeers key = .ok ps → answer a ps

variable {d S} {key : U128} (G : d.Guidance S key)

theorem Guidance.grows {s s' : DHTServer} (h : G.table a s.routingTable)
    (hs : Held (d.config a).k (d.localPeer a) s.routingTable) (hgrows : Grows s s') :
    G.table a s'.routingTable :=
  (hgrows.routingTable (fun t => Held (d.config a).k (d.localPeer a) t ∧ G.table a t)
    (fun _ _ _ _ ht hu => ⟨(ht.1.updated_of_update hu).2.2, G.update ht.1 ht.2 hu⟩) ⟨hs, h⟩).2

/-- An answer without a value comes from a node that is not one of the holders,
and that has the guidance. -/
def Guidance.Guides (pr : Peer × Except IoError Message) : Prop :=
  ∀ reply, pr.2 = .ok reply → carriedValue (.ok reply) = none →
    ∃ b, pr.1 = d.localPeer b ∧ ¬ H b ∧
      ∃ ps, reply.closerPeers.mapM protoPeerToPeer = .ok ps ∧ G.answer b ps

end Deployment

namespace Cluster

variable {d : Deployment SocketAddr} {S : SocketAddr → Prop} {key : U128}

/-- The tables have the guidance, and the holders hold the key. -/
def settled (G : d.Guidance S key) (H : SocketAddr → Prop) : Assertion SocketAddr where
  node a s := (S a → G.table a s.routingTable) ∧
    (H a → (s.kvstore.store (keyToBytes key)).isSome)
  stage _ _ _ := True
  call _ _ _ := True
  reply _ _ _ _ := True

/-- All nodes run this code, the network is settled, and no empty value is stored
under the key. -/
def orderly (G : d.Guidance S key) (H : SocketAddr → Prop) : Assertion SocketAddr :=
  ((known d S (d.Node S)).and (genuine d fun key' v => key' = key → v ≠ [])).and (settled G H)

/-- The lookups of the key with a number from `n` on are guided. -/
def guided (G : d.Guidance S key) (H : SocketAddr → Prop) (n : ℕ) : Record SocketAddr where
  task _ id a operation stage := n ≤ id → operation = .findValue key →
    (stage = .missed → ¬ H a) ∧
      ∀ call, stage = .looking call →
        call.status = .awaiting ∨ (∃ e, call.status = .returned (.error e)) →
        ¬ H a ∧ ∃ initial, G.answer a initial ∧ Led (G.Guides H) initial call
  call _ id _ operation call progress := n ≤ id → operation = .findValue key →
    (∀ p, call.slot = .query p → d.parse p.address = some call.target) ∧
      (progress = .running .missed → ¬ H call.target) ∧
      ∀ reply, progress = .replied reply → G.Guides H (d.localPeer call.target, .ok reply)

section Lasting

variable {G : d.Guidance S key} {H : SocketAddr → Prop} {n id : ℕ}
  {nodes nodes' : Network SocketAddr} {a : SocketAddr} {operation : Operation}

theorem guided_step {call call' : Call} {event : Event} (hknows : Knows d.parse (d.Node S) call)
    (hled : call.status = .awaiting ∨ (∃ e, call.status = .returned (.error e)) →
      ¬ H a ∧ ∃ initial, G.answer a initial ∧ Led (G.Guides H) initial call)
    (hsent : ∀ p r, event = .send p r → p ∈ call.lookup.tasks → G.Guides H (p, r))
    (hstep : DHTClient.step d.parse (d.client a) key call event = some call') :
    ¬ H a ∧ ∃ initial, G.answer a initial ∧ Led (G.Guides H) initial call' := by
  obtain ⟨hawait, hstepped⟩ := step_stepped hstep
  obtain ⟨hmiss, initial, hanswer, hled⟩ := hled (.inl hawait)
  refine ⟨hmiss, initial, hanswer, hled.step hknows.inv ?_ hstep⟩
  rintro p r rfl
  cases hstepped with
  | sent p r hp hparse => exact hsent p r rfl hp

theorem guided_turned {s : DHTServer} {stage : Stage} {turn : Turn SocketAddr}
    (hnode : (orderly G H).node a s) (hstage : (orderly G H).stage a operation stage)
    (htask : (guided G H n).task nodes id a operation stage)
    (h : d.turn a operation s stage = some turn) :
    (guided G H n).task nodes' id a operation turn.stage ∧
      ∀ call ∈ turn.calls, (guided G H n).call nodes' id a operation call
        (.running (.opened call.rpc)) := by
  obtain ⟨⟨hknown, -⟩, htable, hholds⟩ := hnode
  have hqueries {key' : U128} {peers : List Peer} (call : RemoteCall SocketAddr)
      (hcall : call ∈ d.queries a key' peers) :
      (guided G H n).call nodes' id a (.findValue key') call (.running (.opened call.rpc)) :=
    fun _ _ => ⟨fun p hslot => Deployment.slot_of_mem_queries hcall hslot, by simp, by simp⟩
  have hturned := Deployment.turn_turned h
  cases hturned with
  | panicked e => exact ⟨fun _ _ => ⟨by simp, by simp⟩, by simp⟩
  | introduced htargets => exact ⟨by simp [guided], by simp [guided]⟩
  | pinged hreported htargets => exact ⟨by simp [guided], by simp [guided]⟩
  | bootstrapped htable => exact ⟨by simp [guided], by simp [guided]⟩
  | storing htargets => exact ⟨by simp [guided], by simp [guided]⟩
  | stored => exact ⟨by simp [guided], by simp [guided]⟩
  | hit hv =>
      refine ⟨fun _ _ => ⟨by simp, fun call hcall hstatus => ?_⟩, by simp⟩
      obtain rfl := Stage.looking.inj hcall
      simp at hstatus
  | missed =>
      refine ⟨fun hid hoperation => ⟨fun _ hH => ?_, by simp⟩, by simp⟩
      -- a holder would have found the value in its own store
      obtain rfl := Operation.findValue.inj hoperation
      obtain ⟨v, hv⟩ := Option.isSome_iff_exists.mp (hholds hH)
      simp [Deployment.turn, Deployment.findValueTurn, Deployment.caught, findValueLocal,
        MemoryStore.get_eq, hv] at h
  | started hcandidates =>
      rename_i key' candidates
      refine ⟨fun hid hoperation => ⟨by simp, fun call hcall _ => ?_⟩, hqueries⟩
      obtain rfl := Operation.findValue.inj hoperation
      obtain rfl := Stage.looking.inj hcall
      have ha := hstage.1.1.1
      exact ⟨(htask hid rfl).1 rfl, candidates, G.answers ha hknown (htable ha) hcandidates,
        led_start _ _ _⟩
  | received hstep =>
      rename_i key' call call'
      refine ⟨fun hid hoperation => ⟨by simp, fun c hc _ => ?_⟩, hqueries⟩
      obtain rfl := Operation.findValue.inj hoperation
      obtain rfl := Stage.looking.inj hc
      exact guided_step hstage.1.1.2 ((htask hid rfl).2 call rfl) (by rintro p r ⟨⟩) hstep

/-- A node that answers without a value is no holder, and its answer is one from its
table. -/
theorem guided_served (hd : d.Connected S) {call : RemoteCall SocketAddr} {point : Point}
    {out : EStateM.Result Panic DHTServer (Point ⊕ Message)}
    (hcall : (orderly G H).call a operation call)
    (hnode : (orderly G H).node call.target (nodes call.target))
    (hrpc : point.rpc = call.rpc)
    (hled : (guided G H n).call nodes id a operation call (.running point))
    (hout : atomicStep call.request point (nodes call.target) = out) :
    (guided G H n).call nodes' id a operation call (progressAfter out) := by
  intro hid hoperation
  subst hoperation
  obtain ⟨htarget, hmissed, -⟩ := hled hid rfl
  refine ⟨htarget, ?_⟩
  obtain ⟨⟨⟨ha, ⟨hfind, hrequest⟩, p, hp, hparse⟩, -⟩, -⟩ := hcall
  obtain ⟨⟨hknown, hgenuine⟩, htable, hholds⟩ := hnode
  have hsent : SentBy call.request (d.localPeer a) :=
    sentBy_of_peer (hd.named a) (by rw [hrequest]; rfl)
  rw [hfind] at hrpc
  cases point with
  | opened rpc =>
      obtain rfl : rpc = .findValue := hrpc
      rw [atomicStep] at hout
      subst hout
      rcases recordSender_cases call.request (nodes call.target) with
        ⟨hvalid, -⟩ | ⟨-, e, h⟩ | ⟨q, t, r, -, -, h⟩
      · exact absurd hsent.1 (by simp [hvalid])
      · rw [h]
        exact ⟨by simp [progressAfter], by simp [progressAfter]⟩
      · rw [h]
        exact ⟨by simp [progressAfter], by simp [progressAfter]⟩
  | storing => cases hrpc
  | reading =>
      rw [atomicStep_reading] at hout
      subst hout
      cases hvalue : (nodes call.target).kvstore.store call.request.key with
      | none =>
          refine ⟨fun _ hH => ?_, by simp [progressAfter]⟩
          have hkey : call.request.key = keyToBytes key := by rw [hrequest]; rfl
          rw [hkey] at hvalue
          exact absurd (hholds hH) (by simp [hvalue])
      | some value =>
          refine ⟨by simp [progressAfter], fun reply hreplied reply' hok hnone => ?_⟩
          obtain rfl := Except.ok.inj hok
          obtain rfl := Progress.replied.inj hreplied
          obtain ⟨key', hkey, hne⟩ := hgenuine _ value hvalue
          rw [hrequest] at hkey
          have hvalue : value ≠ [] := hne (keyToBytes_injective hkey).symm
          simp [carriedValue, createFindValueResponse, hvalue] at hnone
  | missed =>
      have hstepped := atomicStep_stepped call.request (nodes call.target) .missed
      rw [hout] at hstepped
      have hgrows := hstepped.grows
      cases hstepped with
      | invalid hvalid => exact absurd hsent.1 (by simp [hvalid])
      | notRecorded hvalid => exact ⟨by simp [progressAfter], by simp [progressAfter]⟩
      | nodesPanic hsent' hupdate => exact ⟨by simp [progressAfter], by simp [progressAfter]⟩
      | nodesFound hsent' hupdate hkey hpeers =>
          rename_i q t r target peers
          refine ⟨by simp [progressAfter], fun reply hreplied reply' hok hnone => ?_⟩
          obtain rfl := Except.ok.inj hok
          obtain rfl := Progress.replied.inj hreplied
          obtain rfl : key = target := by
            rw [hrequest] at hkey
            exact Except.ok.inj ((keyFromBytes_keyToBytes key).symm.trans hkey)
          obtain rfl := hsent'.unique hsent
          have hb := (hd.node_eq hp hparse).1
          exact ⟨call.target, rfl, hmissed rfl, peers, mapM_createFindNodeResponse peers,
            G.answers hb (known_update hknown ⟨a, ha, rfl⟩ hupdate)
              (G.grows (htable hb) (known_held hknown) hgrows) hpeers⟩

theorem guided_heard (hd : d.Connected S) {call : RemoteCall SocketAddr} {progress : Progress}
    {result : Except IoError Message} {stage : Stage}
    (hstage : (orderly G H).stage a operation stage)
    (htask : (guided G H n).task nodes id a operation stage)
    (hcall : (guided G H n).call nodes id a operation call progress)
    (hresult : ∀ reply, result = .ok reply → progress = .replied reply) :
    (guided G H n).task nodes id a operation (d.hear a operation call.slot result stage) := by
  intro hid hoperation
  have hled := htask hid hoperation
  refine ⟨fun hmissed => hled.1 (Deployment.eq_missed_of_hear hmissed),
    fun call' hcall' hstatus => ?_⟩
  obtain ⟨c, rfl, rfl | ⟨key', p, hfind, hslot, hstep⟩⟩ := Deployment.hear_eq_looking hcall'
  · exact hled.2 _ rfl hstatus
  obtain rfl := Operation.findValue.inj (hoperation.symm.trans hfind)
  obtain ⟨htarget, -, hguides⟩ := hcall hid hoperation
  have hknows : Knows d.parse (d.Node S) c := hstage.1.1.2
  refine guided_step hknows (hled.2 c rfl) (fun q r hevent hq reply hreply => ?_) hstep
  -- the peer that was asked is the node that the request went to
  obtain ⟨rfl, rfl⟩ := Event.send.inj hevent
  obtain ⟨-, rfl⟩ := hd.node_eq (hknows.tasks hq) (htarget p hslot)
  exact hguides reply (hresult reply hreply) reply rfl

theorem guided_lasting [DecidableEq SocketAddr] (hd : d.Connected S) (G : d.Guidance S key)
    (H : SocketAddr → Prop) (n : ℕ) :
    Lasting (orderly G H) (guided G H n) d where
  task_grows _ _ _ _ _ _ _ _ _ h := h
  call_grows _ _ _ _ _ _ _ _ _ _ h := h
  begun _ _ _ _ _ _ := ⟨nofun, nofun⟩
  turned _ _ _ _ _ _ hnode hstage htask h := guided_turned hnode hstage htask h
  served _ _ _ _ _ _ _ hcall hnode hrpc hled hout := guided_served hd hcall hnode hrpc hled hout
  heard _ _ _ _ _ _ _ _ _ hstage htask hcall hresult := guided_heard hd hstage htask hcall hresult
  lost _ _ _ _ _ _ _ hstage htask hstep := by
    rintro hid hoperation
    obtain rfl := Operation.findValue.inj hoperation
    refine ⟨nofun, fun c hc _ => ?_⟩
    obtain rfl := Stage.looking.inj hc
    exact guided_step hstage.1.1.2 ((htask hid rfl).2 _ rfl) (by rintro p r ⟨⟩) hstep

end Lasting

section Runs

variable [DecidableEq SocketAddr] {H : SocketAddr → Prop} {c c' : Cluster SocketAddr}

/-- The event asks only nodes of the network for something, and not for a store
of the empty value under the key. -/
def Proper (S : SocketAddr → Prop) (key : U128) (event : ClusterEvent SocketAddr) : Prop :=
  Asks S event ∧ ∀ a, event ≠ .begin a (.store key [])

theorem orderly_step (hd : d.Connected S) {G : d.Guidance S key} {event : ClusterEvent SocketAddr}
    (hc : Meets (orderly G H) c) (hproper : Proper S key event)
    (hstep : step d c event = some c') : Meets (orderly G H) c' := by
  obtain ⟨hboth, hsettled⟩ := meets_and.mp hc
  obtain ⟨hknown, hgenuine⟩ := meets_and.mp hboth
  have hknown' := known_step hd.configured hknown hproper.1 hstep
  refine meets_and.mpr ⟨meets_and.mpr ⟨hknown', ?_⟩, fun a => ⟨fun ha => ?_, fun ha => ?_⟩,
    fun _ _ => trivial, fun x hx => ?_⟩
  · refine (genuine_stable d _).step hgenuine ?_ hstep
    cases event with
    | begin a operation =>
        rintro key' v rfl rfl rfl
        exact hproper.2 a rfl
    | deliver i => exact fun _ _ _ _ _ _ => trivial
    | _ => trivial
  · exact G.grows ((hsettled.nodes a).1 ha) (known_held (hknown.nodes a)) (grows_of_step hstep a)
  · exact (grows_of_step hstep a).kvstore _ ((hsettled.nodes a).2 ha)
  · exact (hknown'.exchanges x hx).mono fun a operation hapt =>
      ⟨trivial, hapt.running, fun _ _ => trivial⟩

theorem guided_start (hd : d.Connected S) (G : d.Guidance S key)
    {events : List (ClusterEvent SocketAddr)} (hrun : Run.run (step d) (new d) events = some c)
    (hS : ∀ a, Asked c a → S a) (hkey : ∀ a, ClusterEvent.begin a (.store key []) ∉ events)
    (htables : ∀ a, S a → G.table a (c.nodes a).routingTable)
    (hholds : ∀ a, H a → Holds c.nodes a key) :
    Meets (orderly G H) c ∧ (guided G H c.tasks.length).Holds c := by
  have hknown := known_run hd.configured hS hrun
  refine ⟨meets_and.mpr ⟨meets_and.mpr ⟨hknown, genuine_run ?_ hrun⟩,
    fun a => ⟨htables a, hholds a⟩, fun _ _ => trivial, fun x hx => ?_⟩,
    fun id task htask hid => ?_, fun x _ task htask hid => ?_⟩
  · rintro a key' v hevent rfl rfl
    exact hkey a hevent
  · exact (hknown.exchanges x hx).mono fun a operation hapt =>
      ⟨trivial, hapt.running, fun _ _ => trivial⟩
  · exact absurd (List.getElem?_eq_some_iff.mp htask).1 (not_lt.mpr hid)
  · exact absurd (List.getElem?_eq_some_iff.mp htask).1 (not_lt.mpr hid)

theorem proper_of_run {more : List (ClusterEvent SocketAddr)}
    (hmore : Run.run (step d) c more = some c') (hS : ∀ a, Asked c' a → S a)
    (hkey : ∀ a, ClusterEvent.begin a (.store key []) ∉ more) :
    ∀ event ∈ more, Proper S key event :=
  fun event hevent => ⟨asks_of_run hS hmore event hevent, fun a heq => hkey a (heq ▸ hevent)⟩

/-- Where the network is settled, the lookups that begin from then on are guided. -/
theorem guided_run (hd : d.Connected S) (G : d.Guidance S key)
    {events more : List (ClusterEvent SocketAddr)}
    (hrun : Run.run (step d) (new d) events = some c)
    (hmore : Run.run (step d) c more = some c') (hS : ∀ a, Asked c' a → S a)
    (hkey : ∀ a, ClusterEvent.begin a (.store key []) ∉ events ++ more)
    (htables : ∀ a, S a → G.table a (c.nodes a).routingTable)
    (hholds : ∀ a, H a → Holds c.nodes a key) :
    Meets (orderly G H) c' ∧ (guided G H c.tasks.length).Holds c' := by
  obtain ⟨hmeets, hguided⟩ := guided_start hd G hrun (fun a ha => hS a (asked_run hmore ha))
    (fun a ha => hkey a (List.mem_append_left _ ha)) htables hholds
  have hproper := proper_of_run hmore hS fun a ha => hkey a (List.mem_append_right _ ha)
  exact (guided_lasting hd G H _).run (Q := fun _ event => Proper S key event)
    (fun _ _ _ hc hproper hstep => orderly_step hd hc hproper hstep) hmeets hguided
    (Run.along_of_forall_mem (fun event hevent _ => hproper event hevent) _) hmore

omit [DecidableEq SocketAddr] in
/-- What a guided lookup that gave up with an answer from everybody has seen. -/
theorem gave_up (hd : d.Connected S) {G : d.Guidance S key} {n id : ℕ} {task : Task SocketAddr}
    {call : Call} {e : RPCError} (hmeets : Meets (orderly G H) c) (hguided : (guided G H n).Holds c)
    (hid : n ≤ id) (htask : c.tasks[id]? = some task) (hoperation : task.operation = .findValue key)
    (hstage : task.stage = .looking call) (hstatus : call.status = .returned (.error e))
    (hanswered : ∀ q ∈ call.lookup.queried, ∃ reply, (q, .ok reply) ∈ call.lookup.received) :
    Knows d.parse (d.Node S) call ∧ ¬ H task.node ∧
      (∃ initial, G.answer task.node initial ∧ Led (G.Guides H) initial call) ∧
      ∀ b, d.localPeer b ∈ call.lookup.queried → ¬ H b := by
  have hknows := (hmeets.tasks task (List.mem_of_getElem? htask)).1.1.2
  rw [hstage] at hknows
  obtain ⟨hmiss, initial, hanswer, hled⟩ :=
    (hguided.tasks id task htask hid hoperation).2 call hstage (.inr ⟨e, hstatus⟩)
  refine ⟨hknows, hmiss, ⟨initial, hanswer, hled⟩, fun b hb => ?_⟩
  obtain ⟨reply, hreply⟩ := hanswered _ hb
  obtain ⟨-, hnone⟩ := hled.gave_up (Knows.inv hknows) hstatus
  obtain ⟨b', hbb', hno, -⟩ := hled.received _ hreply reply rfl (hnone _ hreply)
  rwa [hd.localPeer_injective hbb']

end Runs

end Cluster

end DhtKad
