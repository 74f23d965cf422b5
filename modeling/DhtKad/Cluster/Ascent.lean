import DhtKad.Client.Ascent
import DhtKad.Cluster.Reach
import DhtKad.Cluster.Unfailing

/-!
How many queries a lookup takes.

In a network of complete tables whose nodes make one query at a time, each query
goes to a node that shares more with the key than the one before it, up to one
that shares as much as any node of the network does. So a lookup gets there with
at most as many queries as there are bits between what the node it runs at shares
with the key and what that one shares (`lookup_hops`).
-/

namespace DhtKad

open RoutingTable DHTServer DHTClient Climb

variable {SocketAddr : Type}

namespace Cluster

/-- The lookups of the key climb towards the node `b`. -/
def Climbing (d : Deployment SocketAddr) (key : U128) (b a : SocketAddr) (key' : U128)
    (call : Call) : Prop :=
  key' = key → Ascends d.parse (d.client a) key (closeness key (d.localPeer b))
    (closeness key (d.localPeer a)) call

section Runs

variable [DecidableEq SocketAddr] {d : Deployment SocketAddr} {S : SocketAddr → Prop} {key : U128}
  {c c' : Cluster SocketAddr} {b : SocketAddr}

/-- **One event** lets the lookups climb on. -/
theorem climbing_step {hd : d.Connected S} (halpha : ∀ a, (d.config a).alpha = 1) (hb : S b) {n : ℕ}
    (hmeets : Meets (orderly (hd.towards key) fun _ => False) c)
    (hguided : (guided (hd.towards key) (fun _ => False) n).Holds c)
    (h : AllLookups n (Climbing d key b) c) {event : ClusterEvent SocketAddr}
    (hfail : Unfailing event) (hstep : step d c event = some c') :
    AllLookups n (Climbing d key b) c' := by
  refine h.step (fun _ _ v _ => ascends_hit v) ?_ ?_ hfail hstep
  · rintro id task key' candidates - htask - hcandidates rfl
    obtain ⟨⟨hknown, -⟩, htable, -⟩ := hmeets.nodes task.node
    have ha := (hmeets.tasks task (List.mem_of_getElem? htask)).1.1.1
    exact ascends_start (halpha task.node)
      ((hd.towards key').answers ha hknown (htable ha) hcandidates b hb)
  · rintro id task key' call event' call' hid htask hoperation hstage hcall hsent hadvance rfl
    obtain ⟨hawait, -⟩ := step_stepped hadvance
    obtain ⟨-, initial, -, hled⟩ :=
      (hguided.tasks id task htask hid hoperation).2 call hstage (.inl hawait)
    refine (hcall rfl).step (halpha task.node) hsent (fun p reply hreply hnone => ?_) hadvance
    obtain ⟨b', rfl, -, ps, hps, hleads⟩ := hled.channel _ hreply reply rfl hnone
    exact ⟨ps, hps, hleads b hb⟩

theorem climbing_run {hd : d.Connected S} (halpha : ∀ a, (d.config a).alpha = 1) (hb : S b) {n : ℕ}
    (hmeets : Meets (orderly (hd.towards key) fun _ => False) c)
    (hguided : (guided (hd.towards key) (fun _ => False) n).Holds c)
    (h : AllLookups n (Climbing d key b) c) {more : List (ClusterEvent SocketAddr)}
    (hproper : ∀ event ∈ more, Proper S key event) (hfail : ∀ event ∈ more, Unfailing event)
    (hmore : Run.run (step d) c more = some c') :
    Meets (orderly (hd.towards key) fun _ => False) c' ∧
      (guided (hd.towards key) (fun _ => False) n).Holds c' ∧
      AllLookups n (Climbing d key b) c' := by
  refine Run.run_invariant_along (P := fun _ event => Proper S key event ∧ Unfailing event)
    (I := fun c => Meets (orderly (hd.towards key) fun _ => False) c ∧
      (guided (hd.towards key) (fun _ => False) n).Holds c ∧ AllLookups n (Climbing d key b) c)
    ?_ ⟨hmeets, hguided, h⟩
    (Run.along_of_forall_mem (fun event hevent _ => ⟨hproper event hevent, hfail event hevent⟩) _)
    hmore
  rintro c event c' ⟨hmeets, hguided, h⟩ ⟨hproper, hfail⟩ hstep
  exact ⟨orderly_step hd hmeets hproper hstep, (guided_lasting hd _ _ _).step hmeets hguided hstep,
    climbing_step halpha hb hmeets hguided h hfail hstep⟩

end Runs

/-- **One bit with each query.** In a network whose nodes make one query at a time,
take any run to a point at which every table is complete, and any run from there
without failures and without a store of the empty value under the key. A lookup
of the key that begins after that point has, for any node of the network, queried
somebody who shares as much with the key as that node with at most one query for
each bit that this is more than its own node shares; or it has made fewer queries
so far, and has not given up. -/
theorem lookup_hops [DecidableEq SocketAddr] (d : Deployment SocketAddr)
    (S : SocketAddr → Prop) (hd : d.Connected S) (halpha : ∀ a, (d.config a).alpha = 1)
    (key : U128) (events more : List (ClusterEvent SocketAddr)) (c c' : Cluster SocketAddr)
    (hrun : Run.run (step d) (new d) events = some c)
    (hmore : Run.run (step d) c more = some c') (hS : ∀ a, Asked c' a → S a)
    (hkey : ∀ a, ClusterEvent.begin a (.store key []) ∉ events ++ more)
    (hfail : ∀ i e, ClusterEvent.fail i e ∉ more)
    (hcomplete : ∀ a, S a → d.Complete S a (c.nodes a).routingTable)
    (id : ℕ) (hid : c.tasks.length ≤ id) (task : Task SocketAddr)
    (htask : c'.tasks[id]? = some task) (hoperation : task.operation = .findValue key)
    (call : Call) (hstage : task.stage = .looking call) (b : SocketAddr) (hb : S b)
    (hlt : closeness key (d.localPeer task.node) < closeness key (d.localPeer b)) :
    (∃ q ∈ call.lookup.queried.take
        (closeness key (d.localPeer b) - closeness key (d.localPeer task.node)),
      closeness key (d.localPeer b) ≤ closeness key q) ∨
    call.lookup.queried.length <
        closeness key (d.localPeer b) - closeness key (d.localPeer task.node) ∧
      ∀ e, call.status ≠ .returned (.error e) := by
  obtain ⟨hmeets, hguided⟩ := guided_start (H := fun _ => False) hd (hd.towards key) hrun
    (fun a ha => hS a (asked_run hmore ha)) (fun a ha => hkey a (List.mem_append_left _ ha))
    hcomplete (by simp)
  have hproper := proper_of_run hmore hS fun a ha => hkey a (List.mem_append_right _ ha)
  obtain ⟨hmeets', hguided', hclimbing⟩ := climbing_run halpha hb hmeets hguided
    (allLookups_length _ c) hproper (unfailing_of_run hfail) hmore
  have hcall := hclimbing id task hid htask key call hoperation hstage rfl
  by_cases hlength : closeness key (d.localPeer b) - closeness key (d.localPeer task.node) ≤
      call.lookup.queried.length
  · obtain ⟨y, hy, hle⟩ := hcall.climbs.reaches hlt (by rwa [List.length_map])
    rw [← List.map_take] at hy
    obtain ⟨q, hq, rfl⟩ := List.mem_map.mp hy
    exact .inl ⟨q, hq, hle⟩
  · refine or_iff_not_imp_right.mpr fun hgaveUp => ?_
    obtain ⟨e, hstatus⟩ : ∃ e, call.status = .returned (.error e) := by
      by_contra hnot
      exact hgaveUp ⟨not_le.mp hlength, fun e he => hnot ⟨e, he⟩⟩
    -- a lookup that gives up has got there
    have hanswered := hcall.exists_reply hstatus
    obtain ⟨hknows, -, ⟨initial, hleads, hled⟩, -⟩ :=
      gave_up hd hmeets' hguided' hid htask hoperation hstage hstatus hanswered
    rw [List.take_of_length_le (not_le.mp hlength).le]
    exact (gets_there hknows hleads hled hstatus hanswered hb).resolve_left (not_le.mpr hlt)

/-- The lookup that has asked the node with the key for its identifier first. -/
theorem lookup_hops_kept : ∃ c', Run.run (step pair) kept wandering = some c' ∧
    ((∃ q ∈ wanderedCall.lookup.queried.take
        (closeness 1 (pair.localPeer true) - closeness 1 (pair.localPeer false)),
      closeness 1 (pair.localPeer true) ≤ closeness 1 q) ∨
    wanderedCall.lookup.queried.length <
        closeness 1 (pair.localPeer true) - closeness 1 (pair.localPeer false) ∧
      ∀ e, wanderedCall.status ≠ .returned (.error e)) := by
  obtain ⟨c', hwandering, htask⟩ := wandering_run
  exact ⟨c', hwandering, lookup_hops pair (fun _ => True) pair_connected (by decide) 1
    (joining ++ keeping) wandering kept c' kept_run hwandering (by simp)
    (by simp [joining, keeping, wandering]) (by simp [wandering]) (fun a _ => kept_complete a) 2
    le_rfl _ htask rfl wanderedCall rfl true trivial (by decide)⟩

end Cluster

end DhtKad
