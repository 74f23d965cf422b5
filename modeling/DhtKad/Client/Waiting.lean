import DhtKad.Client.Termination

/-!
What `find_value` waits for.

The loop suspends on its channel and counts on the tasks it spawned to send
something. A task whose peer has an address that does not parse panics before
it sends; it stays counted in `in_progress`, and the channel does not close
since the loop itself holds a sender. So a loop can sleep for ever
(`waits_for_ever`). It does not as long as it is told only of peers whose
addresses parse (`live_of_parse`).
-/

namespace DhtKad.DHTClient

/-- If the loop is suspended, a result is in the channel or a task is left that
has neither sent nor panicked. -/
def Live (c : Call) : Prop :=
  c.status = .awaiting → c.lookup.channel ≠ [] ∨ c.lookup.tasks ≠ []

theorem Answerable.live {SocketAddr : Type} {parse : String → Option SocketAddr} {c : Call}
    (h : Answerable parse c) : Live c := by
  intro hawait
  refine (h hawait).imp id ?_
  rintro ⟨p, hp, -⟩ hnil
  rw [hnil] at hp
  cases hp

/-- **Waiting.** If the addresses of the initial candidates parse, and those of
the peers that valueless replies list, then in every state that is reached a
suspended loop has a result or a task to wait for. -/
theorem live_of_parse {SocketAddr : Type} (parse : String → Option SocketAddr)
    (client : DHTClient) (halpha : 1 ≤ client.alpha) (key : U128) (candidates : List Peer)
    (hcandidates : ∀ p ∈ candidates, (parse p.address).isSome) (events : List Event)
    (hreplies : ∀ p response, Event.send p (.ok response) ∈ events → response.value = [] →
      ∀ mp ∈ response.closerPeers, ∀ q, protoPeerToPeer mp = .ok q → (parse q.address).isSome)
    (c : Call) (hrun : afterEvents parse client key candidates events = some c) : Live c := by
  have hnamed : ∀ event ∈ events, ∀ p r, event = .send p r → ∀ q, Named r q →
      (parse q.address).isSome := by
    rintro event hevent p r rfl q ⟨response, rfl, hvalue, mp, hmp, hdecode⟩
    exact hreplies p response hevent hvalue mp hmp q hdecode
  have hconfined : Confined parse (fun p => (parse p.address).isSome) c :=
    Run.run_invariant_along
      (fun _ _ _ hs hsent hstep => Confined.step hs (fun p r hevent _ => hsent p r hevent) hstep)
      (confined_start client key hcandidates)
      (Run.along_of_forall_mem (fun event hevent _ => hnamed event hevent) _) hrun
  have hmetered := metered_of_afterEvents halpha hrun
  exact (hconfined.inv.answerable hmetered fun p hp => hconfined.queried hp).live

/-- A parser of addresses that does not know a host without a number. -/
def parseNumbered (address : String) : Option String :=
  if address = "localhost" then none else some address

/-- A lookup that is told of a peer and awaits it. -/
theorem live_of_parse_echoed : echoedCall.status = .awaiting ∧ Live echoedCall := by
  refine ⟨rfl, live_of_parse parseNumbered oneClient (by decide) 0 [nearPeer] (by decide) echoes
    ?_ echoedCall (afterEvents_echoes (by decide) (by decide))⟩
  intro p response hsent hvalue mp hmp q hdecode
  obtain ⟨rfl, hresponse⟩ | ⟨rfl, hresponse⟩ :
      p = nearPeer ∧ .ok response = echoed ∨ p = farPeer ∧ .ok response = refused := by
    simpa [echoes] using hsent
  · obtain rfl := Except.ok.inj hresponse
    obtain rfl : mp = protoPeerFromPeer farPeer := by
      simpa [createFindNodeResponse] using hmp
    rw [protoPeerToPeer_protoPeerFromPeer] at hdecode
    obtain rfl := Except.ok.inj hdecode
    decide
  · cases hresponse

/-! ### A loop that waits for ever -/

def unnumberedPeer : Peer := { id := 1, address := "localhost" }

/-- The call after its only task has panicked. -/
def deafCall : Call :=
  { lookup :=
      { candidates := []
        queried := [unnumberedPeer]
        inProgress := 1
        dead := [unnumberedPeer] }
    status := .awaiting }

/-- The only task panics on its address; the loop awaits a reply, and no event
is left that could happen. -/
theorem waits_for_ever :
    afterEvents parseNumbered pairClient 0 [unnumberedPeer] [.die unnumberedPeer] =
        some deafCall ∧
      deafCall.status = .awaiting ∧ deafCall.lookup.inProgress = 1 ∧ ¬ Live deafCall ∧
      ∀ event, step parseNumbered pairClient 0 deafCall event = none := by
  refine ⟨by decide, rfl, rfl, fun h => ?_, fun event => ?_⟩
  · rcases h rfl with h | h
    · exact h rfl
    · exact h rfl
  · cases event with
    | send p r => simp [step, deafCall]
    | die p => simp [step, deafCall]
    | recv => rfl

end DhtKad.DHTClient
