import DhtKad.Service.Replies

/-!
The candidates that a bootstrap pings.

The source sets out to remove duplicate candidates: it sorts them by identifier
and removes adjacent duplicates. The sort is stable and looks at the identifier
only, while duplicates are compared as whole peers. So a peer that is reported
again after another one with its identifier is kept twice, and that is the only
way in which the candidates fail to be the reported peers, each once.
-/

namespace DhtKad

open SortBy

/-- A reply to one of the introductions lists the peer. -/
def ReportedBy (bootstrapPeers : List Peer) (findNode : ℕ → Except IoError Message)
    (p : Peer) : Prop :=
  ∃ i < bootstrapPeers.length, ∃ resp, findNode i = .ok resp ∧
    ∃ e ∈ resp.closerPeers, protoPeerToPeer e = .ok p

/-- The candidates are the reported peers that are not bootstrap peers, each
once. -/
def CandidatesExact (bootstrapPeers : List Peer) (findNode : ℕ → Except IoError Message)
    (candidatePeers : List Peer) : Prop :=
  candidatePeers.Nodup ∧
    ∀ p, p ∈ candidatePeers ↔ ReportedBy bootstrapPeers findNode p ∧ p ∉ bootstrapPeers

theorem nodup_selectCandidates_iff {bootstrapPeers candidatePeers : List Peer} :
    (selectCandidates bootstrapPeers candidatePeers).Nodup ↔
      ¬ ∃ p q : Peer, p.id = q.id ∧ p ≠ q ∧
        [p, q, p].Sublist (candidatePeers.filter fun p => p ∉ bootstrapPeers) := by
  rw [selectCandidates, nodup_destutter_sortBy_iff]
  simp only [BitVec.toNat_inj, not_exists, not_and, ne_eq]

/-- **The candidates.** Whatever the replies report, as long as it decodes: the
candidates are the reported peers that are not bootstrap peers, each once,
exactly if no such peer is reported again after another one with the same
identifier. -/
theorem candidates_exact_iff (bootstrapPeers : List Peer)
    (findNode : ℕ → Except IoError Message) (reported : List (List Peer))
    (hreported : ((answered bootstrapPeers findNode).mapM fun (_, resp) =>
      resp.closerPeers.mapM protoPeerToPeer) = .ok reported) :
    CandidatesExact bootstrapPeers findNode
        (selectCandidates bootstrapPeers reported.flatten) ↔
      ¬ ∃ p q : Peer, p.id = q.id ∧ p ≠ q ∧
        [p, q, p].Sublist (reported.flatten.filter fun p => p ∉ bootstrapPeers) := by
  rw [CandidatesExact, nodup_selectCandidates_iff]
  refine and_iff_left fun p => ?_
  rw [mem_selectCandidates, mem_reported hreported]
  exact Iff.rfl

/-! ### A candidate that is pinged twice -/

def introducer : Peer := { id := 9, address := "0.0.0.0:9" }

/-- One peer at two addresses, the first of them reported again. -/
def movedPeers : List Peer :=
  [{ id := 1, address := "0.0.0.0:2" }, { id := 1, address := "0.0.0.0:3" },
    { id := 1, address := "0.0.0.0:2" }]

def movedReply (peers : List Peer) : ℕ → Except IoError Message :=
  fun _ => .ok (createFindNodeResponse peers)

theorem reported_movedReply (peers : List Peer) :
    ((answered [introducer] (movedReply peers)).mapM fun (_, resp) =>
      resp.closerPeers.mapM protoPeerToPeer) = .ok [peers] := by
  have hanswered : answered [introducer] (movedReply peers) =
      [(introducer, createFindNodeResponse peers)] := rfl
  rw [hanswered, ExceptList.mapM_eq_ok_iff]
  exact .cons (mapM_createFindNodeResponse peers) .nil

/-- Two reports in a row are one candidate. -/
theorem candidates_exact_iff_repeated :
    CandidatesExact [introducer]
        (movedReply [{ id := 1, address := "0.0.0.0:2" }, { id := 1, address := "0.0.0.0:2" }])
        (selectCandidates [introducer] [[{ id := 1, address := "0.0.0.0:2" },
          { id := 1, address := "0.0.0.0:2" }]].flatten) ↔
      ¬ ∃ p q : Peer, p.id = q.id ∧ p ≠ q ∧
        [p, q, p].Sublist ([[{ id := 1, address := "0.0.0.0:2" },
          { id := 1, address := "0.0.0.0:2" }]].flatten.filter fun p => p ∉ [introducer]) :=
  candidates_exact_iff _ _ _ (reported_movedReply _)

/-- All entries decode, and one peer is selected twice. -/
theorem candidate_pinged_twice :
    ((answered [introducer] (movedReply movedPeers)).mapM fun (_, resp) =>
        resp.closerPeers.mapM protoPeerToPeer) = .ok [movedPeers] ∧
      selectCandidates [introducer] [movedPeers].flatten = movedPeers ∧
      movedPeers.count { id := 1, address := "0.0.0.0:2" } = 2 ∧
      ¬ CandidatesExact [introducer] (movedReply movedPeers)
        (selectCandidates [introducer] [movedPeers].flatten) := by
  have hselect : selectCandidates [introducer] [movedPeers].flatten = movedPeers := by decide
  refine ⟨reported_movedReply movedPeers, hselect, by decide, fun h => ?_⟩
  rw [hselect] at h
  exact absurd h.1 (by decide)

end DhtKad
