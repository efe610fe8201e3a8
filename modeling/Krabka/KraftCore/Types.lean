import Krabka.Lib.SortedMap
import Mathlib.Data.Finset.Sort

/-!
# The data of the quorum state machine

The types of `crates/kraft-core/src`: `types.rs`, `role.rs`, `event.rs` and
`action.rs`, and the voter set that the `krabka-voters` crate supplies.

Node ids, epochs (`u32`) and instants in milliseconds (`u64`) are `Nat`.  The
two places where the width of the machine integer shows are kept: an epoch is
bumped by a saturating addition, and so is a deadline.  Offsets are `i64` and
are `Int` here.
-/

namespace Krabka.KraftCore

abbrev NodeId := Nat

abbrev Uuid := Nat

def Uuid.nil : Uuid := 0

def u32Max : Nat := 2 ^ 32 - 1

def u64Max : Nat := 2 ^ 64 - 1

def saturatingAddMs (now : Nat) (ms : Nat) : Nat := min (now + ms) u64Max

/-- `u32::saturating_add(1)` on an epoch. -/
def nextEpoch (e : Nat) : Nat := if e < u32Max then e + 1 else e

theorem le_nextEpoch (e : Nat) : e ≤ nextEpoch e := by
  unfold nextEpoch
  split_ifs <;> omega

theorem nextEpoch_of_lt {e : Nat} (h : nextEpoch e < u32Max) : nextEpoch e = e + 1 := by
  unfold nextEpoch at h ⊢
  by_cases hlt : e < u32Max
  · rw [if_pos hlt]
  · rw [if_neg hlt] at h
    exact absurd h hlt

/-- Identifies a voter by node id and directory id. -/
structure ReplicaKey where
  id : NodeId
  directoryId : Uuid
  deriving DecidableEq

/-- A log position: an offset and the leader epoch that produced it. -/
structure LogOffsetMetadata where
  offset : Int
  epoch : Nat
  deriving DecidableEq

/-- The read-only view of the local log that the state machine uses. -/
structure LogView where
  /-- One offset after the last appended record. -/
  endOffset : Int
  /-- Leader epoch of the last appended record. -/
  lastEpoch : Nat
  /-- The largest epoch at or below the argument that the log holds, and the
  offset where that epoch ends. -/
  endOffsetForEpoch : Nat → LogOffsetMetadata

/-- `LogOffsetMetadata::end_of_epoch_in`: the lookup over a log that records
the leader epoch of every record. -/
def endOfEpochIn (epochs : List Nat) (epoch : Nat) : LogOffsetMetadata :=
  let last := epochs.getLast?.getD 0
  if last < epoch then ⟨epochs.length, last⟩
  else
    ⟨epochs.findIdx (fun e => epoch < e),
      (epochs.filter (fun e => e ≤ epoch)).max?.getD epoch⟩

/-- The view of a log given by the leader epoch of each record. -/
def LogView.ofEpochs (epochs : List Nat) : LogView where
  endOffset := epochs.length
  lastEpoch := epochs.getLast?.getD 0
  endOffsetForEpoch := endOfEpochIn epochs

def LogView.empty : LogView := .ofEpochs []

def LogOffsetMetadata.followerTruncationOffset (point : LogOffsetMetadata) (log : LogView) : Int :=
  if point.epoch = 0 then min point.offset log.endOffset
  else
    let local_ := log.endOffsetForEpoch point.epoch
    if local_.epoch = point.epoch then min local_.offset point.offset
    else local_.offset

/-! ## Voter sets -/

structure VoterEndpoint where
  name : String
  host : String
  port : Nat
  deriving DecidableEq

/-- The `kraft.version` levels a voter supports. -/
structure KRaftVersionRange where
  min : Nat := 0
  max : Nat := 1
  deriving DecidableEq

structure Voter where
  id : NodeId
  directoryId : Uuid
  endpoints : List VoterEndpoint := []
  kraftVersion : KRaftVersionRange := {}
  deriving DecidableEq

/-- `krabka_voters::VoterSet`: at most one voter for each id, in id order. -/
@[ext]
structure VoterSet where
  map : SortedMap NodeId Voter
  keyed : ∀ e ∈ map.entries, e.2.id = e.1
  deriving DecidableEq

namespace VoterSet

def empty : VoterSet := ⟨.empty, by simp [SortedMap.empty]⟩

instance : Inhabited VoterSet := ⟨empty⟩

variable (vs : VoterSet)

def get (id : NodeId) : Option Voter := vs.map.get? id

def contains (id : NodeId) : Bool := vs.map.contains id

def len : Nat := vs.map.entries.length

def isEmpty : Bool := vs.map.entries.isEmpty

def ids : List NodeId := vs.map.keys

def idSet : Finset NodeId := vs.ids.toFinset

def withVoter (v : Voter) : VoterSet where
  map := vs.map.insert v.id v
  keyed := by
    intro e he
    rcases SortedMap.mem_insertEntry he with rfl | he
    · rfl
    · exact vs.keyed e he

def fromVoters (voters : List Voter) : VoterSet := voters.foldl withVoter empty

/-- Voters of these ids without directories or endpoints, as the simulators of
the source build them. -/
def ofIds (ids : List NodeId) : VoterSet :=
  fromVoters (ids.map fun id => { id := id, directoryId := Uuid.nil })

@[simp] theorem mem_idSet (id : NodeId) : id ∈ vs.idSet ↔ vs.contains id := by
  rw [idSet, List.mem_toFinset]
  exact vs.map.mem_keys_iff id

theorem mem_ids (id : NodeId) : id ∈ vs.ids ↔ vs.contains id :=
  vs.map.mem_keys_iff id

theorem card_idSet : vs.idSet.card = vs.len := by
  rw [idSet, ids, List.toFinset_card_of_nodup vs.map.keys_nodup]
  simp [len, SortedMap.keys]

end VoterSet

/-! ## The durable state -/

/-- The logical content of the `quorum-state` file. -/
structure QuorumState where
  clusterId : Uuid
  kraftVersion : Nat
  leaderEpoch : Nat
  leaderId : Option NodeId
  votedKey : Option ReplicaKey
  voters : VoterSet
  deriving DecidableEq

def QuorumState.bootstrap (clusterId : Uuid) (voters : VoterSet) : QuorumState where
  clusterId := clusterId
  kraftVersion := 0
  leaderEpoch := 0
  leaderId := none
  votedKey := none
  voters := voters

/-! ## Roles -/

/-- `ReplicaProgress`: what a leader tracks for each other voter. -/
structure ReplicaProgress where
  fetchOffset : Int := 0
  lastFetch : Nat := 0
  lastCaughtUp : Nat := 0
  lastFetchLeaderLogEnd : Int := 0
  deriving DecidableEq

def ReplicaProgress.recordFetch (p : ReplicaProgress) (now : Nat)
    (fetchOffset leaderLogEnd : Int) : ReplicaProgress :=
  let caughtUp :=
    if leaderLogEnd ≤ fetchOffset then max p.lastCaughtUp now
    else if 0 < p.lastFetchLeaderLogEnd ∧ p.lastFetchLeaderLogEnd ≤ fetchOffset then
      max p.lastCaughtUp p.lastFetch
    else p.lastCaughtUp
  { fetchOffset := fetchOffset
    lastFetch := max p.lastFetch now
    lastCaughtUp := caughtUp
    lastFetchLeaderLogEnd := leaderLogEnd }

/-- The fields of `Role::Leader`. -/
structure LeaderFields where
  replicas : SortedMap NodeId ReplicaProgress
  /-- Voters that have fetched inside the current check-quorum window. -/
  fetchedVoters : Finset NodeId
  highWatermark : Int
  /-- Log end offset at the promotion, where the `LeaderChange` record sits. -/
  epochStartOffset : Int
  deriving DecidableEq

inductive Role where
  | unattached (electionDeadline : Nat)
  | voted (electionDeadline : Nat)
  | follower (leaderId : NodeId) (fetchDeadline : Nat) (hasFetchedFromLeader : Bool)
  | prospective (granted rejected : Finset NodeId) (electionDeadline : Nat)
      (abandonedLeader : Option NodeId)
  | candidate (granted : Finset NodeId) (electionDeadline : Nat)
  | leader (fields : LeaderFields)
  | resigned
  | observer (leaderId : Option NodeId) (fetchDeadline : Nat)
  deriving DecidableEq

namespace Role

/-- The name of the variant, as the `EnumStr` derive gives it. -/
def name : Role → String
  | unattached _ => "Unattached"
  | voted _ => "Voted"
  | follower .. => "Follower"
  | prospective .. => "Prospective"
  | candidate .. => "Candidate"
  | leader _ => "Leader"
  | resigned => "Resigned"
  | observer .. => "Observer"

def isLeader : Role → Bool
  | leader _ => true
  | _ => false

def isCandidate : Role → Bool
  | candidate .. => true
  | _ => false

end Role

/-! ## Events and actions -/

/-- The place of a replica in a resigning leader's preferred candidates. -/
structure SuccessorRank where
  position : Nat
  successors : Nat
  deriving DecidableEq

structure LogEnd where
  lastEpoch : Nat
  lastOffset : Int
  deriving DecidableEq

/-- `Event::ReceiveVoteRequest`, which the core unpacks into `VoteRequest`. -/
structure VoteRequest where
  fromId : NodeId
  clusterId : Option Uuid
  voterId : NodeId
  voterDirectoryId : Uuid
  candidateEpoch : Nat
  candidate : NodeId
  candidateDirectoryId : Uuid
  candidateLogEnd : LogEnd
  preVote : Bool
  deriving DecidableEq

/-- The key under which a vote for the request's candidate is recorded. -/
def VoteRequest.candidateKey (r : VoteRequest) : ReplicaKey :=
  ⟨r.candidate, r.candidateDirectoryId⟩

inductive Event where
  | electionTimeout
  | fetchTimeout
  | checkQuorumTimeout
  | receiveVoteRequest (request : VoteRequest)
  | receiveVoteResponse (fromId : NodeId) (epoch : Nat) (voteGranted : Bool)
  | receiveBeginQuorumEpoch (leaderId : NodeId) (leaderEpoch : Nat)
  | receiveEndQuorumEpoch (leaderId : NodeId) (leaderEpoch : Nat)
      (successorRank : SuccessorRank)
  | receiveFetch (fromId : NodeId) (fetchEpoch : Nat) (fetchOffset : Int)
  | receiveFetchSnapshot (fromId : NodeId)
  | receiveFetchResponse (leaderId : NodeId) (leaderEpoch : Nat)
      (diverging : Option LogOffsetMetadata)
  | receiveLeaderlessEpoch (epoch : Nat)
  deriving DecidableEq

inductive TimerKind where
  | election
  | fetch
  | checkQuorum
  deriving DecidableEq

inductive Action where
  | sendVoteRequest (epoch : Nat) (preVote : Bool)
  | replyVote (toId : NodeId) (epoch : Nat) (granted : Bool)
  | sendBeginQuorumEpoch (epoch : Nat)
  | sendEndQuorumEpoch (epoch : Nat) (preferredSuccessors : List NodeId)
  | sendFetch (leaderId : NodeId)
  | transitionedTo (role : String)
  | persistQuorumState
  | appendLeaderChange (epoch : Nat)
  | advanceHighWatermark (offset : Int)
  | truncateTo (point : LogOffsetMetadata)
  | replyDivergingEpoch (point : LogOffsetMetadata)
  | resetTimer (kind : TimerKind) (deadline : Nat)
  deriving DecidableEq

end Krabka.KraftCore
