import Krabka.KraftCore.Cluster

/-!
# The quorum-state file

`crates/raft/src/kraft/controller/quorum_state_file.rs` with its kernels in
`crates/verified/src/quorum_state.rs`.  `QuorumStateJson` is the record that the
file holds; the text of the JSON document is left out.  Schema 0 carries the
cluster id and the legacy voter ids, schema 1 the voted directory id instead.

`loadQuorumState_saveQuorumState` is the round trip: what `saveQuorumState`
accepts comes back as `QuorumState.reload`, the restart of the cluster model.
-/

namespace Krabka.Raft

open KraftCore

/-- `QuorumStateJson`.  A directory id that is present but does not decode is
`some none`. -/
structure QuorumStateJson where
  clusterId : Option Uuid
  leaderId : Int
  leaderEpoch : Int
  votedId : Int
  votedDirectoryId : Option (Option Uuid)
  appliedOffset : Option Int
  currentVoters : Option (List Int)
  dataVersion : Int
  deriving DecidableEq

inductive QuorumStateError where
  | invalidArgument (message : String)
  | io
  | invalidRecord (dataVersion : Int) (clusterId : Uuid)
  deriving DecidableEq

def unrepresentable : QuorumStateError :=
  .invalidArgument "quorum-state cannot be represented exactly by schema v0 or v1"

def i32Max : Nat := 2147483647

/-! ## Writing -/

/-- `quorum_state_write_decision`: whether the record is accepted. -/
def quorumStateWriteDecision (kraftVersion leaderEpoch : Nat) (hasLeader : Bool) (leaderId : Nat)
    (hasVote : Bool) (votedId : Nat) (allVoterIdsFit : Bool) : Bool :=
  !(1 < kraftVersion || i32Max < leaderEpoch || (hasLeader && i32Max < leaderId) ||
    (hasVote && i32Max < votedId) || (kraftVersion = 0 && !allVoterIdsFit))

def representable (state : QuorumState) : Bool :=
  quorumStateWriteDecision state.kraftVersion state.leaderEpoch state.leaderId.isSome
    (state.leaderId.getD 0) state.votedKey.isSome ((state.votedKey.map (·.id)).getD 0)
    (state.voters.ids.all (fun id => id ≤ i32Max))

def recordOf (state : QuorumState) : QuorumStateJson :=
  let leaderId : Int := (state.leaderId.map Int.ofNat).getD (-1)
  let votedId : Int := (state.votedKey.map fun key => Int.ofNat key.id).getD (-1)
  if state.kraftVersion = 0 then
    { clusterId := some state.clusterId
      leaderId := leaderId
      leaderEpoch := state.leaderEpoch
      votedId := votedId
      votedDirectoryId := none
      appliedOffset := some 0
      currentVoters := some (state.voters.ids.map Int.ofNat)
      dataVersion := 0 }
  else
    { clusterId := none
      leaderId := leaderId
      leaderEpoch := state.leaderEpoch
      votedId := votedId
      votedDirectoryId := some (some ((state.votedKey.map (·.directoryId)).getD Uuid.nil))
      appliedOffset := none
      currentVoters := none
      dataVersion := 1 }

/-- `save_quorum_state` up to the write of the file. -/
def saveQuorumState (state : QuorumState) : Except QuorumStateError QuorumStateJson :=
  if representable state then .ok (recordOf state) else .error unrepresentable

/-! ## Reading -/

inductive QuorumStateLoadDecision where
  | reject
  | restoreNoVote
  | restoreVote
  deriving DecidableEq

def quorumStateLoadDecision (dataVersion leaderEpoch votedId : Int) (versionFieldsValid
    votedDirectoryValid votedDirectoryNil : Bool) : QuorumStateLoadDecision :=
  if (dataVersion ≠ 0 && dataVersion ≠ 1) || leaderEpoch < 0 || votedId < -1 ||
      !versionFieldsValid || (dataVersion = 1 && !votedDirectoryValid) ||
      (dataVersion = 1 && votedId = -1 && !votedDirectoryNil) then .reject
  else if votedId = -1 then .restoreNoVote
  else .restoreVote

/-- The fields of the record are those of its version, for this cluster and
these voters. -/
def versionFieldsValid (data : QuorumStateJson) (clusterId : Uuid) (voters : VoterSet) : Bool :=
  if data.dataVersion = 0 then
    data.clusterId = some clusterId && data.votedDirectoryId.isNone &&
      data.appliedOffset = some 0 && data.currentVoters = some (voters.ids.map Int.ofNat)
  else if data.dataVersion = 1 then
    data.clusterId.isNone && data.votedDirectoryId.isSome && data.appliedOffset.isNone &&
      data.currentVoters.isNone
  else false

/-- `load_quorum_state` of a file that parses, or of none. -/
def loadQuorumState (file : Option QuorumStateJson) (clusterId : Uuid) (voters : VoterSet) :
    Except QuorumStateError (Option QuorumState) :=
  match file with
  | none => .ok none
  | some data =>
    let directory := data.votedDirectoryId.getD none
    let state (votedKey : Option ReplicaKey) : QuorumState :=
      { clusterId := clusterId
        leaderEpoch := data.leaderEpoch.toNat
        leaderId := none
        votedKey := votedKey
        voters := voters
        kraftVersion := data.dataVersion.toNat }
    match quorumStateLoadDecision data.dataVersion data.leaderEpoch data.votedId
      (versionFieldsValid data clusterId voters) directory.isSome (directory = some Uuid.nil) with
    | .reject => .error (.invalidRecord data.dataVersion clusterId)
    | .restoreNoVote => .ok (some (state none))
    | .restoreVote =>
      .ok (some (state (some
        ⟨data.votedId.toNat, if data.dataVersion = 1 then directory.getD Uuid.nil else Uuid.nil⟩)))

/-! ## The round trip -/

variable {state : QuorumState}

theorem saveQuorumState_eq_ok {record : QuorumStateJson} (h : saveQuorumState state = .ok record) :
    representable state = true ∧ record = recordOf state := by
  unfold saveQuorumState at h
  split_ifs at h with hfits
  cases h
  exact ⟨hfits, rfl⟩

theorem kraftVersion_le_of_representable (h : representable state = true) :
    state.kraftVersion ≤ 1 := by
  unfold representable quorumStateWriteDecision at h
  simp only [Bool.not_eq_true', Bool.or_eq_false_iff, decide_eq_false_iff_not, not_lt] at h
  exact h.1.1.1.1

/-- **A saved state comes back without its leader**, and without the voted
directory in schema 0. -/
theorem loadQuorumState_saveQuorumState {record : QuorumStateJson}
    (h : saveQuorumState state = .ok record) :
    loadQuorumState (some record) state.clusterId state.voters = .ok (some state.reload) := by
  obtain ⟨hfits, rfl⟩ := saveQuorumState_eq_ok h
  have hversion := kraftVersion_le_of_representable hfits
  obtain ⟨clusterId, kraftVersion, leaderEpoch, leaderId, votedKey, voters⟩ := state
  have hcases : kraftVersion = 0 ∨ kraftVersion = 1 := by
    have : kraftVersion ≤ 1 := hversion
    omega
  have hepoch : ¬(leaderEpoch : Int) < 0 := by omega
  cases votedKey with
  | none =>
    rcases hcases with rfl | rfl <;>
      simp [recordOf, loadQuorumState, quorumStateLoadDecision, versionFieldsValid,
        QuorumState.reload, hepoch]
  | some key =>
    have hid : ¬(key.id : Int) < -1 ∧ ¬(key.id : Int) = -1 := by omega
    rcases hcases with rfl | rfl <;>
      simp [recordOf, loadQuorumState, quorumStateLoadDecision, versionFieldsValid,
        QuorumState.reload, hepoch, hid.1, hid.2]

theorem loadQuorumState_voted :
    let state := { QuorumState.bootstrap Uuid.nil (.ofIds [1, 2]) with
      kraftVersion := 1, leaderEpoch := 4, leaderId := some 2, votedKey := some ⟨2, Uuid.nil⟩ }
    loadQuorumState (some (recordOf state)) state.clusterId state.voters =
      .ok (some { state with leaderId := none }) :=
  loadQuorumState_saveQuorumState (by decide)

/-- The file carries a vote for `key` in `epoch`. -/
def Carries (file : Option QuorumStateJson) (epoch : Nat) (key : ReplicaKey) : Prop :=
  ∃ record, file = some record ∧ record.leaderEpoch = epoch ∧ record.votedId = key.id ∧
    (record.dataVersion = 1 → record.votedDirectoryId = some (some key.directoryId))

theorem carries_recordOf {key : ReplicaKey}
    (hkey : state.votedKey = some key) : Carries (some (recordOf state)) state.leaderEpoch key := by
  refine ⟨_, rfl, ?_⟩
  unfold recordOf
  rw [hkey]
  split_ifs
  · exact ⟨rfl, rfl, nofun⟩
  · exact ⟨rfl, rfl, fun _ => rfl⟩

theorem votedId_of_restoreNoVote {dataVersion leaderEpoch votedId : Int} {fields valid isNil : Bool}
    (h : quorumStateLoadDecision dataVersion leaderEpoch votedId fields valid isNil =
      .restoreNoVote) : votedId = -1 := by
  unfold quorumStateLoadDecision at h
  split at h
  · cases h
  · split at h
    · assumption
    · cases h

theorem Carries.load {file : Option QuorumStateJson} {epoch : Nat} {key : ReplicaKey}
    {clusterId : Uuid} {voters : VoterSet} (h : Carries file epoch key)
    (hload : loadQuorumState file clusterId voters = .ok (some state)) :
    state.leaderEpoch = epoch ∧ ∃ voted, state.votedKey = some voted ∧ voted.id = key.id := by
  obtain ⟨record, rfl, hepoch, hid, -⟩ := h
  unfold loadQuorumState at hload
  dsimp only at hload
  split at hload
  · cases hload
  · rename_i hnone
    have : record.votedId = -1 := votedId_of_restoreNoVote hnone
    omega
  · cases hload
    exact ⟨by simp [hepoch], _, rfl, by simp [hid]⟩

end Krabka.Raft
