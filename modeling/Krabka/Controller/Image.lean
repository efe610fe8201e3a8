import Krabka.Lib.SortedSet

/-!
# The metadata image of the controller

The partition records, broker registrations and topic settings that the
controller decides on.  The records are `krabka_metadata`'s; a record or a
setting that no modelled function reads is left out.

`next_i32`, `next_leader` and `next_partition_change` are `metadata_epoch.rs`:
an epoch advances by exactly one and stops at `i32::MAX`.
-/

namespace Krabka.Controller

/-- A broker id, `u64` in the metadata. -/
abbrev NodeId := Nat

/-- A log directory id.  The nil id means that the directory is not assigned. -/
abbrev Uuid := Nat

namespace Uuid

def nil : Uuid := 0

end Uuid

abbrev i32Max : Int := 2 ^ 31 - 1

/-- `u64::try_from` of a wire id. -/
def nodeOfWire (id : Int) : Option NodeId := if 0 ≤ id then some id.toNat else none

theorem nodeOfWire_eq_some {id : Int} {node : NodeId} : nodeOfWire id = some node ↔ id = node := by
  unfold nodeOfWire
  split_ifs with h
  · constructor
    · intro hsome
      cases hsome
      omega
    · intro hid
      simp [hid]
  · constructor
    · intro hsome
      cases hsome
    · omega

/-- `PartitionRecord`: one partition as the metadata holds it. -/
structure PartitionRecord where
  topic : String
  partition : Int
  leader : NodeId
  replicas : List NodeId
  isr : List NodeId
  leaderEpoch : Int
  addingReplicas : List NodeId
  removingReplicas : List NodeId
  directories : List Uuid
  partitionEpoch : Int
  deriving DecidableEq

/-- What every record of the controller keeps: distinct replicas, an ISR within
them and the leader in the ISR. -/
structure PartitionRecord.Valid (pr : PartitionRecord) : Prop where
  nodup : pr.replicas.Nodup
  leader_mem : pr.leader ∈ pr.isr
  isr_subset : pr.isr ⊆ pr.replicas

structure BrokerRegistration where
  nodeId : NodeId
  deriving DecidableEq

/-- The settings of a topic, resolved through the topic override and the
cluster default. -/
structure TopicSettings where
  uncleanEnabled : Bool
  deriving DecidableEq

/-- `MetadataImage`. -/
structure Image where
  topics : List String
  partitions : List PartitionRecord
  brokers : List BrokerRegistration
  settings : String → TopicSettings

namespace Image

def partition (image : Image) (topic : String) (index : Int) : Option PartitionRecord :=
  image.partitions.find? fun pr => pr.topic = topic ∧ pr.partition = index

def broker (image : Image) (node : NodeId) : Option BrokerRegistration :=
  image.brokers.find? fun registration => registration.nodeId = node

end Image

def exactEpochSuccessor (current maximum : Int) : Option Int :=
  if current < maximum then some (current + 1) else none

def nextI32 (current : Int) : Option Int := exactEpochSuccessor current i32Max

def nextLeader (current : Int) : Option Int := nextI32 current

/-- `next_partition_change`: the partition epoch and, for a leader change, the
leader epoch. -/
def nextPartitionChange (partitionEpoch leaderEpoch : Int) (leaderChanges : Bool) :
    Option (Int × Int) := do
  let partitionEpoch ← nextI32 partitionEpoch
  let leaderEpoch ← (if leaderChanges then nextLeader leaderEpoch else some leaderEpoch)
  return (partitionEpoch, leaderEpoch)

theorem nextI32_eq_some {current next : Int} :
    nextI32 current = some next ↔ current < i32Max ∧ next = current + 1 := by
  unfold nextI32 exactEpochSuccessor
  split_ifs with h
  · simp [h, eq_comm]
  · simp [h]

end Krabka.Controller
