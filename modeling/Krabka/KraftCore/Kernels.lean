import Krabka.KraftCore.Types

/-!
# The consensus kernels

The pure functions of `crates/verified/src` that the quorum state machine
calls: quorum sizes (`consensus/failover.rs`), the log comparison and the
election jitter (`consensus/log_is_up_to_date.rs`), the high watermark
(`consensus/watermark.rs`) and the admission of a vote (`vote.rs`).
-/

namespace Krabka.KraftCore

def majoritySize (voterCount : Nat) : Nat := voterCount / 2 + 1

def electionHasQuorum (voterCount currentGrants : Nat) : Bool :=
  majoritySize voterCount ≤ currentGrants

/-- `krabka_verified::log_is_up_to_date`: the higher last epoch wins, and on a
tie the higher or equal offset. -/
def logIsUpToDate (localEpoch : Nat) (localOffset : Int) (candEpoch : Nat)
    (candOffset : Int) : Bool :=
  localEpoch < candEpoch || (candEpoch == localEpoch && localOffset ≤ candOffset)

/-- `krabka_verified::election_jitter_ms`, a fixed hash of the node and the
epoch in wrapping `u64` arithmetic. -/
def electionJitterMs (me : NodeId) (epoch : Nat) (baseMs : Nat) : Nat :=
  if baseMs = 0 then 0
  else
    let mix := (me * 0x9E3779B97F4A7C15 % 2 ^ 64) ^^^ (epoch * 0xD1B54A32D192ED03 % 2 ^ 64)
    mix % baseMs

inductive VoteAdmissionDecision where
  | ignoreWrongTarget
  | deny
  | consider
  deriving DecidableEq

structure VoteTarget where
  voterId : NodeId
  localId : NodeId
  directoryMatches : Bool

structure VoteMembership where
  clusterMatches : Bool
  localIsVoter : Bool
  candidateIsVoter : Bool

def voteAdmissionDecision (target : VoteTarget) (membership : VoteMembership) :
    VoteAdmissionDecision :=
  if target.voterId ≠ target.localId || !target.directoryMatches then
    .ignoreWrongTarget
  else if !membership.clusterMatches || !membership.localIsVoter
      || !membership.candidateIsVoter then
    .deny
  else .consider

/-! ## The high watermark -/

/-- The members of the leader's own log end and the follower offsets that
reach `cand`.  The Rust loop stops counting at `majority`, which
`candidateHasMajority` cannot tell. -/
def countGe (logEnd : Int) (followerOffsets : List Int) (cand : Int) (leaderCounts : Bool) : Nat :=
  (if leaderCounts && cand ≤ logEnd then 1 else 0) +
    followerOffsets.countP (fun x => cand ≤ x)

def candidateHasMajority (logEnd : Int) (followerOffsets : List Int) (cand : Int)
    (majority : Nat) (leaderCounts : Bool) : Bool :=
  majority ≤ countGe logEnd followerOffsets cand leaderCounts

def i64Min : Int := -(2 ^ 63)

/-- The loop of `recompute_high_watermark`: the greatest candidate so far that
a majority reaches. -/
def majorityOffset (logEnd : Int) (followerOffsets : List Int) (majority : Nat)
    (leaderCounts : Bool) : Int :=
  followerOffsets.foldl
    (fun best cand =>
      if best < cand && candidateHasMajority logEnd followerOffsets cand majority leaderCounts
      then cand else best)
    (if candidateHasMajority logEnd followerOffsets logEnd majority leaderCounts
      then logEnd else i64Min)

def recomputeHighWatermark (logEnd : Int) (followerOffsets : List Int) (majority : Nat)
    (epochStartOffset currentHwm : Int) (leaderCounts : Bool) : Int :=
  let best := majorityOffset logEnd followerOffsets majority leaderCounts
  max (if epochStartOffset < best then best else currentHwm) currentHwm

end Krabka.KraftCore
