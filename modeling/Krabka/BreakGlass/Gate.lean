import Krabka.Lib.SortedMap

/-!
# The break-glass gate

An operator proposes a privileged action, others approve it, and a gated request
spends the approved proposal.  `decideProposal` and `decideApproval` write the
proposal records, `authorize` finds the one that a request may spend, and
`admitsConsume` is the controller's compare-and-set on the record that spends it.
-/

namespace Krabka.BreakGlass

open List

inductive Action where
  | thawTopicFreeze
  | uncleanElectLeaders
  | uncleanRecovery
  | unregisterBroker
  | cancelReassignment
  | deleteTopic
  | deleteRecords
  deriving DecidableEq

def actionName : Action → String
  | .thawTopicFreeze => "thaw_topic_freeze"
  | .uncleanElectLeaders => "unclean_elect_leaders"
  | .uncleanRecovery => "unclean_recovery"
  | .unregisterBroker => "unregister_broker"
  | .cancelReassignment => "cancel_reassignment"
  | .deleteTopic => "delete_topic"
  | .deleteRecords => "delete_records"

def actionTargetsPartition : Action → Bool
  | .uncleanElectLeaders | .uncleanRecovery | .cancelReassignment | .deleteRecords => true
  | _ => false

structure Approval where
  principal : String
  approvedAtMs : Int
  keyId : String
  signature : List UInt8
  deriving DecidableEq

/-- `BreakGlassProposalRecord`; `0` is the unconsumed stamp. -/
structure Proposal where
  proposalId : Nat
  action : Action
  target : List Char
  proposer : String
  reason : String
  createdAtMs : Int
  expiresAtMs : Int
  approvals : List Approval
  consumedAtMs : Int
  withdrawn : Bool
  deriving DecidableEq

/-- The `[break_glass]` section of one broker. -/
structure Config where
  approvers : List String
  requiredApprovals : Nat
  proposalTtl : Int
  signedActions : List String

variable (config : Config)

def Config.isApprover (principal : String) : Bool :=
  config.approvers.contains principal

def Config.needsSignature (action : Action) : Bool :=
  config.signedActions.contains (actionName action)

inductive Refusal where
  | policyViolation
  | notAnApprover
  | duplicateApprover
  | signatureRequired
  | signatureInvalid
  | invalidRequest

/-! ## Proposing and approving -/

structure ProposalRequest where
  action : Action
  target : List Char
  reason : String
  ttlMs : Int
  proposer : String
  proposalId : Nat
  nowMs : Int

def effectiveTtl (configuredMs requestedMs : Int) : Int :=
  if requestedMs = 0 then configuredMs else min requestedMs configuredMs

def decideProposal (request : ProposalRequest) : Except Refusal Proposal :=
  if !config.isApprover request.proposer then .error .notAnApprover
  else if request.target = [] ∨ request.ttlMs < 0 then .error .invalidRequest
  else .ok
    { proposalId := request.proposalId, action := request.action, target := request.target
      proposer := request.proposer, reason := request.reason, createdAtMs := request.nowMs
      expiresAtMs :=
        min (request.nowMs + effectiveTtl config.proposalTtl request.ttlMs) (2 ^ 63 - 1)
      approvals := [], consumedAtMs := 0, withdrawn := false }

structure Attempt where
  principal : String
  keyId : String
  signature : List UInt8
  withdraw : Bool
  nowMs : Int

/-- The fields that the signing bytes of an approval lay out. -/
abbrev SigningBytes := Nat × Action × List Char × String × Int × Int

def approvalSigningBytes (p : Proposal) : SigningBytes :=
  (p.proposalId, p.action, p.target, p.proposer, p.createdAtMs, p.expiresAtMs)

/-- `OperatorKeys::verify` of a key id, a principal, a message and a signature. -/
abbrev OperatorKeys := String → String → SigningBytes → List UInt8 → Bool

def checkSignature (keys : OperatorKeys) (stored : Proposal) (attempt : Attempt) : Option Refusal :=
  if attempt.keyId = "" ∧ attempt.signature = [] then
    if config.needsSignature stored.action then some .signatureRequired else none
  else if keys attempt.keyId attempt.principal (approvalSigningBytes stored) attempt.signature then
    none
  else some .signatureInvalid

def decideApproval (keys : OperatorKeys) (stored : Proposal)
    (attempt : Attempt) : Except Refusal Proposal :=
  if stored.withdrawn ∨ stored.consumedAtMs ≠ 0 then .error .policyViolation
  else if attempt.withdraw then
    if !config.isApprover attempt.principal ∧ attempt.principal ≠ stored.proposer then
      .error .notAnApprover
    else .ok { stored with withdrawn := true }
  else if stored.expiresAtMs ≤ attempt.nowMs then .error .policyViolation
  else if !config.isApprover attempt.principal then .error .notAnApprover
  else if attempt.principal = stored.proposer ∨
      attempt.principal ∈ stored.approvals.map Approval.principal then
    .error .duplicateApprover
  else match checkSignature config keys stored attempt with
    | some refusal => .error refusal
    | none => .ok { stored with approvals := stored.approvals ++
        [⟨attempt.principal, attempt.nowMs, attempt.keyId, attempt.signature⟩] }

/-! ## Spending -/

/-- The topic of a `"<topic>-<partition>"` target. -/
def topicOfPartitionTarget (target : List Char) : Option (List Char) :=
  let partition := target.reverse.takeWhile (· ≠ '-')
  match target.reverse.dropWhile (· ≠ '-') with
  | [] => none
  | _ :: topic =>
    if topic = [] ∨ partition = [] ∨ !partition.all Char.isDigit then none else some topic.reverse

def covers (proposalTarget requestTarget : List Char) (action : Action) : Bool :=
  proposalTarget = requestTarget ||
    actionTargetsPartition action && topicOfPartitionTarget requestTarget = some proposalTarget

variable (proposal : Proposal)

def distinctApprovers : Nat :=
  (proposal.approvals.foldl (fun seen approval =>
    if approval.principal ∈ seen then seen else seen ++ [approval.principal]) []).length

def everyApprovalIsSigned : Bool :=
  !proposal.approvals.isEmpty && proposal.approvals.all fun approval =>
    approval.keyId ≠ "" && approval.signature ≠ []

inductive DenialReason where
  | noProposal
  | notEnoughApprovals (proposalId held required : Nat)
  | unsigned (proposalId : Nat)
  | expired (proposalId : Nat) (expiresAtMs : Int)
  | withdrawn (proposalId : Nat)
  | consumed (proposalId : Nat) (consumedAtMs : Int)

def unusableBecause (nowMs : Int) : Option DenialReason :=
  if proposal.withdrawn then some (.withdrawn proposal.proposalId)
  else if proposal.consumedAtMs ≠ 0 then
    some (.consumed proposal.proposalId proposal.consumedAtMs)
  else if proposal.expiresAtMs ≤ nowMs then some (.expired proposal.proposalId proposal.expiresAtMs)
  else if distinctApprovers proposal < config.requiredApprovals then
    some (.notEnoughApprovals proposal.proposalId (distinctApprovers proposal)
      config.requiredApprovals)
  else if config.needsSignature proposal.action ∧ !everyApprovalIsSigned proposal then
    some (.unsigned proposal.proposalId)
  else none

/-- The rank of a reason and the proposal that breaks a tie. -/
def DenialReason.rank : DenialReason → Nat × Nat
  | .notEnoughApprovals id _ _ => (0, id)
  | .unsigned id => (1, id)
  | .expired id _ => (2, id)
  | .withdrawn id => (3, id)
  | .consumed id _ => (4, id)
  | .noProposal => (5, 0)

def nearerReason (current : Option DenialReason) (candidate : DenialReason) : Option DenialReason :=
  match current with
  | none => some candidate
  | some reason =>
    if candidate.rank.1 < reason.rank.1 ∨
        candidate.rank.1 = reason.rank.1 ∧ candidate.rank.2 < reason.rank.2 then some candidate
    else some reason

/-- The candidate that expires first, by its id among equals. -/
def selectCandidate (usable : List Proposal) : Option Proposal :=
  usable.foldl (fun best candidate =>
    match best with
    | none => some candidate
    | some current =>
      if candidate.expiresAtMs < current.expiresAtMs ∨
          candidate.expiresAtMs = current.expiresAtMs ∧
            candidate.proposalId < current.proposalId then some candidate
      else some current) none

abbrev Image := SortedMap Nat Proposal

/-- The record that spends the proposal chosen for the request. -/
def authorize (image : Image) (config : Config) (action : Action) (target : List Char)
    (nowMs : Int) : Except DenialReason Proposal :=
  let covering := image.values.filter fun p => p.action = action && covers p.target target action
  match selectCandidate (covering.filter fun p => (unusableBecause config p nowMs).isNone) with
  | some proposal => .ok { proposal with consumedAtMs := max nowMs 1 }
  | none => .error
    (((covering.filterMap (unusableBecause config · nowMs)).foldl nearerReason none).getD
      .noProposal)

def consumedRecordMatches (action : Action) (target : List Char) : Bool :=
  0 < proposal.consumedAtMs && proposal.action = action && covers proposal.target target action

/-- Whether a local action may start. -/
def actionDecision (gated : Bool) (consumed : Option Proposal) (action : Action)
    (target : List Char) (alreadyCommitted commitSucceeded : Bool) : Bool :=
  !gated || consumed.any (consumedRecordMatches · action target) &&
    (alreadyCommitted || commitSucceeded)

/-- `break_glass_consumption_decision` answers `Append`: the record changes
nothing of the stored pending proposal but its stamp. -/
def admitsConsume (image : Image) (consumed : Proposal) : Bool :=
  (image.get? consumed.proposalId).any fun stored =>
    { stored with consumedAtMs := consumed.consumedAtMs } = consumed &&
      stored.consumedAtMs = 0 && !stored.withdrawn && 0 < consumed.consumedAtMs

/-! ## What they guarantee -/

section

variable {image : Image} {config : Config} {keys : OperatorKeys} {action : Action}
  {target : List Char} {nowMs : Int} {p q stored : Proposal} {attempt : Attempt}

/-- An approval was verified, or carries neither key nor signature. -/
def Approval.Checked (keys : OperatorKeys) (stored : Proposal) (approval : Approval) : Prop :=
  approval.keyId = "" ∧ approval.signature = [] ∨
    keys approval.keyId approval.principal (approvalSigningBytes stored) approval.signature = true

theorem decideApproval_cases (h : decideApproval config keys stored attempt = .ok p) :
    p = { stored with withdrawn := true } ∨
      ∃ a : Approval, p = { stored with approvals := stored.approvals ++ [a] } ∧
        a.approvedAtMs < stored.expiresAtMs ∧ config.isApprover a.principal = true ∧
        a.principal ≠ stored.proposer ∧ a.Checked keys stored := by
  unfold decideApproval at h
  split_ifs at h with hsettled hwithdraw hnot hexpired happrover hduplicate
  · exact .inl (Except.ok.inj h).symm
  · split at h
    · cases h
    · rename_i hsigned
      refine .inr ⟨_, (Except.ok.inj h).symm, not_le.mp hexpired, by simpa using happrover,
        fun heq => hduplicate (.inl heq), ?_⟩
      unfold checkSignature at hsigned
      split_ifs at hsigned with hunsigned _ hverified
      · exact .inl hunsigned
      · exact .inr hverified

theorem distinctApprovers_eq :
    distinctApprovers p = (p.approvals.map Approval.principal).toFinset.card := by
  -- Over the loop: `seen` has no duplicates and holds the principals so far.
  have hloop : ∀ (approvals : List Approval) (seen : List String), seen.Nodup →
      (approvals.foldl (fun seen approval =>
        if approval.principal ∈ seen then seen else seen ++ [approval.principal]) seen).length =
        (seen ++ approvals.map Approval.principal).toFinset.card := by
    intro approvals
    induction approvals with
    | nil =>
      intro seen hseen
      simp [toFinset_card_of_nodup hseen]
    | cons approval approvals ih =>
      intro seen hseen
      rw [foldl_cons]
      split_ifs with hmem
      · rw [ih seen hseen]
        congr 1
        ext principal
        simp only [mem_toFinset, mem_append, map_cons, mem_cons]
        grind
      · rw [ih _ (hseen.append (nodup_singleton _) (by simpa using hmem))]
        simp
  exact hloop p.approvals [] nodup_nil

theorem unusableBecause_eq_none (h : unusableBecause config p nowMs = none) :
    p.withdrawn = false ∧ p.consumedAtMs = 0 ∧ nowMs < p.expiresAtMs ∧
      config.requiredApprovals ≤ (p.approvals.map Approval.principal).toFinset.card ∧
      (config.needsSignature p.action = true →
        ∀ a ∈ p.approvals, a.keyId ≠ "" ∧ a.signature ≠ []) := by
  unfold unusableBecause at h
  split_ifs at h with hwithdrawn hconsumed hexpired hheld hunsigned
  refine ⟨by simpa using hwithdrawn, not_not.mp hconsumed, not_le.mp hexpired, ?_, ?_⟩
  · rw [← distinctApprovers_eq]
    exact not_lt.mp hheld
  · intro hneeds a ha
    have hsigned : everyApprovalIsSigned p = true := by simpa [hneeds] using hunsigned
    simpa using all_eq_true.mp (Bool.and_eq_true_iff.mp hsigned).2 a ha

theorem selectCandidate_mem {usable : List Proposal} (h : selectCandidate usable = some p) :
    p ∈ usable := by
  unfold selectCandidate at h
  -- The best so far is one of the candidates read.
  induction usable using reverseRecOn generalizing p with
  | nil => cases h
  | append_singleton usable candidate ih =>
    rw [foldl_concat] at h
    rw [mem_append, mem_singleton]
    split at h
    · exact .inr (Option.some.inj h).symm
    · rename_i best current hbest
      split_ifs at h
      · exact .inr (Option.some.inj h).symm
      · exact .inl (Option.some.inj h ▸ ih hbest)

theorem authorize_eq_ok (h : authorize image config action target nowMs = .ok p) :
    ∃ id q, image.get? id = some q ∧ p = { q with consumedAtMs := max nowMs 1 } ∧
      q.action = action ∧ covers q.target target action = true ∧
      unusableBecause config q nowMs = none := by
  unfold authorize at h
  dsimp only at h
  split at h
  · rename_i q hq
    obtain ⟨hcovering, husable⟩ := mem_filter.mp (selectCandidate_mem hq)
    obtain ⟨hmem, hcovers⟩ := mem_filter.mp hcovering
    obtain ⟨⟨id, _⟩, hentry, rfl⟩ := mem_map.mp hmem
    simp only [Bool.and_eq_true, decide_eq_true_eq] at hcovers
    exact ⟨id, _, image.get?_of_mem hentry, (Except.ok.inj h).symm, hcovers.1, hcovers.2,
      Option.isNone_iff_eq_none.mp husable⟩
  · cases h

theorem admitsConsume_stored (hq : q.consumedAtMs = 0)
    (h : admitsConsume image { q with consumedAtMs := nowMs } = true) :
    image.get? q.proposalId = some q := by
  obtain ⟨stored, hget, hstored⟩ := (Option.any_eq_true ..).mp h
  simp only [Bool.and_eq_true, decide_eq_true_eq] at hstored
  obtain ⟨⟨⟨hsame, hzero⟩, -⟩, -⟩ := hstored
  have heq : stored = q := by
    obtain ⟨⟩ := stored
    obtain ⟨⟩ := q
    simp_all
  exact heq ▸ hget

end

end Krabka.BreakGlass
