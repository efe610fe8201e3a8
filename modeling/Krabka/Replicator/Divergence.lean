import Krabka.Replicator.ReplicaLog

/-!
# The divergence check and the truncation that answers it

A follower fetches from its log end with its latest epoch.  The leader looks the
epoch up in its own history and answers with records, with the epoch and end
that it found, or out of range; on a diverging answer the follower looks the
leader's epoch up in its own history and truncates.

`Lookup` says once what an epoch lookup can answer.  The rest is a case analysis
over the two lookups: `Comparable.keeps_shared` says that the truncation never
takes a record that the leader has too, `Comparable.progress` that it takes
something.
-/

namespace Krabka.Replicator

open Extent Krabka.Log Krabka.Log.LeaderEpochCheckpoint List

variable {ρ : Type}

/-! ## Epoch lookups -/

/-- The answers of `epoch_and_offset_for`. -/
inductive Lookup (c : LeaderEpochCheckpoint) (requested logEnd : Int) : Int → Int → Prop
  | future (hall : ∀ e ∈ c.entries, e.epoch < requested) : Lookup c requested logEnd (-1) (-1)
  | latest {e : EpochEntry} (he : e ∈ c.entries) (heq : e.epoch = requested)
      (hmax : ∀ f ∈ c.entries, f.epoch ≤ requested) : Lookup c requested logEnd requested logEnd
  | lowest {higher : EpochEntry} (hhigher : higher ∈ c.entries) (hlt : requested < higher.epoch)
      (hmin : ∀ f ∈ c.entries, higher.epoch ≤ f.epoch) :
      Lookup c requested logEnd requested higher.startOffset
  | floor {previous higher : EpochEntry} (hprevious : previous ∈ c.entries)
      (hhigher : higher ∈ c.entries) (hle : previous.epoch ≤ requested)
      (hlt : requested < higher.epoch)
      (hgap : ∀ f ∈ c.entries, f.epoch ≤ previous.epoch ∨ higher.epoch ≤ f.epoch) :
      Lookup c requested logEnd previous.epoch higher.startOffset

theorem split_at_epoch (c : LeaderEpochCheckpoint) (requested : Int) :
    ∃ older newer, c.entries = older ++ newer ∧
      older = (c.entries.takeWhile fun e => e.epoch ≤ requested) ∧
      newer = (c.entries.dropWhile fun e => e.epoch ≤ requested) ∧
      (∀ e ∈ older, e.epoch ≤ requested) ∧ (∀ e ∈ newer, requested < e.epoch) := by
  refine ⟨_, _, takeWhile_append_dropWhile.symm, rfl, rfl, ?_, ?_⟩
  · intro e he
    simpa using mem_takeWhile_imp he
  · exact fun e he => lt_of_mem_dropWhile c.increasing (fun _ _ hs => hs.1) he

theorem lookup_spec (c : LeaderEpochCheckpoint) {requested : Int} (logEnd : Int)
    (h : requested ≠ -1) : Lookup c requested logEnd (c.epochAndOffsetFor requested logEnd).1
      (c.epochAndOffsetFor requested logEnd).2 := by
  obtain ⟨older, newer, hsplit, holder, hnewer, hbelow, habove⟩ := split_at_epoch c requested
  unfold epochAndOffsetFor
  rw [if_neg h, ← holder, ← hnewer]
  have hsorted := c.increasing
  rw [hsplit, pairwise_append] at hsorted
  cases newer with
  | nil =>
    rw [append_nil] at hsplit
    have hmem : ∀ e ∈ c.entries, e ∈ older := fun e he => hsplit ▸ he
    dsimp only
    split
    · rename_i hlast
      obtain ⟨last, hlast, heq⟩ := (Option.any_eq_true ..).mp hlast
      have hin : last ∈ c.entries := hsplit ▸ mem_of_getLast? hlast
      exact .latest hin (by simpa using heq) (fun f hf => hbelow f (hmem f hf))
    · rename_i hlast
      refine .future ?_
      intro e he
      have hle := hbelow e (hmem e he)
      refine lt_of_le_of_ne hle ?_
      intro heq
      apply hlast
      -- a row of the requested epoch would be the last one
      obtain ⟨last, hlastEq⟩ := Option.isSome_iff_exists.mp
        (getLast?_isSome.mpr (ne_nil_of_mem (hmem e he)))
      have hge := (le_of_getLast? hsorted.1 hlastEq (hmem e he)).1
      have hlastle := hbelow last (mem_of_getLast? hlastEq)
      rw [hlastEq]
      simp only [Option.any_some, decide_eq_true_eq]
      omega
  | cons higher rest =>
    have hin : higher ∈ c.entries := by
      rw [hsplit]
      simp
    have hlt := habove higher mem_cons_self
    have hfirst : ∀ f ∈ higher :: rest, higher.epoch ≤ f.epoch := by
      intro f hf
      rcases mem_cons.mp hf with rfl | hf
      · exact le_rfl
      · exact ((pairwise_cons.mp hsorted.2.1).1 f hf).1.le
    dsimp only
    cases hlast : older.getLast? with
    | none =>
      refine .lowest hin hlt ?_
      intro f hf
      rw [hsplit, getLast?_eq_none_iff.mp hlast] at hf
      exact hfirst f hf
    | some previous =>
      have hprevious := mem_of_getLast? hlast
      refine .floor (hsplit ▸ mem_append_left _ hprevious) hin (hbelow previous hprevious)
        hlt ?_
      intro f hf
      rw [hsplit] at hf
      rcases mem_append.mp hf with hf | hf
      · exact .inl (le_of_getLast? hsorted.1 hlast hf).1
      · exact .inr (hfirst f hf)

/-! ## The two sides of a fetch -/

inductive FetchAnswer (ρ : Type) where
  | offsetOutOfRange
  | diverging (epoch endOffset : Int)
  | records (batches : List (RecordBatch ρ))
  deriving DecidableEq

namespace ReplicaLog

/-- The read of a fetch from an offset that the log has, of one batch and `more`
at most. -/
def readRecords (leader : ReplicaLog ρ) (fetchOffset : Int) (more : Nat) : FetchAnswer ρ :=
  if fetchOffset < leader.localStart ∨ leader.logEnd < fetchOffset then .offsetOutOfRange
  else .records ((above fetchOffset leader.batches).take (more + 1))

/-- The divergence check of a follower fetch, and the read behind it. -/
def answer (leader : ReplicaLog ρ) (fetchOffset lastFetchedEpoch : Int) (more : Nat) :
    FetchAnswer ρ :=
  if lastFetchedEpoch < 0 then leader.readRecords fetchOffset more
  else
    let (foundEpoch, endOffset) := leader.epochs.epochAndOffsetFor lastFetchedEpoch leader.logEnd
    if foundEpoch = -1 ∨ endOffset = -1 then .offsetOutOfRange
    else if leader.establishedLogStart.any fun established => fetchOffset < established then
      .offsetOutOfRange
    else if foundEpoch ≥ lastFetchedEpoch ∧ endOffset ≥ fetchOffset then
      leader.readRecords fetchOffset more
    else .diverging foundEpoch endOffset

end ReplicaLog

def divergingTruncationOffset (follower : Int × Int) (leaderEpoch leaderEnd logEnd : Int) : Int :=
  if leaderEnd < 0 then logEnd
  else if follower.2 < 0 then min leaderEnd logEnd
  else if follower.1 ≠ leaderEpoch then min follower.2 logEnd
  else min (min follower.2 leaderEnd) logEnd

namespace ReplicaLog

def divergingEpochTruncationTarget (follower : ReplicaLog ρ) (epoch endOffset : Int) : Int :=
  divergingTruncationOffset
    (follower.epochs.epochAndOffsetFor epoch follower.logEnd) epoch endOffset
    follower.logEnd

def applyDivergingEpoch (follower : ReplicaLog ρ) (epoch endOffset : Int) : ReplicaLog ρ :=
  follower.truncateTo (follower.divergingEpochTruncationTarget epoch endOffset)

/-- The row of a fetch response.  An answer out of range starts another
procedure and leaves the log to it. -/
def handleResponse (follower : ReplicaLog ρ) : FetchAnswer ρ → ReplicaLog ρ
  | .offsetOutOfRange => follower
  | .diverging epoch endOffset => follower.applyDivergingEpoch epoch endOffset
  | .records batches => follower.appendRecords batches

def endOfEpoch (l : ReplicaLog ρ) (epoch : Int) : Int :=
  (l.epochs.epochAndOffsetFor epoch l.logEnd).2

/-- The logs hold the same batches at the offsets below `bound` that both still
have. -/
def AgreeBelow (bound : Int) (follower leader : ReplicaLog ρ) : Prop :=
  ∀ offset b, follower.localStart ≤ offset → leader.localStart ≤ offset → offset < bound →
    (follower.Holds offset b ↔ leader.Holds offset b)

theorem AgreeBelow.mono {bound bound' : Int} {follower leader : ReplicaLog ρ}
    (h : AgreeBelow bound follower leader) (hle : bound' ≤ bound) :
    AgreeBelow bound' follower leader :=
  fun offset b hf hl hlt => h offset b hf hl (hlt.trans_le hle)

/-- The logs of one partition: both histories are complete, the logs agree up to
the end of every epoch that both have, and no log start lies above the other
log's end. -/
structure Comparable (follower leader : ReplicaLog ρ) : Prop where
  follower_complete : follower.Complete
  leader_complete : leader.Complete
  governed : leader.Governed
  start_le : follower.localStart ≤ leader.logEnd
  agree : ∀ e ∈ follower.epochs.entries, ∀ f ∈ leader.epochs.entries, e.epoch = f.epoch →
    AgreeBelow (min (follower.endOfEpoch e.epoch) (leader.endOfEpoch e.epoch)) follower leader
  latest : ∀ epoch, follower.epochs.latestEpoch = some epoch →
    leader.epochs.latestEpoch = some epoch → follower.logEnd ≤ leader.logEnd

/-! ## Where an answer comes from -/

variable {l follower leader : ReplicaLog ρ} {offset epoch endOffset cut : Int} {more : Nat}

theorem Complete.lt_endOfEpoch (h : l.Complete) {e : EpochEntry} (he : e ∈ l.epochs.entries) :
    offset < l.endOfEpoch e.epoch ↔
      offset < l.logEnd ∧ ∀ f ∈ l.epochs.entries, e.epoch < f.epoch → offset < f.startOffset := by
  have hknown := h.epoch_nonneg e he
  have hlookup := lookup_spec l.epochs l.logEnd (show e.epoch ≠ -1 by omega)
  unfold endOfEpoch
  generalize (l.epochs.epochAndOffsetFor e.epoch l.logEnd).1 = found at hlookup ⊢
  generalize (l.epochs.epochAndOffsetFor e.epoch l.logEnd).2 = last at hlookup ⊢
  cases hlookup with
  | future hall => exact absurd (hall e he) (lt_irrefl _)
  | latest _ _ hmax =>
    refine ⟨fun hlt => ⟨hlt, ?_⟩, And.left⟩
    intro f hf hnewer
    exact absurd (hmax f hf) (not_le.mpr hnewer)
  | lowest _ hlt hmin => exact absurd (hmin e he) (not_le.mpr hlt)
  | @floor previous higher _ hhigher _ hlt hgap =>
    constructor
    · intro hoffset
      refine ⟨hoffset.trans_le (h.row_le _ hhigher), ?_⟩
      intro f hf hnewer
      have hfirst : higher.epoch ≤ f.epoch := by
        rcases hgap e he with hle | hle
        · rcases hgap f hf with hle' | hle'
          · omega
          · exact hle'
        · omega
      have horder := startOffset_lt_iff hf hhigher
      omega
    · rintro ⟨-, hrows⟩
      exact hrows higher hhigher hlt

theorem answer_cases (leader : ReplicaLog ρ) (fetchOffset lastFetchedEpoch : Int) (more : Nat) :
    (lastFetchedEpoch < 0 ∧ leader.answer fetchOffset lastFetchedEpoch more =
        leader.readRecords fetchOffset more) ∨
      ∃ found endOffset, 0 ≤ lastFetchedEpoch ∧
        leader.epochs.epochAndOffsetFor lastFetchedEpoch leader.logEnd = (found, endOffset) ∧
        Lookup leader.epochs lastFetchedEpoch leader.logEnd found endOffset ∧
        (((found = -1 ∨ endOffset = -1) ∧
            leader.answer fetchOffset lastFetchedEpoch more = .offsetOutOfRange) ∨
          (fetchOffset < leader.startOffset ∧
            leader.answer fetchOffset lastFetchedEpoch more = .offsetOutOfRange) ∨
          (lastFetchedEpoch ≤ found ∧ fetchOffset ≤ endOffset ∧
            leader.answer fetchOffset lastFetchedEpoch more = leader.readRecords fetchOffset more) ∨
          (found ≠ -1 ∧ (found < lastFetchedEpoch ∨ endOffset < fetchOffset) ∧
            leader.answer fetchOffset lastFetchedEpoch more = .diverging found endOffset)) := by
  unfold answer
  split
  · rename_i hneg
    exact .inl ⟨hneg, rfl⟩
  · rename_i hknown
    have hlookup := lookup_spec leader.epochs leader.logEnd (show lastFetchedEpoch ≠ -1 by omega)
    refine .inr ⟨(leader.epochs.epochAndOffsetFor lastFetchedEpoch leader.logEnd).1,
      (leader.epochs.epochAndOffsetFor lastFetchedEpoch leader.logEnd).2, not_lt.mp hknown, rfl,
      hlookup, ?_⟩
    dsimp only
    split
    · rename_i hundefined
      exact .inl ⟨hundefined, rfl⟩
    · rename_i hdefined
      split
      · rename_i hstart
        refine .inr (.inl ⟨?_, rfl⟩)
        unfold establishedLogStart at hstart
        split at hstart
        · simpa using hstart
        · cases hstart
      · split
        · rename_i hread
          exact .inr (.inr (.inl ⟨hread.1, hread.2, rfl⟩))
        · refine .inr (.inr (.inr ⟨fun heq => hdefined (.inl heq), ?_, rfl⟩))
          omega

/-- A diverging answer, as the follower gets it. -/
structure Diverges (follower leader : ReplicaLog ρ) (epoch endOffset : Int) : Prop where
  latest : follower.epochs.latestEpoch = some follower.lastFetchedEpoch
  lookup : Lookup leader.epochs follower.lastFetchedEpoch leader.logEnd epoch endOffset
  known : epoch ≠ -1
  differs : epoch < follower.lastFetchedEpoch ∨ endOffset < follower.logEnd

theorem readRecords_ne_diverging (leader : ReplicaLog ρ) (fetchOffset : Int) (more : Nat) :
    leader.readRecords fetchOffset more ≠ .diverging epoch endOffset := by
  unfold readRecords
  split <;> exact nofun

theorem diverges_of_answer
    (h : leader.answer follower.logEnd follower.lastFetchedEpoch more =
      .diverging epoch endOffset) :
    Diverges follower leader epoch endOffset := by
  rcases answer_cases leader follower.logEnd follower.lastFetchedEpoch more with
    ⟨-, hread⟩ | ⟨found, last, hknown, -, hlookup, hcases⟩
  · exact absurd (hread ▸ h) (readRecords_ne_diverging leader _ more)
  · rcases hcases with ⟨-, hout⟩ | ⟨-, hout⟩ | ⟨-, -, hread⟩ | ⟨hfound, hdiffers, hdiverging⟩
    · rw [hout] at h
      cases h
    · rw [hout] at h
      cases h
    · exact absurd (hread ▸ h) (readRecords_ne_diverging leader _ more)
    · rw [hdiverging] at h
      obtain ⟨rfl, rfl⟩ := FetchAnswer.diverging.inj h
      exact ⟨latestEpoch_of_lastFetchedEpoch hknown, hlookup, hfound, hdiffers⟩

/-! ## Where the follower truncates -/

/-- The rows that a truncation ends at: a row of the leader that is newer than the
follower's epochs, or one of its own that is newer than what the histories share. -/
inductive Target (follower leader : ReplicaLog ρ) (cut : Int) : Prop
  | leaderRow {higher : EpochEntry} (hmem : higher ∈ leader.epochs.entries)
      (hnewer : ∀ e ∈ follower.epochs.entries, e.epoch < higher.epoch)
      (hcut : cut = higher.startOffset) (hlt : cut < follower.logEnd)
      (hagree : AgreeBelow cut follower leader ∨
        ∀ e ∈ follower.epochs.entries, ∀ f ∈ leader.epochs.entries, e.epoch ≠ f.epoch)
  | ownRow {row : EpochEntry} (hmem : row ∈ follower.epochs.entries) (hcut : cut = row.startOffset)
      (hshared : ∀ e ∈ follower.epochs.entries, ∀ f ∈ leader.epochs.entries, e.epoch = f.epoch →
        e.epoch < row.epoch)

theorem target_eq (follower : ReplicaLog ρ) (hepoch : epoch ≠ -1) (hend : 0 ≤ endOffset) :
    ∃ found last, Lookup follower.epochs epoch follower.logEnd found last ∧
      (0 ≤ last → follower.divergingEpochTruncationTarget epoch endOffset =
        if found ≠ epoch then min last follower.logEnd
        else min (min last endOffset) follower.logEnd) := by
  refine ⟨_, _, lookup_spec follower.epochs follower.logEnd hepoch, ?_⟩
  intro hlast
  unfold divergingEpochTruncationTarget divergingTruncationOffset
  rw [if_neg (not_lt.mpr hend), if_neg (not_lt.mpr hlast)]

theorem Comparable.target_of_lowest (h : Comparable follower leader) {higher : EpochEntry}
    (hhigher : higher ∈ leader.epochs.entries)
    (hlt : follower.lastFetchedEpoch < higher.epoch)
    (hmin : ∀ f ∈ leader.epochs.entries, higher.epoch ≤ f.epoch)
    (hlatest : follower.epochs.latestEpoch = some follower.lastFetchedEpoch)
    (hbelow : higher.startOffset < follower.logEnd) :
    Target follower leader
      (follower.divergingEpochTruncationTarget follower.lastFetchedEpoch higher.startOffset) := by
  obtain ⟨⟨row, hrow, hrowEq⟩, hmax⟩ := latestEpoch_eq_some.mp hlatest
  have hknown := h.follower_complete.epoch_nonneg row hrow
  have hend := h.leader_complete.row_nonneg higher hhigher
  have hlogEnd := h.follower_complete.logEnd_nonneg
  obtain ⟨found, last, hlookup, htarget⟩ := target_eq follower
    (show follower.lastFetchedEpoch ≠ -1 by omega) hend
  -- the follower finds its own latest epoch, which ends at its log end
  have hcut : follower.divergingEpochTruncationTarget follower.lastFetchedEpoch higher.startOffset =
      higher.startOffset := by
    cases hlookup with
    | future hall =>
      have hlt' := hall row hrow
      omega
    | latest _ _ _ =>
      rw [htarget hlogEnd, if_neg (not_not.mpr rfl)]
      omega
    | lowest hnext hnewer _ | floor _ hnext _ hnewer _ =>
      have hle := hmax _ hnext
      omega
  rw [hcut]
  refine .leaderRow hhigher (fun e he => (hmax e he).trans_lt hlt) rfl hbelow (.inr ?_)
  intro e he f hf heq
  have hle := hmax e he
  have hge := hmin f hf
  omega

theorem Comparable.target_of_floor (h : Comparable follower leader) {previous higher : EpochEntry}
    (hprevious : previous ∈ leader.epochs.entries) (hhigher : higher ∈ leader.epochs.entries)
    (hle : previous.epoch ≤ follower.lastFetchedEpoch)
    (hlt : follower.lastFetchedEpoch < higher.epoch)
    (hgap : ∀ f ∈ leader.epochs.entries, f.epoch ≤ previous.epoch ∨ higher.epoch ≤ f.epoch)
    (hlatest : follower.epochs.latestEpoch = some follower.lastFetchedEpoch)
    (hdiffers : previous.epoch < follower.lastFetchedEpoch ∨ higher.startOffset < follower.logEnd) :
    Target follower leader
      (follower.divergingEpochTruncationTarget previous.epoch higher.startOffset) := by
  obtain ⟨⟨row, hrow, hrowEq⟩, hmax⟩ := latestEpoch_eq_some.mp hlatest
  have hknown := h.leader_complete.epoch_nonneg previous hprevious
  have hend := h.leader_complete.row_nonneg higher hhigher
  have hlogEnd := h.follower_complete.logEnd_nonneg
  have hnewer : ∀ e ∈ follower.epochs.entries, e.epoch < higher.epoch :=
    fun e he => (hmax e he).trans_lt hlt
  -- an epoch of both histories is not above the one that the leader found
  have hshared : ∀ e ∈ follower.epochs.entries, ∀ f ∈ leader.epochs.entries, e.epoch = f.epoch →
      e.epoch ≤ previous.epoch := by
    intro e he f hf heq
    have hmaxe := hmax e he
    rcases hgap f hf with hold | hnew <;> omega
  -- the logs agree up to where the leader's epoch ends, if the follower has it that far
  have hagree : ∀ e ∈ follower.epochs.entries, e.epoch = previous.epoch →
      higher.startOffset ≤ follower.logEnd →
      (∀ f ∈ follower.epochs.entries, e.epoch < f.epoch → higher.startOffset ≤ f.startOffset) →
      AgreeBelow higher.startOffset follower leader := by
    intro e he heq hfit hrows offset b hf hl hoffset
    refine h.agree e he previous hprevious heq offset b hf hl (lt_min ?_ ?_)
    · rw [h.follower_complete.lt_endOfEpoch he]
      exact ⟨hoffset.trans_le hfit, fun f hf hnew => hoffset.trans_le (hrows f hf hnew)⟩
    · rw [heq, h.leader_complete.lt_endOfEpoch hprevious]
      refine ⟨hoffset.trans_le (h.leader_complete.row_le higher hhigher), ?_⟩
      intro f hf hnew
      have hfirst := (hgap f hf).resolve_left (not_le.mpr hnew)
      have horder := startOffset_lt_iff hf hhigher
      omega
  obtain ⟨found, last, hlookup, htarget⟩ := target_eq follower
    (show previous.epoch ≠ -1 by omega) hend
  cases hlookup with
  | future hall =>
    have hlt' := hall row hrow
    omega
  | @latest e he heq hmaxe =>
    -- the leader knows the follower's latest epoch and has a newer one
    have hsame : previous.epoch = follower.lastFetchedEpoch := by
      have hrowle := hmaxe row hrow
      omega
    have hbelow : higher.startOffset < follower.logEnd := by omega
    have hcut : follower.divergingEpochTruncationTarget previous.epoch higher.startOffset =
        higher.startOffset := by
      rw [htarget hlogEnd, if_neg (not_not.mpr rfl)]
      omega
    rw [hcut]
    refine .leaderRow hhigher hnewer rfl hbelow (.inl (hagree e he heq hbelow.le ?_))
    intro f hf hnew
    have hle' := hmaxe f hf
    omega
  | @lowest next hnext hnewest hmin =>
    have hstart := h.follower_complete.row_nonneg next hnext
    have hfit := h.follower_complete.row_le next hnext
    have hnone : ∀ e ∈ follower.epochs.entries, ∀ f ∈ leader.epochs.entries, e.epoch ≠ f.epoch := by
      intro e he f hf heq
      have hold := hshared e he f hf heq
      have hge := hmin e he
      omega
    rw [htarget hstart, if_neg (not_not.mpr rfl)]
    by_cases hfirst : higher.startOffset < next.startOffset
    · rw [show min (min next.startOffset higher.startOffset) follower.logEnd = higher.startOffset by
        omega]
      exact .leaderRow hhigher hnewer rfl (by omega) (.inr hnone)
    · rw [show min (min next.startOffset higher.startOffset) follower.logEnd = next.startOffset by
        omega]
      exact .ownRow hnext rfl (fun e he f hf heq => absurd heq (hnone e he f hf))
  | @floor own next hown hnext hownle hnewest hownGap =>
    have hstart := h.follower_complete.row_nonneg next hnext
    have hfit := h.follower_complete.row_le next hnext
    have hbelow : ∀ e ∈ follower.epochs.entries, ∀ f ∈ leader.epochs.entries, e.epoch = f.epoch →
        e.epoch < next.epoch := fun e he f hf heq => (hshared e he f hf heq).trans_lt hnewest
    rw [htarget hstart]
    by_cases hfound : own.epoch = previous.epoch
    · rw [if_neg (not_not.mpr hfound)]
      by_cases hfirst : higher.startOffset < next.startOffset
      · rw [show min (min next.startOffset higher.startOffset) follower.logEnd =
          higher.startOffset by omega]
        refine .leaderRow hhigher hnewer rfl (by omega)
          (.inl (hagree own hown hfound (by omega) ?_))
        intro f hf hnew
        have hge := (hownGap f hf).resolve_left (not_le.mpr hnew)
        have horder := startOffset_lt_iff hf hnext
        omega
      · rw [show min (min next.startOffset higher.startOffset) follower.logEnd =
          next.startOffset by omega]
        exact .ownRow hnext rfl hbelow
    · rw [if_pos hfound, min_eq_left hfit]
      exact .ownRow hnext rfl hbelow

theorem Comparable.target (h : Comparable follower leader)
    (hdiverges : Diverges follower leader epoch endOffset) :
    Target follower leader (follower.divergingEpochTruncationTarget epoch endOffset) := by
  obtain ⟨hlatest, hlookup, hknown, hdiffers⟩ := hdiverges
  cases hlookup with
  | future _ => exact absurd rfl hknown
  | latest he heq hmax =>
    -- the leader's own epoch ends no later on the follower
    have hle := h.latest _ hlatest (latestEpoch_eq_some.mpr ⟨⟨_, he, heq⟩, hmax⟩)
    omega
  | lowest hhigher hlt hmin =>
    exact h.target_of_lowest hhigher hlt hmin hlatest (by omega)
  | floor hprevious hhigher hle hlt hgap =>
    exact h.target_of_floor hprevious hhigher hle hlt hgap hlatest hdiffers

/-! ## What the truncation takes -/

theorem Comparable.target_nonneg (h : Comparable follower leader)
    (ht : Target follower leader cut) :
    0 ≤ cut := by
  cases ht with
  | leaderRow hmem _ hcut _ _ => exact hcut ▸ h.leader_complete.row_nonneg _ hmem
  | ownRow hmem hcut _ => exact hcut ▸ h.follower_complete.row_nonneg _ hmem

/-- A batch that the target cuts off is not one of the leader's, and the leader
has no batch of its epoch at any of its offsets. -/
theorem Comparable.keeps_shared (h : Comparable follower leader) (ht : Target follower leader cut)
    {b b' : RecordBatch ρ} (hb : follower.Holds offset b) (hb' : leader.Holds offset b')
    (hfollower : follower.localStart ≤ offset) (hleader : leader.localStart ≤ offset)
    (hreach : cut ≤ b.lastOffset) : b.partitionLeaderEpoch ≠ b'.partitionLeaderEpoch := by
  intro hsame
  obtain ⟨e, he, hepoch⟩ := h.follower_complete.exists_row hb hfollower
  obtain ⟨f, hf, hepoch'⟩ := h.leader_complete.exists_row hb' hleader
  cases ht with
  | @leaderRow higher hmem hnewer hcut hlt hagree =>
    have hnew := hnewer e he
    rcases hagree with hagree | hnone
    · -- the leader would have the batch too, with a newer row inside
      have hrow : offset < higher.startOffset := by
        by_contra hge
        have hle := h.leader_complete.row_epoch_le hb' hleader hmem
          ((not_lt.mp hge).trans hb'.le_last)
        omega
      have hheld := (hagree offset b hfollower hleader (hcut ▸ hrow)).mp hb
      have hle := h.leader_complete.row_epoch_le hheld hleader hmem (hcut ▸ hreach)
      omega
    · exact hnone e he f hf (by omega)
  | @ownRow row hmem hcut hshared =>
    have hnew := hshared e he f hf (by omega)
    have hle := h.follower_complete.row_epoch_le hb hfollower hmem (hcut ▸ hreach)
    omega

theorem lastFetchedEpoch_le {bound : Int} (hneg : -1 ≤ bound)
    (hrows : ∀ e ∈ l.epochs.entries, e.epoch ≤ bound) : l.lastFetchedEpoch ≤ bound := by
  unfold lastFetchedEpoch
  cases hlatest : l.epochs.latestEpoch with
  | none => exact hneg
  | some latest =>
    obtain ⟨⟨e, he, rfl⟩, -⟩ := latestEpoch_eq_some.mp hlatest
    exact hrows e he

/-- A truncation lowers the log end, or it leaves the batches and drops the latest
epoch, which held no record. -/
theorem Comparable.progress (h : Comparable follower leader) (ht : Target follower leader cut) :
    (follower.truncateTo cut).logEnd < follower.logEnd ∨
      ((follower.truncateTo cut).logEnd = follower.logEnd ∧
        (follower.truncateTo cut).batches = follower.batches ∧
        (follower.truncateTo cut).lastFetchedEpoch < follower.lastFetchedEpoch) := by
  have htruncated := h.follower_complete.truncateTo (h.target_nonneg ht)
  by_cases hlt : cut < follower.logEnd
  · exact .inl ((htruncated.end_le_cut hlt).trans_lt hlt)
  · cases ht with
    | leaderRow _ _ _ hbelow _ => exact absurd hbelow hlt
    | @ownRow row hmem hcut _ =>
      have hend := htruncated.end_eq (not_lt.mp hlt)
      have hfit := h.follower_complete.row_le row hmem
      have hknown := h.follower_complete.epoch_nonneg row hmem
      refine .inr ⟨hend, ?_, ?_⟩
      · rw [htruncated.batches]
        exact h.follower_complete.ordered.below_eq_self (not_lt.mp hlt)
      · -- the rows that are left start below the row at the log end
        have hle : (follower.truncateTo cut).lastFetchedEpoch ≤ row.epoch - 1 := by
          refine lastFetchedEpoch_le (by omega) ?_
          intro e he
          obtain ⟨hold, hstart⟩ := htruncated.rows e he
          have horder := startOffset_lt_iff hold hmem
          omega
        have hge := le_lastFetchedEpoch hmem
        omega

theorem Comparable.exists_newer (h : Comparable follower leader)
    (hdiverges : Diverges follower leader epoch endOffset) :
    ∃ higher ∈ leader.epochs.entries, ∀ e ∈ follower.epochs.entries, e.epoch < higher.epoch := by
  obtain ⟨hlatest, hlookup, hknown, hdiffers⟩ := hdiverges
  obtain ⟨-, hmax⟩ := latestEpoch_eq_some.mp hlatest
  cases hlookup with
  | future _ => exact absurd rfl hknown
  | latest he heq hmaxLeader =>
    have hle := h.latest _ hlatest (latestEpoch_eq_some.mpr ⟨⟨_, he, heq⟩, hmaxLeader⟩)
    omega
  | lowest hhigher hlt _ | floor _ hhigher _ hlt _ =>
    exact ⟨_, hhigher, fun e he => (hmax e he).trans_lt hlt⟩

theorem Comparable.applyDivergingEpoch (h : Comparable follower leader)
    (hdiverges : Diverges follower leader epoch endOffset) :
    Comparable (follower.applyDivergingEpoch epoch endOffset) leader := by
  have htruncated : Truncated follower _ (follower.applyDivergingEpoch epoch endOffset) :=
    h.follower_complete.truncateTo (h.target_nonneg (h.target hdiverges))
  refine ⟨htruncated.complete, h.leader_complete, h.governed, htruncated.start_le.trans h.start_le,
    ?_, ?_⟩
  · intro e he f hf heq offset b hfollower hleader hlt
    obtain ⟨hfirst, hsecond⟩ := lt_min_iff.mp hlt
    obtain ⟨hold, -⟩ := htruncated.rows e he
    obtain ⟨hend, hrows⟩ := (htruncated.complete.lt_endOfEpoch he).mp hfirst
    have hvisible := htruncated.start_of_lt offset hfollower hend
    -- a row that the truncation dropped starts past the new end
    have hkept : ∀ g ∈ follower.epochs.entries, e.epoch < g.epoch → offset < g.startOffset := by
      intro g hg hnewer
      by_cases hrow : g.startOffset < (follower.applyDivergingEpoch epoch endOffset).logEnd
      · exact hrows g (htruncated.rows_kept.resolve_left (ne_nil_of_mem he) g hg hrow) hnewer
      · omega
    have hbound : offset < follower.endOfEpoch e.epoch :=
      (h.follower_complete.lt_endOfEpoch hold).mpr ⟨hend.trans_le htruncated.end_le, hkept⟩
    rw [htruncated.holds_of_lt hend]
    exact h.agree e hold f hf heq offset b hvisible hleader (lt_min hbound hsecond)
  · intro latest hlatest hleader
    -- the leader's latest epoch is newer than any that is left
    obtain ⟨higher, hhigher, hnewer⟩ := h.exists_newer hdiverges
    obtain ⟨⟨e, he, rfl⟩, -⟩ := latestEpoch_eq_some.mp hlatest
    have hle := (latestEpoch_eq_some.mp hleader).2 higher hhigher
    have hlt := hnewer e (htruncated.rows e he).1
    omega

/-! ## Given logs -/

instance [DecidableEq ρ] (bound : Int) : Decidable (AgreeBelow bound follower leader) :=
  decidable_of_iff
    ((∀ offset b, follower.Holds offset b → follower.localStart ≤ offset →
        leader.localStart ≤ offset → offset < bound → leader.Holds offset b) ∧
      ∀ offset b, leader.Holds offset b → follower.localStart ≤ offset →
        leader.localStart ≤ offset → offset < bound → follower.Holds offset b)
    ⟨fun h offset b hf hl hlt =>
      ⟨fun hb => h.1 offset b hb hf hl hlt, fun hb => h.2 offset b hb hf hl hlt⟩,
      fun h => ⟨fun offset b hb hf hl hlt => (h offset b hf hl hlt).mp hb,
        fun offset b hb hf hl hlt => (h offset b hf hl hlt).mpr hb⟩⟩

instance [DecidableEq ρ] : Decidable (Comparable follower leader) :=
  decidable_of_iff (follower.Complete ∧ leader.Complete ∧ leader.Governed ∧
      follower.localStart ≤ leader.logEnd ∧
      (∀ e ∈ follower.epochs.entries, ∀ f ∈ leader.epochs.entries, e.epoch = f.epoch →
        AgreeBelow (min (follower.endOfEpoch e.epoch) (leader.endOfEpoch e.epoch))
          follower leader) ∧
      (follower.epochs.latestEpoch = leader.epochs.latestEpoch →
        follower.epochs.latestEpoch.isSome → follower.logEnd ≤ leader.logEnd))
    ⟨fun ⟨hfollower, hleader, hgoverned, hstart, hagree, hlatest⟩ => ⟨hfollower, hleader, hgoverned,
        hstart, hagree, fun epoch hf hl => hlatest (hf.trans hl.symm) (hf ▸ rfl)⟩,
      fun h => ⟨h.follower_complete, h.leader_complete, h.governed, h.start_le, h.agree,
        fun heq hsome => by
          obtain ⟨epoch, hepoch⟩ := Option.isSome_iff_exists.mp hsome
          exact h.latest epoch hepoch (heq ▸ hepoch)⟩⟩

end ReplicaLog

end Krabka.Replicator
