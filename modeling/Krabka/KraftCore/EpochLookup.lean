import Krabka.KraftCore.Machine

/-!
# The lookup of an epoch in a log

`endOfEpochIn` over a log whose epochs grow, as `LogOffsetMetadata` of
`crates/kraft-core/src/types.rs` computes it, and what follows for the two
sides of a Fetch: a position that `fetchDiverges` accepts ends in a record of
the log, and the truncation of a follower keeps everything it shares with the
leader.  Rounds of Fetch and truncation end with a prefix of the leader's log.
-/

namespace Krabka.KraftCore

open QuorumStateMachine List

variable {l l' : List Nat} {e e' : Nat}

/-- How many records of the log are not newer than `e`. -/
def endOf (l : List Nat) (e : Nat) : Nat := l.findIdx (fun x => e < x)

theorem endOf_le_length : endOf l e ≤ l.length := findIdx_le_length

variable {x : Nat}

theorem le_of_mem_take_endOf (hx : x ∈ l.take (endOf l e)) : x ≤ e := by
  obtain ⟨i, hi, rfl⟩ := mem_take_iff_getElem.mp hx
  have h := not_of_lt_findIdx (lt_of_lt_of_le hi (min_le_left _ _))
  simpa using h

theorem lt_of_mem_drop_endOf (hl : l.Pairwise (· ≤ ·)) (hx : x ∈ l.drop (endOf l e)) : e < x := by
  induction l with
  | nil => simp at hx
  | cons a t ih =>
    rw [pairwise_cons] at hl
    by_cases ha : e < a
    · have hzero : endOf (a :: t) e = 0 := by simp [endOf, findIdx_cons, ha]
      rw [hzero, drop_zero, mem_cons] at hx
      rcases hx with rfl | hx
      · exact ha
      · exact lt_of_lt_of_le ha (hl.1 x hx)
    · have hsucc : endOf (a :: t) e = endOf t e + 1 := by simp [endOf, findIdx_cons, ha]
      rw [hsucc, drop_succ_cons] at hx
      exact ih hl.2 hx

theorem length_le_endOf (hp : l' <+: l) (hle : ∀ x ∈ l', x ≤ e) : l'.length ≤ endOf l e := by
  obtain ⟨t, rfl⟩ := hp
  induction l' with
  | nil => exact Nat.zero_le _
  | cons a l' ih =>
    have ha : ¬e < a := not_lt.mpr (hle a mem_cons_self)
    have hsucc : endOf (a :: l' ++ t) e = endOf (l' ++ t) e + 1 := by
      simp [endOf, findIdx_cons, ha]
    rw [hsucc, length_cons]
    exact Nat.succ_le_succ (ih (fun x hx => hle x (mem_cons_of_mem _ hx)))

theorem le_getLast (hl : l.Pairwise (· ≤ ·)) (hx : x ∈ l) : x ≤ l.getLast?.getD 0 := by
  rcases eq_nil_or_concat l with rfl | ⟨p, r, rfl⟩
  · cases hx
  rw [concat_eq_append] at hl hx ⊢
  rw [getLast?_append, getLast?_singleton, Option.some_or, Option.getD_some]
  rcases mem_append.mp hx with hx | hx
  · exact (pairwise_append.mp hl).2.2 x hx r (mem_singleton_self r)
  · exact (mem_singleton.mp hx).le

theorem endOfEpochIn_offset (hl : l.Pairwise (· ≤ ·)) : (endOfEpochIn l e).offset = endOf l e := by
  unfold endOfEpochIn
  dsimp only
  split_ifs with hlast
  · rw [show endOf l e = l.length from
      findIdx_eq_length_of_false (fun x hx => by
        have := le_getLast hl hx
        simp only [decide_eq_false_iff_not]
        omega)]
  · rfl

theorem le_endOfEpochIn_epoch (hl : l.Pairwise (· ≤ ·))
    (hx : x ∈ l.take (endOf l e)) : x ≤ (endOfEpochIn l e).epoch := by
  have hxe := le_of_mem_take_endOf hx
  have hxl := mem_of_mem_take hx
  unfold endOfEpochIn
  dsimp only
  split_ifs with hlast
  · exact le_getLast hl hxl
  · exact le_max?_getD_of_mem (mem_filter.mpr ⟨hxl, by simpa using hxe⟩)

theorem endOfEpochIn_epoch_of_mem (hl : l.Pairwise (· ≤ ·)) (he : e ∈ l) :
    (endOfEpochIn l e).epoch = e := by
  have hlast := le_getLast hl he
  unfold endOfEpochIn
  rw [if_neg (by omega)]
  have hmem : e ∈ l.filter (fun x => x ≤ e) := mem_filter.mpr ⟨he, by simp⟩
  have hmax : (l.filter (fun x => x ≤ e)).max? = some e :=
    max?_eq_some_iff.mpr ⟨hmem, fun x hx => by simpa using (mem_filter.mp hx).2⟩
  rw [hmax, Option.getD_some]

theorem mem_of_endOfEpochIn (hl : l.Pairwise (· ≤ ·)) (hpos : 0 < endOf l e)
    (he : (endOfEpochIn l e).epoch = e) : e ∈ l := by
  unfold endOfEpochIn at he
  dsimp only at he
  split_ifs at he with hlast
  · exact absurd he hlast.ne
  · cases hmax : (l.filter (fun x => x ≤ e)).max? with
    | some a =>
      rw [hmax, Option.getD_some] at he
      exact he ▸ mem_of_mem_filter (max?_mem hmax)
    | none =>
      rw [max?_eq_none_iff, filter_eq_nil_iff] at hmax
      cases l with
      | nil => simp [endOf] at hpos
      | cons a t =>
        have ha := hmax a mem_cons_self
        simp only [decide_eq_true_eq, not_le] at ha
        simp [endOf, findIdx_cons, ha] at hpos

theorem fetchDiverges_eq_false_iff (log : LogView) (e : Nat) (n : Int) :
    fetchDiverges log e n = false ↔
      n ≤ 0 ∨ (log.endOffsetForEpoch e).epoch = e ∧ n ≤ (log.endOffsetForEpoch e).offset := by
  simp only [fetchDiverges, ne_eq, decide_not, Bool.and_eq_false_iff, decide_eq_false_iff_not,
    not_lt, Bool.or_eq_false_iff, Bool.not_eq_false', decide_eq_true_eq]

theorem accepted_of_not_diverges (hl : l.Pairwise (· ≤ ·)) {n : Nat} (hn : 0 < n)
    (h : fetchDiverges (.ofEpochs l) e n = false) :
    n ≤ endOf l e ∧ ∃ q, l.take (endOf l e) = q ++ [e] := by
  rcases (fetchDiverges_eq_false_iff _ _ _).mp h with h | ⟨hepoch, hoff⟩
  · omega
  have hle : n ≤ endOf l e := by
    rw [show (LogView.ofEpochs l).endOffsetForEpoch e = endOfEpochIn l e from rfl,
      endOfEpochIn_offset hl] at hoff
    exact_mod_cast hoff
  refine ⟨hle, ?_⟩
  have hmem := mem_of_endOfEpochIn hl (by omega) hepoch
  -- The epoch itself is before its end, and nothing there is newer.
  have hin : e ∈ l.take (endOf l e) := by
    rw [← take_append_drop (endOf l e) l, mem_append] at hmem
    rcases hmem with hmem | hmem
    · exact hmem
    · exact absurd (lt_of_mem_drop_endOf hl hmem) (lt_irrefl e)
  rcases eq_nil_or_concat (l.take (endOf l e)) with hnil | ⟨q, r, hqr⟩
  · rw [hnil] at hin
    cases hin
  rw [concat_eq_append] at hqr
  refine ⟨q, ?_⟩
  have hr : r ≤ e := le_of_mem_take_endOf (e := e) (l := l) (by rw [hqr]; simp)
  have hsorted : (q ++ [r]).Pairwise (· ≤ ·) := hqr ▸ hl.sublist (take_sublist _ _)
  have her : e ≤ r := by
    have := le_getLast hsorted (hqr ▸ hin)
    simpa using this
  rw [hqr, le_antisymm hr her]

theorem not_diverges_of_isPrefix (hl : l.Pairwise (· ≤ ·)) {q : List Nat} (hp : q ++ [e] <+: l) :
    fetchDiverges (.ofEpochs l) e (q ++ [e]).length = false := by
  have hmem : e ∈ l := hp.subset (by simp)
  have hlen : (q ++ [e]).length ≤ endOf l e := by
    refine length_le_endOf hp (fun x hx => ?_)
    have := le_getLast (hl.sublist hp.sublist) hx
    simpa using this
  refine (fetchDiverges_eq_false_iff _ _ _).mpr (.inr ⟨endOfEpochIn_epoch_of_mem hl hmem, ?_⟩)
  rw [show (LogView.ofEpochs l).endOffsetForEpoch e = endOfEpochIn l e from rfl,
    endOfEpochIn_offset hl]
  exact_mod_cast hlen

theorem followerTruncationOffset_eq (point : LogOffsetMetadata) (hl : l.Pairwise (· ≤ ·)) :
    point.followerTruncationOffset (.ofEpochs l) =
      if point.epoch = 0 then min point.offset l.length
      else if (endOfEpochIn l point.epoch).epoch = point.epoch
        then min ↑(endOf l point.epoch) point.offset
      else endOf l point.epoch := by
  rw [← endOfEpochIn_offset hl]
  rfl

/-- **A truncation keeps what is shared.**  The follower's log `l` and the
leader's log `l'` share the prefix `q`; the follower's records are not newer
than `e`, and `point` is where `e` ends for the leader. -/
theorem length_le_followerTruncationOffset (hl : l.Pairwise (· ≤ ·)) {q : List Nat}
    {point : LogOffsetMetadata} {k : Nat} (hk : point.offset = k)
    (hepochs : ∀ x ∈ l'.take k, x ≤ point.epoch) (hafter : ∀ x ∈ l'.drop k, e < x)
    (hle : ∀ x ∈ l, x ≤ e) (hq : q <+: l) (hq' : q <+: l') :
    (q.length : Int) ≤ point.followerTruncationOffset (.ofEpochs l) := by
  -- Nothing shared lies behind the leader's end of `e`.
  have hqk : q.length ≤ k := by
    by_contra hlt
    rw [not_le] at hlt
    obtain ⟨t, rfl⟩ := hq'
    have hmem : q[k] ∈ (q ++ t).drop k := by
      rw [drop_append_of_le_length hlt.le]
      exact mem_append_left _ (mem_drop_iff_getElem.mpr ⟨0, by omega, by simp⟩)
    have := hafter _ hmem
    have := hle _ (hq.subset (getElem_mem hlt))
    omega
  have hqe : q.length ≤ endOf l point.epoch := by
    refine length_le_endOf hq (fun x hx => hepochs x ?_)
    obtain ⟨t, rfl⟩ := hq'
    rw [take_append, take_of_length_le hqk]
    exact mem_append_left _ hx
  have hql := hq.length_le
  rw [followerTruncationOffset_eq point hl, hk]
  split_ifs <;> omega

/-! ## Resolving a divergence -/

/-- What a follower keeps when the leader answers its Fetch with `point`. -/
def truncateAt (point : LogOffsetMetadata) (follower : List Nat) : List Nat :=
  follower.take (point.followerTruncationOffset (.ofEpochs follower)).toNat

/-- The hint by which `handleFetch` answers a Fetch at the end of the follower's log. -/
def divergingHint (leader follower : List Nat) : Option LogOffsetMetadata :=
  let last := (LogView.ofEpochs follower).lastEpoch
  if fetchDiverges (.ofEpochs leader) last follower.length then some (endOfEpochIn leader last)
  else none

/-- The follower's log after at most `n` rounds of Fetch and truncation. -/
def resolveDivergence (leader : List Nat) : Nat → List Nat → List Nat
  | 0, follower => follower
  | n + 1, follower =>
    match divergingHint leader follower with
    | none => follower
    | some point => resolveDivergence leader n (truncateAt point follower)

/-- The logs of a leader and a follower: an epoch starts at one offset, and
records of one epoch at one offset come after the same epochs. -/
structure EpochLogs (leader follower : List Nat) : Prop where
  leader_sorted : leader.Pairwise (· ≤ ·)
  leader_pos : ∀ e ∈ leader, 1 ≤ e
  sorted : follower.Pairwise (· ≤ ·)
  pos : ∀ e ∈ follower, 1 ≤ e
  starts : ∀ e ∈ follower, e ∈ leader → follower.idxOf e = leader.idxOf e
  matched : ∀ i < follower.length, follower[i]? = leader[i]? → follower.take i = leader.take i

section Resolve

variable {leader follower kept : List Nat} {point : LogOffsetMetadata}

theorem EpochLogs.of_isPrefix (h : EpochLogs leader follower) (hp : kept <+: follower) :
    EpochLogs leader kept := by
  refine ⟨h.leader_sorted, h.leader_pos, h.sorted.sublist hp.sublist,
    fun e he => h.pos e (hp.subset he), ?_, ?_⟩
  · intro e he hleader
    rw [← h.starts e (hp.subset he) hleader]
    obtain ⟨t, rfl⟩ := hp
    rw [idxOf_append_of_mem he]
  · intro i hi heq
    have hmatched := h.matched i (lt_of_lt_of_le hi hp.length_le)
    obtain ⟨t, rfl⟩ := hp
    rw [getElem?_append_left hi, take_append_of_le_length hi.le] at hmatched
    exact hmatched heq

theorem truncateAt_isPrefix : truncateAt point follower <+: follower := take_prefix _ _

theorem endOfEpochIn_epoch_le : (endOfEpochIn l e).epoch ≤ e := by
  unfold endOfEpochIn
  dsimp only
  split_ifs with hlast
  · exact hlast.le
  · cases hmax : (l.filter (fun x => x ≤ e)).max? with
    | none => exact le_rfl
    | some a =>
      have ha := (mem_filter.mp (max?_mem hmax)).2
      simpa using ha

theorem endOf_lt_length (hlast : e' < l.getLast?.getD 0) : endOf l e' < l.length := by
  rcases eq_nil_or_concat l with rfl | ⟨p, r, rfl⟩
  · cases hlast
  refine findIdx_lt_length.mpr ⟨r, by simp, ?_⟩
  simpa using hlast

theorem truncateAt_truncateAt (hl : l.Pairwise (· ≤ ·)) (hoffset : 0 ≤ point.offset) :
    truncateAt point (truncateAt point l) = truncateAt point l := by
  refine take_of_length_le ?_
  have hsorted : (truncateAt point l).Pairwise (· ≤ ·) := hl.sublist truncateAt_isPrefix.sublist
  have hlen : (truncateAt point l).length ≤
      (point.followerTruncationOffset (.ofEpochs l)).toNat := length_take_le _ _
  have hfirst := followerTruncationOffset_eq point hl
  rw [followerTruncationOffset_eq point hsorted]
  by_cases hzero : point.epoch = 0
  · rw [if_pos hzero] at hfirst ⊢
    omega
  rw [if_neg hzero] at hfirst ⊢
  -- what is left is not newer than the hint
  have hend : (truncateAt point l).length ≤ endOf (truncateAt point l) point.epoch := by
    refine length_le_endOf prefix_rfl (fun x hx => le_of_mem_take_endOf (l := l) ?_)
    refine (take_prefix_take_left ?_).subset hx
    split_ifs at hfirst <;> omega
  split_ifs with hfound
  · by_cases hnil : endOf (truncateAt point l) point.epoch = 0
    · omega
    -- the follower holds the epoch of the hint, so its first truncation read it too
    have hmem := mem_of_endOfEpochIn hsorted (Nat.pos_of_ne_zero hnil) hfound
    rw [if_pos (endOfEpochIn_epoch_of_mem hl (truncateAt_isPrefix.subset hmem))] at hfirst
    omega
  · omega

theorem divergingHint_eq_some (h : divergingHint leader follower = some point) :
    0 < follower.length ∧ point = endOfEpochIn leader (follower.getLast?.getD 0) ∧
      (point.epoch ≠ follower.getLast?.getD 0 ∨ point.offset < follower.length) := by
  unfold divergingHint at h
  dsimp only at h
  split at h
  · rename_i hdiverges
    cases h
    unfold fetchDiverges LogView.ofEpochs at hdiverges
    simp only [Bool.and_eq_true, Bool.or_eq_true, decide_eq_true_eq] at hdiverges
    exact ⟨by omega, rfl, hdiverges.2⟩
  · cases h

theorem EpochLogs.truncateAt_length_lt (h : EpochLogs leader follower)
    (hpoint : divergingHint leader follower = some point) :
    (truncateAt point follower).length < follower.length := by
  obtain ⟨hlen, heq, hdiverges⟩ := divergingHint_eq_some hpoint
  have hoffset : point.offset = endOf leader (follower.getLast?.getD 0) := by
    rw [heq, endOfEpochIn_offset h.leader_sorted]
  have hepoch : point.epoch ≤ follower.getLast?.getD 0 := heq ▸ endOfEpochIn_epoch_le
  suffices hlt : point.followerTruncationOffset (.ofEpochs follower) < follower.length by
    refine lt_of_le_of_lt (length_take_le _ _) ?_
    omega
  rw [followerTruncationOffset_eq point h.sorted]
  by_cases hzero : point.epoch = 0
  · -- the leader's log is empty up to the epoch asked for
    have hnone : endOf leader (follower.getLast?.getD 0) = 0 := by
      by_contra hpos
      have hle := endOf_le_length (l := leader) (e := follower.getLast?.getD 0)
      obtain ⟨x, hx⟩ := exists_mem_of_length_pos
        (l := leader.take (endOf leader (follower.getLast?.getD 0)))
        (by rw [length_take]; omega)
      have hxle := le_endOfEpochIn_epoch h.leader_sorted hx
      have hxpos := h.leader_pos x (mem_of_mem_take hx)
      rw [← heq] at hxle
      omega
    rw [if_pos hzero]
    omega
  rw [if_neg hzero]
  rcases hepoch.lt_or_eq with hlt | hsame
  · have := endOf_lt_length hlt
    split_ifs <;> omega
  · have hmem : follower.getLast?.getD 0 ∈ follower := by
      have hne := length_pos_iff.mp hlen
      rw [getLast?_eq_some_getLast hne]
      exact getLast_mem hne
    rw [hsame, if_pos (endOfEpochIn_epoch_of_mem h.sorted hmem)]
    omega

theorem EpochLogs.isPrefix_truncateAt (h : EpochLogs leader follower) {q : List Nat}
    (hpoint : divergingHint leader follower = some point) (hq : q <+: follower)
    (hleader : q <+: leader) : q <+: truncateAt point follower := by
  obtain ⟨-, rfl, -⟩ := divergingHint_eq_some hpoint
  have hlen := length_le_followerTruncationOffset h.sorted (endOfEpochIn_offset h.leader_sorted)
    (fun x hx => le_endOfEpochIn_epoch h.leader_sorted hx)
    (fun x hx => lt_of_mem_drop_endOf h.leader_sorted hx)
    (fun x hx => le_getLast h.sorted hx) hq hleader
  exact prefix_take_iff.mpr ⟨hq, by omega⟩

/-- **A follower whose position is accepted holds a prefix of the leader's log.** -/
theorem EpochLogs.isPrefix_of_accepted (h : EpochLogs leader follower)
    (hpoint : divergingHint leader follower = none) : follower <+: leader := by
  unfold divergingHint at hpoint
  dsimp only at hpoint
  split at hpoint
  · cases hpoint
  rename_i haccepted
  rw [Bool.not_eq_true] at haccepted
  cases hlen : follower.length with
  | zero => exact length_eq_zero_iff.mp hlen ▸ nil_prefix
  | succ m =>
    rw [hlen] at haccepted
    have hlast : follower[m]? = some (LogView.ofEpochs follower).lastEpoch := by
      unfold LogView.ofEpochs
      rw [getLast?_eq_getElem?, hlen, Nat.add_sub_cancel, getElem?_eq_getElem (by omega)]
      rfl
    generalize (LogView.ofEpochs follower).lastEpoch = e at hlast haccepted
    obtain ⟨hm, q, hq⟩ := accepted_of_not_diverges h.leader_sorted (Nat.succ_pos m) haccepted
    have hend := endOf_le_length (l := leader) (e := e)
    have hmem : e ∈ leader := mem_of_mem_take (hq ▸ mem_append_right q (mem_singleton_self e))
    -- the leader's record at the follower's last offset is of the same epoch
    have hat : leader[m]? = some e := by
      have hle : leader[m] ≤ e := le_of_mem_take_endOf (l := leader)
        (mem_take_iff_getElem.mpr ⟨m, by omega, rfl⟩)
      have hstart : leader.idxOf e ≤ m := by
        rw [← h.starts e (mem_of_getElem? hlast) hmem]
        have := idxOf_lt_length_iff.mpr (mem_of_getElem? hlast)
        omega
      have hidx := idxOf_lt_length_iff.mpr hmem
      have hge : leader[leader.idxOf e] ≤ leader[m] :=
        h.leader_sorted.sortedLE.getElem_le_getElem_of_le hstart
      rw [getElem_idxOf] at hge
      rw [getElem?_eq_getElem (by omega), le_antisymm hle hge]
    have htake := h.matched m (by omega) (hlast.trans hat.symm)
    rw [prefix_iff_eq_take, hlen, take_add_one, ← htake, hat, ← hlast,
      ← take_add_one, take_of_length_le hlen.le]

theorem EpochLogs.resolveDivergence (h : EpochLogs leader follower) (n : Nat) :
    resolveDivergence leader n follower <+: follower ∧
      (∀ q, q <+: follower → q <+: leader → q <+: resolveDivergence leader n follower) ∧
      (follower.length ≤ n →
        divergingHint leader (resolveDivergence leader n follower) = none) := by
  induction n generalizing follower with
  | zero =>
    refine ⟨prefix_rfl, fun q hq _ => hq, fun hlen => ?_⟩
    rw [Nat.le_zero, length_eq_zero_iff] at hlen
    rw [hlen]
    rfl
  | succ n ih =>
    rw [Krabka.KraftCore.resolveDivergence]
    cases hpoint : divergingHint leader follower with
    | none => exact ⟨prefix_rfl, fun q hq _ => hq, fun _ => hpoint⟩
    | some point =>
      have hlt := h.truncateAt_length_lt hpoint
      obtain ⟨hpre, hkeeps, hends⟩ := ih (h.of_isPrefix truncateAt_isPrefix)
      exact ⟨hpre.trans truncateAt_isPrefix,
        fun q hq hleader => hkeeps q (h.isPrefix_truncateAt hpoint hq hleader) hleader,
        fun hlen => hends (by omega)⟩

/-- **Divergence resolution converges to the common prefix.**  After any number of
rounds the follower still holds what it shared with the leader; a round that
diverges removes a record, and a second truncation at its hint changes nothing; the
rounds end within the length of the log, and what they leave is the leader's. -/
theorem resolveDivergence_converges (h : EpochLogs leader follower) (n : Nat) :
    let kept := resolveDivergence leader n follower
    (∀ q, q <+: follower → q <+: leader → q <+: kept) ∧
      (∀ point, divergingHint leader kept = some point →
        (truncateAt point kept).length < kept.length ∧
          truncateAt point (truncateAt point kept) = truncateAt point kept) ∧
      (follower.length ≤ n → divergingHint leader kept = none) ∧
      (divergingHint leader kept = none → kept <+: leader) := by
  intro kept
  obtain ⟨hpre, hkeeps, hends⟩ := h.resolveDivergence n
  have hlogs : EpochLogs leader kept := h.of_isPrefix hpre
  refine ⟨hkeeps, ?_, hends, hlogs.isPrefix_of_accepted⟩
  intro point hpoint
  refine ⟨hlogs.truncateAt_length_lt hpoint, truncateAt_truncateAt hlogs.sorted ?_⟩
  obtain ⟨-, rfl, -⟩ := divergingHint_eq_some hpoint
  rw [endOfEpochIn_offset h.leader_sorted]
  exact Int.natCast_nonneg _

/-- Epoch 3 is unknown to the leader, and its epoch 1 ends earlier. -/
theorem resolveDivergence_converges_twice :
    resolveDivergence [1, 1, 4] 4 [1, 1, 1, 3] = [1, 1] ∧
      resolveDivergence [1, 1, 4] 4 [1, 1, 1, 3] <+: [1, 1, 4] := by
  have h : EpochLogs [1, 1, 4] [1, 1, 1, 3] := by
    constructor <;> decide
  obtain ⟨-, -, hends, hfinal⟩ := resolveDivergence_converges h 4
  exact ⟨by decide, hfinal (hends le_rfl)⟩

end Resolve

end Krabka.KraftCore
