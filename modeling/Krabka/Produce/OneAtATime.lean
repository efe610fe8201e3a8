import Krabka.Produce.WrittenOnce

/-!
# One request of a producer at a time

A producer that waits for the answer to one request before it sends the next, and
whose answered requests all commit, never races itself: what the gate reads of
the tracker is what the writer finds in the log.  Such a run meets the condition of
`written_once_in_order`, whatever the other producers do meanwhile.

Until a request commits the tracker is behind the log by its batch; the commit
closes that gap.  A batch that the writer finds in the log is at or below the
entry, so that its commit changes nothing there.
-/

namespace Krabka.Produce

open Krabka.Log List

variable {ρ : Type} {l : LeaderLog ρ} {b : RecordBatch ρ} {s s' : Produces ρ}
  {op : ProduceOp ρ} {i : Nat} {producerId : Int}

/-- Nothing of an idempotent producer is between the gate and the commit. -/
def Idle (producerId : Int) (admitted : List (Admitted ρ)) (answered : List Answered) : Prop :=
  0 ≤ producerId → (∀ r ∈ admitted, r.batch.producerId ≠ producerId) ∧
    ∀ a ∈ answered, a.producerId ≠ producerId

/-- A request takes its steps while no other one of its producer is between the gate
and the commit, no answered request goes without its commit, and no epoch uses up its
sequences. -/
def OneAtATime (s : Produces ρ) (op : ProduceOp ρ) (_ : Produces ρ) : Prop :=
  match op with
  | .gate i _ => ∀ r ∈ s.verified[i]?, Idle r.batch.producerId s.admitted s.answered
  | .write i => ∀ r ∈ s.admitted[i]?,
      Idle r.batch.producerId (s.admitted.eraseIdx i) s.answered ∧ (0 ≤ r.batch.producerId →
        records (ofEpoch r.batch.producerId r.batch.producerEpoch s.log.batches) +
          recordCount r.batch ≤ sequences)
  | .commit i => ∀ a ∈ s.answered[i]?, Idle a.producerId s.admitted (s.answered.eraseIdx i)
  | .dropAnswered i => ∀ a ∈ s.answered[i]?, a.producerId < 0
  | _ => True

/-! ## What the log retains -/

/-- What a log's entry says of the producer's last batch. -/
def lastOf (e : ProducerSnapshotEntry) : Int × Int × Int :=
  (e.producerEpoch, e.lastSequence, e.lastOffset)

/-- A batch that may be retained beside an entry. -/
def AtMost (m : ProducerBatchMetadata) (e : ProducerSnapshotEntry) : Prop :=
  m.lastOffset ≤ e.lastOffset ∧ 0 ≤ m.offsetDelta ∧ m.offsetDelta < 2147483647

/-- The retained batches of a producer lie at or below its entry, and the entry below
the end of the log. -/
structure Retains (l : LeaderLog ρ) : Prop where
  below : ∀ producerId e, l.producers.get? producerId = some e → e.lastOffset < l.logEnd
  last : ∀ producerId e, l.producers.get? producerId = some e →
    ∀ m, lastBatch e = some m → AtMost m e
  earlier : ∀ producerId, ∀ m ∈ (l.earlier.get? producerId).getD [],
    ∃ e, l.producers.get? producerId = some e ∧ AtMost m e

/-- A batch that the writer finds in the log was placed at or below the entry. -/
theorem Retains.findDuplicate (h : Retains l) (hadmissible : Admissible b)
    {m : ProducerBatchMetadata} (hfound : l.findDuplicate b = some m) :
    ∃ e, l.producers.get? b.producerId = some e ∧ e.producerEpoch = b.producerEpoch ∧
      m.baseOffset + b.lastOffsetDelta ≤ e.lastOffset := by
  unfold LeaderLog.findDuplicate at hfound
  split at hfound
  · cases hfound
  obtain ⟨e, he, hfound⟩ := Option.bind_eq_some_iff.mp hfound
  unfold findDuplicateBatch at hfound
  split at hfound
  · cases hfound
  rename_i hchecked
  obtain ⟨hbase, -, hepoch⟩ : 0 ≤ b.baseSequence ∧ _ ∧ e.producerEpoch = b.producerEpoch := by
    push Not at hchecked
    exact hchecked
  refine ⟨e, he, hepoch, ?_⟩
  obtain ⟨hlast, hdelta⟩ : AtMost m e := by
    rcases mem_append.mp (mem_of_find?_eq_some hfound) with hm | hm
    · obtain ⟨e', he', hmost⟩ := h.earlier _ m hm
      obtain rfl : e' = e := Option.some.inj (he'.symm.trans he)
      exact hmost
    · exact h.last _ e he m (Option.mem_toList.mp hm)
  -- the sequences agree at both ends, so the lengths do
  have hends := find?_some hfound
  rw [Bool.and_eq_true, decide_eq_true_eq, decide_eq_true_eq] at hends
  obtain ⟨hend, hstart⟩ := hends
  have hnonneg := hadmissible.delta_nonneg
  have hlt := hadmissible.delta_lt
  unfold incrementSequence at hend
  unfold decrementSequence at hstart
  unfold ProducerBatchMetadata.baseOffset
  omega

theorem logEnd_append (l : LeaderLog ρ) (b : RecordBatch ρ) :
    (l.append b).logEnd = l.logEnd + b.lastOffsetDelta + 1 := by
  unfold LeaderLog.logEnd
  rw [append_batches, getLast?_concat]
  rfl

theorem mem_earlierAfter {e : ProducerSnapshotEntry} {earlier : List ProducerBatchMetadata}
    {epoch : Int} {m : ProducerBatchMetadata} (hm : m ∈ earlierAfter e earlier epoch) :
    m ∈ earlier ∨ lastBatch e = some m := by
  unfold earlierAfter at hm
  split at hm
  · cases hm
  · split at hm
    · exact .inl hm
    · rename_i previous hprevious
      have hjoined : m ∈ earlier ++ [previous] := by
        dsimp only at hm
        split at hm
        · exact mem_of_mem_tail hm
        · exact hm
      rcases mem_append.mp hjoined with hm | hm
      · exact .inl hm
      · exact .inr (mem_singleton.mp hm ▸ hprevious)

theorem append_known (hadmissible : Admissible b) (hknown : 0 ≤ b.producerId) :
    (l.append b).producers = l.producers.insert b.producerId
        (updateDataEntry (entryOf l.producers (l.placed b)) (l.placed b)) ∧
      (l.append b).earlier = l.earlier.insert b.producerId
        (earlierAfter (entryOf l.producers (l.placed b)) ((l.earlier.get? b.producerId).getD [])
          b.producerEpoch) := by
  have hbase := hadmissible.sequence hknown
  unfold LeaderLog.append updateDataProducerEntry
  dsimp only [LeaderLog.placed]
  rw [if_neg (by omega)]
  dsimp only
  rw [if_neg (by omega)]
  exact ⟨rfl, rfl⟩

theorem append_unknown (hunknown : b.producerId < 0) :
    (l.append b).producers = l.producers ∧ (l.append b).earlier = l.earlier := by
  unfold LeaderLog.append
  dsimp only [LeaderLog.placed]
  rw [if_pos (.inl hunknown)]
  exact ⟨rfl, rfl⟩

theorem Retains.append (h : Retains l) (hadmissible : Admissible b) : Retains (l.append b) := by
  have hdelta := hadmissible.delta_nonneg
  have hend := logEnd_append l b
  have hbelow : ∀ producerId e, l.producers.get? producerId = some e →
      e.lastOffset < (l.append b).logEnd := by
    intro producerId e he
    have hlast := h.below producerId e he
    omega
  rcases lt_or_ge b.producerId 0 with hunknown | hknown
  · obtain ⟨hproducers, hearlier⟩ := append_unknown (l := l) hunknown
    exact ⟨hproducers ▸ hbelow, hproducers ▸ h.last, hproducers ▸ hearlier ▸ h.earlier⟩
  obtain ⟨hproducers, hearlier⟩ := append_known (l := l) hadmissible hknown
  refine ⟨?_, ?_, ?_⟩
  · intro producerId e he
    rw [hproducers, SortedMap.get?_insert] at he
    split at he
    · obtain rfl := Option.some.inj he
      show l.logEnd + b.lastOffsetDelta < _
      omega
    · exact hbelow producerId e he
  · intro producerId e he m hm
    rw [hproducers, SortedMap.get?_insert] at he
    split at he
    · obtain rfl := Option.some.inj he
      unfold lastBatch at hm
      split at hm
      · obtain rfl := Option.some.inj hm
        exact ⟨le_rfl, hdelta, hadmissible.delta_lt⟩
      · cases hm
    · exact h.last producerId e he m hm
  · intro producerId m hm
    rw [hearlier, SortedMap.get?_insert] at hm
    rw [hproducers, SortedMap.get?_insert]
    split at hm
    · rename_i heq
      rw [if_pos heq]
      refine ⟨_, rfl, ?_⟩
      -- the batch was retained before, or was the last one
      obtain ⟨e, he, hlast, hspan⟩ : ∃ e, l.producers.get? b.producerId = some e ∧ AtMost m e := by
        rcases mem_earlierAfter hm with hm | hm
        · exact h.earlier _ m hm
        · have hentry : entryOf l.producers (l.placed b) =
              (l.producers.get? b.producerId).getD (.empty b.producerEpoch) := rfl
          rw [hentry] at hm
          cases he : l.producers.get? b.producerId with
          | none => simp [he, lastBatch, ProducerSnapshotEntry.empty] at hm
          | some e => exact ⟨e, rfl, h.last _ e he m (by simpa [he] using hm)⟩
      have hold := h.below _ e he
      refine ⟨?_, hspan⟩
      show m.lastOffset ≤ l.logEnd + b.lastOffsetDelta
      omega
    · rename_i hne
      rw [if_neg hne]
      exact h.earlier producerId m hm

theorem Retains.congr {l' : LeaderLog ρ} (h : Retains l) (hbatches : l'.batches = l.batches)
    (hproducers : l'.producers = l.producers) (hearlier : l'.earlier = l.earlier) : Retains l' := by
  have hend : l'.logEnd = l.logEnd := by
    unfold LeaderLog.logEnd
    rw [hbatches]
  refine ⟨?_, hproducers ▸ h.last, hproducers ▸ hearlier ▸ h.earlier⟩
  rw [hproducers, hend]
  exact h.below

/-! ## Requests under way -/

/-- The tracker knows of a producer what the log does, but for the request that is
answered and has yet to commit. -/
structure Serial (s : Produces ρ) : Prop extends Inv s where
  retains : Retains s.log
  seen : ∀ r ∈ s.admitted, 0 ≤ r.batch.producerId → r.seen = s.log.facts r.batch.producerId
  tracks : ∀ producerId, 0 ≤ producerId → (∀ a ∈ s.answered, a.producerId ≠ producerId) →
    (s.tracker.get? producerId).map ProducerEntry.last =
      (s.log.producers.get? producerId).map lastOf
  commits : ∀ a ∈ s.answered, 0 ≤ a.producerId →
    ∃ e, committedEntry (s.tracker.get? a.producerId) a.completed = some e ∧
      (s.log.producers.get? a.producerId).map lastOf = some e.last

theorem serial_empty : Serial (Produces.empty : Produces ρ) where
  toInv := inv_empty
  retains :=
    { below := fun _ _ he => by cases he
      last := fun _ _ he => by cases he
      earlier := fun _ _ hm => absurd hm not_mem_nil }
  seen := fun _ hr => absurd hr not_mem_nil
  tracks := fun _ _ _ => rfl
  commits := fun _ ha => absurd ha not_mem_nil

theorem Serial.unraced (h : Serial s) (hok : OneAtATime s op s') : Unraced s op s' := by
  cases op with
  | write i =>
    intro r hr _ hknown
    exact ⟨h.seen r (mem_of_getElem? hr) hknown, (hok r hr).2 hknown⟩
  | _ => trivial

theorem Serial.dropAdmitted (h : Serial s) (i : Nat) :
    Serial { s with admitted := s.admitted.eraseIdx i } where
  log := h.log
  verified := h.verified
  admitted := forall_mem_eraseIdx h.admitted i
  retains := h.retains
  seen := forall_mem_eraseIdx h.seen i
  tracks := h.tracks
  commits := h.commits

theorem Serial.gate (h : Serial s) {r : Request ρ} (hr : r ∈ s.verified)
    (hidle : Idle r.batch.producerId s.admitted s.answered) (i : Nat) (unstable : Bool) :
    Serial (s.gate i unstable r) := by
  have hinv := h.toInv.gate hr i unstable
  rcases gate_cases s i unstable r with heq | ⟨seen, hseen, -, heq⟩ <;> rw [heq] at hinv ⊢
  · exact ⟨hinv, h.retains, h.seen, h.tracks, h.commits⟩
  · refine ⟨hinv, h.retains, forall_mem_concat h.seen fun hknown => ?_, h.tracks, h.commits⟩
    have hfacts := congrArg (Option.map fun last => (last.1, last.2.1))
      (h.tracks _ hknown (hidle hknown).2)
    rw [Option.map_map, Option.map_map] at hfacts
    exact hseen.trans hfacts

theorem Serial.answer (h : Serial s) {r : Admitted ρ}
    (hidle : Idle r.batch.producerId (s.admitted.eraseIdx i) s.answered) {log : LeaderLog ρ}
    (hlog : LogInv log) (hretains : Retains log)
    (hothers : ∀ producerId ≠ r.batch.producerId,
      log.producers.get? producerId = s.log.producers.get? producerId) {a : Answered}
    (ha : a.producerId = r.batch.producerId)
    (hcommits : 0 ≤ a.producerId →
      ∃ e, committedEntry (s.tracker.get? a.producerId) a.completed = some e ∧
        (log.producers.get? a.producerId).map lastOf = some e.last) :
    Serial { s with
      log := log, admitted := s.admitted.eraseIdx i, answered := s.answered ++ [a] } := by
  have hrest := h.dropAdmitted i
  refine ⟨⟨hlog, h.verified, hrest.admitted⟩, hretains, ?_, ?_, ?_⟩
  · intro x hx hknown
    rw [hrest.seen x hx hknown]
    unfold LeaderLog.facts
    rw [hothers _ fun heq => (hidle (heq ▸ hknown)).1 x hx heq]
  · intro producerId hknown hnone
    rw [hothers producerId fun heq => hnone a (by simp) (ha.trans heq.symm)]
    exact h.tracks producerId hknown fun x hx => hnone x (mem_append_left _ hx)
  · refine forall_mem_concat (fun x hx hknown => ?_) hcommits
    rw [hothers _ fun heq => (hidle (heq ▸ hknown)).2 x hx heq]
    exact h.commits x hx hknown

theorem Serial.commits_duplicate (h : Serial s) {r : Admitted ρ} (hr : r ∈ s.admitted)
    (hnone : ∀ a ∈ s.answered, a.producerId ≠ r.batch.producerId) {m : ProducerBatchMetadata}
    (hfound : s.log.findDuplicate r.batch = some m)
    (hknown : 0 ≤ r.batch.producerId) (timestamp : Int) :
    ∃ e, committedEntry (s.tracker.get? r.batch.producerId)
        (Produces.answeredAt r.batch m.baseOffset timestamp).completed = some e ∧
      (s.log.producers.get? r.batch.producerId).map lastOf = some e.last := by
  have hadmissible := (h.admitted r hr).1
  obtain ⟨found, hentry, hepoch, hplace⟩ := h.retains.findDuplicate hadmissible hfound
  have htracks := h.tracks _ hknown hnone
  rw [hentry, Option.map_some] at htracks
  obtain ⟨tracked, htracked, hlast⟩ := Option.map_eq_some_iff.mp htracks
  have hfields := hlast
  simp only [ProducerEntry.last, lastOf, Prod.mk.injEq] at hfields
  obtain ⟨hsame, -, hoffset⟩ := hfields
  obtain ⟨e, he, hkept⟩ := committedEntry_keeps
    (c := (Produces.answeredAt r.batch m.baseOffset timestamp).completed) (hsame.trans hepoch)
    (hplace.trans hoffset.ge)
  refine ⟨e, ?_, ?_⟩
  · rw [htracked, he]
  · rw [hentry, hkept, hlast]
    rfl

theorem Serial.commits_append (h : Serial s) {r : Admitted ρ} (hr : r ∈ s.admitted)
    (hnone : ∀ a ∈ s.answered, a.producerId ≠ r.batch.producerId) (hknown : 0 ≤ r.batch.producerId)
    (timestamp : Int) :
    ∃ e, committedEntry (s.tracker.get? r.batch.producerId)
        (Produces.answeredAt r.batch s.log.logEnd timestamp).completed = some e ∧
      ((s.log.append r.batch).producers.get? r.batch.producerId).map lastOf = some e.last := by
  obtain ⟨hadmissible, hcontinues⟩ := h.admitted r hr
  have hdelta := hadmissible.delta_nonneg
  have hnext := hcontinues hknown
  rw [h.seen r hr hknown] at hnext
  have hold : ∀ tracked ∈ s.tracker.get? r.batch.producerId,
      tracked.epoch ≤ r.batch.producerEpoch ∧
        tracked.lastOffset < s.log.logEnd + r.batch.lastOffsetDelta := by
    intro tracked htracked
    have htracks := h.tracks _ hknown hnone
    rw [Option.mem_def.mp htracked, Option.map_some] at htracks
    obtain ⟨entry, hentry, hentryLast⟩ := Option.map_eq_some_iff.mp htracks.symm
    simp only [ProducerEntry.last, lastOf, Prod.mk.injEq] at hentryLast
    obtain ⟨hepoch, -, hoffset⟩ := hentryLast
    have hbelow := h.retains.below _ entry hentry
    unfold LeaderLog.facts at hnext
    rw [hentry] at hnext
    have hepochs : entry.producerEpoch < r.batch.producerEpoch ∨
        entry.producerEpoch = r.batch.producerEpoch ∧ _ := hnext
    omega
  obtain ⟨e, he, hlast⟩ := committedEntry_advances
    (c := (Produces.answeredAt r.batch s.log.logEnd timestamp).completed) hold
  refine ⟨e, he, ?_⟩
  rw [(append_known hadmissible hknown).1, SortedMap.get?_insert, if_pos rfl, hlast]
  rfl

theorem Serial.write (h : Serial s) {r : Admitted ρ} (hr : s.admitted[i]? = some r)
    (hok : OneAtATime s (.write i) s') : Serial (s.write i r) := by
  have hinv := h.toInv.write hr (h.unraced hok)
  have hidle := (hok r hr).1
  have hmem := mem_of_getElem? hr
  have hadmissible := (h.admitted r hmem).1
  unfold Produces.write at hinv ⊢
  cases hanswer : writerAnswer s.log r.batch r.guard with
  | refused => exact h.dropAdmitted i
  | duplicate retained =>
    have hfound : s.log.findDuplicate r.batch = some retained := by
      unfold writerAnswer at hanswer
      split at hanswer
      · rename_i m hm
        rw [hm, WriterAnswer.duplicate.inj hanswer]
      · split at hanswer <;> cases hanswer
    exact h.answer hidle h.log h.retains (fun _ _ => rfl) rfl fun hknown =>
      h.commits_duplicate hmem (hidle hknown).2 hfound hknown _
  | appended =>
    rw [hanswer] at hinv
    refine h.answer hidle hinv.log (h.retains.append hadmissible) ?_ rfl fun hknown =>
      h.commits_append hmem (hidle hknown).2 hknown _
    intro producerId hne
    rcases lt_or_ge r.batch.producerId 0 with hunknown | hknown
    · rw [(append_unknown hunknown).1]
    · rw [(append_known hadmissible hknown).1, SortedMap.get?_insert, if_neg hne]

theorem mem_or_mem_eraseIdx {α : Type} {x y : α} {xs : List α} (h : xs[i]? = some x)
    (hy : y ∈ xs) : y = x ∨ y ∈ xs.eraseIdx i := by
  obtain ⟨hi, rfl⟩ := List.getElem?_eq_some_iff.mp h
  exact mem_cons.mp ((getElem_cons_eraseIdx_perm hi).mem_iff.mpr hy)

theorem Serial.dropAnswered (h : Serial s) (hok : ∀ a ∈ s.answered[i]?, a.producerId < 0) :
    Serial { s with answered := s.answered.eraseIdx i } := by
  refine ⟨⟨h.log, h.verified, h.admitted⟩, h.retains, h.seen, ?_, forall_mem_eraseIdx h.commits i⟩
  intro producerId hknown hnone
  refine h.tracks producerId hknown fun x hx => ?_
  cases ha : s.answered[i]? with
  | none =>
    rw [eraseIdx_of_length_le (getElem?_eq_none_iff.mp ha)] at hnone
    exact hnone x hx
  | some a =>
    have hunknown := hok a ha
    rcases mem_or_mem_eraseIdx ha hx with rfl | hx
    · omega
    · exact hnone x hx

theorem Serial.commit (h : Serial s) {a : Answered} (ha : s.answered[i]? = some a)
    (hidle : Idle a.producerId s.admitted (s.answered.eraseIdx i)) : Serial (s.commit i a) := by
  unfold Produces.commit
  rcases lt_or_ge a.producerId 0 with hunknown | hknown
  · rw [if_pos hunknown]
    refine h.dropAnswered fun x hx => ?_
    rw [ha] at hx
    exact Option.some.inj hx ▸ hunknown
  · obtain ⟨e, he, hlast⟩ := h.commits a (mem_of_getElem? ha) hknown
    rw [if_neg (not_lt.mpr hknown), he]
    refine ⟨⟨h.log, h.verified, h.admitted⟩, h.retains, h.seen, ?_, ?_⟩
    · intro producerId hknown' hnone
      dsimp only
      rw [SortedMap.get?_insert]
      split
      · rename_i heq
        rw [heq, hlast]
        rfl
      · rename_i hne
        refine h.tracks producerId hknown' fun x hx => ?_
        rcases mem_or_mem_eraseIdx ha hx with rfl | hx
        · exact fun heq => hne heq.symm
        · exact hnone x hx
    · intro x hx hknown'
      dsimp only
      rw [SortedMap.get?_insert, if_neg ((hidle hknown).2 x hx)]
      exact h.commits x (mem_of_mem_eraseIdx hx) hknown'

theorem Serial.step (h : Serial s) (hstep : s.step op = some s') (hok : OneAtATime s op s') :
    Serial s' := by
  have hinv := h.toInv.step hstep (h.unraced hok)
  cases op with
  | receive b supports now expiration named =>
    unfold Produces.step at hstep
    dsimp only at hstep
    split at hstep
    · obtain ⟨log, guard, ⟨hbatches, hproducers, hearlier⟩, rfl⟩ := verify_cases hstep
      refine ⟨hinv, h.retains.congr hbatches hproducers hearlier, ?_, ?_, ?_⟩
      · dsimp only [LeaderLog.facts]
        rw [hproducers]
        exact h.seen
      · exact hproducers ▸ h.tracks
      · exact hproducers ▸ h.commits
    · cases hstep
  | gate i unstable =>
    obtain ⟨r, hr, rfl⟩ := Option.map_eq_some_iff.mp hstep
    exact h.gate (mem_of_getElem? hr) (hok r hr) i unstable
  | write i =>
    obtain ⟨r, hr, rfl⟩ := Option.map_eq_some_iff.mp hstep
    exact h.write hr hok
  | commit i =>
    obtain ⟨a, ha, rfl⟩ := Option.map_eq_some_iff.mp hstep
    exact h.commit ha (hok a ha)
  | dropVerified i =>
    cases hstep
    exact ⟨hinv, h.retains, h.seen, h.tracks, h.commits⟩
  | dropAdmitted i =>
    cases hstep
    exact h.dropAdmitted i
  | dropAnswered i =>
    cases hstep
    exact h.dropAnswered hok

/-- A run whose producers each have one request at a time under way is a run whose
writes find the producer's entry as their gate saw it. -/
theorem unraced_of_oneAtATime {Sent : RecordBatch ρ → Prop}
    (h : ((produces Sent).restrict OneAtATime).Reachable s) :
    ((produces Sent).restrict Unraced).Reachable s := by
  refine (h.invariant (P := fun s => ((produces Sent).restrict Unraced).Reachable s ∧ Serial s)
    ?_ ?_).1
  · rintro s rfl
    exact ⟨.init rfl, serial_empty⟩
  · rintro s op s' ⟨hrun, hs⟩ ⟨hstep, hok⟩
    exact ⟨hrun.step ⟨hstep, hs.unraced hok⟩, hs.step hstep.1 hok⟩

end Krabka.Produce
