import Krabka.Lib.Cycle
import Krabka.Lib.Transition
import Krabka.Produce.Writer

/-!
# Batches written once and in order

The produce requests of one partition, in every interleaving.  A request is
verified, passes the gate against the tracker, is written under the log lock,
commits into the tracker, and may be dropped between any two of these.

The writer appends what the gate admitted without looking at the producer's
entry again, so `written_once_in_order` asks that the entry is still what the
gate saw.  Three runs show what happens otherwise: a batch is in the log twice
once five others of its producer came between, an older epoch follows a newer
one, and the first two batches of a producer come out of order.
-/

namespace Krabka.Produce

open Krabka.Log List TransitionSystem

variable {ρ : Type}

/-! ## Requests -/

/-- The client batches that `produce_batch_admission` admits. -/
structure Admissible (b : RecordBatch ρ) : Prop where
  delta_nonneg : 0 ≤ b.lastOffsetDelta
  delta_lt : b.lastOffsetDelta < 2147483647
  data : b.isControlBatch = false
  sequence : 0 ≤ b.producerId → 0 ≤ b.baseSequence

instance (b : RecordBatch ρ) : Decidable (Admissible b) :=
  decidable_of_iff (0 ≤ b.lastOffsetDelta ∧ b.lastOffsetDelta < 2147483647 ∧
      b.isControlBatch = false ∧ (0 ≤ b.producerId → 0 ≤ b.baseSequence))
    ⟨fun h => ⟨h.1, h.2.1, h.2.2.1, h.2.2.2⟩,
      fun h => ⟨h.delta_nonneg, h.delta_lt, h.data, h.sequence⟩⟩

/-- A request before the gate, with the guard that its verification gave. -/
structure Request (ρ : Type) where
  batch : RecordBatch ρ
  guard : Nat
  deriving DecidableEq

/-- A request that the gate let pass, with the entry that the gate saw. -/
structure Admitted (ρ : Type) extends Request ρ where
  seen : Option EntryFacts
  deriving DecidableEq

structure Answered where
  producerId : Int
  completed : Completed
  deriving DecidableEq

structure Produces (ρ : Type) where
  log : LeaderLog ρ
  tracker : SortedMap Int ProducerEntry
  verified : List (Request ρ)
  admitted : List (Admitted ρ)
  answered : List Answered
  deriving DecidableEq

inductive ProduceOp (ρ : Type) where
  /-- A request arrives and is verified; `hasTransactionalId` is whether it names
  one. -/
  | receive (b : RecordBatch ρ) (supportsEpochBump : Bool) (nowMs expirationMs : Int)
      (hasTransactionalId : Bool)
  | gate (i : Nat) (unstable : Bool)
  | write (i : Nat)
  | commit (i : Nat)
  | dropVerified (i : Nat)
  | dropAdmitted (i : Nat)
  | dropAnswered (i : Nat)

namespace Produces

def empty : Produces ρ := ⟨.empty, .empty, [], [], []⟩

variable (s : Produces ρ)

/-- `verify_transactional_produce`. -/
def verify (b : RecordBatch ρ) (supportsEpochBump : Bool)
    (nowMs expirationMs : Int) (hasTransactionalId : Bool) : Option (Produces ρ) :=
  if b.producerId < 0 then
    if b.isTransactional then none
    else some { s with verified := s.verified ++ [⟨b, sentinel⟩] }
  else if !b.isTransactional then some { s with verified := s.verified ++ [⟨b, sentinel⟩] }
  else match s.log.maybeStartTransactionVerification b supportsEpochBump nowMs expirationMs with
    | .error _ => none
    | .ok (log, guard) =>
      some { s with
        log := log
        verified := s.verified ++ [⟨b, if hasTransactionalId then guard else sentinel⟩] }

/-- The gate of `handle_duplicate`: a request that it answers is done. -/
def gate (i : Nat) (unstable : Bool) (r : Request ρ) : Produces ρ :=
  let entry := s.tracker.get? r.batch.producerId
  let passed : Produces ρ :=
    { s with
      verified := s.verified.eraseIdx i
      admitted := s.admitted ++ [⟨r, entry.map ProducerEntry.facts⟩] }
  if r.batch.producerId < 0 then passed
  else match checkRetained entry (s.log.logEnd = 0) unstable r.batch.producerEpoch
      r.batch.baseSequence r.batch.lastOffsetDelta with
    | .append => passed
    | _ => { s with verified := s.verified.eraseIdx i }

/-- What a request commits once the writer has placed its batch. -/
def answeredAt (b : RecordBatch ρ) (baseOffset timestamp : Int) : Answered where
  producerId := b.producerId
  completed :=
    { producerEpoch := b.producerEpoch
      baseSequence := b.baseSequence
      lastOffsetDelta := b.lastOffsetDelta
      baseOffset := baseOffset
      timestamp := timestamp
      isTransactional := b.isTransactional }

def write (i : Nat) (r : Admitted ρ) : Produces ρ :=
  match writerAnswer s.log r.batch r.guard with
  | .duplicate retained =>
    { s with
      admitted := s.admitted.eraseIdx i
      answered := s.answered ++ [answeredAt r.batch retained.baseOffset retained.timestamp] }
  | .refused _ => { s with admitted := s.admitted.eraseIdx i }
  | .appended =>
    { s with
      log := s.log.append r.batch
      admitted := s.admitted.eraseIdx i
      answered := s.answered ++ [answeredAt r.batch s.log.logEnd r.batch.maxTimestamp] }

def commit (i : Nat) (a : Answered) : Produces ρ :=
  { s with
    answered := s.answered.eraseIdx i
    tracker :=
      if a.producerId < 0 then s.tracker
      else match committedEntry (s.tracker.get? a.producerId) a.completed with
        | some entry => s.tracker.insert a.producerId entry
        | none => s.tracker }

def step : ProduceOp ρ → Option (Produces ρ)
  | .receive b supportsEpochBump nowMs expirationMs hasTransactionalId =>
    if Admissible b then
      s.verify b supportsEpochBump nowMs expirationMs hasTransactionalId
    else none
  | .gate i unstable => (s.verified[i]?).map (s.gate i unstable)
  | .write i => (s.admitted[i]?).map (s.write i)
  | .commit i => (s.answered[i]?).map (s.commit i)
  | .dropVerified i => some { s with verified := s.verified.eraseIdx i }
  | .dropAdmitted i => some { s with admitted := s.admitted.eraseIdx i }
  | .dropAnswered i => some { s with answered := s.answered.eraseIdx i }

end Produces

/-- The requests of the batches that the producers send. -/
def produces (Sent : RecordBatch ρ → Prop) : TransitionSystem (Produces ρ) (ProduceOp ρ) where
  init s := s = .empty
  step s op s' := s.step op = some s' ∧
    ∀ b supports now expiration named, op = .receive b supports now expiration named → Sent b

/-- The sequences that a batch covers. -/
def Covers (b : RecordBatch ρ) (sequence : Int) : Prop :=
  ∃ k, 0 ≤ k ∧ k ≤ b.lastOffsetDelta ∧ incrementSequence b.baseSequence k = sequence

/-- No sequence of a producer's epoch is used for different data. -/
def NoReuse (Sent : RecordBatch ρ → Prop) : Prop :=
  ∀ b b', Sent b → Sent b' → 0 ≤ b.producerId → b.producerId = b'.producerId →
    b.producerEpoch = b'.producerEpoch → ∀ sequence, Covers b sequence → Covers b' sequence → b = b'

/-! ## The property -/

def ofProducer (producerId : Int) (batches : List (RecordBatch ρ)) : List (RecordBatch ρ) :=
  batches.filter fun b => b.producerId = producerId

def ofEpoch (producerId epoch : Int) (batches : List (RecordBatch ρ)) : List (RecordBatch ρ) :=
  (ofProducer producerId batches).filter fun b => b.producerEpoch = epoch

def recordCount (b : RecordBatch ρ) : Int := b.lastOffsetDelta + 1

def records (batches : List (RecordBatch ρ)) : Int := (batches.map recordCount).sum

/-- A batch starts at the sequence after the one before it ends. -/
def NextSequence (a b : RecordBatch ρ) : Prop :=
  b.baseSequence = incrementSequence (incrementSequence a.baseSequence a.lastOffsetDelta) 1

/-- Two batches of one idempotent producer. -/
def SameProducer (a b : RecordBatch ρ) : Prop := 0 ≤ a.producerId ∧ a.producerId = b.producerId

instance (a b : RecordBatch ρ) : Decidable (NextSequence a b) := by
  unfold NextSequence
  infer_instance

instance (a b : RecordBatch ρ) : Decidable (SameProducer a b) := by
  unfold SameProducer
  infer_instance

structure WrittenOnceInOrder (batches : List (RecordBatch ρ)) : Prop where
  once : batches.Pairwise fun a b => SameProducer a b → a.producerEpoch = b.producerEpoch →
    a.baseSequence ≠ b.baseSequence
  epochs : batches.Pairwise fun a b => SameProducer a b → a.producerEpoch ≤ b.producerEpoch
  contiguous : ∀ producerId epoch, 0 ≤ producerId →
    (ofEpoch producerId epoch batches).IsChain NextSequence

def sequences : Int := 2147483648

/-- A write that appends finds the log's entry of the producer as the gate saw the
tracker's, and the epoch has not used up its sequences. -/
def Unraced (s : Produces ρ) (op : ProduceOp ρ) (_ : Produces ρ) : Prop :=
  match op with
  | .write i => ∀ r ∈ s.admitted[i]?, writerAnswer s.log r.batch r.guard = .appended →
      0 ≤ r.batch.producerId → r.seen = s.log.facts r.batch.producerId ∧
        records (ofEpoch r.batch.producerId r.batch.producerEpoch s.log.batches) +
          recordCount r.batch ≤ sequences
  | _ => True

/-! ## The invariant -/

/-- The entry that the last batch of a producer leaves. -/
def lastFacts (b : RecordBatch ρ) : EntryFacts :=
  (b.producerEpoch, incrementSequence b.baseSequence b.lastOffsetDelta)

/-- What the log holds, and what its entries say of it. -/
structure LogInv (l : LeaderLog ρ) : Prop where
  delta_nonneg : ∀ b ∈ l.batches, 0 ≤ b.lastOffsetDelta
  epochs : l.batches.Pairwise fun a b => SameProducer a b → a.producerEpoch ≤ b.producerEpoch
  contiguous : ∀ producerId epoch, 0 ≤ producerId →
    (ofEpoch producerId epoch l.batches).IsChain NextSequence
  total : ∀ producerId epoch, 0 ≤ producerId →
    records (ofEpoch producerId epoch l.batches) ≤ sequences
  facts : ∀ producerId, 0 ≤ producerId →
    l.facts producerId = (ofProducer producerId l.batches).getLast?.map lastFacts

structure Inv (s : Produces ρ) : Prop where
  log : LogInv s.log
  verified : ∀ r ∈ s.verified, Admissible r.batch
  admitted : ∀ r ∈ s.admitted, Admissible r.batch ∧
    (0 ≤ r.batch.producerId → Continues r.seen r.batch.producerEpoch r.batch.baseSequence)

variable {l : LeaderLog ρ} {b : RecordBatch ρ} {batches : List (RecordBatch ρ)}
  {producerId epoch : Int}

theorem mem_ofProducer :
    b ∈ ofProducer producerId batches ↔ b ∈ batches ∧ b.producerId = producerId := by
  simp [ofProducer]

theorem ofProducer_concat (producerId : Int) (batches : List (RecordBatch ρ)) (b : RecordBatch ρ) :
    ofProducer producerId (batches ++ [b]) =
      ofProducer producerId batches ++ if b.producerId = producerId then [b] else [] := by
  unfold ofProducer
  rw [filter_append]
  congr 1
  split
  · rename_i h
    simp [h]
  · rename_i h
    simp [h]

theorem ofEpoch_concat (producerId epoch : Int) (batches : List (RecordBatch ρ))
    (b : RecordBatch ρ) :
    ofEpoch producerId epoch (batches ++ [b]) = ofEpoch producerId epoch batches ++
      if b.producerId = producerId ∧ b.producerEpoch = epoch then [b] else [] := by
  unfold ofEpoch
  rw [ofProducer_concat, filter_append]
  congr 1
  by_cases hproducer : b.producerId = producerId
  · by_cases hepoch : b.producerEpoch = epoch <;> simp [hproducer, hepoch]
  · simp [hproducer]

theorem records_concat (batches : List (RecordBatch ρ)) (b : RecordBatch ρ) :
    records (batches ++ [b]) = records batches + recordCount b := by
  simp [records]

theorem LogInv.epoch_le_last (h : LogInv l) (hknown : 0 ≤ producerId) {last : RecordBatch ρ}
    (hlast : (ofProducer producerId l.batches).getLast? = some last) {a : RecordBatch ρ}
    (ha : a ∈ ofProducer producerId l.batches) : a.producerEpoch ≤ last.producerEpoch := by
  have hsorted : (ofProducer producerId l.batches).Pairwise fun a b =>
      SameProducer a b → a.producerEpoch ≤ b.producerEpoch := h.epochs.filter _
  obtain ⟨older, hsplit⟩ := getLast?_eq_some_iff.mp hlast
  have hlastMem := (mem_ofProducer.mp (mem_of_getLast? hlast)).2
  have hsame : SameProducer a last := by
    have hproducer := (mem_ofProducer.mp ha).2
    exact ⟨by omega, by omega⟩
  rw [hsplit] at ha hsorted
  rcases mem_append.mp ha with ha | ha
  · exact (pairwise_append.mp hsorted).2.2 a ha last mem_cons_self hsame
  · rw [mem_singleton.mp ha]

theorem LogInv.follows (h : LogInv l) (hknown : 0 ≤ b.producerId)
    (hnext : Continues (l.facts b.producerId) b.producerEpoch b.baseSequence) :
    (∀ a ∈ ofProducer b.producerId l.batches, a.producerEpoch ≤ b.producerEpoch) ∧
      ∀ a ∈ (ofEpoch b.producerId b.producerEpoch l.batches).getLast?, NextSequence a b := by
  rw [h.facts b.producerId hknown] at hnext
  cases hlast : (ofProducer b.producerId l.batches).getLast? with
  | none =>
    have hnil := getLast?_eq_none_iff.mp hlast
    unfold ofEpoch
    rw [hnil]
    exact ⟨fun _ ha => absurd ha not_mem_nil, fun _ ha => absurd ha (by simp)⟩
  | some last =>
    rw [hlast] at hnext
    have hmax : ∀ a ∈ ofProducer b.producerId l.batches, a.producerEpoch ≤ last.producerEpoch :=
      fun a ha => h.epoch_le_last hknown hlast ha
    rcases hnext with hnewer | ⟨hsame, hbase⟩
    · have hnewer' : last.producerEpoch < b.producerEpoch := hnewer
      refine ⟨fun a ha => (hmax a ha).trans hnewer'.le, ?_⟩
      -- the epoch has no batch yet
      intro a ha
      obtain ⟨hmem, hepoch⟩ := mem_filter.mp (mem_of_getLast? ha)
      have hle := hmax a hmem
      have hepoch' : a.producerEpoch = b.producerEpoch := by simpa using hepoch
      omega
    · have hsame' : last.producerEpoch = b.producerEpoch := hsame
      refine ⟨fun a ha => (hmax a ha).trans hsame'.le, ?_⟩
      intro a ha
      obtain ⟨older, hsplit⟩ := getLast?_eq_some_iff.mp hlast
      have heq : a = last := by
        unfold ofEpoch at ha
        rw [hsplit, filter_append, filter_cons_of_pos (by simpa using hsame')] at ha
        simpa using ha.symm
      rw [heq]
      exact hbase

@[simp] theorem append_batches (l : LeaderLog ρ) (b : RecordBatch ρ) :
    (l.append b).batches = l.batches ++ [l.placed b] := by
  unfold LeaderLog.append
  dsimp only
  split <;> rfl

theorem append_facts (hadmissible : Admissible b) (hknown : 0 ≤ producerId) :
    (l.append b).facts producerId =
      if b.producerId = producerId then some (lastFacts b) else l.facts producerId := by
  have hproducer : (l.placed b).producerId = b.producerId := rfl
  have hsequence : (l.placed b).baseSequence = b.baseSequence := rfl
  unfold LeaderLog.append LeaderLog.facts
  by_cases hnegative : b.producerId < 0
  · rw [if_pos (.inl hnegative), if_neg (by omega)]
  · have hbase := hadmissible.sequence (not_lt.mp hnegative)
    rw [if_neg (by omega)]
    unfold updateDataProducerEntry
    rw [if_neg (by omega), SortedMap.get?_insert]
    by_cases hsame : producerId = b.producerId
    · rw [if_pos (hsame.trans hproducer.symm), if_pos hsame.symm]
      rfl
    · rw [if_neg (fun heq => hsame (heq.trans hproducer)), if_neg (fun heq => hsame heq.symm)]

theorem LogInv.append (h : LogInv l) (hadmissible : Admissible b)
    (hnext : 0 ≤ b.producerId → Continues (l.facts b.producerId) b.producerEpoch b.baseSequence)
    (htotal : 0 ≤ b.producerId →
      records (ofEpoch b.producerId b.producerEpoch l.batches) + recordCount b ≤ sequences) :
    LogInv (l.append b) := by
  have hproducer : (l.placed b).producerId = b.producerId := rfl
  have hepoch : (l.placed b).producerEpoch = b.producerEpoch := rfl
  refine ⟨?_, ?_, ?_, ?_, ?_⟩
  · intro a ha
    rw [append_batches] at ha
    rcases mem_append.mp ha with ha | ha
    · exact h.delta_nonneg a ha
    · rw [mem_singleton.mp ha]
      exact hadmissible.delta_nonneg
  · rw [append_batches, pairwise_append]
    refine ⟨h.epochs, pairwise_singleton .., ?_⟩
    intro a ha c hc hsame
    rw [mem_singleton.mp hc] at hsame ⊢
    have hknown : 0 ≤ b.producerId := by
      have hnonneg := hsame.1
      have heq := hsame.2
      omega
    exact (h.follows hknown (hnext hknown)).1 a (mem_ofProducer.mpr ⟨ha, hsame.2⟩)
  · intro producerId epoch hknown
    rw [append_batches, ofEpoch_concat]
    split
    · rename_i hmatch
      obtain ⟨rfl, rfl⟩ : b.producerId = producerId ∧ b.producerEpoch = epoch := hmatch
      rw [isChain_append]
      refine ⟨h.contiguous _ _ hknown, isChain_singleton _, ?_⟩
      intro a ha c hc
      obtain rfl : c = l.placed b := by simpa using hc.symm
      exact (h.follows hknown (hnext hknown)).2 a ha
    · rw [append_nil]
      exact h.contiguous producerId epoch hknown
  · intro producerId epoch hknown
    rw [append_batches, ofEpoch_concat]
    split
    · rename_i hmatch
      obtain ⟨rfl, rfl⟩ : b.producerId = producerId ∧ b.producerEpoch = epoch := hmatch
      rw [records_concat]
      exact htotal hknown
    · rw [append_nil]
      exact h.total producerId epoch hknown
  · intro producerId hknown
    rw [append_facts hadmissible hknown, append_batches, ofProducer_concat, hproducer]
    split
    · rw [getLast?_concat]
      rfl
    · rw [append_nil]
      exact h.facts producerId hknown

theorem forall_mem_eraseIdx {α : Type} {P : α → Prop} {xs : List α} (h : ∀ x ∈ xs, P x) (i : Nat) :
    ∀ x ∈ xs.eraseIdx i, P x := fun x hx => h x (mem_of_mem_eraseIdx hx)

theorem forall_mem_concat {α : Type} {P : α → Prop} {xs : List α} {y : α} (h : ∀ x ∈ xs, P x)
    (hy : P y) : ∀ x ∈ xs ++ [y], P x := by
  intro x hx
  rcases mem_append.mp hx with hx | hx
  · exact h x hx
  · exact mem_singleton.mp hx ▸ hy

/-! ## Steps -/

variable {s s' : Produces ρ}

theorem verification_frame {supports : Bool} {now expiration : Int} {l' : LeaderLog ρ} {guard : Nat}
    (h : l.maybeStartTransactionVerification b supports now expiration = .ok (l', guard)) :
    l'.batches = l.batches ∧ l'.producers = l.producers ∧ l'.earlier = l.earlier := by
  unfold LeaderLog.maybeStartTransactionVerification at h
  split at h
  · cases h
  · split at h <;> obtain ⟨rfl, -⟩ := Prod.mk.inj (Except.ok.inj h) <;> exact ⟨rfl, rfl, rfl⟩

theorem LogInv.congr {l' : LeaderLog ρ} (h : LogInv l) (hbatches : l'.batches = l.batches)
    (hproducers : l'.producers = l.producers) : LogInv l' := by
  refine ⟨hbatches ▸ h.delta_nonneg, hbatches ▸ h.epochs, hbatches ▸ h.contiguous,
    hbatches ▸ h.total, ?_⟩
  intro producerId hknown
  unfold LeaderLog.facts
  rw [hproducers, hbatches]
  exact h.facts producerId hknown

theorem verify_cases {supports : Bool} {now expiration : Int} {named : Bool}
    (h : s.verify b supports now expiration named = some s') :
    ∃ log guard, (log.batches = s.log.batches ∧ log.producers = s.log.producers ∧
        log.earlier = s.log.earlier) ∧
      s' = { s with log := log, verified := s.verified ++ [⟨b, guard⟩] } := by
  unfold Produces.verify at h
  split at h
  · split at h
    · cases h
    · exact ⟨s.log, _, ⟨rfl, rfl, rfl⟩, (Option.some.inj h).symm⟩
  · split at h
    · exact ⟨s.log, _, ⟨rfl, rfl, rfl⟩, (Option.some.inj h).symm⟩
    · split at h
      · cases h
      · rename_i log guard hverified
        exact ⟨log, _, verification_frame hverified, (Option.some.inj h).symm⟩

theorem gate_cases (s : Produces ρ) (i : Nat) (unstable : Bool) (r : Request ρ) :
    s.gate i unstable r = { s with verified := s.verified.eraseIdx i } ∨
      ∃ seen, seen = (s.tracker.get? r.batch.producerId).map ProducerEntry.facts ∧
        (0 ≤ r.batch.producerId → Continues seen r.batch.producerEpoch r.batch.baseSequence) ∧
        s.gate i unstable r = { s with
          verified := s.verified.eraseIdx i, admitted := s.admitted ++ [⟨r, seen⟩] } := by
  unfold Produces.gate
  dsimp only
  split
  · rename_i hnegative
    exact .inr ⟨_, rfl, fun hknown => absurd hnegative (not_lt.mpr hknown), rfl⟩
  · split
    · rename_i hdecision
      exact .inr ⟨_, rfl, fun _ => continues_of_checkRetained hdecision, rfl⟩
    · exact .inl rfl

theorem Inv.gate (h : Inv s) {r : Request ρ} (hr : r ∈ s.verified) (i : Nat) (unstable : Bool) :
    Inv (s.gate i unstable r) := by
  have hrest : ∀ x ∈ s.verified.eraseIdx i, Admissible x.batch := forall_mem_eraseIdx h.verified i
  rcases gate_cases s i unstable r with heq | ⟨seen, -, hnext, heq⟩
  · rw [heq]
    exact ⟨h.log, hrest, h.admitted⟩
  · rw [heq]
    exact ⟨h.log, hrest, forall_mem_concat h.admitted ⟨h.verified r hr, hnext⟩⟩

theorem Inv.write (h : Inv s) {i : Nat} {r : Admitted ρ} (hr : s.admitted[i]? = some r)
    (hok : Unraced s (.write i) s') : Inv (s.write i r) := by
  have hmem := mem_of_getElem? hr
  obtain ⟨hadmissible, hcontinues⟩ := h.admitted r hmem
  have hrest := forall_mem_eraseIdx h.admitted i
  unfold Produces.write
  cases hanswer : writerAnswer s.log r.batch r.guard with
  | duplicate | refused => exact ⟨h.log, h.verified, hrest⟩
  | appended =>
    have hunraced : 0 ≤ r.batch.producerId → r.seen = s.log.facts r.batch.producerId ∧
        records (ofEpoch r.batch.producerId r.batch.producerEpoch s.log.batches) +
          recordCount r.batch ≤ sequences := hok r hr hanswer
    refine ⟨h.log.append hadmissible ?_ (fun hknown => (hunraced hknown).2), h.verified, hrest⟩
    intro hknown
    rw [← (hunraced hknown).1]
    exact hcontinues hknown

variable {op : ProduceOp ρ}

theorem Inv.step (h : Inv s) (hstep : s.step op = some s') (hok : Unraced s op s') : Inv s' := by
  cases op with
  | receive b supports now expiration named =>
    unfold Produces.step at hstep
    dsimp only at hstep
    split at hstep
    · rename_i hadmissible
      obtain ⟨log, guard, ⟨hbatches, hproducers, -⟩, rfl⟩ := verify_cases hstep
      exact ⟨h.log.congr hbatches hproducers, forall_mem_concat h.verified hadmissible, h.admitted⟩
    · cases hstep
  | gate i unstable =>
    obtain ⟨r, hr, rfl⟩ := Option.map_eq_some_iff.mp hstep
    exact h.gate (mem_of_getElem? hr) i unstable
  | write i =>
    obtain ⟨r, hr, rfl⟩ := Option.map_eq_some_iff.mp hstep
    exact h.write hr hok
  | commit i =>
    obtain ⟨a, ha, rfl⟩ := Option.map_eq_some_iff.mp hstep
    exact ⟨h.log, h.verified, h.admitted⟩
  | dropVerified i =>
    cases hstep
    exact ⟨h.log, forall_mem_eraseIdx h.verified i, h.admitted⟩
  | dropAdmitted i =>
    cases hstep
    exact ⟨h.log, h.verified, forall_mem_eraseIdx h.admitted i⟩
  | dropAnswered i =>
    cases hstep
    exact ⟨h.log, h.verified, h.admitted⟩

theorem inv_empty : Inv (Produces.empty : Produces ρ) where
  log :=
    { delta_nonneg := fun b hb => absurd hb not_mem_nil
      epochs := .nil
      contiguous := fun _ _ _ => .nil
      total := fun _ _ _ => show (0 : Int) ≤ sequences by decide
      facts := fun _ _ => rfl }
  verified := fun r hr => absurd hr not_mem_nil
  admitted := fun r hr => absurd hr not_mem_nil

theorem inv_of_reachable {Sent : RecordBatch ρ → Prop}
    (h : ((produces Sent).restrict Unraced).Reachable s) : Inv s := by
  refine h.invariant ?_ ?_
  · rintro s rfl
    exact inv_empty
  · rintro s op s' hinv ⟨⟨hstep, -⟩, hok⟩
    exact hinv.step hstep hok

/-! ## The log -/

theorem follows_of_nextSequence {a b : RecordBatch ρ} (h : NextSequence a b) :
    Cycle.Follows sequences RecordBatch.baseSequence recordCount a b := by
  unfold NextSequence incrementSequence at h
  unfold Cycle.Follows sequences recordCount
  rw [h, Int.emod_add_emod, add_assoc]

theorem LogInv.once (h : LogInv l) :
    l.batches.Pairwise fun a b => SameProducer a b → a.producerEpoch = b.producerEpoch →
      a.baseSequence ≠ b.baseSequence := by
  rw [pairwise_iff_forall_sublist]
  intro a b hsub hsame hepoch
  have hchain : (ofEpoch a.producerId a.producerEpoch l.batches).IsChain
      (Cycle.Follows sequences RecordBatch.baseSequence recordCount) :=
    (h.contiguous _ _ hsame.1).imp fun _ _ => follows_of_nextSequence
  have harcs : (ofEpoch a.producerId a.producerEpoch l.batches).Pairwise
      fun a b => a.baseSequence ≠ b.baseSequence := by
    refine Cycle.pairwise_start_ne hchain ?_ (h.total _ _ hsame.1)
    intro c hc
    have hin := (mem_ofProducer.mp (mem_filter.mp hc).1).1
    have hdelta := h.delta_nonneg c hin
    unfold recordCount
    omega
  rw [pairwise_iff_forall_sublist] at harcs
  refine harcs ?_
  have hfiltered : (ofEpoch a.producerId a.producerEpoch [a, b]).Sublist
      (ofEpoch a.producerId a.producerEpoch l.batches) := (hsub.filter _).filter _
  have hpair : ofEpoch a.producerId a.producerEpoch [a, b] = [a, b] := by
    simp [ofEpoch, ofProducer, hsame.2.symm, hepoch.symm]
  rwa [hpair] at hfiltered

/-- In every run whose writes find the producer's entry as their gate saw it, the
log holds no batch of a producer's epoch twice, the epochs of a producer never go
down, and each batch of an epoch starts where the one before it ends. -/
theorem written_once_in_order {Sent : RecordBatch ρ → Prop}
    (h : ((produces Sent).restrict Unraced).Reachable s) : WrittenOnceInOrder s.log.batches := by
  have hinv := (inv_of_reachable h).log
  exact ⟨hinv.once, hinv.epochs, hinv.contiguous⟩

/-! ## Runs -/

instance (s : Produces ρ) (op : ProduceOp ρ) (s' : Produces ρ) : Decidable (Unraced s op s') :=
  match op with
  | .write i =>
    match h : s.admitted[i]? with
    | none => .isTrue fun r hr => by
        rw [h] at hr
        cases hr
    | some r =>
      decidable_of_iff (writerAnswer s.log r.batch r.guard = .appended →
        0 ≤ r.batch.producerId → r.seen = s.log.facts r.batch.producerId ∧
          records (ofEpoch r.batch.producerId r.batch.producerEpoch s.log.batches) +
            recordCount r.batch ≤ sequences) <| by
        constructor
        · intro hr x hx
          rw [h, Option.mem_some_iff] at hx
          exact hx ▸ hr
        · intro hall
          exact hall r (by rw [h]; rfl)
  | .receive .. => .isTrue trivial
  | .gate .. => .isTrue trivial
  | .commit _ => .isTrue trivial
  | .dropVerified _ => .isTrue trivial
  | .dropAdmitted _ => .isTrue trivial
  | .dropAnswered _ => .isTrue trivial

def Sends (sent : List (RecordBatch ρ)) : ProduceOp ρ → Prop
  | .receive b .. => b ∈ sent
  | _ => True

instance [DecidableEq ρ] (sent : List (RecordBatch ρ)) (op : ProduceOp ρ) :
    Decidable (Sends sent op) := by
  cases op <;> unfold Sends <;> infer_instance

theorem produces_step {sent : List (RecordBatch ρ)} (hstep : s.step op = some s')
    (hsends : Sends sent op) : (produces (· ∈ sent)).step s op s' := by
  refine ⟨hstep, ?_⟩
  rintro b _ _ _ _ rfl
  exact hsends

def clientBatch (producerId epoch sequence : Int) : RecordBatch Unit where
  baseOffset := 0
  lastOffsetDelta := 0
  partitionLeaderEpoch := 0
  maxTimestamp := 0
  producerId
  producerEpoch := epoch
  baseSequence := sequence
  isTransactional := false
  deleteHorizonMs := none
  payload := .data [()]
  bodyLen := 10

def sentBatches : List (RecordBatch Unit) :=
  [clientBatch 7 0 0, clientBatch 7 0 1, clientBatch 7 0 2, clientBatch 7 0 3, clientBatch 7 0 4,
    clientBatch 7 0 5, clientBatch 7 1 0, clientBatch 8 0 0, clientBatch 8 0 1]

def arrives (producerId epoch sequence : Int) : ProduceOp Unit :=
  .receive (clientBatch producerId epoch sequence) false 0 0 false

def after (ops : List (ProduceOp Unit)) : Produces Unit :=
  runAll Produces.step (fun _ op => Sends sentBatches op) .empty ops

theorem after_reachable (ops : List (ProduceOp Unit)) :
    (produces (· ∈ sentBatches)).Reachable (after ops) :=
  .runAll (.init rfl) fun _ _ _ => produces_step

def afterUnraced (ops : List (ProduceOp Unit)) : Produces Unit :=
  runAll Produces.step (fun s op => Sends sentBatches op ∧ Unraced s op s) .empty ops

theorem afterUnraced_reachable (ops : List (ProduceOp Unit)) :
    ((produces (· ∈ sentBatches)).restrict Unraced).Reachable (afterUnraced ops) :=
  .runAll (.init rfl) fun _ _ _ hstep hok => ⟨produces_step hstep hok.1, hok.2⟩

/-- The first batches of two producers are written in the other order than they
arrived; one is retried after its commit, the next batch of its producer has a copy
that also passes the gate, and then the producer begins a new epoch. -/
def interleaved : List (ProduceOp Unit) :=
  [arrives 7 0 0, arrives 8 0 0, .gate 0 false, .gate 0 false, .write 1, .write 0, .commit 1,
    .commit 0, arrives 7 0 0, .gate 0 false, arrives 7 0 1, arrives 7 0 1, arrives 8 0 1,
    .gate 0 false, .gate 0 false, .gate 0 false, .write 0, .write 1, .write 0, .commit 0, .commit 0,
    .commit 0, arrives 7 1 0, .gate 0 false, .write 0, .commit 0]

theorem written_once_in_order_interleaved :
    let batches := (afterUnraced interleaved).log.batches
    batches.map (fun b => (b.producerId, b.producerEpoch, b.baseSequence)) =
        [(8, 0, 0), (7, 0, 0), (7, 0, 1), (8, 0, 1), (7, 1, 0)] ∧ WrittenOnceInOrder batches :=
  ⟨by decide +kernel, written_once_in_order (afterUnraced_reachable _)⟩

/-- Two copies of the first batch pass the gate; five batches are written between
them. -/
def heldCopy : List (ProduceOp Unit) :=
  [arrives 7 0 0, arrives 7 0 0, .gate 0 false, .gate 0 false, .write 0, .commit 0] ++
  ([1, 2, 3, 4, 5].flatMap fun sequence =>
    [arrives 7 0 sequence, .gate 0 false, .write 1, .commit 0]) ++
  [.write 0]

/-- A batch of epoch 0 passes the gate and is written after one of epoch 1. -/
def heldEpoch : List (ProduceOp Unit) :=
  [arrives 7 0 0, .gate 0 false, arrives 7 1 0, .gate 0 false, .write 1, .write 0]

/-- The first two batches of a producer pass the gate before either is written. -/
def firstTwo : List (ProduceOp Unit) :=
  [arrives 7 0 0, arrives 7 0 1, .gate 0 false, .gate 0 false, .write 1, .write 0]

theorem noReuse_sentBatches : NoReuse (· ∈ sentBatches) := by
  have hsingle : ∀ b ∈ sentBatches, b.lastOffsetDelta = 0 := by decide
  have hdistinct : ∀ b ∈ sentBatches, ∀ b' ∈ sentBatches, b.producerId = b'.producerId →
      b.producerEpoch = b'.producerEpoch →
        incrementSequence b.baseSequence 0 = incrementSequence b'.baseSequence 0 → b = b' := by
    decide
  rintro b b' hb hb' - hproducer hepoch sequence ⟨k, hk, hkle, rfl⟩ ⟨j, hj, hjle, heq⟩
  have hdelta := hsingle b hb
  have hdelta' := hsingle b' hb'
  obtain rfl : k = 0 := by omega
  obtain rfl : j = 0 := by omega
  exact hdistinct b hb b' hb' hproducer hepoch heq.symm

/-- Producers that never reuse a sequence, and runs that write a batch twice, an
epoch after a newer one, and a sequence after a later one. -/
theorem raced_writes :
    NoReuse (· ∈ sentBatches) ∧
    (∃ s : Produces Unit, (produces (· ∈ sentBatches)).Reachable s ∧
      ¬ s.log.batches.Pairwise fun a b => SameProducer a b → a.producerEpoch = b.producerEpoch →
        a.baseSequence ≠ b.baseSequence) ∧
    (∃ s : Produces Unit, (produces (· ∈ sentBatches)).Reachable s ∧
      ¬ s.log.batches.Pairwise fun a b => SameProducer a b → a.producerEpoch ≤ b.producerEpoch) ∧
    ∃ s : Produces Unit, (produces (· ∈ sentBatches)).Reachable s ∧
      ¬ (ofEpoch 7 0 s.log.batches).IsChain NextSequence := by
  refine ⟨noReuse_sentBatches, ?_, ?_, ?_⟩
  · exact ⟨_, after_reachable heldCopy, by decide +kernel⟩
  · exact ⟨_, after_reachable heldEpoch, by decide +kernel⟩
  · exact ⟨_, after_reachable firstTwo, by decide +kernel⟩

end Krabka.Produce
