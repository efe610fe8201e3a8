import Krabka.Share.Lifecycle
import Krabka.ShareCoordinator.StateMachine

/-!
# Share state across a change of the leader

A share-partition leader keeps its window in memory and writes it to the
coordinator, which merges every write into what it has stored.  `Session` puts
the two together: the leader's window, the coordinator's state of the key, and
the window as it was at the last write.

The coordinator never replaces a batch, so that a read gives the last write back
only if the leader never moves an offset down in the order of the merge.
`turn_priority_le` says that it does not.  With that, what is stored is the last
write, offset by offset (`Session.Survives.written`), and `load_from` restores
it (`Stores.restored`).
-/

namespace Krabka.ShareCoordinator

open Krabka.Share Run AcquisitionState RecordState Option

/-! ## Offsets in the order of the merge -/

/-- The priority that a delivery is written with. -/
def deliveryPriority (d : Delivery) : BatchPriority := priority d.deliveryCount d.state.code

/-- The delivery that is restored from a priority. -/
def deliveryOf (p : BatchPriority) : Delivery := ⟨.ofCode (ofLex p).2, (ofLex p).1, none, none⟩

theorem deliveryPriority_reread (d : Delivery) :
    deliveryPriority d.reread = deliveryPriority d := by
  have hcode : (ofCode d.state.code).code = d.state.code := by
    cases d.state <;> decide
  show priority d.deliveryCount (ofCode d.state.code).code = _
  rw [hcode]
  rfl

theorem reread_isTerminal (d : Delivery) : d.reread.isTerminal = d.isTerminal := by
  show (ofCode d.state.code).isTerminal = d.state.isTerminal
  cases d.state <;> decide

theorem priority_le {c c' e e' : Int} (h : c < c' ∨ c = c' ∧ e ≤ e') :
    priority c e ≤ priority c' e' :=
  Prod.Lex.toLex_le_toLex.mpr h

/-- **No turn moves an offset down.** -/
theorem turn_priority_le {kind : TurnKind} {k k' : ArchiveSink} {b : InFlightBatch} {v : Delivery}
    (h : Turn kind k b v k') : deliveryPriority b.value ≤ deliveryPriority v := by
  have hcode : ∀ state : RecordState, 0 ≤ state.code ∧ state.code ≤ dsArchived := by
    intro state
    cases state <;> decide
  have hle : ∀ {d d' : Delivery}, d'.deliveryCount = d.deliveryCount →
      d.state.code ≤ d'.state.code → deliveryPriority d ≤ deliveryPriority d' :=
    fun hcount hstate => priority_le (.inr ⟨hcount.symm, hstate⟩)
  cases h with
  | acquire member deadline _ => exact priority_le (.inl (by dsimp only; omega))
  | archive | finish => exact hle rfl (hcode _).2
  | queue cause _ hstate =>
    refine hle rfl (show b.value.state.code ≤ dsArchiving from ?_)
    rcases hstate with h | h <;> rw [h] <;> decide
  | settle state _ hstate => exact hle rfl (by rw [hstate]; exact (hcode state).1)
  | release hstate | defer hstate | promote hstate =>
    exact hle rfl (show b.value.state.code ≤ dsAvailable by rw [hstate]; decide)
  | renew deadline hstate => exact le_rfl

theorem priorityAt_persisted (s : AcquisitionState) (o : Int) :
    priorityAt (s.batches.map persistBatch) o = (s.cell o).map deliveryPriority := by
  rw [priorityAt, List.map_map]
  exact lookup_mapValue deliveryPriority s.batches o

theorem inOrder_persisted {s : AcquisitionState} (hv : Valid s) :
    InOrder (s.batches.map persistBatch) := by
  rw [InOrder, List.map_map]
  exact ((tiles_mapValue deliveryPriority).mpr hv.tiles).ordered

/-! ## The session -/

/-- `append_state_record` after the append. -/
def SharePartitionState.applyRecord (config : ShareCoordinatorConfig) (st : SharePartitionState)
    (offset : Int) : StateRecord → SharePartitionState
  | .snapshot v => st.applySnapshot v offset config.snapshotUpdateRecordsPerSnapshot
  | .update v => st.applyUpdate v

/-- The write of `persist_if_dirty`. -/
def shareWrite (s : AcquisitionState) : ShareWrite :=
  let (start, count, batches) := s.toPersistBatches
  ⟨s.stateEpoch, s.leaderEpoch, start, count, batches⟩

/-- The window that a leader makes from what it read (`get_or_load`); `start` is
where the group's strategy starts a partition that has no start offset yet. -/
def resumeCell (persisted : SharePartitionState) (leaderEpoch start : Int) : AcquisitionState :=
  if persisted.startOffset ≥ 0 then
    (new persisted.startOffset).loadFrom persisted.startOffset
      persisted.stateEpoch leaderEpoch persisted.stateBatches
  else { new start with
    stateEpoch := persisted.stateEpoch, leaderEpoch := leaderEpoch }

/-- The leader, the coordinator, and the leader at its last write. -/
structure Session where
  leader : AcquisitionState
  store : SharePartitionState
  lastWrite : Option AcquisitionState

inductive SessionAction
  | op (op : Op)
  | write (image : MetadataImage) (now offset : Int)
  | coldSnapshot (now offset : Int)
  /-- Another leader reads the state and loads it. -/
  | change (image : MetadataImage) (now offset leaderEpoch start : Int)

section

variable (config : ShareCoordinatorConfig) (key : StateKey)

def Session.run (w : Session) : SessionAction → Session
  | .op operation => { w with leader := operation.run w.leader }
  | .write image now offset =>
    match writeRecord config now (some w.store) image key (shareWrite w.leader) with
    | .ok (some r) =>
      { leader := { w.leader with dirty := false }
        store := w.store.applyRecord config offset r
        lastWrite := some w.leader }
    | _ => w
  | .coldSnapshot now offset =>
    if now - w.store.writeTimestamp < config.coldPartitionSnapshotInterval then w
    else
      let snapshot := w.store.toSnapshot (wrap (w.store.snapshotEpoch + 1)) now
      { w with store := w.store.applyRecord config offset (.snapshot snapshot) }
  | .change image now offset leaderEpoch start =>
    match readRecord config now (some w.store) image key leaderEpoch with
    | .ok record =>
      { w with
        leader := resumeCell w.store leaderEpoch start
        store := record.elim w.store (w.store.applyRecord config offset) }
    | .error _ => w

/-- The offsets of a log are not negative. -/
def SessionAction.Enabled : SessionAction → Prop
  | .change _ _ _ _ start => 0 ≤ start
  | _ => True

/-- Sessions under one state epoch: they start with a state that an initialize
has written and the leader that reads it. -/
def session : TransitionSystem Session SessionAction where
  init w := w.store.stateBatches = [] ∧ w.lastWrite = none ∧
    ∃ leaderEpoch start, 0 ≤ start ∧ w.leader = resumeCell w.store leaderEpoch start
  step w a w' := a.Enabled ∧ w' = w.run config key a

end

/-! ## What the coordinator stores -/

/-- The batches say of every offset what the window says of it. -/
structure Stores (st : SharePartitionState) (s : AcquisitionState) : Prop where
  valid : Valid s
  nonneg : 0 ≤ s.startOffset
  startOffset : st.startOffset = s.startOffset
  inOrder : InOrder st.stateBatches
  priorities : ∀ o, priorityAt st.stateBatches o = (s.cell o).map deliveryPriority

section

variable {st : SharePartitionState} {s : AcquisitionState}

theorem Stores.tiles (h : Stores st s) :
    Tiles (st.stateBatches.map batchRun) s.startOffset s.endOffset := by
  refine h.inOrder.tiles h.valid.tiles.le fun o => ?_
  have hat := h.priorities o
  rw [priorityAt] at hat
  rw [hat, isSome_map]
  constructor
  · intro hsome
    obtain ⟨d, hd⟩ := isSome_iff_exists.mp hsome
    exact h.valid.tiles.lookup_bounds hd
  · rintro ⟨hlow, hhigh⟩
    obtain ⟨d, hd⟩ := h.valid.tiles.lookup_isSome hlow hhigh
    exact isSome_iff_exists.mpr ⟨d, hd⟩

/-- `load_from` before it moves the start offset. -/
def loaded (st : SharePartitionState) (fresh : AcquisitionState) (leaderEpoch : Int) :
    AcquisitionState :=
  fresh.restored st.startOffset st.stateEpoch leaderEpoch st.stateBatches

theorem loaded_batches (st : SharePartitionState) (fresh : AcquisitionState) (leaderEpoch : Int) :
    (loaded st fresh leaderEpoch).batches =
      (st.stateBatches.map batchRun).map (mapValue deliveryOf) := by
  rw [List.map_map]
  rfl

/-- **A load restores the window**, with the locks gone. -/
theorem Stores.restored (h : Stores st s) (fresh : AcquisitionState) (leaderEpoch : Int) :
    Valid (loaded st fresh leaderEpoch) ∧
      (loaded st fresh leaderEpoch).startOffset = s.startOffset ∧
      (loaded st fresh leaderEpoch).endOffset = s.endOffset ∧
      ∀ o, (loaded st fresh leaderEpoch).cell o = (s.cell o).map Delivery.reread := by
  have hbatches := loaded_batches st fresh leaderEpoch
  have htiles : Tiles (loaded st fresh leaderEpoch).batches s.startOffset s.endOffset := by
    rw [hbatches]
    exact (tiles_mapValue deliveryOf).mpr h.tiles
  have hend : (loaded st fresh leaderEpoch).endOffset = s.endOffset := by
    have hmax := htiles.foldl_max
    rw [← h.startOffset] at hmax
    exact hmax
  refine ⟨⟨?_, fun b hb => ?_⟩, h.startOffset, hend, fun o => ?_⟩
  · rw [hend]
    show Tiles (loaded st fresh leaderEpoch).batches st.startOffset s.endOffset
    rw [h.startOffset]
    exact htiles
  · rw [hbatches] at hb
    obtain ⟨r, hr, rfl⟩ := List.mem_map.mp hb
    have hne : ofCode (ofLex r.value).2 ≠ .acquired := by
      unfold ofCode
      split_ifs <;> simp
    exact ⟨by simpa [mapValue, deliveryOf] using hne, by simpa [mapValue, deliveryOf] using hne⟩
  · have hat := h.priorities o
    rw [priorityAt] at hat
    rw [cell, hbatches, lookup_mapValue, hat, map_map]
    rfl

theorem advanceSpso_startOffset_congr {t : AcquisitionState} (hs : Valid s) (ht : Valid t)
    (hstart : t.startOffset = s.startOffset) (hend : t.endOffset = s.endOffset)
    (hterm : ∀ o, IsTerminal t o ↔ IsTerminal s o) :
    t.advanceSpso.startOffset = s.advanceSpso.startOffset := by
  -- One start cannot lie below the other: its offset would be live and terminal.
  have hle : ∀ {s t : AcquisitionState}, Valid s → Valid t → t.startOffset = s.startOffset →
      t.endOffset = s.endOffset → (∀ o, IsTerminal t o → IsTerminal s o) →
      t.advanceSpso.startOffset ≤ s.advanceSpso.startOffset := by
    intro s t hs ht hstart hend hterm
    obtain ⟨done, rest, hp⟩ := advanceSpso_prunes hs.tiles
    obtain ⟨done', rest', hp'⟩ := advanceSpso_prunes ht.tiles
    by_contra hlt
    have hlow := hp.start_le
    have hle' := (hp'.tiles_after ht.tiles).le
    have hend' := hp'.endOffset
    have hend'' := hp.endOffset
    obtain ⟨d, hd, hdterm⟩ := hterm s.advanceSpso.startOffset
      (hp'.lookup_below (by omega) (by omega))
    -- The first offset of the pruned window belongs to its first run.
    have htiles := hp.tiles_after hs.tiles
    have hlive := hp.head hs.tiles
    have habove := hp.lookup_above hs.tiles (le_refl s.advanceSpso.startOffset)
    rw [show lookup s.batches _ = some d from hd] at habove
    cases hcons : s.advanceSpso.batches with
    | nil =>
      rw [hcons] at habove
      exact absurd habove (by simp [lookup])
    | cons b tail =>
      rw [hcons] at htiles habove hlive
      obtain ⟨hfirst, hne, -⟩ := htiles
      rw [lookup_of_covers ⟨le_of_eq hfirst, hfirst ▸ hne⟩] at habove
      rw [← some.inj habove, hlive b rfl] at hdterm
      cases hdterm
  exact le_antisymm (hle hs ht hstart hend fun o => (hterm o).mp)
    (hle ht hs hstart.symm hend.symm fun o => (hterm o).mpr)

end

/-! ## Writes and reads -/

section

variable {config : ShareCoordinatorConfig} {now offset : Int} {st : SharePartitionState}

theorem inOrder_nil : InOrder [] := ⟨.nil, by simp⟩

theorem applyRecord_progress (config : ShareCoordinatorConfig) (now offset leaderEpoch count : Int)
    {start : Int} {batches : List StateBatch}
    (hle : st.startOffset ≤ start) (hstart : 0 ≤ start) (hst : InOrder st.stateBatches)
    (hbatches : InOrder batches) :
    (st.applyRecord config offset
        (shareStateRecord config now st ⟨leaderEpoch, start, count, batches⟩)).startOffset = start ∧
      InOrder (st.applyRecord config offset
        (shareStateRecord config now st ⟨leaderEpoch, start, count, batches⟩)).stateBatches ∧
      ∀ o, priorityAt (st.applyRecord config offset
          (shareStateRecord config now st ⟨leaderEpoch, start, count, batches⟩)).stateBatches o =
        if start ≤ o then (priorityAt st.stateBatches o).merge max (priorityAt batches o)
        else none := by
  have hmax : max start st.startOffset = start := max_eq_left hle
  unfold shareStateRecord
  rw [hmax]
  split
  · obtain ⟨horder, hat⟩ := combine_spec hst hbatches hstart
    exact ⟨rfl, horder, hat⟩
  · -- The written batches are combined among themselves first.
    obtain ⟨horder, hat⟩ := combine_spec inOrder_nil hbatches hstart
    obtain ⟨horder', hat'⟩ := combine_spec hst horder hstart
    have hne : start ≠ -1 := by omega
    simp only [SharePartitionState.applyRecord, SharePartitionState.applyUpdate, ne_eq, hne,
      not_false_eq_true, if_true]
    refine ⟨trivial, horder', fun o => ?_⟩
    rw [hat' o]
    split
    · rename_i ho
      rw [hat o, if_pos ho]
      cases priorityAt batches o <;> rfl
    · rfl

variable {leaderEpoch count : Int}

theorem applyRecord_empty (h : st.stateBatches = []) :
    (st.applyRecord config offset
        (shareStateRecord config now st ⟨leaderEpoch, st.startOffset, count, []⟩)).startOffset =
          st.startOffset ∧
      (st.applyRecord config offset
        (shareStateRecord config now st ⟨leaderEpoch, st.startOffset, count, []⟩)).stateBatches =
          [] := by
  unfold shareStateRecord
  rw [max_self, h]
  split
  · exact ⟨rfl, rfl⟩
  · simp only [SharePartitionState.applyRecord, SharePartitionState.applyUpdate, ne_eq, ite_not, h]
    refine ⟨?_, rfl⟩
    split <;> rfl

variable {s : AcquisitionState}

theorem Stores.write (hv : Valid s) (hnonneg : 0 ≤ s.startOffset)
    (hle : st.startOffset ≤ s.startOffset) (hst : InOrder st.stateBatches)
    (hbehind : ∀ o p, priorityAt st.stateBatches o = some p → s.startOffset ≤ o →
      ∃ d, s.cell o = some d ∧ p ≤ deliveryPriority d) :
    Stores (st.applyRecord config offset (shareStateRecord config now st
      ⟨leaderEpoch, s.startOffset, count, s.batches.map persistBatch⟩)) s := by
  obtain ⟨hstart, horder, hat⟩ := applyRecord_progress config now offset leaderEpoch count hle
    hnonneg hst (inOrder_persisted hv)
  refine ⟨hv, hnonneg, hstart, horder, fun o => ?_⟩
  rw [hat o, priorityAt_persisted]
  split
  · rename_i ho
    cases hp : priorityAt st.stateBatches o with
    | none => cases s.cell o <;> rfl
    | some p =>
      obtain ⟨d, hd, hpd⟩ := hbehind o p hp ho
      rw [hd]
      exact congrArg some (max_eq_right hpd)
  · have hnone : s.cell o = none := hv.tiles.lookup_eq_none (.inl (by omega))
    rw [hnone]
    rfl

theorem Stores.read (h : Stores st s) :
    Stores (st.applyRecord config offset
      (shareStateRecord config now st ⟨leaderEpoch, st.startOffset, count, []⟩)) s := by
  have hnonneg : 0 ≤ st.startOffset := h.startOffset ▸ h.nonneg
  obtain ⟨hstart, horder, hat⟩ := applyRecord_progress config now offset leaderEpoch count
    (le_refl st.startOffset) hnonneg h.inOrder inOrder_nil
  refine ⟨h.valid, h.nonneg, hstart.trans h.startOffset, horder, fun o => ?_⟩
  rw [hat o, h.priorities o]
  split
  · cases s.cell o <;> rfl
  · have hnone : s.cell o = none :=
      h.valid.tiles.lookup_eq_none (.inl (by have := h.startOffset; omega))
    rw [hnone]
    rfl

theorem stores_new (h : st.stateBatches = []) (hstart : 0 ≤ st.startOffset) :
    Stores st (.new st.startOffset) := by
  refine ⟨new_valid st.startOffset, hstart, rfl, ?_, fun o => ?_⟩
  · rw [h]
    exact inOrder_nil
  · rw [h]
    rfl

theorem Stores.load (h : Stores st s) (fresh : AcquisitionState) (leaderEpoch : Int) :
    Valid (loaded st fresh leaderEpoch).advanceSpso ∧
      (loaded st fresh leaderEpoch).advanceSpso.startOffset = s.advanceSpso.startOffset ∧
      (loaded st fresh leaderEpoch).advanceSpso.endOffset = s.endOffset ∧
      ∀ o, s.advanceSpso.startOffset ≤ o →
        (loaded st fresh leaderEpoch).advanceSpso.cell o = (s.cell o).map Delivery.reread := by
  obtain ⟨hv, hstart, hend, hcell⟩ := h.restored fresh leaderEpoch
  have hterm : ∀ o, IsTerminal (loaded st fresh leaderEpoch) o ↔ IsTerminal s o := by
    intro o
    unfold IsTerminal
    rw [hcell o]
    constructor
    · rintro ⟨d, hd, hdterm⟩
      obtain ⟨d₀, hd₀, rfl⟩ := map_eq_some_iff.mp hd
      exact ⟨d₀, hd₀, (reread_isTerminal d₀).symm.trans hdterm⟩
    · rintro ⟨d, hd, hdterm⟩
      exact ⟨d.reread, by rw [hd]; rfl, (reread_isTerminal d).trans hdterm⟩
  have hspso := advanceSpso_startOffset_congr h.valid hv hstart hend hterm
  have hleaves := advanceSpso_leaves hv fun _ => False
  obtain ⟨done, rest, hprunes⟩ := advanceSpso_prunes hv.tiles
  refine ⟨hv.advanceSpso, hspso, hprunes.endOffset.trans hend, fun o ho => ?_⟩
  rw [hleaves.above o (by omega), hcell o]

theorem Stores.load_done (h : Stores st s) (fresh : AcquisitionState) (leaderEpoch : Int) {o : Int}
    (hdone : Done s o) : Done (loaded st fresh leaderEpoch).advanceSpso o := by
  obtain ⟨hv, hstart, hend, hcell⟩ := h.load fresh leaderEpoch
  have hprunes := (advanceSpso_leaves h.valid fun _ => False).start_le
  by_cases hbelow : o < s.advanceSpso.startOffset
  · exact .inr (by omega)
  · rcases hdone with ⟨d, hd, hdterm⟩ | hlow
    · refine .inl ⟨d.reread, ?_, (reread_isTerminal d).trans hdterm⟩
      rw [hcell o (by omega), hd]
      rfl
    · omega

end

/-! ## The session keeps up -/

/-- What is stored is the last write, and the leader is nowhere behind it. -/
structure Session.Survives (w : Session) : Prop where
  valid : Valid w.leader
  nonneg : 0 ≤ w.leader.startOffset
  start_le : w.store.startOffset ≤ w.leader.startOffset
  inOrder : InOrder w.store.stateBatches
  fresh : w.lastWrite = none → w.store.stateBatches = []
  written : ∀ s, w.lastWrite = some s → Stores w.store s ∧ ∀ o, Done s o → Done w.leader o
  behind : ∀ o p, priorityAt w.store.stateBatches o = some p → w.leader.startOffset ≤ o →
    ∃ d, w.leader.cell o = some d ∧ p ≤ deliveryPriority d

section

variable {w : Session}

variable {s : AcquisitionState}

theorem op_priority_le (hv : Valid s) (op : Op) {o : Int} {d : Delivery}
    (hd : s.cell o = some d) (ho : (op.run s).startOffset ≤ o) :
    ∃ d', (op.run s).cell o = some d' ∧ deliveryPriority d ≤ deliveryPriority d' := by
  have habove : (op.run s).cell o = (op.settled s).cell o := (action_leaves hv (.op op)).above o ho
  rcases op_cell hv op o with
    hsame | ⟨-, -, hturn, hbefore, hafter⟩ | ⟨hnone, -, -⟩ | ⟨d', hbefore, hafter⟩
  · exact ⟨d, habove.trans (hsame.trans hd), le_rfl⟩
  · rw [hd] at hbefore
    cases hbefore
    exact ⟨_, habove.trans hafter, turn_priority_le hturn⟩
  · rw [hd] at hnone
    cases hnone
  · rw [hd] at hbefore
    cases hbefore
    exact ⟨_, habove.trans hafter, le_of_eq (deliveryPriority_reread d).symm⟩

theorem Session.Survives.op (h : w.Survives) (op : Op) :
    Session.Survives { w with leader := op.run w.leader } := by
  have hstart : w.leader.startOffset ≤ (op.run w.leader).startOffset :=
    (action_bounds h.valid (.op op)).1
  refine ⟨h.valid.run op, h.nonneg.trans hstart, h.start_le.trans hstart, h.inOrder, h.fresh,
    fun s hs => ?_, fun o p hp ho => ?_⟩
  · obtain ⟨hstores, hdone⟩ := h.written s hs
    exact ⟨hstores, fun o ho =>
      run_done h.valid (.op op) (settled_done h.valid (.op op) (hdone o ho))⟩
  · obtain ⟨d, hd, hpd⟩ := h.behind o p hp (hstart.trans ho)
    obtain ⟨d', hd', hle⟩ := op_priority_le h.valid op hd ho
    exact ⟨d', hd', hpd.trans hle⟩

variable {st : SharePartitionState}

theorem Session.Survives.of_stores (h : Stores st s) (dirty : Bool) :
    Session.Survives ⟨{ s with dirty := dirty }, st, some s⟩ := by
  refine ⟨h.valid.dirty dirty, h.nonneg, le_of_eq h.startOffset, h.inOrder, by simp,
    fun s' hs' => ?_, fun o p hp ho => ?_⟩
  · cases hs'
    exact ⟨h, fun o ho => ho⟩
  · rw [h.priorities o] at hp
    obtain ⟨d, hd, rfl⟩ := map_eq_some_iff.mp hp
    exact ⟨d, hd, le_rfl⟩

theorem Stores.resumed {st' : SharePartitionState} (h : Stores st s)
    (h' : Stores st' s) (leaderEpoch start : Int) {lastWrite : Option AcquisitionState}
    (hlast : ∀ s', lastWrite = some s' → s' = s)
    (hfresh : lastWrite = none → st'.stateBatches = []) :
    Session.Survives ⟨resumeCell st leaderEpoch start, st', lastWrite⟩ := by
  have hresume : resumeCell st leaderEpoch start =
      (loaded st (.new st.startOffset) leaderEpoch).advanceSpso := by
    rw [resumeCell, if_pos (show st.startOffset ≥ 0 from h.startOffset ▸ h.nonneg)]
    rfl
  obtain ⟨hv, hstart, hend, hcell⟩ := h.load (.new st.startOffset) leaderEpoch
  have hspso := (advanceSpso_leaves h.valid fun _ => False).start_le
  have hst' := h'.startOffset
  have hnonneg := h.nonneg
  rw [hresume]
  refine ⟨hv, by dsimp only; omega, by dsimp only; omega, h'.inOrder, hfresh, fun s' hs' => ?_,
    fun o p hp ho => ?_⟩
  · obtain rfl := hlast s' hs'
    exact ⟨h', fun o ho => h.load_done _ _ ho⟩
  · dsimp only at hp ho
    rw [h'.priorities o] at hp
    obtain ⟨d, hd, rfl⟩ := map_eq_some_iff.mp hp
    refine ⟨d.reread, ?_, le_of_eq (deliveryPriority_reread d).symm⟩
    rw [hcell o (by omega), hd]
    rfl

theorem survives_unregistered {st' : SharePartitionState} (hstart : st.startOffset < 0)
    (hstart' : st'.startOffset = st.startOffset) (hbatches : st'.stateBatches = [])
    (leaderEpoch : Int) {start : Int} (h : 0 ≤ start) :
    Session.Survives ⟨resumeCell st leaderEpoch start, st', none⟩ := by
  have hv := new_valid start
  rw [resumeCell, if_neg (by omega)]
  refine ⟨⟨hv.tiles, hv.locks⟩, h, ?_, ?_, fun _ => hbatches, by simp, fun o p hp => ?_⟩
  · show st'.startOffset ≤ start
    omega
  · rw [hbatches]
    exact inOrder_nil
  · rw [hbatches] at hp
    exact absurd hp (by simp [priorityAt, lookup])

variable {config : ShareCoordinatorConfig} {key : StateKey}

theorem Session.Survives.write (h : w.Survives) (image : MetadataImage) (now offset : Int) :
    (w.run config key (.write image now offset)).Survives := by
  simp only [Session.run]
  split
  · rename_i r hr
    obtain ⟨st, hst, rfl⟩ := writeRecord_written hr
    cases hst
    exact .of_stores (Stores.write h.valid h.nonneg h.start_le h.inOrder h.behind) false
  · exact h

theorem Session.Survives.cold (h : w.Survives) (now offset : Int) :
    (w.run config key (.coldSnapshot now offset)).Survives := by
  simp only [Session.run]
  split
  · exact h
  · exact ⟨h.valid, h.nonneg, h.start_le, h.inOrder, h.fresh, fun s hs =>
      have hs := h.written s hs
      ⟨⟨hs.1.valid, hs.1.nonneg, hs.1.startOffset, hs.1.inOrder, hs.1.priorities⟩, hs.2⟩, h.behind⟩

theorem Session.Survives.change (h : w.Survives) (image : MetadataImage)
    (now offset leaderEpoch : Int) {start : Int} (hstart : 0 ≤ start) :
    (w.run config key (.change image now offset leaderEpoch start)).Survives := by
  simp only [Session.run]
  split
  · rename_i record hrecord
    -- The record of the read, if there is one, changes no batch.
    have hread : ∀ r, record = some r → ∃ leaderEpoch count, r = shareStateRecord config now w.store
        ⟨leaderEpoch, w.store.startOffset, count, []⟩ := by
      rintro r rfl
      obtain ⟨st, hst, -, -, rfl⟩ := readRecord_written hrecord
      cases hst
      exact ⟨_, _, rfl⟩
    cases hlast : w.lastWrite with
    | some s =>
      obtain ⟨hstores, -⟩ := h.written s hlast
      refine hstores.resumed ?_ leaderEpoch start (fun s' hs' => (some.inj hs').symm)
        (by simp)
      cases record with
      | none => exact hstores
      | some r =>
        obtain ⟨leaderEpoch, count, rfl⟩ := hread r rfl
        exact hstores.read
    | none =>
      have hempty := h.fresh hlast
      have hkept : (record.elim w.store (w.store.applyRecord config offset)).startOffset =
            w.store.startOffset ∧
          (record.elim w.store (w.store.applyRecord config offset)).stateBatches = [] := by
        cases record with
        | none => exact ⟨rfl, hempty⟩
        | some r =>
          obtain ⟨leaderEpoch, count, rfl⟩ := hread r rfl
          exact applyRecord_empty hempty
      by_cases hregistered : 0 ≤ w.store.startOffset
      · refine (stores_new hempty hregistered).resumed ?_ leaderEpoch start (by simp)
          fun _ => hkept.2
        have hnew := stores_new hkept.2 (hkept.1 ▸ hregistered)
        rw [hkept.1] at hnew
        exact hnew
      · exact survives_unregistered (by omega) hkept.1 hkept.2 leaderEpoch hstart
  · exact h

theorem survives_of_reachable (h : (session config key).Reachable w) : w.Survives := by
  refine h.invariant (P := Session.Survives) ?_ ?_
  · rintro ⟨leader, store, lastWrite⟩ ⟨hempty, hnone, leaderEpoch, start, hstart, hleader⟩
    dsimp only at hempty hnone hleader
    subst hnone hleader
    by_cases hregistered : 0 ≤ store.startOffset
    · exact (stores_new hempty hregistered).resumed
        (stores_new hempty hregistered) leaderEpoch start
        (by simp) fun _ => hempty
    · exact survives_unregistered (by omega) rfl hempty leaderEpoch hstart
  · rintro w a w' hw ⟨henabled, rfl⟩
    cases a with
    | op operation => exact hw.op operation
    | write image now offset => exact hw.write image now offset
    | coldSnapshot now offset => exact hw.cold now offset
    | change image now offset leaderEpoch start =>
      exact hw.change image now offset leaderEpoch henabled

end

/-! ## The change of the leader -/

section

variable {config : ShareCoordinatorConfig} {key : StateKey}

theorem lastWrite_leads {w w' : Session} {s : AcquisitionState} (hw : w.Survives)
    (hlead : (session config key).Leads w w') (hs : w.lastWrite = some s) :
    w'.Survives ∧ ∃ s', w'.lastWrite = some s' ∧ ∀ o, Done s o → Done s' o := by
  refine hlead.invariant
    (P := fun w => w.Survives ∧ ∃ s', w.lastWrite = some s' ∧ ∀ o, Done s o → Done s' o) ?_
    ⟨hw, s, hs, fun o ho => ho⟩
  rintro w a w' ⟨hw, s', hs', hdone⟩ ⟨henabled, rfl⟩
  cases a with
  | op operation => exact ⟨hw.op operation, s', hs', hdone⟩
  | write image now offset =>
    refine ⟨hw.write image now offset, ?_⟩
    simp only [Session.run]
    split
    · exact ⟨w.leader, rfl, fun o ho => (hw.written s' hs').2 o (hdone o ho)⟩
    · exact ⟨s', hs', hdone⟩
  | coldSnapshot now offset =>
    refine ⟨hw.cold now offset, s', ?_, hdone⟩
    simp only [Session.run]
    split <;> exact hs'
  | change image now offset leaderEpoch start =>
    refine ⟨hw.change image now offset leaderEpoch henabled, s', ?_, hdone⟩
    simp only [Session.run]
    split <;> exact hs'

/-- **Share state survives a change of the leader.**  What a leader loads from
the coordinator starts where the last written window starts once its terminal
prefix is pruned, ends where it ends, and gives every offset from there on the
delivery count and the state it had, with the locks gone.  No offset that was
complete at that write is ever acquired again. -/
theorem share_state_survives {w : Session} {s : AcquisitionState}
    (h : (session config key).Reachable w) (hs : w.lastWrite = some s) :
    (∀ (fresh : AcquisitionState) (leaderEpoch : Int),
      let s' := fresh.loadFrom w.store.startOffset w.store.stateEpoch leaderEpoch
        w.store.stateBatches
      ((∀ b ∈ s.batches.head?, b.value.isTerminal = false) → s'.startOffset = s.startOffset) ∧
      s.startOffset ≤ s'.startOffset ∧ s'.endOffset = s.endOffset ∧
      (∀ o, s.startOffset ≤ o → o < s'.startOffset → IsTerminal s o) ∧
      ∀ o, s'.startOffset ≤ o → s'.cell o = (s.cell o).map Delivery.reread) ∧
    ∀ w', (session config key).Leads w w' → ∀ o, Done s o → ¬ IsAcquired w'.leader o := by
  have hw := survives_of_reachable h
  obtain ⟨hstores, -⟩ := hw.written s hs
  refine ⟨fun fresh leaderEpoch => ?_, fun w' hlead o ho => ?_⟩
  · obtain ⟨-, hstart, hend, hcell⟩ := hstores.load fresh leaderEpoch
    obtain ⟨done, rest, hprunes⟩ := advanceSpso_prunes hstores.valid.tiles
    have hloads : fresh.loadFrom w.store.startOffset w.store.stateEpoch leaderEpoch
        w.store.stateBatches = (loaded w.store fresh leaderEpoch).advanceSpso := rfl
    dsimp only
    rw [hloads, hstart]
    refine ⟨fun hlive => ?_, hprunes.start_le, hend, fun o h₁ h₂ => hprunes.lookup_below h₁ h₂,
      hcell⟩
    -- A live first run is not pruned.
    have hnil : done = [] := by
      cases hdone : done with
      | nil => rfl
      | cons b tail =>
        have hbatches := hprunes.batches
        rw [hdone] at hbatches
        have hterm := hprunes.terminal b (by rw [hdone]; exact List.mem_cons_self)
        rw [hlive b (by rw [hbatches]; rfl)] at hterm
        cases hterm
    have htiles := hprunes.tiles
    rw [hnil] at htiles
    exact htiles.symm
  · obtain ⟨hw', s', hs', hdone⟩ := lastWrite_leads hw hlead hs
    exact ((hw'.written s' hs').2 o (hdone o ho)).not_acquired hw'.valid

end

/-! ### Two sessions -/

def defaultConfig : ShareCoordinatorConfig := ⟨500, 300000, false⟩

def sampleKey : StateKey := ⟨"g", 0, 0⟩

/-- The leader of a partition that starts at offset 0 with a dead-letter queue. -/
def opened : Session where
  leader := resumeCell (.fromSnapshot (initialSnapshot 0 0 1 0) 0) 1 0
  store := .fromSnapshot (initialSnapshot 0 0 1 0) 0
  lastWrite := none

theorem opened_run (as : List SessionAction)
    (h : TransitionSystem.Allowed (Session.run defaultConfig sampleKey) (fun _ a _ => a.Enabled)
      opened as) :
    (session defaultConfig sampleKey).Reachable
      (as.foldl (Session.run defaultConfig sampleKey) opened) :=
  .foldl (fun _ a _ => a.Enabled)
    (.init ⟨rfl, rfl, 1, 0, le_refl 0, rfl⟩) (fun _ _ henabled => ⟨henabled, rfl⟩) h

/-- Three records, of which the first is accepted before the window is written. -/
def accepted : Session :=
  [SessionAction.op (.materialize 3 10), .op (.acquireShaped ⟨"m", ⟨2, none⟩, 9, 0, 30, 5⟩),
    .op (.acknowledge "m" 0 0 .accept 5), .write (fun _ _ => true) 0 1].foldl
    (Session.run defaultConfig sampleKey) opened

/-- The next leader starts behind the accepted record, and no leader acquires it
again. -/
theorem share_state_survives_accepted :
    (loadFrom (.new 0) accepted.store.startOffset accepted.store.stateEpoch 2
      accepted.store.stateBatches).endOffset = 3 ∧
      ∀ w', (session defaultConfig sampleKey).Leads accepted w' → ¬ IsAcquired w'.leader 0 := by
  have hreach : (session defaultConfig sampleKey).Reachable accepted :=
    opened_run _ ⟨trivial, trivial, trivial, trivial, trivial⟩
  obtain ⟨s, hs, hend, hdone⟩ :
      ∃ s, accepted.lastWrite = some s ∧ s.endOffset = 3 ∧ Done s 0 := by
    refine ⟨_, rfl, ?_, .inr ?_⟩ <;> decide
  obtain ⟨hloads, hnever⟩ := share_state_survives hreach hs
  exact ⟨(hloads (.new 0) 2).2.2.1.trans hend, fun w' hlead => hnever w' hlead 0 hdone⟩

/-- A rejected record whose dead-letter write has ended, written before the
prefix is pruned. -/
def finished : Session :=
  [SessionAction.op (.setDlqEnabled true), .op (.materialize 1 10),
    .op (.acquireShaped ⟨"m", ⟨1, none⟩, 9, 0, 30, 5⟩), .op (.acknowledge "m" 0 0 .reject 5),
    .op .takePendingDlq, .op (.finishArchiving 0 0), .write (fun _ _ => true) 0 1].foldl
    (Session.run defaultConfig sampleKey) opened

/-- `load_from` moves the start offset past the archived record that the written
window still starts with. -/
theorem load_moves_start_offset :
    (session defaultConfig sampleKey).Reachable finished ∧
      ∃ s, finished.lastWrite = some s ∧
        (loadFrom (.new 0) finished.store.startOffset finished.store.stateEpoch 2
          finished.store.stateBatches).startOffset ≠ s.startOffset := by
  refine ⟨opened_run _ ⟨trivial, trivial, trivial, trivial, trivial, trivial, trivial, trivial⟩, _,
    rfl, ?_⟩
  decide

end Krabka.ShareCoordinator
