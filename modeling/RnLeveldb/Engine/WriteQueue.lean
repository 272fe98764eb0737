import RnLeveldb.Engine.Log
import RnLeveldb.Engine.MemTable
import RnLeveldb.Lib.Machine

/-!
# `DBImpl::Write`

Writers wait in a queue. The one at the front takes the batches of those behind it along, as far
as they fit, writes them to the log as one record and adds them to the memtable, all while the
mutex is released; then it completes the writers it has worked for. Others may come to the queue
and readers may look into the memtable at any point of this.

The events of `step` are the points at which the mutex is taken or released, and what the file
system does. An event that cannot happen leaves the state as it is. Sealed memtables stay where
they are found; what compactions make of them is another matter.
-/

namespace RnLeveldb

namespace Engine

open Versions

/-! ## Groups of writers -/

/-- `DBImpl::Writer`, without what the implementation needs to wake threads. A writer without a
batch only wants the memtable to be sealed. -/
structure Writer where
  id : ℕ
  batch : Option WriteBatch
  sync : Bool

/-- The loop of `BuildBatchGroup`: the batch, and how many writers are taken along. `tmp` is
`tmp_batch_` once it is in use. -/
def growGroup (first : WriteBatch) (sync : Bool) (maxSize : ℕ) :
    ℕ → Option WriteBatch → List Writer → WriteBatch × ℕ
  | _, tmp, [] => (tmp.getD first, 0)
  | size, tmp, w :: ws =>
    -- a sync write is not handled by a non-sync write
    if w.sync && !sync then (tmp.getD first, 0)
    else
      match w.batch with
      | none =>
        let rest := growGroup first sync maxSize size tmp ws
        (rest.1, rest.2 + 1)
      | some b =>
        if maxSize < size + b.rep.length then (tmp.getD first, 0)
        else
          let tmp := (tmp.getD (WriteBatch.clear.append first)).append b
          let rest := growGroup first sync maxSize (size + b.rep.length) (some tmp) ws
          (rest.1, rest.2 + 1)

/-- `BuildBatchGroup`. A small write is not slowed down too much. -/
def buildBatchGroup (first : WriteBatch) (sync : Bool) (rest : List Writer) : WriteBatch × ℕ :=
  let size := first.rep.length
  let maxSize := if size ≤ 128 <<< 10 then size + 128 <<< 10 else 1 <<< 20
  growGroup first sync maxSize size none rest

/-! ## The state -/

/-- A log and the memtable it is for. -/
structure Generation where
  log : Bytes
  blockOffset : ℕ
  mem : List Bytes

def Generation.new : Generation := ⟨[], 0, []⟩

/-- What the writer at the front is doing while the mutex is released. -/
inductive Phase where
  | logging
  | inserting (seq : ℕ) (ops : List BatchOp)
  | failed (f : Failure)

structure Group where
  /-- With its sequence number. -/
  batch : WriteBatch
  /-- How many writers it is for. -/
  writers : ℕ
  sync : Bool
  phase : Phase

structure DbState where
  queue : List Writer
  group : Option Group
  lastSequence : ℕ
  active : Generation
  /-- Sealed generations, the newest first. -/
  older : List Generation
  bgError : Option Failure
  /-- The writers that are done, in the order in which they left the queue. -/
  results : List (Writer × Status)

def DbState.new : DbState where
  queue := []
  group := none
  lastSequence := 0
  active := .new
  older := []
  bgError := none
  results := []

/-- How the log takes a record. What a failed append leaves behind is left open. -/
inductive LogOutcome where
  | ok
  | failed (f : Failure) (written : Bytes) (blockOffset : ℕ)
  | syncFailed (f : Failure)

inductive Event where
  | submit (w : Writer)
  /-- `MakeRoomForWrite` makes a new memtable and a new log. -/
  | switch
  /-- `MakeRoomForWrite` returns, maybe with an error of its own. -/
  | start (room : Option Failure)
  | logged (outcome : LogOutcome)
  | insert
  | finish

namespace DbState

/-- The first `n` writers leave the queue. -/
def complete (s : DbState) (n : ℕ) (status : Status) : DbState :=
  { s with
    queue := s.queue.drop n
    group := none
    results := s.results ++ (s.queue.take n).map fun w => (w, status) }

/-- The writer at the front goes ahead. -/
def start (s : DbState) (w : Writer) (rest : List Writer) (room : Option Failure) : DbState :=
  match s.bgError.or room with
  | some f => s.complete 1 (.fail f)
  | none =>
    match w.batch with
    | none => s.complete 1 .ok
    | some b =>
      let built := buildBatchGroup b w.sync rest
      let batch := built.1.setSequence (s.lastSequence + 1)
      { s with group := some ⟨batch, built.2 + 1, w.sync, .logging⟩ }

/-- `AddRecord`, and `Sync` if it was asked for. -/
def logged (s : DbState) (g : Group) : LogOutcome → DbState
  | .ok =>
    let record := Log.addRecord s.active.blockOffset g.batch.rep
    { s with
      active := { s.active with log := s.active.log ++ record.1, blockOffset := record.2 }
      group := some { g with phase := .inserting g.batch.sequence g.batch.iterate.1 } }
  | .failed f written blockOffset =>
    { s with
      active := { s.active with log := s.active.log ++ written, blockOffset := blockOffset }
      group := some { g with phase := .failed f } }
  | .syncFailed f =>
    if g.sync then
      let record := Log.addRecord s.active.blockOffset g.batch.rep
      { s with
        active := { s.active with log := s.active.log ++ record.1, blockOffset := record.2 }
        group := some { g with phase := .failed f }
        -- the record may or may not show up when the database is opened again
        bgError := s.bgError.or (some f) }
    else s

def step (s : DbState) : Event → DbState
  | .submit w => { s with queue := s.queue ++ [w] }
  | .switch =>
    match s.group, s.queue, s.bgError with
    | none, _ :: _, none => { s with active := .new, older := s.active :: s.older }
    | _, _, _ => s
  | .start room =>
    match s.group, s.queue with
    | none, w :: rest => s.start w rest room
    | _, _ => s
  | .logged outcome =>
    match s.group with
    | some ⟨batch, writers, sync, .logging⟩ => s.logged ⟨batch, writers, sync, .logging⟩ outcome
    | _ => s
  | .insert =>
    match s.group with
    | some ⟨batch, writers, sync, .inserting seq (op :: ops)⟩ =>
      { s with
        active := { s.active with mem := MemTable.insertOp s.active.mem seq op }
        group := some ⟨batch, writers, sync, .inserting (seq + 1) ops⟩ }
    | _ => s
  | .finish =>
    match s.group with
    | some ⟨batch, writers, _, .inserting _ []⟩ =>
      { s.complete writers batch.iterate.2 with lastSequence := s.lastSequence + batch.count }
    | some ⟨batch, writers, _, .failed f⟩ =>
      { s.complete writers (.fail f) with lastSequence := s.lastSequence + batch.count }
    | _ => s

/-- `DBImpl::Get` at a sequence number: the memtable, then the sealed ones. -/
def get (s : DbState) (key : Bytes) (snapshot : ℕ) : Option (Except Failure Bytes) :=
  (s.active :: s.older).findSome? fun g => MemTable.get g.mem key snapshot

end DbState

/-- The writer that comes to the queue. -/
def Event.submitted : Event → List Writer
  | .submit w => [w]
  | _ => []

/-- What a writer wants to write. -/
def Writer.ops (w : Writer) : List BatchOp := (w.batch.map fun b => b.iterate.1).getD []

def opsOf (writers : List Writer) : List BatchOp := writers.flatMap Writer.ops

/-- The writes that were acknowledged. -/
def DbState.acknowledged (s : DbState) : List BatchOp :=
  s.results.flatMap fun r => if r.2 = .ok then r.1.ops else []

/-- A batch that was made by its own functions. -/
structure WriteBatch.WellFormed (b : WriteBatch) : Prop where
  holds : ∃ seq, b.Holds seq b.iterate.1
  fits : ∀ op ∈ b.iterate.1, FitsEntry op
  short : b.iterate.1.length < 2 ^ 30

def Writer.WellFormed (w : Writer) : Prop := ∀ b ∈ w.batch, b.WellFormed

lemma DbState.start_lastSequence (s : DbState) (w : Writer) (rest : List Writer)
    (room : Option Failure) : (s.start w rest room).lastSequence = s.lastSequence := by
  unfold DbState.start
  split
  · rfl
  · split <;> rfl

lemma DbState.logged_lastSequence (s : DbState) (g : Group) (outcome : LogOutcome) :
    (s.logged g outcome).lastSequence = s.lastSequence := by
  cases outcome with
  | ok => rfl
  | failed f written blockOffset => rfl
  | syncFailed f =>
    unfold DbState.logged
    dsimp only
    split <;> rfl

/-! ## What a group writes -/

lemma fits_of_fitsEntry {op : BatchOp} (h : FitsEntry op) : Fits op := by
  cases op with
  | put key value =>
    obtain ⟨hkey, hvalue⟩ := h
    exact ⟨by simp only [opWrite] at hkey; omega, hvalue⟩
  | delete key =>
    have hkey := h.1
    simp only [opWrite] at hkey
    exact (by omega : key.length < 2 ^ 32)

lemma length_le_flatMap_recordBytes (ops : List BatchOp) :
    ops.length ≤ (ops.flatMap recordBytes).length := by
  induction ops with
  | nil => exact le_refl _
  | cons op ops ih =>
    have hop : 1 ≤ (recordBytes op).length := by
      cases op <;> simp [recordBytes]
    rw [List.flatMap_cons, List.length_append, List.length_cons]
    omega

/-- A record takes a byte at least. -/
lemma WriteBatch.Holds.length_le {b : WriteBatch} {seq : ℕ} {ops : List BatchOp}
    (h : b.Holds seq ops) : ops.length ≤ b.rep.length := by
  have hle := length_le_flatMap_recordBytes ops
  rw [h, List.length_append]
  omega

@[simp] lemma opsOf_nil : opsOf [] = [] := rfl

@[simp] lemma opsOf_cons (w : Writer) (ws : List Writer) :
    opsOf (w :: ws) = w.ops ++ opsOf ws := rfl

lemma opsOf_append (a b : List Writer) : opsOf (a ++ b) = opsOf a ++ opsOf b := List.flatMap_append

lemma opsOf_take_append_drop (n : ℕ) (ws : List Writer) :
    opsOf (ws.take n) ++ opsOf (ws.drop n) = opsOf ws := by
  rw [← opsOf_append, List.take_append_drop]

/-- The batch of a group has the records of its writers, in their order. -/
lemma growGroup_spec {first : WriteBatch} {sync : Bool} {maxSize : ℕ} (hmax : maxSize < 2 ^ 30)
    {ws : List Writer} (hws : ∀ w ∈ ws, w.WellFormed) {size : ℕ} {tmp : Option WriteBatch}
    {done : List BatchOp} (hdone : ∃ seq, (tmp.getD first).Holds seq done)
    (htmp : ∃ seq, (tmp.getD (WriteBatch.clear.append first)).Holds seq done)
    (hsize : done.length ≤ size) (hshort : done.length < 2 ^ 30) :
    (growGroup first sync maxSize size tmp ws).2 ≤ ws.length ∧
      (∃ seq, (growGroup first sync maxSize size tmp ws).1.Holds seq
        (done ++ opsOf (ws.take (growGroup first sync maxSize size tmp ws).2))) ∧
      (done ++ opsOf (ws.take (growGroup first sync maxSize size tmp ws).2)).length < 2 ^ 30 := by
  have hstop : ∀ ws : List Writer, 0 ≤ ws.length ∧
      (∃ seq, (tmp.getD first).Holds seq (done ++ opsOf (ws.take 0))) ∧
      (done ++ opsOf (ws.take 0)).length < 2 ^ 30 := by
    intro ws
    rw [List.take_zero, opsOf_nil, List.append_nil]
    exact ⟨Nat.zero_le _, hdone, hshort⟩
  induction ws generalizing size tmp done with
  | nil => exact hstop []
  | cons w ws ih =>
    have hrest := fun u hu => hws u (List.mem_cons_of_mem w hu)
    unfold growGroup
    split
    · exact hstop _
    cases hb : w.batch with
    | none =>
      dsimp only
      have hops : w.ops = [] := by rw [Writer.ops, hb]; rfl
      obtain ⟨hle, hholds, hlt⟩ := ih hrest hdone htmp hsize hshort hstop
      rw [List.take_succ_cons, opsOf_cons, hops, List.nil_append, List.length_cons]
      exact ⟨by omega, hholds, hlt⟩
    | some b =>
      dsimp only
      have hops : w.ops = b.iterate.1 := by rw [Writer.ops, hb]; rfl
      obtain ⟨seqb, hholdsb⟩ := (hws w List.mem_cons_self b hb).holds
      split
      · exact hstop _
      · next hfits =>
        obtain ⟨seq, hseq⟩ := htmp
        have happend := hseq.append hholdsb
        have hlen : (done ++ b.iterate.1).length ≤ size + b.rep.length := by
          have := hholdsb.length_le
          rw [List.length_append]
          omega
        obtain ⟨hle, hholds, hlt⟩ := @ih hrest (size + b.rep.length)
          (some ((tmp.getD (WriteBatch.clear.append first)).append b)) (done ++ b.iterate.1)
          ⟨seq, happend⟩ ⟨seq, happend⟩ hlen (by omega) (by
            intro ws'
            rw [List.take_zero, opsOf_nil, List.append_nil]
            exact ⟨Nat.zero_le _, ⟨seq, happend⟩, by omega⟩)
        rw [List.take_succ_cons, opsOf_cons, hops, List.length_cons, ← List.append_assoc]
        exact ⟨by omega, hholds, hlt⟩

lemma buildBatchGroup_spec {first : WriteBatch} (hfirst : first.WellFormed) (sync : Bool)
    {ws : List Writer} (hws : ∀ w ∈ ws, w.WellFormed) :
    (buildBatchGroup first sync ws).2 ≤ ws.length ∧
      (∃ seq, (buildBatchGroup first sync ws).1.Holds seq
        (first.iterate.1 ++ opsOf (ws.take (buildBatchGroup first sync ws).2))) ∧
      (first.iterate.1 ++ opsOf (ws.take (buildBatchGroup first sync ws).2)).length < 2 ^ 30 := by
  obtain ⟨seq, hseq⟩ := hfirst.holds
  have htmp : (WriteBatch.clear.append first).Holds 0 ([] ++ first.iterate.1) :=
    WriteBatch.holds_clear.append hseq
  have h128 : 128 <<< 10 = 131072 := by decide
  have h1 : 1 <<< 20 = 1048576 := by decide
  have hmax : (if first.rep.length ≤ 128 <<< 10 then first.rep.length + 128 <<< 10 else 1 <<< 20) <
      2 ^ 30 := by
    split <;> omega
  exact @growGroup_spec first sync _ hmax ws hws first.rep.length none first.iterate.1
    ⟨seq, hseq⟩ ⟨0, htmp⟩ hseq.length_le hfirst.short

/-! ## The invariant -/

/-- What the versions of some generations say at a snapshot. -/
def readGenerations (gens : List (List (Version Bytes Bytes))) (snapshot : ℕ) (key : Bytes) :
    Option (Version Bytes Bytes) :=
  gens.findSome? fun vs => newest vs snapshot key

/-- The memtables of a state hold these versions, none of which is newer than `last`. -/
structure Memory (s : DbState) (gens : List (List (Version Bytes Bytes))) (last : ℕ) : Prop where
  holds : List.Forall₂ (fun g vs => Holds g.mem vs) (s.active :: s.older) gens
  le_last : ∀ vs ∈ gens, ∀ v ∈ vs, v.seq ≤ last
  newer : NewerFirst gens

/-- What a group has inserted so far. -/
inductive Progress (last : ℕ) (ops : List BatchOp) : Phase → List BatchOp → Prop
  | logging : Progress last ops .logging []
  | failed (f : Failure) : Progress last ops (.failed f) []
  | inserting (done left : List BatchOp) (hops : ops = done ++ left) :
    Progress last ops (.inserting (last + 1 + done.length) left) done

/-- A group in progress has the batch of the writers at the front. -/
structure GroupInv (s : DbState) (g : Group) (done : List BatchOp) : Prop where
  writers : g.writers ≤ s.queue.length
  holds : g.batch.Holds (s.lastSequence + 1) (opsOf (s.queue.take g.writers))
  short : (opsOf (s.queue.take g.writers)).length < 2 ^ 30
  progress : Progress s.lastSequence (opsOf (s.queue.take g.writers)) g.phase done

/-- The invariant. `done` is what the group in progress has inserted. -/
structure Inv (submitted : List Writer) (s : DbState) (gens : List (List (Version Bytes Bytes)))
    (done : List BatchOp) : Prop where
  fifo : submitted = s.results.map Prod.fst ++ s.queue
  wellFormed : ∀ w ∈ submitted, w.WellFormed
  room : s.lastSequence + (opsOf s.queue).length ≤ (opsOf submitted).length
  group : ∀ g ∈ s.group, GroupInv s g done
  idle : s.group = none → done = []
  memory : Memory s gens (s.lastSequence + done.length)
  reads : ∀ key, (readGenerations gens s.lastSequence key).bind Version.value =
    (applyBatch .empty s.acknowledged).get key
  reads_done : ∀ key, (readGenerations gens (s.lastSequence + done.length) key).bind Version.value =
    (applyBatch .empty (s.acknowledged ++ done)).get key

section

variable {submitted : List Writer} {s s' : DbState} {gens : List (List (Version Bytes Bytes))}
  {done : List BatchOp}

lemma inv_new : Inv [] .new [[]] [] where
  fifo := rfl
  wellFormed := by simp
  room := le_refl _
  group := by simp [DbState.new]
  idle := fun _ => rfl
  memory := ⟨.cons holds_nil .nil, by simp, List.pairwise_singleton _ _⟩
  reads := fun _ => rfl
  reads_done := fun _ => rfl

/-- A step that touches only the group and the log. -/
lemma Inv.regroup (h : Inv submitted s gens done) (hqueue : s'.queue = s.queue)
    (hresults : s'.results = s.results) (hlast : s'.lastSequence = s.lastSequence)
    (hmem : s'.active.mem = s.active.mem) (holder : s'.older = s.older)
    (hgroup : ∀ g ∈ s'.group, GroupInv s' g done) (hidle : s'.group = none → done = []) :
    Inv submitted s' gens done where
  fifo := by rw [hresults, hqueue, ← h.fifo]
  wellFormed := h.wellFormed
  room := by rw [hlast, hqueue]; exact h.room
  group := hgroup
  idle := hidle
  memory := by
    refine ⟨?_, by rw [hlast]; exact h.memory.le_last, h.memory.newer⟩
    have hholds := h.memory.holds
    rw [holder]
    cases hholds with
    | cons hfirst hrest => exact .cons (by rw [hmem]; exact hfirst) hrest
  reads := by rw [hlast, DbState.acknowledged, hresults]; exact h.reads
  reads_done := by rw [hlast, DbState.acknowledged, hresults]; exact h.reads_done

/-- Nothing is newer than the newest version. -/
lemma readGenerations_of_le {m t : ℕ} (hle : ∀ vs ∈ gens, ∀ v ∈ vs, v.seq ≤ m) (ht : m ≤ t)
    (key : Bytes) : readGenerations gens t key = readGenerations gens m key := by
  have hnewest : ∀ vs ∈ gens, newest vs t key = newest vs m key := by
    intro vs hvs
    apply List.find?_congr
    intro v hv
    have := hle vs hvs v hv
    simp only [decide_eq_decide]
    constructor
    · exact fun hk => ⟨hk.1, this⟩
    · exact fun hk => ⟨hk.1, by omega⟩
  unfold readGenerations
  clear hle
  induction gens with
  | nil => rfl
  | cons vs gens ih =>
    rw [List.findSome?_cons, List.findSome?_cons, hnewest vs List.mem_cons_self,
      ih fun ws hws => hnewest ws (List.mem_cons_of_mem _ hws)]

/-- Writers that leave the queue with success are acknowledged. -/
lemma DbState.acknowledged_complete (s : DbState) (n : ℕ) (status : Status) :
    (s.complete n status).acknowledged =
      s.acknowledged ++ if status = .ok then opsOf (s.queue.take n) else [] := by
  rw [DbState.acknowledged, DbState.acknowledged, DbState.complete, List.flatMap_append,
    List.flatMap_map]
  congr 1
  split
  · simp [opsOf]
  · simp

/-- Writers leave the queue, and what they have inserted is acknowledged. -/
lemma Inv.complete (h : Inv submitted s gens done) {n count : ℕ} {status : Status}
    (hdone : (if status = .ok then opsOf (s.queue.take n) else []) = done)
    (hle : done.length ≤ count) (hcount : count ≤ (opsOf (s.queue.take n)).length) :
    Inv submitted { s.complete n status with lastSequence := s.lastSequence + count } gens [] := by
  have hack : (s.complete n status).acknowledged = s.acknowledged ++ done := by
    rw [DbState.acknowledged_complete, hdone]
  have hread : ∀ key, readGenerations gens (s.lastSequence + count) key =
      readGenerations gens (s.lastSequence + done.length) key := by
    intro key
    exact readGenerations_of_le h.memory.le_last (by omega) key
  have hreads : ∀ key, (readGenerations gens (s.lastSequence + count) key).bind Version.value =
      (applyBatch .empty (s.complete n status).acknowledged).get key := by
    intro key
    rw [hread, hack]
    exact h.reads_done key
  refine ⟨?_, h.wellFormed, ?_, by simp [DbState.complete], fun _ => rfl,
    ⟨h.memory.holds, ?_, h.memory.newer⟩, hreads, ?_⟩
  · rw [h.fifo]
    simp [DbState.complete, Function.comp_def]
  · have hsplit := congrArg List.length (opsOf_take_append_drop n s.queue)
    have hroom := h.room
    rw [List.length_append] at hsplit
    show s.lastSequence + count + (opsOf (s.queue.drop n)).length ≤ _
    omega
  · intro vs hvs v hv
    have := h.memory.le_last vs hvs v hv
    show v.seq ≤ s.lastSequence + count + 0
    omega
  · intro key
    rw [List.append_nil]
    exact hreads key

/-! ## Steps -/

lemma Inv.submit (h : Inv submitted s gens done) {w : Writer} (hw : w.WellFormed) :
    Inv (submitted ++ [w]) { s with queue := s.queue ++ [w] } gens done where
  fifo := by rw [h.fifo, List.append_assoc]
  wellFormed := by
    intro u hu
    rcases List.mem_append.mp hu with hu | hu
    · exact h.wellFormed u hu
    · rw [List.mem_singleton.mp hu]
      exact hw
  room := by
    have := h.room
    show s.lastSequence + (opsOf (s.queue ++ [w])).length ≤ (opsOf (submitted ++ [w])).length
    rw [opsOf_append, opsOf_append, List.length_append, List.length_append]
    omega
  group := by
    intro g hg
    have hinv := h.group g hg
    have htake : (s.queue ++ [w]).take g.writers = s.queue.take g.writers :=
      List.take_append_of_le_length hinv.writers
    refine ⟨?_, ?_, ?_, ?_⟩
    · rw [List.length_append]
      exact le_trans hinv.writers (Nat.le_add_right _ _)
    · rw [htake]
      exact hinv.holds
    · rw [htake]
      exact hinv.short
    · rw [htake]
      exact hinv.progress
  idle := h.idle
  memory := ⟨h.memory.holds, h.memory.le_last, h.memory.newer⟩
  reads := h.reads
  reads_done := h.reads_done

lemma Inv.switch (h : Inv submitted s gens done) :
    Inv submitted { s with active := .new, older := s.active :: s.older } ([] :: gens) done where
  fifo := h.fifo
  wellFormed := h.wellFormed
  room := h.room
  group := fun g hg => ⟨(h.group g hg).writers, (h.group g hg).holds, (h.group g hg).short,
    (h.group g hg).progress⟩
  idle := h.idle
  memory := by
    refine ⟨.cons holds_nil h.memory.holds, fun vs hvs v hv => ?_,
      List.pairwise_cons.mpr ⟨fun ws _ v hv => absurd hv List.not_mem_nil, h.memory.newer⟩⟩
    rcases List.mem_cons.mp hvs with rfl | hvs
    · cases hv
    · exact h.memory.le_last vs hvs v hv
  reads := h.reads
  reads_done := h.reads_done

lemma Inv.start (h : Inv submitted s gens done) (hnone : s.group = none) {w : Writer}
    {rest : List Writer} (hqueue : s.queue = w :: rest) (room : Option Failure) :
    Inv submitted (s.start w rest room) gens [] := by
  have hdone : done = [] := h.idle hnone
  subst hdone
  unfold DbState.start
  split
  · next f _ => exact @Inv.complete _ _ _ _ h 1 0 (.fail f) (by rfl) (le_refl _) (Nat.zero_le _)
  split
  · next hbatch =>
    have hops : opsOf (s.queue.take 1) = [] := by
      rw [hqueue]
      simp [Writer.ops, hbatch]
    exact @Inv.complete _ _ _ _ h 1 0 .ok (by rw [hops]; rfl) (le_refl _) (Nat.zero_le _)
  · next b hbatch =>
    have hmem : ∀ u ∈ s.queue, u.WellFormed := by
      intro u hu
      apply h.wellFormed u
      rw [h.fifo]
      exact List.mem_append_right _ hu
    rw [hqueue] at hmem
    have hops : w.ops = b.iterate.1 := by rw [Writer.ops, hbatch]; rfl
    obtain ⟨hle, ⟨seq, hholds⟩, hshort⟩ := buildBatchGroup_spec (hmem w List.mem_cons_self b hbatch)
      w.sync fun u hu => hmem u (List.mem_cons_of_mem _ hu)
    have htake : opsOf (s.queue.take ((buildBatchGroup b w.sync rest).2 + 1)) =
        b.iterate.1 ++ opsOf (rest.take (buildBatchGroup b w.sync rest).2) := by
      rw [hqueue, List.take_succ_cons, opsOf_cons, hops]
    apply h.regroup <;> try rfl
    · intro g hg
      cases hg
      refine ⟨?_, ?_, ?_, ?_⟩
      · rw [hqueue, List.length_cons]
        exact Nat.succ_le_succ hle
      · dsimp only
        rw [htake]
        exact hholds.setSequence _
      · dsimp only
        rw [htake]
        exact hshort
      · exact .logging
    · intro hg
      cases hg

lemma Inv.fits_queue (h : Inv submitted s gens done) {op : BatchOp} (hop : op ∈ opsOf s.queue) :
    FitsEntry op := by
  obtain ⟨w, hw, hop⟩ := List.mem_flatMap.mp hop
  have hwf : w.WellFormed := by
    apply h.wellFormed w
    rw [h.fifo]
    exact List.mem_append_right _ hw
  cases hb : w.batch with
  | none =>
    rw [Writer.ops, hb] at hop
    cases hop
  | some b =>
    rw [Writer.ops, hb] at hop
    exact (hwf b hb).fits op hop

/-- The batch of a group is in order. -/
lemma GroupInv.iterate_eq {g : Group} (h : GroupInv s g done) (hinv : Inv submitted s gens done) :
    g.batch.iterate = (opsOf (s.queue.take g.writers), .ok) := by
  apply h.holds.iterate_eq _ (lt_trans h.short (by decide))
  intro op hop
  apply fits_of_fitsEntry
  apply hinv.fits_queue
  rw [← opsOf_take_append_drop g.writers]
  exact List.mem_append_left _ hop

lemma Inv.logged (h : Inv submitted s gens done) {batch : WriteBatch} {writers : ℕ} {sync : Bool}
    (hgroup : s.group = some ⟨batch, writers, sync, .logging⟩)
    (hmax : (opsOf submitted).length ≤ kMaxSequenceNumber) (outcome : LogOutcome) :
    Inv submitted (s.logged ⟨batch, writers, sync, .logging⟩ outcome) gens done := by
  have hinv := h.group _ hgroup
  have hdone : done = [] := by
    cases hinv.progress
    rfl
  subst hdone
  have hroom := h.room
  have h56 : kMaxSequenceNumber < 2 ^ 64 - 1 := by decide
  cases outcome with
  | ok =>
    apply h.regroup <;> try rfl
    · intro g hg
      cases hg
      refine ⟨hinv.writers, hinv.holds, hinv.short, ?_⟩
      have hseq : batch.sequence = s.lastSequence + 1 :=
        hinv.holds.sequence_eq (by omega)
      have hops := congrArg Prod.fst (hinv.iterate_eq h)
      dsimp only at hops ⊢
      rw [hseq, hops]
      exact .inserting [] _ rfl
    · intro hg
      cases hg
  | failed f written blockOffset =>
    apply h.regroup <;> try rfl
    · intro g hg
      cases hg
      exact ⟨hinv.writers, hinv.holds, hinv.short, .failed f⟩
    · intro hg
      cases hg
  | syncFailed f =>
    unfold DbState.logged
    dsimp only
    split
    · apply h.regroup <;> try rfl
      · intro g hg
        cases hg
        exact ⟨hinv.writers, hinv.holds, hinv.short, .failed f⟩
      · intro hg
        cases hg
    · exact h

/-- What one more version changes. -/
lemma readGenerations_insert {vs : List (Version Bytes Bytes)} (hsorted : Sorted vs)
    {v : Version Bytes Bytes} (hnew : ∀ w ∈ vs, w.seq < v.seq) (t : ℕ) (key : Bytes) :
    readGenerations (Versions.insert v vs :: gens) t key =
      if v.key = key ∧ v.seq ≤ t then some v else readGenerations (vs :: gens) t key := by
  unfold readGenerations
  rw [List.findSome?_cons, hsorted.newest_insert hnew, List.findSome?_cons]
  by_cases hv : v.key = key ∧ v.seq ≤ t
  · rw [if_pos hv, if_pos hv]
  · rw [if_neg hv, if_neg hv]

lemma Inv.insert (h : Inv submitted s gens done) {batch : WriteBatch} {writers seq : ℕ}
    {sync : Bool} {op : BatchOp} {ops : List BatchOp}
    (hgroup : s.group = some ⟨batch, writers, sync, .inserting seq (op :: ops)⟩)
    (hmax : (opsOf submitted).length ≤ kMaxSequenceNumber) :
    ∃ gens', Inv submitted
        { s with
          active := { s.active with mem := MemTable.insertOp s.active.mem seq op }
          group := some ⟨batch, writers, sync, .inserting (seq + 1) ops⟩ } gens' (done ++ [op]) ∧
      ∀ t ≤ s.lastSequence, ∀ key, readGenerations gens' t key = readGenerations gens t key := by
  have hinv := h.group _ hgroup
  obtain ⟨hops, hseq⟩ : opsOf (s.queue.take writers) = done ++ op :: ops ∧
      seq = s.lastSequence + 1 + done.length := by
    cases hinv.progress with
    | inserting done left hops => exact ⟨hops, rfl⟩
  have hsplit := opsOf_take_append_drop writers s.queue
  have hlen := congrArg List.length hsplit
  rw [hops] at hsplit hlen
  simp only [List.length_append, List.length_cons] at hlen
  have hroom := h.room
  have hop : FitsEntry op := h.fits_queue (by rw [← hsplit]; simp)
  have henc : Encodable ⟨(opWrite op).1, seq, (opWrite op).2⟩ :=
    ⟨by dsimp only; omega, hop.1, hop.2⟩
  cases gens with
  | nil => cases h.memory.holds
  | cons vs rest =>
    obtain ⟨hfirst, hrest⟩ := List.forall₂_cons.mp h.memory.holds
    have hnew : ∀ w ∈ vs, w.seq < seq := by
      intro w hw
      have := h.memory.le_last vs List.mem_cons_self w hw
      omega
    have hread := @readGenerations_insert rest vs hfirst.sorted
      ⟨(opWrite op).1, seq, (opWrite op).2⟩ hnew
    have hstable : ∀ t ≤ s.lastSequence, ∀ key,
        readGenerations (Versions.insert ⟨(opWrite op).1, seq, (opWrite op).2⟩ vs :: rest) t key =
          readGenerations (vs :: rest) t key := by
      intro t ht key
      rw [hread, if_neg fun hv => by dsimp only at hv; omega]
    refine ⟨_, ⟨h.fifo, h.wellFormed, h.room, ?_, by simp, ⟨?_, ?_, ?_⟩, ?_, ?_⟩, hstable⟩
    · intro g hg
      cases hg
      refine ⟨hinv.writers, hinv.holds, hinv.short, ?_⟩
      have hprogress : Progress s.lastSequence (opsOf (s.queue.take writers))
          (.inserting (s.lastSequence + 1 + (done ++ [op]).length) ops) (done ++ [op]) :=
        .inserting _ ops (by rw [hops, List.append_assoc]; rfl)
      rw [List.length_append, List.length_singleton, ← Nat.add_assoc, ← hseq] at hprogress
      exact hprogress
    · refine .cons ?_ hrest
      dsimp only
      rw [insertOp_eq]
      exact hfirst.insert henc hnew
    · intro us hus u hu
      show u.seq ≤ s.lastSequence + (done ++ [op]).length
      rw [List.length_append, List.length_singleton]
      rcases List.mem_cons.mp hus with rfl | hus
      · rcases mem_insert.mp hu with rfl | hu
        · dsimp only
          omega
        · have := hnew u hu
          omega
      · have := h.memory.le_last us (List.mem_cons_of_mem _ hus) u hu
        omega
    · obtain ⟨hhead, htail⟩ := List.pairwise_cons.mp h.memory.newer
      refine List.pairwise_cons.mpr ⟨fun us hus v hv u hu hkey => ?_, htail⟩
      rcases mem_insert.mp hv with rfl | hv
      · have := h.memory.le_last us (List.mem_cons_of_mem _ hus) u hu
        dsimp only
        omega
      · exact hhead us hus v hv u hu hkey
    · intro key
      show (readGenerations _ s.lastSequence key).bind Version.value = _
      rw [hstable s.lastSequence (le_refl _)]
      exact h.reads key
    · intro key
      have hlast : s.lastSequence + (done ++ [op]).length = seq := by
        rw [List.length_append, List.length_singleton]
        omega
      have hold : (readGenerations (vs :: rest) seq key).bind Version.value =
          (applyBatch .empty (s.acknowledged ++ done)).get key := by
        rw [readGenerations_of_le h.memory.le_last (by omega)]
        exact h.reads_done key
      show (readGenerations _ (s.lastSequence + (done ++ [op]).length) key).bind Version.value =
        (applyBatch .empty (s.acknowledged ++ (done ++ [op]))).get key
      rw [hlast, hread, ← List.append_assoc, get_applyBatch, List.foldl_append, ← get_applyBatch,
        List.foldl_cons, List.foldl_nil, ← hold, on_eq_lastWrite, lastWrite]
      by_cases hk : (opWrite op).1 = key
      · rw [if_pos ⟨hk, le_refl _⟩, if_pos hk, Option.bind_some]
      · rw [if_neg fun hv => hk hv.1, if_neg hk]

lemma GroupInv.count_eq {g : Group} (h : GroupInv s g done) :
    g.batch.count = (opsOf (s.queue.take g.writers)).length := by
  rw [h.holds.count_eq, Nat.mod_eq_of_lt (lt_trans h.short (by decide))]

lemma Inv.finish (h : Inv submitted s gens done) {g : Group} (hgroup : s.group = some g)
    {status : Status} (hstatus : (∃ seq, g.phase = .inserting seq [] ∧ status = g.batch.iterate.2) ∨
      ∃ f, g.phase = .failed f ∧ status = .fail f) :
    Inv submitted
      { s.complete g.writers status with lastSequence := s.lastSequence + g.batch.count }
      gens [] := by
  have hinv := h.group g hgroup
  have hcount := hinv.count_eq
  have hprogress := hinv.progress
  rcases hstatus with ⟨seq, hphase, rfl⟩ | ⟨f, hphase, rfl⟩
  · rw [hphase] at hprogress
    have hdone : opsOf (s.queue.take g.writers) = done := by
      cases hprogress with
      | inserting done left hops => rw [hops, List.append_nil]
    apply h.complete
    · rw [hinv.iterate_eq h, if_pos rfl, hdone]
    · rw [hcount, hdone]
    · rw [hcount]
  · rw [hphase] at hprogress
    cases hprogress
    apply h.complete
    · rfl
    · exact Nat.zero_le _
    · rw [hcount]

/-- What a step does: the invariant holds after it, and no snapshot that could be taken before it
sees anything else. -/
lemma Inv.step (h : Inv submitted s gens done) (e : Event) (he : ∀ w ∈ e.submitted, w.WellFormed)
    (hmax : (opsOf submitted).length ≤ kMaxSequenceNumber) :
    ∃ gens' done', Inv (submitted ++ e.submitted) (s.step e) gens' done' ∧
      s.lastSequence ≤ (s.step e).lastSequence ∧
      ∀ t ≤ s.lastSequence, ∀ key, readGenerations gens' t key = readGenerations gens t key := by
  have hstutter : ∃ gens' done', Inv (submitted ++ []) s gens' done' ∧
      s.lastSequence ≤ s.lastSequence ∧
      ∀ t ≤ s.lastSequence, ∀ key, readGenerations gens' t key = readGenerations gens t key :=
    ⟨gens, done, by rw [List.append_nil]; exact h, le_refl _, fun _ _ _ => rfl⟩
  cases e with
  | submit w =>
    exact ⟨gens, done, h.submit (he w (by simp [Event.submitted])), le_refl _, fun _ _ _ => rfl⟩
  | switch =>
    unfold DbState.step
    dsimp only [Event.submitted]
    split
    · exact ⟨[] :: gens, done, by rw [List.append_nil]; exact h.switch, le_refl _,
        fun _ _ _ => rfl⟩
    · exact hstutter
  | start room =>
    unfold DbState.step
    dsimp only [Event.submitted]
    split
    · next w rest hnone hqueue =>
      exact ⟨gens, [], by rw [List.append_nil]; exact h.start hnone hqueue room,
        le_of_eq (DbState.start_lastSequence s w rest room).symm, fun _ _ _ => rfl⟩
    · exact hstutter
  | logged outcome =>
    unfold DbState.step
    dsimp only [Event.submitted]
    split
    · next batch writers sync hgroup =>
      exact ⟨gens, done, by rw [List.append_nil]; exact h.logged hgroup hmax outcome,
        le_of_eq (DbState.logged_lastSequence s _ outcome).symm, fun _ _ _ => rfl⟩
    · exact hstutter
  | insert =>
    unfold DbState.step
    dsimp only [Event.submitted]
    split
    · next batch writers sync seq op ops hgroup =>
      obtain ⟨gens', hinv, hstable⟩ := h.insert hgroup hmax
      exact ⟨gens', done ++ [op], by rw [List.append_nil]; exact hinv, le_refl _, hstable⟩
    · exact hstutter
  | finish =>
    unfold DbState.step
    dsimp only [Event.submitted]
    split
    · next batch writers sync seq hgroup =>
      exact ⟨gens, [], by
        rw [List.append_nil]
        exact h.finish hgroup (Or.inl ⟨seq, rfl, rfl⟩), Nat.le_add_right _ _, fun _ _ _ => rfl⟩
    · next batch writers sync f hgroup =>
      exact ⟨gens, [], by
        rw [List.append_nil]
        exact h.finish hgroup (Or.inr ⟨f, rfl, rfl⟩), Nat.le_add_right _ _, fun _ _ _ => rfl⟩
    · exact hstutter

/-- What a read finds at a sequence number. -/
lemma Inv.get_eq (h : Inv submitted s gens done) {key : Bytes} (hkey : key.length + 8 < 2 ^ 32)
    {t : ℕ} (ht : t ≤ kMaxSequenceNumber) :
    s.get key t = (readGenerations gens t key).map answer := by
  have hholds := h.memory.holds
  unfold DbState.get readGenerations
  generalize s.active :: s.older = gs at hholds
  clear h
  induction hholds with
  | nil => rfl
  | cons hfirst _ ih =>
    rw [List.findSome?_cons, List.findSome?_cons, hfirst.get_eq hkey ht, ih]
    cases newest _ t key <;> rfl

end

/-! ## Runs -/

/-- The writers that come to the queue in a run. -/
def submittedIn (events : List Event) : List Writer := events.flatMap Event.submitted

def DbState.run (s : DbState) (events : List Event) : DbState := events.foldl DbState.step s

lemma inv_run {submitted : List Writer} {s : DbState} {gens : List (List (Version Bytes Bytes))}
    {done : List BatchOp} (h : Inv submitted s gens done) {events : List Event}
    (hevents : ∀ w ∈ submittedIn events, w.WellFormed)
    (hmax : (opsOf (submitted ++ submittedIn events)).length ≤ kMaxSequenceNumber) :
    ∃ gens' done', Inv (submitted ++ submittedIn events) (s.run events) gens' done' ∧
      s.lastSequence ≤ (s.run events).lastSequence ∧
      ∀ t ≤ s.lastSequence, ∀ key, readGenerations gens' t key = readGenerations gens t key := by
  induction events generalizing submitted s gens done with
  | nil =>
    exact ⟨gens, done, by rw [submittedIn, List.flatMap_nil, List.append_nil]; exact h, le_refl _,
      fun _ _ _ => rfl⟩
  | cons e events ih =>
    have hcons : submittedIn (e :: events) = e.submitted ++ submittedIn events := List.flatMap_cons
    rw [hcons] at hevents hmax ⊢
    rw [← List.append_assoc] at hmax ⊢
    have hshort : (opsOf submitted).length ≤ kMaxSequenceNumber := by
      rw [opsOf_append, opsOf_append, List.length_append, List.length_append] at hmax
      omega
    obtain ⟨gens', done', hinv, hle, hstable⟩ :=
      h.step e (fun w hw => hevents w (List.mem_append_left _ hw)) hshort
    obtain ⟨gens'', done'', hinv', hle', hstable'⟩ :=
      ih hinv (fun w hw => hevents w (List.mem_append_right _ hw)) hmax
    refine ⟨gens'', done'', hinv', le_trans hle hle', fun t ht key => ?_⟩
    rw [hstable' t (le_trans ht hle), hstable t ht]

/-- A batch with one record. -/
lemma wellFormed_put {key value : Bytes} (hkey : key.length + 8 < 2 ^ 32)
    (hvalue : value.length < 2 ^ 32) (id : ℕ) (sync : Bool) :
    Writer.WellFormed ⟨id, some (WriteBatch.clear.put key value), sync⟩ := by
  intro b hb
  cases hb
  have hop : FitsEntry (.put key value) := ⟨hkey, hvalue⟩
  have hholds : (WriteBatch.clear.put key value).Holds 0 ([] ++ [.put key value]) :=
    WriteBatch.holds_clear.put key value
  have hiter := hholds.iterate_eq (by
    intro op hmem
    rw [List.nil_append, List.mem_singleton] at hmem
    rw [hmem]
    exact fits_of_fitsEntry hop) (by simp)
  refine ⟨⟨0, ?_⟩, ?_, ?_⟩ <;> rw [hiter]
  · exact hholds
  · intro op hmem
    rw [List.nil_append, List.mem_singleton] at hmem
    rw [hmem]
    exact hop
  · simp

/-- **Group commit.** In every run, whatever fails and wherever it stands: writers are completed
once each and in the order in which they came; a read at the last sequence number sees the writes
that were acknowledged, whole and in that order, and nothing of a group in progress; and what a
read at a sequence number has seen, later reads at it see again. -/
theorem group_commit (events later : List Event)
    (hwriters : ∀ w ∈ submittedIn (events ++ later), w.WellFormed)
    (hmax : (opsOf (submittedIn (events ++ later))).length ≤ kMaxSequenceNumber) (key : Bytes)
    (hkey : key.length + 8 < 2 ^ 32) :
    let s := DbState.new.run events
    submittedIn events = s.results.map Prod.fst ++ s.queue ∧
      (∀ value, s.get key s.lastSequence = some (.ok value) ↔
        (applyBatch .empty s.acknowledged).get key = some value) ∧
      (s.run later).get key s.lastSequence = s.get key s.lastSequence := by
  intro s
  have hsplit : submittedIn (events ++ later) = submittedIn events ++ submittedIn later :=
    List.flatMap_append
  rw [hsplit] at hwriters hmax
  have hshort : (opsOf ([] ++ submittedIn events)).length ≤ kMaxSequenceNumber := by
    rw [opsOf_append, List.length_append] at hmax
    rw [List.nil_append]
    omega
  obtain ⟨gens, done, hinv, -, -⟩ :=
    inv_run inv_new (fun w hw => hwriters w (List.mem_append_left _ hw)) hshort
  rw [List.nil_append] at hinv hshort
  obtain ⟨gens', done', hinv', -, hstable⟩ :=
    inv_run hinv (fun w hw => hwriters w (List.mem_append_right _ hw)) hmax
  have hlast : s.lastSequence ≤ kMaxSequenceNumber :=
    le_trans (le_trans (Nat.le_add_right _ _) hinv.room) hshort
  have hget := hinv.get_eq hkey hlast
  refine ⟨hinv.fifo, fun value => ?_, ?_⟩
  · rw [hget, ← hinv.reads]
    cases readGenerations gens s.lastSequence key with
    | none => simp
    | some v =>
      rw [Option.map_some, Option.bind_some, answer]
      cases v.value <;> simp
  · rw [hget, hinv'.get_eq hkey hlast, hstable _ (le_refl _)]

/-- Two writers in a group, of which one key is read while the group is at work. -/
theorem group_commit_in_progress :
    let s := DbState.new.run
      [.submit ⟨0, some (WriteBatch.clear.put [0x61] [1]), false⟩, .start none, .logged .ok,
        .insert, .finish, .submit ⟨1, some (WriteBatch.clear.put [0x61] [2]), false⟩, .start none,
        .logged .ok, .insert]
    s.get [0x61] s.lastSequence = some (.ok [1]) := by
  intro s
  have hcommit := group_commit
    [.submit ⟨0, some (WriteBatch.clear.put [0x61] [1]), false⟩, .start none, .logged .ok, .insert,
      .finish, .submit ⟨1, some (WriteBatch.clear.put [0x61] [2]), false⟩, .start none,
      .logged .ok, .insert] [] ?_ ?_ [0x61] (by decide)
  · refine (hcommit.2.1 [1]).mpr ?_
    decide +kernel
  · intro w hw
    simp only [submittedIn, Event.submitted, List.append_nil, List.flatMap_cons,
      List.flatMap_nil, List.nil_append, List.cons_append, List.mem_cons, List.not_mem_nil,
      or_false] at hw
    rcases hw with rfl | rfl
    · exact wellFormed_put (by decide) (by decide) 0 false
    · exact wellFormed_put (by decide) (by decide) 1 false
  · decide +kernel

end Engine

end RnLeveldb
