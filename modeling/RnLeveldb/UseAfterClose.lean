import RnLeveldb.OpenRefs

/-!
# Use after close

A method hands the reference of its wrapper to a host function, which looks the object up
before it does anything else. When the slot is empty the method throws and nothing has
changed (`step_of_empty`). The one exception is `compareKey`: `leveldbIteratorKeyCompare`
calls `key()` on the pointer and tests it afterwards.

The slot of an object that has been closed stays out of reach of its wrappers for the rest of
the run, whatever is opened later (`objAt_of_once`).
-/

namespace RnLeveldb

/-- The arguments have the types `index.ts` declares for them. -/
def Call.WellTyped : Call → Prop
  | .put _ k v | .batchPut _ k v => k.IsData ∧ v.IsData
  | .delete _ k | .getStr _ k | .getBuf _ k | .batchDelete _ k => k.IsData
  | .iterator _ (.seek target) | .iterator _ (.compareKey target) => target.IsData
  | _ => True

/-! ## Host functions -/

section

variable {w : World} {fn : HostFn} {ref : JsValue}

/-- The lookup comes first, so that nothing else of the function is reached. -/
lemma withDb_of_empty {act : Db → Outcome × World} (h : w.objAt .db ref = none) :
    ∃ e, withDb w fn ref act = (.throw e, w) := by
  obtain ⟨e, hw⟩ | ⟨k, db, hk, hdb, -⟩ := withDb_cases w fn ref act
  · exact ⟨_, hw⟩
  · simp [World.objAt, hk, hdb] at h

/-- The same for iterators. -/
lemma withIterator_of_empty {act : Iterator → Outcome × World}
    (h : w.objAt .iterator ref = none) : ∃ e, withIterator w fn ref act = (.throw e, w) := by
  obtain hw | ⟨k, it, hk, hit, -⟩ := withIterator_cases w fn ref act
  · exact ⟨_, hw⟩
  · simp [World.objAt, hk, hit] at h

/-- And for batches. -/
lemma withBatch_of_empty {act : WriteBatch → Outcome × World}
    (h : w.objAt .batch ref = none) : ∃ e, withBatch w fn ref act = (.throw e, w) := by
  obtain ⟨e, hw⟩ | ⟨k, b, hk, hb, -⟩ := withBatch_cases w fn ref act
  · exact ⟨_, hw⟩
  · simp [World.objAt, hk, hb] at h

lemma leveldbClose_of_empty (h : w.objAt .db ref = none) :
    ∃ e, leveldbClose w ref = (.throw e, w) := by
  obtain hw | ⟨k, db, hk, hdb, -⟩ := Process.leveldbClose_cases w ref
  · exact hw
  · simp [World.objAt, hk, hdb] at h

lemma valueToDb_of_empty (h : w.objAt .db ref = none) : ∃ e, valueToDb w ref = .error e := by
  refine valueToSlot_error.mpr ?_
  simpa [World.objAt] using h

/-- The batch is looked up only when the database has been found. -/
lemma leveldbWriteWriteBatch_of_empty {faults : Faults} {batchRef : JsValue}
    (h : w.objAt .db ref = none ∨ w.objAt .batch batchRef = none) :
    ∃ e, leveldbWriteWriteBatch w faults ref batchRef = (.throw e, w) := by
  rcases h with h | h
  · exact withDb_of_empty h
  · unfold leveldbWriteWriteBatch
    obtain ⟨e, hw⟩ | ⟨-, db, -, -, hw⟩ := withDb_cases w .leveldbWriteWriteBatch ref _ <;> rw [hw]
    · exact ⟨_, rfl⟩
    · exact withBatch_of_empty h

/-- A merge looks up both databases before it reads or writes. -/
lemma leveldbMerge_of_empty {faults : Faults} {srcRef batchMerge : JsValue}
    (h : w.objAt .db ref = none ∨ w.objAt .db srcRef = none) :
    ∃ e, leveldbMerge w faults ref srcRef batchMerge = (.throw e, w) := by
  unfold leveldbMerge
  cases hdst : valueToDb w ref with
  | error e => exact ⟨_, rfl⟩
  | ok dst =>
    rcases h with h | h
    · obtain ⟨e, he⟩ := valueToDb_of_empty h
      rw [he] at hdst
      cases hdst
    · obtain ⟨e, he⟩ := valueToDb_of_empty h
      rw [he]
      exact ⟨_, rfl⟩

/-- The null pointer is used as soon as the target is in order. -/
lemma leveldbIteratorKeyCompare_of_empty (target : JsValue) (h : w.objAt .iterator ref = none) :
    (∃ e, leveldbIteratorKeyCompare w ref target = (.throw e, w)) ∨
      target.IsData ∧ leveldbIteratorKeyCompare w ref target = (.crash .nullPointer, w) := by
  unfold leveldbIteratorKeyCompare
  cases ht : valueToString target with
  | none => exact Or.inl ⟨_, rfl⟩
  | some t =>
    -- nothing stands between the lookup and `key()`
    refine Or.inr ⟨valueToString_isSome.mp (by rw [ht]; rfl), ?_⟩
    have hnone : valueToIterator w ref = none := by
      rw [valueToIterator, toOption_valueToSlot]
      simpa [World.objAt] using h
    rw [hnone]

end

/-! ## Calls -/

namespace Process

variable {s : Process}

lemma on_some {α : Type} {wrappers : List α} {i : ℕ} {a : α} (h : wrappers[i]? = some a)
    (method : α → Outcome × Process) : s.on wrappers i method = method a := by
  rw [on, h]

/-- What a host function throws without changing anything the method throws likewise. -/
lemma forwardAs_of_throw {v : JsValue} {r : Outcome × World}
    (h : ∃ e, r = (.throw e, s.native)) : ∃ e, s.forwardAs v r = (.throw e, s) := by
  obtain ⟨e, rfl⟩ := h
  exact ⟨e, rfl⟩

lemma forward_of_throw {r : Outcome × World} (h : ∃ e, r = (.throw e, s.native)) :
    ∃ e, s.forward r = (.throw e, s) := by
  obtain ⟨e, rfl⟩ := h
  exact ⟨e, rfl⟩

/-- All methods of an iterator but `compareKey` throw on an emptied slot. -/
lemma iteratorCall_of_empty {f : Faults} {i : ℕ} {h : LevelDBIterator} {m : IteratorMethod}
    (hnone : s.native.objAt .iterator h.ref = none) :
    (∃ e, s.iteratorCall f i h m = (.throw e, s)) ∨
      ∃ target, m = .compareKey target ∧ target.IsData ∧
        s.iteratorCall f i h m = (.crash .nullPointer, s) := by
  cases m with
  | seekToFirst | seekLast | seek | next | prev =>
    exact Or.inl (forwardAs_of_throw (withIterator_of_empty hnone))
  | valid | keyStr | keyBuf | valueStr | valueBuf =>
    exact Or.inl (forward_of_throw (withIterator_of_empty hnone))
  | close =>
    refine Or.inl ?_
    obtain ⟨e, he⟩ : ∃ e, leveldbIteratorDelete s.native h.ref = (.throw e, s.native) :=
      withIterator_of_empty hnone
    dsimp only [iteratorCall]
    rw [he]
    exact ⟨e, rfl⟩
  | compareKey target =>
    dsimp only [iteratorCall]
    obtain he | ⟨hdata, hcrash⟩ := leveldbIteratorKeyCompare_of_empty target hnone
    · exact Or.inl (forward_of_throw he)
    · rw [hcrash]
      exact Or.inr ⟨target, rfl, hdata, rfl⟩

/-- Closed through this wrapper, or behind its back. -/
lemma newIterator_of_empty {h : LevelDB} (hnone : s.native.objAt .db h.ref = none) :
    ∃ e, s.newIterator h = (.throw e, s) := by
  unfold newIterator
  split
  · exact ⟨_, rfl⟩
  · obtain ⟨e, he⟩ : ∃ e, leveldbNewIterator s.native h.ref = (.throw e, s.native) :=
      withDb_of_empty hnone
    rw [he]
    exact ⟨e, rfl⟩

/-- A merge throws if either of its databases is closed. -/
lemma merge_of_empty {f : Faults} {h src : LevelDB} {batchMerge : Bool}
    (hnone : s.native.objAt .db h.ref = none ∨ s.native.objAt .db src.ref = none) :
    ∃ e, s.merge f h src batchMerge = (.throw e, s) := by
  unfold merge
  split
  · exact ⟨_, rfl⟩
  · split
    · exact ⟨_, rfl⟩
    · exact forwardAs_of_throw (leveldbMerge_of_empty hnone)

/-- A method on two wrappers that throws if one of them finds nothing. -/
lemma on_on_of_empty {α β : Type} {xs : List α} {ys : List β} {i j : ℕ} {kind kind' : Kind}
    {toHandle : α → Handle} {toHandle' : β → Handle} {u : Kind × Handle}
    {method : α → β → Outcome × Process}
    (hu : u ∈ (xs[i]?.map fun a => (kind, toHandle a)).toList
      ++ (ys[j]?.map fun b => (kind', toHandle' b)).toList)
    (hmethod : ∀ a b, u = (kind, toHandle a) ∨ u = (kind', toHandle' b) →
      ∃ e, method a b = (.throw e, s)) :
    ∃ e, s.on xs i (fun a => s.on ys j (method a)) = (.throw e, s) := by
  cases hi : xs[i]? with
  | none => exact ⟨.typeError, by rw [on, hi]⟩
  | some a =>
    rw [on_some hi]
    cases hj : ys[j]? with
    | none => exact ⟨.typeError, by rw [on, hj]⟩
    | some b =>
      rw [on_some hj]
      apply hmethod
      simpa [hi, hj] using hu

/-- A call that uses a wrapper whose slot is empty throws and changes nothing, unless it is
a `compareKey`. -/
theorem step_of_empty {c : Call} {u : Kind × Handle} (hu : u ∈ c.uses s)
    (hnone : s.native.objAt u.1 u.2.ref = none) (f : Faults) :
    (∃ e, s.step (c, f) = (.throw e, s)) ∨
      ∃ i target, c = .iterator i (.compareKey target) ∧ target.IsData ∧
        s.step (c, f) = (.crash .nullPointer, s) := by
  cases c with
  | newLevelDB | destroyDB | newWriteBatch | closed => exact (List.not_mem_nil hu).elim
  | close i =>
    obtain ⟨h, hi, rfl⟩ := mem_uses hu
    obtain ⟨e, he⟩ := leveldbClose_of_empty hnone
    refine Or.inl ⟨e, ?_⟩
    dsimp only [step]
    rw [on_some hi, close, he]
  | put i | delete i =>
    obtain ⟨h, hi, rfl⟩ := mem_uses hu
    dsimp only [step]
    rw [on_some hi]
    exact Or.inl (forwardAs_of_throw (withDb_of_empty hnone))
  | getStr i | getBuf i =>
    obtain ⟨h, hi, rfl⟩ := mem_uses hu
    dsimp only [step]
    rw [on_some hi]
    exact Or.inl (forward_of_throw (withDb_of_empty hnone))
  | newIterator i =>
    obtain ⟨h, hi, rfl⟩ := mem_uses hu
    dsimp only [step]
    rw [on_some hi]
    exact Or.inl (newIterator_of_empty hnone)
  | write i j =>
    refine Or.inl (on_on_of_empty hu fun h b hboth => ?_)
    apply forwardAs_of_throw
    apply leveldbWriteWriteBatch_of_empty
    rcases hboth with rfl | rfl
    · exact Or.inl hnone
    · exact Or.inr hnone
  | merge i j batchMerge =>
    refine Or.inl (on_on_of_empty hu fun h src hboth => merge_of_empty ?_)
    rcases hboth with rfl | rfl
    · exact Or.inl hnone
    · exact Or.inr hnone
  | iterator i m =>
    obtain ⟨h, hi, rfl⟩ := mem_uses hu
    dsimp only [step]
    rw [on_some hi]
    obtain he | ⟨target, rfl, hdata, hcrash⟩ :=
      iteratorCall_of_empty (i := i) (f := f) (m := m) hnone
    · exact Or.inl he
    · exact Or.inr ⟨i, target, rfl, hdata, hcrash⟩
  | batchPut i | batchDelete i =>
    obtain ⟨h, hi, rfl⟩ := mem_uses hu
    dsimp only [step]
    rw [on_some hi]
    exact Or.inl (forwardAs_of_throw (withBatch_of_empty hnone))
  | batchClose i =>
    obtain ⟨h, hi, rfl⟩ := mem_uses hu
    obtain ⟨e, he⟩ : ∃ e, leveldbWriteBatchClose s.native h.ref = (.throw e, s.native) :=
      withBatch_of_empty hnone
    refine Or.inl ⟨e, ?_⟩
    dsimp only [step]
    rw [on_some hi, batchClose, he]

/-! ## Closing iterators and batches -/

variable {x : Call × Faults} {o : ℕ}

/-- The call closes the iterator of identity `o` through its wrapper. -/
def ClosesIterator (o : ℕ) (s : Process) (x : Call × Faults) : Prop :=
  ∃ (i : ℕ) (h : LevelDBIterator) (v : JsValue) (on : List Obj), x.1 = .iterator i .close ∧
    s.iterators[i]? = some h ∧ h.obj = some o ∧ (s.step x).1 = .ret v on

/-- The call closes the batch of identity `o` through its wrapper. -/
def ClosesBatch (o : ℕ) (s : Process) (x : Call × Faults) : Prop :=
  ∃ (i : ℕ) (h : LevelDBWriteBatch) (v : JsValue) (on : List Obj), x.1 = .batchClose i ∧
    s.batches[i]? = some h ∧ h.obj = some o ∧ (s.step x).1 = .ret v on

/-- Closing an iterator does nothing and does not return, or it empties the slot of the
wrapper. -/
lemma step_iteratorClose_cases {i : ℕ} {h : LevelDBIterator} (hi : s.iterators[i]? = some h)
    (f : Faults) :
    ((s.step (.iterator i .close, f)).2 = s ∧
        ∀ v on, (s.step (.iterator i .close, f)).1 ≠ .ret v on) ∨
      ∃ k it, refIdx h.ref = some k ∧ s.native.iterators.get k = some it ∧
        (s.step (.iterator i .close, f)).1 = .ret .undefined [⟨.iterator, it.id⟩] ∧
        (s.step (.iterator i .close, f)).2.native.iterators = s.native.iterators.reset k := by
  have hstep : s.step (.iterator i .close, f) = s.iteratorCall f i h .close := by
    dsimp only [step, on]
    rw [hi]
  rw [hstep]
  dsimp only [iteratorCall]
  obtain hw | ⟨k, it, hk, hit, hw⟩ :=
      withIterator_cases s.native .leveldbIteratorDelete h.ref _ <;>
    rw [leveldbIteratorDelete, hw]
  · exact Or.inl ⟨rfl, fun _ _ hret => by cases hret⟩
  · by_cases hdb : s.native.hasDb it = true
    · rw [if_pos hdb, slotOf_of_refIdx hk]
      exact Or.inr ⟨k, it, hk, hit, rfl, rfl⟩
    · rw [if_neg hdb]
      exact Or.inl ⟨rfl, fun _ _ hret => by cases hret⟩

/-- The same for batches. -/
lemma step_batchClose_cases {i : ℕ} {h : LevelDBWriteBatch} (hi : s.batches[i]? = some h)
    (f : Faults) :
    ((s.step (.batchClose i, f)).2 = s ∧ ∀ v on, (s.step (.batchClose i, f)).1 ≠ .ret v on) ∨
      ∃ k b, refIdx h.ref = some k ∧ s.native.batches.get k = some b ∧
        (s.step (.batchClose i, f)).1 = .ret .undefined [⟨.batch, b.id⟩] ∧
        (s.step (.batchClose i, f)).2.native.batches = s.native.batches.reset k := by
  have hstep : s.step (.batchClose i, f) = s.batchClose i h := by
    dsimp only [step, on]
    rw [hi]
  rw [hstep]
  unfold batchClose
  obtain ⟨e, hw⟩ | ⟨k, b, hk, hb, hw⟩ :=
      withBatch_cases s.native .leveldbWriteBatchClose h.ref _ <;>
    rw [leveldbWriteBatchClose, hw]
  · exact Or.inl ⟨rfl, fun _ _ hret => by cases hret⟩
  · rw [slotOf_of_refIdx hk, hb]
    exact Or.inr ⟨k, b, hk, hb, rfl, rfl⟩

/-- What is closed was live before the call and is not afterwards. -/
lemma ClosesIterator.live (h : s.Installed) (hc : ClosesIterator o s x) :
    s.native.iterators.Live Iterator.id o ∧
      ¬ (s.step x).2.native.iterators.Live Iterator.id o := by
  obtain ⟨c, f⟩ := x
  obtain ⟨i, w, v, on, hci, hi, hobj, hret⟩ := hc
  dsimp only at hci
  subst hci
  obtain ⟨-, hnot⟩ | ⟨k, it, hk, hit, -, hits⟩ := step_iteratorClose_cases hi f
  · exact absurd hret (hnot v on)
  · have hmem := List.mem_of_getElem? hi
    obtain ⟨o', d, hok⟩ := h.inv.iterators.handles w hmem (h.current.iterators w hmem)
    have hoo : o' = o := Option.some.inj (hok.obj.symm.trans hobj)
    subst hoo
    have htr := hok.holder.tracks
    rw [hk] at htr
    refine ⟨htr.live_iff.mpr (by simp [hit]), ?_⟩
    rw [hits]
    exact htr.reset_self

/-- The same for batches. -/
lemma ClosesBatch.live (h : s.Installed) (hc : ClosesBatch o s x) :
    s.native.batches.Live WriteBatch.id o ∧
      ¬ (s.step x).2.native.batches.Live WriteBatch.id o := by
  obtain ⟨c, f⟩ := x
  obtain ⟨i, w, v, on, hci, hi, hobj, hret⟩ := hc
  dsimp only at hci
  subst hci
  obtain ⟨-, hnot⟩ | ⟨k, b, hk, hb, -, hbs⟩ := step_batchClose_cases hi f
  · exact absurd hret (hnot v on)
  · have hmem := List.mem_of_getElem? hi
    obtain ⟨o', hok⟩ := h.inv.batches.handles w hmem (h.current.batches w hmem)
    have hoo : o' = o := Option.some.inj (hok.obj.symm.trans hobj)
    subst hoo
    have htr := hok.holder.tracks
    rw [hk] at htr
    refine ⟨htr.live_iff.mpr (by simp [hb]), ?_⟩
    rw [hbs]
    exact htr.reset_self

/-- An iterator that is in a slot after a call was there before, or is new. -/
lemma Effect.live_iterator {s' : Process} {c : Call} (heff : Effect s c s')
    (hlive : s'.native.iterators.Live Iterator.id o) :
    s.native.iterators.Live Iterator.id o ∨ s.native.nextId ≤ o := by
  obtain ⟨j, it, hj, rfl⟩ := hlive
  cases heff with
  | newIterator =>
    dsimp only at hj
    rw [SlotTable.get_push] at hj
    split at hj
    · cases hj
      exact Or.inr le_rfl
    · exact Or.inl ⟨j, it, hj, rfl⟩
  | moved i k m h it₀ it' hi hk hit hid =>
    obtain ⟨it₁, hj', hid'⟩ := SlotTable.get_update_same_id hit hid hj
    exact Or.inl ⟨j, it₁, hj', hid'⟩
  | closedIterator =>
    dsimp only at hj
    rw [SlotTable.get_reset] at hj
    split at hj
    · cases hj
    · exact Or.inl ⟨j, it, hj, rfl⟩
  | stored | openFailed | opened | shared | closed | destroyed | forceClosed | newBatch
  | appended | closedBatch => exact Or.inl ⟨j, it, hj, rfl⟩

/-- The same for batches, of which a new one may take a slot that was emptied. -/
lemma Effect.live_batch {s' : Process} {c : Call} (heff : Effect s c s')
    (hlive : s'.native.batches.Live WriteBatch.id o) :
    s.native.batches.Live WriteBatch.id o ∨ s.native.nextId ≤ o := by
  obtain ⟨j, b, hj, rfl⟩ := hlive
  cases heff with
  | newBatch =>
    dsimp only at hj
    rw [SlotTable.get_alloc] at hj
    split at hj
    · cases hj
      exact Or.inr le_rfl
    · exact Or.inl ⟨j, b, hj, rfl⟩
  | appended c i k h b₀ op hc hi hk hb =>
    have hid : WriteBatch.id { b₀ with ops := b₀.ops ++ [op] } = b₀.id := rfl
    obtain ⟨b₁, hj', hid'⟩ := SlotTable.get_update_same_id hb hid hj
    exact Or.inl ⟨j, b₁, hj', hid'⟩
  | closedBatch =>
    dsimp only at hj
    rw [SlotTable.get_reset] at hj
    split at hj
    · cases hj
    · exact Or.inl ⟨j, b, hj, rfl⟩
  | stored | openFailed | opened | shared | closed | destroyed | forceClosed | newIterator
  | moved | closedIterator => exact Or.inl ⟨j, b, hj, rfl⟩

end Process

/-! ## Closed in a run -/

/-- The object of identity `o` is in some slot of its registry. -/
def World.Live (w : World) : Kind → ℕ → Prop
  | .db, o => w.dbs.Live Db.id o
  | .iterator, o => w.iterators.Live Iterator.id o
  | .batch, o => w.batches.Live WriteBatch.id o

lemma World.live_of_objAt {w : World} {kind : Kind} {ref : JsValue} {o : ℕ}
    (h : w.objAt kind ref = some o) : w.Live kind o := by
  cases kind <;> obtain ⟨a, ha, rfl⟩ := Option.map_eq_some_iff.mp h <;>
    obtain ⟨k, -, hk⟩ := Option.bind_eq_some_iff.mp ha
  · exact ⟨k, a, hk, rfl⟩
  · exact ⟨k, a, hk, rfl⟩
  · exact ⟨k, a, hk, rfl⟩

namespace Process

variable {s : Process} {x : Call × Faults} {kind : Kind} {o : ℕ}

/-- The call closes the object of identity `o`: an iterator or a batch through its wrapper, a
database through any wrapper of its name or by a forced destroy of the name. -/
def ClosesObj : Kind → ℕ → Process → Call × Faults → Prop
  | .db, o, s, x => ∃ name, ClosesDb name o s x
  | .iterator, o, s, x => ClosesIterator o s x
  | .batch, o, s, x => ClosesBatch o s x

/-- Closing takes the object out of its slot, whatever its kind. -/
lemma ClosesObj.live (h : s.Installed) (hc : ClosesObj kind o s x) :
    s.native.Live kind o ∧ ¬ (s.step x).2.native.Live kind o := by
  cases kind with
  | db =>
    obtain ⟨name, hc⟩ := hc
    exact hc.live h.inv (h.current.usesCurrent x.1)
  | iterator => exact ClosesIterator.live h hc
  | batch => exact ClosesBatch.live h hc

/-- No call puts an object back into a slot: what comes in is new. -/
lemma Effect.live {s' : Process} {c : Call} (heff : Effect s c s')
    (hlive : s'.native.Live kind o) : s.native.Live kind o ∨ s.native.nextId ≤ o := by
  cases kind with
  | db => exact heff.live_db hlive
  | iterator => exact heff.live_iterator hlive
  | batch => exact heff.live_batch hlive

/-- Identities are given out in order. -/
lemma Inv.lt_nextId (h : s.Inv) (hlive : s.native.Live kind o) : o < s.native.nextId := by
  cases kind <;> obtain ⟨k, a, hk, rfl⟩ := hlive
  · exact h.dbs.ids.lt hk
  · exact h.iterators.ids.lt hk
  · exact h.batches.ids.lt hk

/-- An object that was closed in a run is in no slot at its end: identities are not given out
again. -/
lemma not_live_of_once (disk : Dir → Option Content) (documentDir : Bytes)
    (cs : List (Call × Faults))
    (h : Machine.Once step (ClosesObj kind o) (start disk documentDir) cs) :
    ¬ (Machine.run step (start disk documentDir) cs).native.Live kind o ∧
      o < (Machine.run step (start disk documentDir) cs).native.nextId := by
  induction cs using List.reverseRecOn with
  | nil => exact h.elim
  | append_singleton cs x ih =>
    have hinst := installed_run disk documentDir cs
    have heff := step_effect (Machine.run step (start disk documentDir) cs) x.1 x.2
    rw [Machine.run_snoc]
    rcases (Machine.once_snoc step _ _ cs x).mp h with hpast | hnow
    · obtain ⟨hdead, hlt⟩ := ih hpast
      refine ⟨fun hlive => ?_, lt_of_lt_of_le hlt heff.nextId_le⟩
      rcases heff.live hlive with hlive | hnew
      · exact hdead hlive
      · omega
    · obtain ⟨hlive, hdead⟩ := hnow.live hinst
      exact ⟨hdead, lt_of_lt_of_le (hinst.inv.lt_nextId hlive) heff.nextId_le⟩

/-- A wrapper of the current generation that finds an object finds its own. -/
lemma Inv.objAt_eq (h : s.Inv) {c : Call} {u : Kind × Handle} (hu : u ∈ c.uses s)
    (hgen : u.2.gen = s.native.gen) (hne : s.native.objAt u.1 u.2.ref ≠ none) :
    ∃ o, u.2.obj = some o ∧ s.native.objAt u.1 u.2.ref = some o := by
  rcases uses_cases hu with ⟨w, hw, rfl⟩ | ⟨w, hw, rfl⟩ | ⟨w, hw, rfl⟩
  · obtain ⟨o, hok⟩ := h.dbs.handles w hw hgen
    exact ⟨o, hok.obj, hok.holder.tracks.find_eq hne⟩
  · obtain ⟨o, d, hok⟩ := h.iterators.handles w hw hgen
    exact ⟨o, hok.obj, hok.holder.tracks.find_eq hne⟩
  · obtain ⟨o, hok⟩ := h.batches.handles w hw hgen
    exact ⟨o, hok.obj, hok.holder.tracks.find_eq hne⟩

/-- Whatever has been done since, the reference of a wrapper whose object has been closed finds
nothing. -/
lemma objAt_of_once (disk : Dir → Option Content) (documentDir : Bytes)
    (cs : List (Call × Faults)) {c : Call} {u : Kind × Handle}
    (hu : u ∈ c.uses (Machine.run step (start disk documentDir) cs)) (hobj : u.2.obj = some o)
    (hclosed : Machine.Once step (ClosesObj u.1 o) (start disk documentDir) cs) :
    (Machine.run step (start disk documentDir) cs).native.objAt u.1 u.2.ref = none := by
  have hinst := installed_run disk documentDir cs
  by_contra hne
  have hgen : u.2.gen = (Machine.run step (start disk documentDir) cs).native.gen := by
    rcases uses_cases hu with ⟨w, hw, rfl⟩ | ⟨w, hw, rfl⟩ | ⟨w, hw, rfl⟩
    · exact hinst.current.dbs w hw
    · exact hinst.current.iterators w hw
    · exact hinst.current.batches w hw
  obtain ⟨o', hobj', hat⟩ := hinst.inv.objAt_eq hu hgen hne
  have hoo : o' = o := Option.some.inj (hobj'.symm.trans hobj)
  rw [hoo] at hat
  exact (not_live_of_once disk documentDir cs hclosed).1 (World.live_of_objAt hat)

/-! ## The result -/

/-- A `compareKey` with a target of the declared type does not throw on an emptied slot. -/
lemma compareKey_of_empty {i : ℕ} {target : JsValue} {f : Faults}
    (hty : (Call.iterator i (.compareKey target)).WellTyped) {u : Kind × Handle}
    (hu : u ∈ (Call.iterator i (.compareKey target)).uses s)
    (hnone : s.native.objAt u.1 u.2.ref = none) :
    s.step (.iterator i (.compareKey target), f) = (.crash .nullPointer, s) := by
  obtain ⟨h, hi, rfl⟩ := mem_uses hu
  dsimp only [step]
  rw [on_some hi]
  dsimp only [iteratorCall]
  obtain ⟨e, he⟩ | ⟨-, hcrash⟩ := leveldbIteratorKeyCompare_of_empty target hnone
  · unfold leveldbIteratorKeyCompare at he
    obtain ⟨t, ht⟩ := Option.isSome_iff_exists.mp (valueToString_isSome.mpr hty)
    rw [ht] at he
    dsimp only at he
    split at he
    · cases he
    · next it hit =>
      rw [valueToIterator, toOption_valueToSlot] at hit
      simp [World.objAt, hit] at hnone
  · rw [hcrash]
    rfl

/-- **Use after close throws, except for `compareKey`.** Once the object of a wrapper has been
closed, through this wrapper or, for a database, through another one of its name or by a forced
destroy, then in every state the application reaches within the installation, whatever it has
opened since, a call that uses the wrapper throws and leaves the process as it was, exactly when
it is not a `compareKey`. -/
theorem use_after_close_throws_iff (disk : Dir → Option Content) (documentDir : Bytes)
    (cs : List (Call × Faults)) (c : Call) (f : Faults) (hty : c.WellTyped) (u : Kind × Handle)
    (hu : u ∈ c.uses (Machine.run step (start disk documentDir) cs)) (o : ℕ)
    (hobj : u.2.obj = some o)
    (hclosed : Machine.Once step (ClosesObj u.1 o) (start disk documentDir) cs) :
    (∃ e, (Machine.run step (start disk documentDir) cs).step (c, f) =
        (.throw e, Machine.run step (start disk documentDir) cs)) ↔
      ∀ i target, c ≠ .iterator i (.compareKey target) := by
  have hempty := objAt_of_once disk documentDir cs hu hobj hclosed
  constructor
  · rintro ⟨e, he⟩ i target rfl
    rw [compareKey_of_empty hty hu hempty] at he
    cases he
  · intro hne
    obtain he | ⟨i, target, rfl, -⟩ := step_of_empty hu hempty f
    · exact he
    · exact absurd rfl (hne i target)

/-- A `put` through a wrapper whose database was closed behind its back, after another database
has been opened. -/
theorem use_after_close_throws_iff_put :
    ∃ e, (afterCalls [.newLevelDB [] true false, .newLevelDB [] true false, .close 1,
        .newLevelDB [0x61] true false]).step (.put 0 (.string [0x6B]) (.string []), {}) =
      (.throw e, afterCalls [.newLevelDB [] true false, .newLevelDB [] true false, .close 1,
        .newLevelDB [0x61] true false]) := by
  refine (use_after_close_throws_iff (fun _ => none) (ascii "/d") _
    (.put 0 (.string [0x6B]) (.string [])) {} ⟨trivial, trivial⟩
    (.db, { ref := .number 0, obj := some 0, gen := 1 }) (by decide +kernel) 0 rfl ?_).mpr
    (fun _ _ h => by cases h)
  exact Or.inr (Or.inr (Or.inl ⟨[], Or.inl ⟨1,
    { ref := .number 0, obj := some 0, gen := 1, name := [] }, .undefined, [⟨.db, 0⟩], rfl,
    by decide +kernel, rfl, rfl, by decide +kernel⟩⟩))

/-- `compareKey` on an iterator that has been closed in the run goes through the null pointer. -/
theorem compareKey_after_close_crashes :
    (Call.iterator 0 (.compareKey (.string []))).WellTyped ∧
    (Kind.iterator, { ref := .number (-1), obj := some 1, gen := 1 }) ∈
      (Call.iterator 0 (.compareKey (.string []))).uses
        (afterCalls [.newLevelDB [] true false, .newIterator 0, .iterator 0 .close]) ∧
    Machine.Once step (ClosesObj .iterator 1) (start (fun _ => none) (ascii "/d"))
      ([.newLevelDB [] true false, .newIterator 0, .iterator 0 .close].map fun c => (c, {})) ∧
    ¬ ∃ e, ((afterCalls [.newLevelDB [] true false, .newIterator 0, .iterator 0 .close]).step
      (.iterator 0 (.compareKey (.string [])), {})).1 = .throw e := by
  refine ⟨trivial, by decide +kernel, Or.inr (Or.inr (Or.inl ⟨0,
    { ref := .number 0, obj := some 1, gen := 1, dbId := some 0 }, .undefined,
    [⟨.iterator, 1⟩], rfl, by decide +kernel, rfl, by decide +kernel⟩)), ?_⟩
  have hcrash : ((afterCalls [.newLevelDB [] true false, .newIterator 0,
      .iterator 0 .close]).step (.iterator 0 (.compareKey (.string [])), {})).1
      = .crash .nullPointer := by decide +kernel
  rw [hcrash]
  rintro ⟨e, he⟩
  cases he

end Process

end RnLeveldb
