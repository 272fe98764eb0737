import RnLeveldb.UseAfterClose

/-!
# The objects a call keeps to

A method names its objects by the references of its wrappers. Three statements say that it
keeps to what these references find:

* `step_on`: the objects a call reports to have acted on are those its references find;
* `step_frame`: directories and slots that are not those of its objects stay as they are;
* `step_alike`: in two processes in which its references find the same, the call ends the same
  way and leaves the same behind the references.
-/

namespace RnLeveldb

/-! ## The objects a call acts on -/

/-- Objects as a list of uses shows them. -/
def Obj.found (o : Obj) : Kind × Option ℕ := (o.kind, some o.id)

section

variable {w : World} {fn : HostFn} {ref : JsValue} {v : JsValue} {on : List Obj}

/-- A function that reports the database it is given reports what its reference finds. -/
lemma withDb_on {act : Db → Outcome × World}
    (hact : ∀ db v on, (act db).1 = .ret v on → on = [⟨.db, db.id⟩])
    (h : (withDb w fn ref act).1 = .ret v on) :
    on.map Obj.found = [(.db, w.objAt .db ref)] := by
  obtain ⟨e, hw⟩ | ⟨k, db, hk, hdb, hw⟩ := withDb_cases w fn ref act <;> rw [hw] at h
  · cases h
  · rw [hact db v on h]
    simp [Obj.found, World.objAt, hk, hdb]

/-- The same for iterators. -/
lemma withIterator_on {act : Iterator → Outcome × World}
    (hact : ∀ it v on, (act it).1 = .ret v on → on = [⟨.iterator, it.id⟩])
    (h : (withIterator w fn ref act).1 = .ret v on) :
    on.map Obj.found = [(.iterator, w.objAt .iterator ref)] := by
  obtain hw | ⟨k, it, hk, hit, hw⟩ := withIterator_cases w fn ref act <;> rw [hw] at h
  · cases h
  · rw [hact it v on h]
    simp [Obj.found, World.objAt, hk, hit]

/-- And for batches. -/
lemma withBatch_on {act : WriteBatch → Outcome × World}
    (hact : ∀ b v on, (act b).1 = .ret v on → on = [⟨.batch, b.id⟩])
    (h : (withBatch w fn ref act).1 = .ret v on) :
    on.map Obj.found = [(.batch, w.objAt .batch ref)] := by
  obtain ⟨e, hw⟩ | ⟨k, b, hk, hb, hw⟩ := withBatch_cases w fn ref act <;> rw [hw] at h
  · cases h
  · rw [hact b v on h]
    simp [Obj.found, World.objAt, hk, hb]

lemma reportStatus_on {objs : List Obj} {r : Status × World}
    (h : (reportStatus fn objs r).1 = .ret v on) : on = objs := by
  obtain ⟨st, w'⟩ := r
  cases st with
  | ok =>
    cases h
    rfl
  | fail f => cases h

/-- A move that returns has moved the iterator that was found. -/
lemma moveIterator_on {it : Iterator} {moved : Option Iterator}
    (h : (moveIterator w ref it moved).1 = .ret v on) : on = [⟨.iterator, it.id⟩] := by
  unfold moveIterator at h
  split at h
  · split at h
    · cases h
    · cases h
      rfl
  · cases h

lemma readEntry_on {it : Iterator} {read : Bytes × Bytes → JsValue}
    (h : (readEntry w it read).1 = .ret v on) : on = [⟨.iterator, it.id⟩] := by
  unfold readEntry at h
  split at h
  · split at h
    · cases h
    · cases h
      rfl
  · cases h

/-- The storage calls report the database that the reference of their wrapper finds. -/
lemma leveldbPut_on {faults : Faults} {k value : JsValue}
    (h : (leveldbPut w faults ref k value).1 = .ret v on) :
    on.map Obj.found = [(.db, w.objAt .db ref)] := by
  refine withDb_on (fun db v on hret => ?_) h
  split at hret
  · exact reportStatus_on hret
  · cases hret

lemma leveldbDelete_on {faults : Faults} {k : JsValue}
    (h : (leveldbDelete w faults ref k).1 = .ret v on) :
    on.map Obj.found = [(.db, w.objAt .db ref)] := by
  refine withDb_on (fun db v on hret => ?_) h
  split at hret
  · cases hret
  · split at hret
    · cases hret
      rfl
    · split at hret
      · cases hret
        rfl
      · cases hret

lemma getValue_on {faults : Faults} {make : Bytes → JsValue} {k : JsValue}
    (h : (getValue w faults fn make ref k).1 = .ret v on) :
    on.map Obj.found = [(.db, w.objAt .db ref)] := by
  refine withDb_on (fun db v on hret => ?_) h
  split at hret
  · cases hret
  · split at hret
    · cases hret
      rfl
    · split at hret
      · cases hret
        rfl
      · cases hret

lemma leveldbNewIterator_on (h : (leveldbNewIterator w ref).1 = .ret v on) :
    on.map Obj.found = [(.db, w.objAt .db ref)] := by
  refine withDb_on (fun db v on hret => ?_) h
  cases hret
  rfl

lemma leveldbWriteWriteBatch_on {faults : Faults} {batchRef : JsValue}
    (h : (leveldbWriteWriteBatch w faults ref batchRef).1 = .ret v on) :
    on.map Obj.found = [(.db, w.objAt .db ref), (.batch, w.objAt .batch batchRef)] := by
  unfold leveldbWriteWriteBatch at h
  obtain ⟨e, hw⟩ | ⟨k, db, hk, hdb, hw⟩ := withDb_cases w .leveldbWriteWriteBatch ref _ <;>
    rw [hw] at h
  · cases h
  · obtain ⟨e, hw⟩ | ⟨j, b, hj, hb, hw⟩ := withBatch_cases w .leveldbWriteWriteBatch batchRef _ <;>
      rw [hw] at h
    · cases h
    · rw [reportStatus_on h]
      simp [Obj.found, World.objAt, hk, hdb, hj, hb]

/-- A merge reports the destination and the source, in this order. -/
lemma leveldbMerge_on {faults : Faults} {srcRef batchMerge : JsValue}
    (h : (leveldbMerge w faults ref srcRef batchMerge).1 = .ret v on) :
    on.map Obj.found = [(.db, w.objAt .db ref), (.db, w.objAt .db srcRef)] := by
  unfold leveldbMerge at h
  cases hdst : valueToDb w ref with
  | error e =>
    rw [hdst] at h
    cases h
  | ok dst =>
    cases hsrc : valueToDb w srcRef with
    | error e =>
      rw [hdst, hsrc] at h
      cases h
    | ok src =>
      rw [hdst, hsrc] at h
      dsimp only at h
      split at h
      · -- the status of the source iterator decides, not those of the writes
        split at h
        · cases h
        · cases h
          obtain ⟨k, hk, hdb⟩ := valueToSlot_ok.mp hdst
          obtain ⟨j, hj, hdb'⟩ := valueToSlot_ok.mp hsrc
          simp [Obj.found, World.objAt, hk, hdb, hj, hdb']
      · cases h

/-- A destruction goes by the name and reports no object. -/
lemma leveldbDestroy_on {faults : Faults} {name : JsValue}
    (h : (leveldbDestroy w faults name).1 = .ret v on) : on = [] := by
  unfold leveldbDestroy at h
  split at h
  · split at h
    · cases h
      rfl
    · cases h
  · cases h

lemma leveldbWriteBatchPut_on {k value : JsValue}
    (h : (leveldbWriteBatchPut w ref k value).1 = .ret v on) :
    on.map Obj.found = [(.batch, w.objAt .batch ref)] := by
  refine withBatch_on (fun b v on hret => ?_) h
  split at hret
  · cases hret
    rfl
  · cases hret

lemma leveldbWriteBatchDelete_on {k : JsValue}
    (h : (leveldbWriteBatchDelete w ref k).1 = .ret v on) :
    on.map Obj.found = [(.batch, w.objAt .batch ref)] := by
  refine withBatch_on (fun b v on hret => ?_) h
  split at hret
  · cases hret
    rfl
  · cases hret

lemma leveldbWriteBatchClose_on (h : (leveldbWriteBatchClose w ref).1 = .ret v on) :
    on.map Obj.found = [(.batch, w.objAt .batch ref)] := by
  refine withBatch_on (fun b v on hret => ?_) h
  split at hret
  · cases hret
  · cases hret
    rfl

/-- `compareKey` finds its iterator by a lookup of its own. -/
lemma leveldbIteratorKeyCompare_on {target : JsValue}
    (h : (leveldbIteratorKeyCompare w ref target).1 = .ret v on) :
    on.map Obj.found = [(.iterator, w.objAt .iterator ref)] := by
  unfold leveldbIteratorKeyCompare at h
  split at h
  · cases h
  · split at h
    · cases h
    · next it hit =>
      rw [readEntry_on h]
      rw [valueToIterator, toOption_valueToSlot] at hit
      simp [Obj.found, World.objAt, hit]

end

namespace Process

variable {s : Process} {v : JsValue} {on : List Obj}

/-- What `index.ts` returns in place of the result of a host function is reported of the same
objects. -/
lemma forwardAs_on {v' : JsValue} {r : Outcome × World} (h : (s.forwardAs v' r).1 = .ret v on) :
    ∃ v'', r.1 = .ret v'' on := by
  dsimp only [forwardAs] at h
  cases hr : r.1 with
  | ret v'' on' =>
    rw [hr] at h
    cases h
    exact ⟨v'', rfl⟩
  | throw e =>
    rw [hr] at h
    cases h
  | crash c =>
    rw [hr] at h
    cases h

/-- All methods of an iterator report the iterator behind the reference. -/
lemma iteratorCall_on {f : Faults} {i : ℕ} {h : LevelDBIterator} {m : IteratorMethod}
    (hret : (s.iteratorCall f i h m).1 = .ret v on) :
    on.map Obj.found = [(.iterator, s.native.objAt .iterator h.ref)] := by
  cases m with
  | seekToFirst | seekLast | next | prev =>
    obtain ⟨v', hr⟩ := forwardAs_on hret
    exact withIterator_on (fun _ _ _ => moveIterator_on) hr
  | seek target =>
    obtain ⟨v', hr⟩ := forwardAs_on hret
    refine withIterator_on (fun it v on hmove => ?_) hr
    split at hmove
    · cases hmove
    · exact moveIterator_on hmove
  | valid =>
    refine withIterator_on (fun it v on hr => ?_) hret
    cases hr
    rfl
  | close =>
    dsimp only [iteratorCall] at hret
    split at hret
    · next v' on' w hdel =>
      cases hret
      have hdel' : (leveldbIteratorDelete s.native h.ref).1 = .ret v' on := by rw [hdel]
      refine withIterator_on (fun it v on hr => ?_) hdel'
      split at hr
      · cases hr
        rfl
      · cases hr
    · next out w hne hdel =>
      exact absurd hret (hne v on)
  | keyStr | keyBuf | valueStr | valueBuf =>
    exact withIterator_on (fun _ _ _ => readEntry_on) hret
  | compareKey target => exact leveldbIteratorKeyCompare_on hret

/-- A new iterator is reported of the database it is made on. -/
lemma newIterator_on {h : LevelDB} (hret : (s.newIterator h).1 = .ret v on) :
    on.map Obj.found = [(.db, s.native.objAt .db h.ref)] := by
  unfold newIterator at hret
  split at hret
  · cases hret
  · split at hret
    · next v' on' w hnew =>
      cases hret
      have hnew' : (leveldbNewIterator s.native h.ref).1 = .ret v' on := by rw [hnew]
      exact leveldbNewIterator_on hnew'
    · next hne _ => exact absurd hret (hne v on)

lemma merge_on {f : Faults} {h src : LevelDB} {batchMerge : Bool}
    (hret : (s.merge f h src batchMerge).1 = .ret v on) :
    on.map Obj.found = [(.db, s.native.objAt .db h.ref), (.db, s.native.objAt .db src.ref)] := by
  unfold merge at hret
  split at hret
  · cases hret
  · split at hret
    · cases hret
    · obtain ⟨v', hr⟩ := forwardAs_on hret
      exact leveldbMerge_on hr

/-- Static: it goes by the name and uses no wrapper. -/
lemma destroyDB_on {f : Faults} {name : JsString} {force : Bool}
    (hret : (s.destroyDB f name force).1 = .ret v on) : on = [] := by
  unfold destroyDB at hret
  split at hret
  · obtain ⟨v', hr⟩ := forwardAs_on hret
    exact leveldbDestroy_on hr
  · split at hret
    · split at hret
      · obtain ⟨v', hr⟩ := forwardAs_on hret
        exact leveldbDestroy_on hr
      · next hne _ => exact absurd hret (hne v on)
    · cases hret

/-- Closing a batch reports the batch that was in the slot. -/
lemma batchClose_on {i : ℕ} {b : LevelDBWriteBatch} (hret : (s.batchClose i b).1 = .ret v on) :
    on.map Obj.found = [(.batch, s.native.objAt .batch b.ref)] := by
  unfold batchClose at hret
  split at hret
  · next v' on' w hclose =>
    cases hret
    have hclose' : (leveldbWriteBatchClose s.native b.ref).1 = .ret v' on := by rw [hclose]
    exact leveldbWriteBatchClose_on hclose'
  · next hne _ => exact absurd hret (hne v on)

/-- A method on a wrapper that does not exist does not return. -/
lemma on_eq_ret {α : Type} {wrappers : List α} {i : ℕ} {method : α → Outcome × Process}
    (hret : (s.on wrappers i method).1 = .ret v on) :
    ∃ a, wrappers[i]? = some a ∧ (method a).1 = .ret v on := by
  unfold Process.on at hret
  split at hret
  · cases hret
  · next a ha => exact ⟨a, ha, hret⟩

/-- A method that returns has acted on what the references of its wrappers find. -/
lemma step_on {c : Call} {f : Faults} (hne : ∀ name a b, c ≠ .newLevelDB name a b)
    (hne' : c ≠ .newWriteBatch) (hret : (s.step (c, f)).1 = .ret v on) :
    on.map Obj.found = (c.uses s).map fun u => (u.1, s.native.objAt u.1 u.2.ref) := by
  cases c with
  | newLevelDB name a b => exact absurd rfl (hne name a b)
  | newWriteBatch => exact absurd rfl hne'
  | closed i =>
    obtain ⟨h, hi, hr⟩ := on_eq_ret hret
    cases hr
    rfl
  | close i =>
    obtain ⟨h, hi, -⟩ := on_eq_ret hret
    obtain ⟨e, hs⟩ | ⟨k, db, hk, hdb, hr, -⟩ := step_close_cases hi f
    · rw [hs] at hret
      cases hret
    · rw [hr] at hret
      cases hret
      simp [Call.uses, hi, Obj.found, World.objAt, hk, hdb]
  | put i k value =>
    obtain ⟨h, hi, hr⟩ := on_eq_ret hret
    obtain ⟨v', hr⟩ := forwardAs_on hr
    rw [leveldbPut_on hr]
    simp [Call.uses, hi]
  | delete i k =>
    obtain ⟨h, hi, hr⟩ := on_eq_ret hret
    obtain ⟨v', hr⟩ := forwardAs_on hr
    rw [leveldbDelete_on hr]
    simp [Call.uses, hi]
  | getStr i k | getBuf i k =>
    obtain ⟨h, hi, hr⟩ := on_eq_ret hret
    rw [getValue_on hr]
    simp [Call.uses, hi]
  | newIterator i =>
    obtain ⟨h, hi, hr⟩ := on_eq_ret hret
    rw [newIterator_on hr]
    simp [Call.uses, hi]
  | write i j =>
    obtain ⟨h, hi, hr⟩ := on_eq_ret hret
    obtain ⟨b, hj, hr⟩ := on_eq_ret hr
    obtain ⟨v', hr⟩ := forwardAs_on hr
    rw [leveldbWriteWriteBatch_on hr]
    simp [Call.uses, hi, hj]
  | merge i j batchMerge =>
    obtain ⟨h, hi, hr⟩ := on_eq_ret hret
    obtain ⟨src, hj, hr⟩ := on_eq_ret hr
    rw [merge_on hr]
    simp [Call.uses, hi, hj]
  | destroyDB name force =>
    rw [destroyDB_on hret]
    rfl
  | iterator i m =>
    obtain ⟨h, hi, hr⟩ := on_eq_ret hret
    rw [iteratorCall_on hr]
    simp [Call.uses, hi]
  | batchPut i k value =>
    obtain ⟨h, hi, hr⟩ := on_eq_ret hret
    obtain ⟨v', hr⟩ := forwardAs_on hr
    rw [leveldbWriteBatchPut_on hr]
    simp [Call.uses, hi]
  | batchDelete i k =>
    obtain ⟨h, hi, hr⟩ := on_eq_ret hret
    obtain ⟨v', hr⟩ := forwardAs_on hr
    rw [leveldbWriteBatchDelete_on hr]
    simp [Call.uses, hi]
  | batchClose i =>
    obtain ⟨h, hi, hr⟩ := on_eq_ret hret
    rw [batchClose_on hr]
    simp [Call.uses, hi]

end Process

/-! ## What stays as it is -/

/-- The call is given the name of a database. -/
def Call.Names (name : JsString) : Call → Prop
  | .newLevelDB n _ _ | .destroyDB n _ => n = name
  | _ => False

namespace Process

variable {s s' : Process} {c : Call}

/-- The call is made through a wrapper that refers to slot `k` of the registry. -/
def UsesSlot (s : Process) (c : Call) (kind : Kind) (k : ℕ) : Prop :=
  ∃ u ∈ c.uses s, u.1 = kind ∧ refIdx u.2.ref = some k

/-- Whatever differs in `s'` is the call's own: the directory of the database it is made on or of
the name it is given, a slot of one of its wrappers, and a slot that was empty if it constructs
an object. -/
structure Frame (s : Process) (c : Call) (s' : Process) : Prop where
  disk : ∀ d, s'.native.disk d ≠ s.native.disk d →
    (∃ u, (c.uses s).head? = some (Kind.db, u) ∧ s.native.DirOf u.ref d) ∨
      ∃ name, c.Names name ∧ d = resolve (s.pathOf name)
  dbs : ∀ k, s'.native.dbs.get k ≠ s.native.dbs.get k → s.UsesSlot c .db k ∨
    (∃ name a b, c = .newLevelDB name a b ∧ s.native.dbs.get k = none) ∨
      ∃ name ref, c = .destroyDB name true ∧ openRef s.openRefs name = some ref ∧
        refIdx ref = some k
  iterators : ∀ k, s'.native.iterators.get k ≠ s.native.iterators.get k →
    s.UsesSlot c .iterator k ∨ (∃ i, c = .newIterator i) ∧ s.native.iterators.get k = none
  batches : ∀ k, s'.native.batches.get k ≠ s.native.batches.get k →
    s.UsesSlot c .batch k ∨ c = .newWriteBatch ∧ s.native.batches.get k = none

/-- A table with a new last object. -/
lemma get_eq_none_of_push {α : Type} {t : SlotTable α} {a : Option α} {k : ℕ}
    (h : (t.push a).get k ≠ t.get k) : t.get k = none := by
  rw [SlotTable.get_push] at h
  by_cases hk : k = t.size
  · rw [hk]
    exact SlotTable.get_of_size_le le_rfl
  · rw [if_neg hk] at h
    exact absurd rfl h

/-- Only the slot that is emptied differs, and below only the one that is written. -/
lemma eq_of_reset_ne {α : Type} {t : SlotTable α} {i k : ℕ}
    (h : (t.reset i).get k ≠ t.get k) : k = i := by
  by_contra hne
  rw [SlotTable.get_reset, if_neg hne] at h
  exact h rfl

lemma eq_of_update_ne {α : Type} {t : SlotTable α} {i k : ℕ} {a b : α} (hi : t.get i = some a)
    (h : (t.update i b).get k ≠ t.get k) : k = i := by
  by_contra hne
  rw [SlotTable.get_update (SlotTable.lt_size_of_get hi), if_neg hne] at h
  exact h rfl

lemma eq_of_function_update_ne {β : Type} {f : Dir → β} {d₀ d : Dir} {v : β}
    (h : Function.update f d₀ v d ≠ f d) : d = d₀ := by
  by_contra hne
  exact h (Function.update_of_ne hne _ _)

/-- Each of the listed effects keeps to the objects of its call. -/
theorem Effect.frame (heff : Effect s c s') : Frame s c s' := by
  have same : ∀ {α : Type} {a : α} {P : Prop}, a ≠ a → P := fun h => absurd rfl h
  cases heff with
  | stored c disk hdisk hown =>
    exact ⟨fun d hne => Or.inl (hown d hne), fun _ => same, fun _ => same, fun _ => same⟩
  | openFailed name a b =>
    refine ⟨fun _ => same, fun k hne => ?_, fun _ => same, fun _ => same⟩
    exact Or.inr (Or.inl ⟨name, a, b, rfl, get_eq_none_of_push hne⟩)
  | opened name a b =>
    refine ⟨fun d hne => Or.inr ⟨name, rfl, ?_⟩, fun k hne => ?_, fun _ => same, fun _ => same⟩
    · exact eq_of_function_update_ne hne
    · exact Or.inr (Or.inl ⟨name, a, b, rfl, get_eq_none_of_push hne⟩)
  | shared => exact ⟨fun _ => same, fun _ => same, fun _ => same, fun _ => same⟩
  | closed i k h db hi hk =>
    refine ⟨fun _ => same, fun j hne => Or.inl ?_, fun _ => same, fun _ => same⟩
    exact ⟨(.db, h.toHandle), by simp [Call.uses, hi], rfl, by rw [eq_of_reset_ne hne]; exact hk⟩
  | destroyed name force =>
    refine ⟨fun d hne => Or.inr ⟨name, rfl, ?_⟩, fun _ => same, fun _ => same, fun _ => same⟩
    exact eq_of_function_update_ne hne
  | forceClosed name ref k db disk href hk hdb hdisk =>
    refine ⟨fun d hne => Or.inr ⟨name, rfl, ?_⟩, fun j hne => Or.inr (Or.inr ?_), fun _ => same,
      fun _ => same⟩
    · rcases hdisk with rfl | ⟨-, rest, rfl⟩
      · exact same hne
      · exact eq_of_function_update_ne hne
    · exact ⟨name, ref, rfl, href, by rw [eq_of_reset_ne hne]; exact hk⟩
  | newIterator i =>
    refine ⟨fun _ => same, fun _ => same, fun k hne => Or.inr ⟨⟨i, rfl⟩, ?_⟩, fun _ => same⟩
    exact get_eq_none_of_push hne
  | moved i k m h it it' hi hk hit =>
    refine ⟨fun _ => same, fun _ => same, fun j hne => Or.inl ?_, fun _ => same⟩
    exact ⟨(.iterator, h.toHandle), by simp [Call.uses, hi], rfl,
      by rw [eq_of_update_ne hit hne]; exact hk⟩
  | closedIterator i k h it hi hk =>
    refine ⟨fun _ => same, fun _ => same, fun j hne => Or.inl ?_, fun _ => same⟩
    exact ⟨(.iterator, h.toHandle), by simp [Call.uses, hi], rfl,
      by rw [eq_of_reset_ne hne]; exact hk⟩
  | newBatch =>
    refine ⟨fun _ => same, fun _ => same, fun _ => same, fun k hne => Or.inr ⟨rfl, ?_⟩⟩
    dsimp only at hne
    rw [SlotTable.get_alloc] at hne
    split at hne
    · next hk =>
      rw [hk]
      exact SlotTable.get_alloc_idx _ _
    · exact same hne
  | appended c i k h b op hc hi hk hb =>
    refine ⟨fun _ => same, fun _ => same, fun _ => same, fun j hne => Or.inl ?_⟩
    refine ⟨(.batch, h.toHandle), ?_, rfl, by rw [eq_of_update_ne hb hne]; exact hk⟩
    rcases hc with ⟨key, value, rfl⟩ | ⟨key, rfl⟩ <;> simp [Call.uses, hi]
  | closedBatch i k h b hi hk =>
    refine ⟨fun _ => same, fun _ => same, fun _ => same, fun j hne => Or.inl ?_⟩
    exact ⟨(.batch, h.toHandle), by simp [Call.uses, hi], rfl,
      by rw [eq_of_reset_ne hne]; exact hk⟩

end Process

/-! ## What a call goes by -/

/-- What a reference finds: the object in its slot and what is read besides it, the content of a
database's directory and whether the database of an iterator is open. -/
inductive Found where
  | db (db : Db) (stored : Option Content)
  | iterator (it : Iterator) (hasDb : Bool)
  | batch (b : WriteBatch)

namespace World

/-- What `ref` finds in a registry. -/
def find (w : World) : Kind → JsValue → Option Found
  | .db, ref => (Process.dbAt w ref).map fun db => .db db (w.disk db.dir)
  | .iterator, ref =>
    ((refIdx ref).bind w.iterators.get).map fun it => .iterator it (w.hasDb it)
  | .batch, ref => ((refIdx ref).bind w.batches.get).map .batch

/-- `ref` finds something, and the same in both. -/
def FindsAlike (w w' : World) (kind : Kind) (ref : JsValue) : Prop :=
  w.find kind ref ≠ none ∧ w'.find kind ref = w.find kind ref

/-- The directory `d` has content `v`. -/
def setDir (w : World) (d : Dir) (v : Option Content) : World :=
  { w with disk := Function.update w.disk d v }

lemma setDir_self (w : World) (d : Dir) : w.setDir d (w.disk d) = w := by
  rw [setDir, Function.update_eq_self]

lemma setDir_setDir (w : World) (d : Dir) (v v' : Option Content) :
    (w.setDir d v).setDir d v' = w.setDir d v' := by
  simp only [setDir, Function.update_idem]

/-- A reference that finds an object finds something in its registry. -/
lemma find_ne_none {w : World} {kind : Kind} {ref : JsValue} (h : w.objAt kind ref ≠ none) :
    w.find kind ref ≠ none := by
  intro hnone
  cases kind <;> exact h (by rw [World.objAt]; simpa [find, Process.dbAt] using hnone)

variable {w w' : World} {ref : JsValue}

/-- What two worlds have in common where a reference finds the same database. -/
lemma FindsAlike.db (h : w.FindsAlike w' .db ref) :
    ∃ k db, refIdx ref = some k ∧ w.dbs.get k = some db ∧ w'.dbs.get k = some db ∧
      w'.disk db.dir = w.disk db.dir := by
  obtain ⟨hne, heq⟩ := h
  obtain ⟨p, hp⟩ := Option.ne_none_iff_exists'.mp hne
  rw [hp] at heq
  obtain ⟨db, hdb, rfl⟩ := Option.map_eq_some_iff.mp hp
  obtain ⟨db', hdb', hfound⟩ := Option.map_eq_some_iff.mp heq
  obtain ⟨k, hk, hget⟩ := Option.bind_eq_some_iff.mp hdb
  obtain ⟨k', hk', hget'⟩ := Option.bind_eq_some_iff.mp hdb'
  rw [hk] at hk'
  cases hk'
  injection hfound with hdbs hdisk
  subst hdbs
  exact ⟨k, db', hk, hget, hget', hdisk⟩

/-- Where it finds the same iterator: whether its database is open is the same too. -/
lemma FindsAlike.iterator (h : w.FindsAlike w' .iterator ref) :
    ∃ k it, refIdx ref = some k ∧ w.iterators.get k = some it ∧ w'.iterators.get k = some it ∧
      w'.hasDb it = w.hasDb it := by
  obtain ⟨hne, heq⟩ := h
  obtain ⟨p, hp⟩ := Option.ne_none_iff_exists'.mp hne
  rw [hp] at heq
  obtain ⟨it, hit, rfl⟩ := Option.map_eq_some_iff.mp hp
  obtain ⟨it', hit', hfound⟩ := Option.map_eq_some_iff.mp heq
  obtain ⟨k, hk, hget⟩ := Option.bind_eq_some_iff.mp hit
  obtain ⟨k', hk', hget'⟩ := Option.bind_eq_some_iff.mp hit'
  rw [hk] at hk'
  cases hk'
  injection hfound with hits hhas
  subst hits
  exact ⟨k, it', hk, hget, hget', hhas⟩

/-- Where it finds the same batch. -/
lemma FindsAlike.batch (h : w.FindsAlike w' .batch ref) :
    ∃ k b, refIdx ref = some k ∧ w.batches.get k = some b ∧ w'.batches.get k = some b := by
  obtain ⟨hne, heq⟩ := h
  obtain ⟨p, hp⟩ := Option.ne_none_iff_exists'.mp hne
  rw [hp] at heq
  obtain ⟨b, hb, rfl⟩ := Option.map_eq_some_iff.mp hp
  obtain ⟨b', hb', hfound⟩ := Option.map_eq_some_iff.mp heq
  obtain ⟨k, hk, hget⟩ := Option.bind_eq_some_iff.mp hb
  obtain ⟨k', hk', hget'⟩ := Option.bind_eq_some_iff.mp hb'
  rw [hk] at hk'
  cases hk'
  injection hfound with hbs
  subst hbs
  exact ⟨k, b', hk, hget, hget'⟩

/-- The three at once: what both find is the same object with the same surroundings. -/
lemma find_of_get {k : ℕ} (hk : refIdx ref = some k) :
    w.find .db ref = (w.dbs.get k).map (fun db => .db db (w.disk db.dir)) ∧
      w.find .iterator ref = (w.iterators.get k).map (fun it => .iterator it (w.hasDb it)) ∧
      w.find .batch ref = (w.batches.get k).map .batch := by
  simp only [find, Process.dbAt, hk, Option.bind_some, and_self]

end World

/-- Two results of a call, in `w` and in `w'`: the outcome is the same, and what was found alike
before is found alike afterwards. -/
def Alike (w w' : World) (r r' : Outcome × World) : Prop :=
  r'.1 = r.1 ∧ ∀ kind ref, w.FindsAlike w' kind ref → r'.2.find kind ref = r.2.find kind ref

section

variable {w w' : World} {ref : JsValue} {faults : Faults}

/-- Two calls that end the same way and change nothing are alike. -/
lemma Alike.same (o : Outcome) : Alike w w' (o, w) (o, w') := ⟨rfl, fun _ _ h => h.2⟩

/-- Both directories are written alike. -/
lemma Alike.setDir (o : Outcome) (d : Dir) (v : Option Content) :
    Alike w w' (o, w.setDir d v) (o, w'.setDir d v) := by
  refine ⟨rfl, fun kind ref h => ?_⟩
  cases kind with
  | db =>
    obtain ⟨k, db, hk, hdb, hdb', hdisk⟩ := h.db
    rw [(World.find_of_get hk).1, (World.find_of_get hk).1]
    show (w'.dbs.get k).map _ = (w.dbs.get k).map _
    rw [hdb, hdb', Option.map_some, Option.map_some]
    have hsame : (w'.setDir d v).disk db.dir = (w.setDir d v).disk db.dir := by
      simp only [World.setDir, Function.update_apply, hdisk]
    rw [hsame]
  | iterator => exact h.2
  | batch => exact h.2

/-- A lookup that succeeds hands the object on. -/
lemma withDb_of_get {fn : HostFn} {act : Db → Outcome × World} {k : ℕ} {db : Db}
    (hk : refIdx ref = some k) (hdb : w.dbs.get k = some db) : withDb w fn ref act = act db := by
  have hok : valueToDb w ref = .ok db := valueToSlot_ok.mpr ⟨k, hk, hdb⟩
  rw [withDb, hok]

lemma withIterator_of_get {fn : HostFn} {act : Iterator → Outcome × World} {k : ℕ} {it : Iterator}
    (hk : refIdx ref = some k) (hit : w.iterators.get k = some it) :
    withIterator w fn ref act = act it := by
  have hsome : valueToIterator w ref = some it := by
    rw [valueToIterator, toOption_valueToSlot, hk]
    exact hit
  rw [withIterator, hsome]

lemma withBatch_of_get {fn : HostFn} {act : WriteBatch → Outcome × World} {k : ℕ} {b : WriteBatch}
    (hk : refIdx ref = some k) (hb : w.batches.get k = some b) :
    withBatch w fn ref act = act b := by
  have hok : valueToWriteBatch w ref = .ok b := valueToSlot_ok.mpr ⟨k, hk, hb⟩
  rw [withBatch, hok]

/-! ### Storage calls -/

/-- A write goes by the content of the directory it writes. -/
lemma write_spec {db : Db} (hdisk : w'.disk db.dir = w.disk db.dir) (ops : List BatchOp)
    (o : WriteOutcome) :
    ∃ st v, w.write db ops o = (st, w.setDir db.dir v) ∧
      w'.write db ops o = (st, w'.setDir db.dir v) := by
  have hcontent : w'.content db.dir = w.content db.dir := by
    rw [World.content, World.content, hdisk]
  match o with
  | .ok =>
    refine ⟨_, _, rfl, ?_⟩
    rw [World.write, hcontent]
    rfl
  | .fail f true =>
    refine ⟨_, _, rfl, ?_⟩
    rw [World.write, hcontent]
    rfl
  | .fail f false =>
    refine ⟨.fail f, w.disk db.dir, ?_, ?_⟩
    · rw [World.setDir_self]
      rfl
    · rw [← hdisk, World.setDir_self]
      rfl

/-- A write that is reported in both worlds. -/
lemma reportStatus_alike {fn : HostFn} {on : List Obj} (st : Status) (d : Dir)
    (v : Option Content) :
    Alike w w' (reportStatus fn on (st, w.setDir d v)) (reportStatus fn on (st, w'.setDir d v)) := by
  cases st with
  | ok => exact Alike.setDir _ d v
  | fail f => exact Alike.setDir _ d v

/-- A put goes by the database found: what it returns, and what it leaves there. -/
lemma leveldbPut_alike (h : w.FindsAlike w' .db ref) (k v : JsValue) :
    Alike w w' (leveldbPut w faults ref k v) (leveldbPut w' faults ref k v) := by
  obtain ⟨j, db, hj, hdb, hdb', hdisk⟩ := h.db
  rw [leveldbPut, leveldbPut, withDb_of_get hj hdb, withDb_of_get hj hdb']
  split
  · next key value _ _ =>
    obtain ⟨st, c, hw, hw'⟩ := write_spec hdisk [.put key value] (faults.writes 0)
    rw [hw, hw']
    exact reportStatus_alike st db.dir c
  · exact Alike.same _

/-- A delete goes by it too, and by what its write reports. -/
lemma leveldbDelete_alike (h : w.FindsAlike w' .db ref) (k : JsValue) :
    Alike w w' (leveldbDelete w faults ref k) (leveldbDelete w' faults ref k) := by
  obtain ⟨j, db, hj, hdb, hdb', hdisk⟩ := h.db
  rw [leveldbDelete, leveldbDelete, withDb_of_get hj hdb, withDb_of_get hj hdb']
  split
  · exact Alike.same _
  · next key _ =>
    obtain ⟨st, c, hw, hw'⟩ := write_spec hdisk [.delete key] (faults.writes 0)
    rw [hw, hw']
    cases st with
    | ok => exact Alike.setDir _ db.dir c
    | fail f =>
      dsimp only
      split
      · exact Alike.setDir _ db.dir c
      · exact Alike.setDir _ db.dir c

/-- What `getStr` and `getBuf` return depends on the content of the directory found. -/
lemma getValue_alike (h : w.FindsAlike w' .db ref) (fn : HostFn) (make : Bytes → JsValue)
    (k : JsValue) :
    Alike w w' (getValue w faults fn make ref k) (getValue w' faults fn make ref k) := by
  obtain ⟨j, db, hj, hdb, hdb', hdisk⟩ := h.db
  rw [getValue, getValue, withDb_of_get hj hdb, withDb_of_get hj hdb']
  split
  · exact Alike.same _
  · next key _ =>
    have hread : w'.read db key faults.reading = w.read db key faults.reading := by
      unfold World.read World.content
      rw [hdisk]
    rw [hread]
    split
    · exact Alike.same _
    · split
      · exact Alike.same _
      · exact Alike.same _

/-- A batch is written alike where the database and the batch are found alike. -/
lemma leveldbWriteWriteBatch_alike {batchRef : JsValue} (h : w.FindsAlike w' .db ref)
    (hbatch : w.FindsAlike w' .batch batchRef) :
    Alike w w' (leveldbWriteWriteBatch w faults ref batchRef)
      (leveldbWriteWriteBatch w' faults ref batchRef) := by
  obtain ⟨j, db, hj, hdb, hdb', hdisk⟩ := h.db
  obtain ⟨k, b, hk, hb, hb'⟩ := hbatch.batch
  rw [leveldbWriteWriteBatch, leveldbWriteWriteBatch, withDb_of_get hj hdb, withDb_of_get hj hdb',
    withBatch_of_get hk hb, withBatch_of_get hk hb']
  obtain ⟨st, c, hw, hw'⟩ := write_spec hdisk b.ops (faults.writes 0)
  rw [hw, hw']
  exact reportStatus_alike st db.dir c

/-- Writing what is there already. -/
lemma setDir_both {d : Dir} (hdisk : w'.disk d = w.disk d) :
    ∃ v, w.setDir d v = w ∧ w'.setDir d v = w' :=
  ⟨w.disk d, w.setDir_self d, by rw [← hdisk, World.setDir_self]⟩

/-- Moving an iterator does not look at its identity. -/
lemma next_withId (it : Iterator) (o : ℕ) (f : Option Failure) :
    ({ it with id := o } : Iterator).next f
      = (it.next f).map fun it' => { it' with id := o } := by
  unfold Iterator.next
  cases it.pos with
  | none => rfl
  | some p => cases f <;> rfl

/-- The loop goes by what the source iterator goes over and the content of the destination. -/
lemma mergeLoop_spec (faults : Faults) (dst : Db) (batchMerge : Bool) (fuel n : ℕ) (it : Iterator) (o : ℕ)
    (batch : List BatchOp) (hdisk : w'.disk dst.dir = w.disk dst.dir) :
    ∃ it' v batch',
      mergeLoop faults dst batchMerge fuel n it w batch = (it', w.setDir dst.dir v, batch') ∧
      mergeLoop faults dst batchMerge fuel n { it with id := o } w' batch
        = ({ it' with id := o }, w'.setDir dst.dir v, batch') := by
  induction fuel generalizing n it w w' batch with
  | zero =>
    obtain ⟨v, hv, hv'⟩ := setDir_both hdisk
    refine ⟨it, v, batch, ?_, ?_⟩
    · rw [hv, mergeLoop]
    · rw [hv', mergeLoop]
  | succ fuel ih =>
    have hentry : ({ it with id := o } : Iterator).entry = it.entry := rfl
    have hnext := next_withId it o (faults.moves (n + 1))
    unfold mergeLoop
    rw [hentry, hnext]
    cases it.entry with
    | none =>
      obtain ⟨v, hv, hv'⟩ := setDir_both hdisk
      exact ⟨it, v, batch, by rw [hv], by rw [hv']⟩
    | some e =>
      cases it.next (faults.moves (n + 1)) with
      | none =>
        obtain ⟨v, hv, hv'⟩ := setDir_both hdisk
        exact ⟨it, v, batch, by rw [hv], by rw [hv', Option.map_none]⟩
      | some it' =>
        rw [Option.map_some]
        dsimp only
        split
        · exact ih (n + 1) it' _ hdisk
        · obtain ⟨st, c, hw, hw'⟩ := write_spec hdisk [.put e.1 e.2] (faults.writes n)
          rw [hw, hw']
          have hsame : (w'.setDir dst.dir c).disk dst.dir = (w.setDir dst.dir c).disk dst.dir := by
            simp only [World.setDir, Function.update_self]
          obtain ⟨it'', v', batch'', hl, hl'⟩ := ih (n + 1) it' batch hsame
          rw [World.setDir_setDir] at hl hl'
          exact ⟨it'', v', batch'', hl, hl'⟩

/-- A merge, given how its loop ends. -/
lemma leveldbMerge_of_loop {srcRef : JsValue} {dst src : Db} {itSrc it : Iterator} {w₁ : World}
    {batch : List BatchOp} {batchMerge : Bool} (hdst : valueToDb w ref = .ok dst)
    (hsrc : valueToDb w srcRef = .ok src)
    (hit : itSrc = { id := w.nextId, slot := slotOf srcRef, dbId := src.id,
                     snapshot := w.content src.dir })
    (hloop : mergeLoop faults dst batchMerge (itSrc.entries.length + 1) 0
      (itSrc.seekToFirst (faults.moves 0)) w [] = (it, w₁, batch)) :
    leveldbMerge w faults ref srcRef (.bool batchMerge) =
      match it.status with
      | .fail f => (.throw (.host .leveldbMerge (.status f)), w₁)
      | .ok => (.ret .null [⟨.db, dst.id⟩, ⟨.db, src.id⟩],
          if batchMerge then (w₁.write dst batch (faults.writes 0)).2 else w₁) := by
  subst hit
  rw [leveldbMerge, hdst]
  dsimp only
  rw [hsrc]
  dsimp only
  cases hstatus : it.status with
  | ok => simp only [hloop, hstatus]
  | fail f => simp only [hloop, hstatus]

/-- A merge goes by the contents of the two databases found; the number its iterator is given does
not matter. -/
lemma leveldbMerge_alike {srcRef : JsValue} (h : w.FindsAlike w' .db ref)
    (hsrc : w.FindsAlike w' .db srcRef) (batchMerge : Bool) :
    Alike w w' (leveldbMerge w faults ref srcRef (.bool batchMerge))
      (leveldbMerge w' faults ref srcRef (.bool batchMerge)) := by
  obtain ⟨j, dst, hj, hdst, hdst', hdisk⟩ := h.db
  obtain ⟨k, src, hk, hsrc, hsrc', hdisk'⟩ := hsrc.db
  have hok : valueToDb w ref = .ok dst := valueToSlot_ok.mpr ⟨j, hj, hdst⟩
  have hok' : valueToDb w' ref = .ok dst := valueToSlot_ok.mpr ⟨j, hj, hdst'⟩
  have hoks : valueToDb w srcRef = .ok src := valueToSlot_ok.mpr ⟨k, hk, hsrc⟩
  have hoks' : valueToDb w' srcRef = .ok src := valueToSlot_ok.mpr ⟨k, hk, hsrc'⟩
  have hcontent : w'.content src.dir = w.content src.dir := by
    rw [World.content, World.content, hdisk']
  -- the two source iterators differ in their identity only
  let itSrc : Iterator :=
    { id := w.nextId, slot := slotOf srcRef, dbId := src.id, snapshot := w.content src.dir }
  obtain ⟨it, v, batch, hl, hl'⟩ := mergeLoop_spec faults dst batchMerge
    (itSrc.entries.length + 1) 0 (itSrc.seekToFirst (faults.moves 0)) w'.nextId [] hdisk
  let itSrc' : Iterator :=
    { id := w'.nextId, slot := slotOf srcRef, dbId := src.id, snapshot := w'.content src.dir }
  have hseek : itSrc'.seekToFirst (faults.moves 0)
      = { itSrc.seekToFirst (faults.moves 0) with id := w'.nextId } := by
    simp only [itSrc', hcontent]
    unfold Iterator.seekToFirst
    cases faults.moves 0 <;> rfl
  have hlength : itSrc'.entries.length = itSrc.entries.length := by
    simp only [itSrc', hcontent]
    rfl
  rw [← hseek, ← hlength] at hl'
  rw [leveldbMerge_of_loop hok hoks rfl hl, leveldbMerge_of_loop hok' hoks' rfl hl']
  dsimp only
  cases it.status with
  | fail f => exact Alike.setDir _ dst.dir v
  | ok =>
    dsimp only
    split
    · have hsame : (w'.setDir dst.dir v).disk dst.dir = (w.setDir dst.dir v).disk dst.dir := by
        simp only [World.setDir, Function.update_self]
      obtain ⟨st, c, hw, hw'⟩ := write_spec hsame batch (faults.writes 0)
      rw [hw, hw', World.setDir_setDir, World.setDir_setDir]
      exact Alike.setDir _ dst.dir c
    · exact Alike.setDir _ dst.dir v

/-! ### Slots -/

/-- Slot `k` of the databases is emptied in both. -/
lemma closeSlot_alike (o : Outcome) (k : ℕ) (db : Db) :
    Alike w w' (o, w.closeSlot k db) (o, w'.closeSlot k db) := by
  refine ⟨rfl, fun kind ref h => ?_⟩
  cases kind with
  | db =>
    obtain ⟨j, db', hj, hdb, hdb', hdisk⟩ := h.db
    rw [(World.find_of_get hj).1, (World.find_of_get hj).1]
    dsimp only [World.closeSlot]
    rw [SlotTable.get_reset, SlotTable.get_reset, hdb, hdb']
    split
    · rfl
    · rw [Option.map_some, Option.map_some, hdisk]
  | iterator =>
    obtain ⟨j, it, hj, hit, hit', hhas⟩ := h.iterator
    rw [(World.find_of_get hj).2.1, (World.find_of_get hj).2.1]
    show (w'.iterators.get j).map _ = (w.iterators.get j).map _
    rw [hit, hit', Option.map_some, Option.map_some]
    -- its database is the one that is closed, or it is there as before
    have hsame : (w'.closeSlot k db).hasDb it = (w.closeSlot k db).hasDb it := by
      unfold World.hasDb at hhas ⊢
      dsimp only [World.closeSlot]
      rw [SlotTable.get_reset, SlotTable.get_reset]
      by_cases hslot : it.slot = k
      · rw [if_pos hslot, if_pos hslot]
      · rw [if_neg hslot, if_neg hslot]
        exact hhas
    rw [hsame]
  | batch => exact h.2

/-- Both tables of iterators take a new last one. -/
lemma leveldbNewIterator_alike (h : w.FindsAlike w' .db ref) :
    (leveldbNewIterator w' ref).1.returning .object = (leveldbNewIterator w ref).1.returning .object
      ∧ ∀ kind ref', w.FindsAlike w' kind ref' →
        (leveldbNewIterator w' ref).2.find kind ref' = (leveldbNewIterator w ref).2.find kind ref' := by
  obtain ⟨k, db, hk, hdb, hdb', hdisk⟩ := h.db
  rw [leveldbNewIterator, leveldbNewIterator, withDb_of_get hk hdb, withDb_of_get hk hdb']
  refine ⟨rfl, fun kind ref' h' => ?_⟩
  cases kind with
  | db => exact h'.2
  | iterator =>
    obtain ⟨j, it, hj, hit, hit', hhas⟩ := h'.iterator
    rw [(World.find_of_get hj).2.1, (World.find_of_get hj).2.1]
    dsimp only
    rw [SlotTable.get_push, SlotTable.get_push,
      if_neg (ne_of_lt (SlotTable.lt_size_of_get hit)),
      if_neg (ne_of_lt (SlotTable.lt_size_of_get hit')), hit, hit', Option.map_some,
      Option.map_some]
    exact congrArg (fun b => some (Found.iterator it b)) hhas
  | batch => exact h'.2

/-- Slot `k` of the iterators gets the same iterator in both. -/
lemma updateIterator_alike (o : Outcome) {k : ℕ} {it it' : Iterator}
    (hit : w.iterators.get k = some it) (hit' : w'.iterators.get k = some it)
    (hhas : w'.hasDb it' = w.hasDb it') :
    Alike w w' (o, { w with iterators := w.iterators.update k it' })
      (o, { w' with iterators := w'.iterators.update k it' }) := by
  refine ⟨rfl, fun kind ref h => ?_⟩
  cases kind with
  | db => exact h.2
  | iterator =>
    obtain ⟨j, it₁, hj, hit₁, hit₁', hhas₁⟩ := h.iterator
    rw [(World.find_of_get hj).2.1, (World.find_of_get hj).2.1]
    dsimp only
    rw [SlotTable.get_update (SlotTable.lt_size_of_get hit),
      SlotTable.get_update (SlotTable.lt_size_of_get hit')]
    split
    · exact congrArg (fun b => some (Found.iterator it' b)) hhas
    · rw [hit₁, hit₁']
      exact congrArg (fun b => some (Found.iterator it₁ b)) hhas₁
  | batch => exact h.2

/-- The slot of an iterator is emptied in both. -/
lemma resetIterator_alike (o : Outcome) (k : ℕ) :
    Alike w w' (o, { w with iterators := w.iterators.reset k })
      (o, { w' with iterators := w'.iterators.reset k }) := by
  refine ⟨rfl, fun kind ref h => ?_⟩
  cases kind with
  | db => exact h.2
  | iterator =>
    obtain ⟨j, it, hj, hit, hit', hhas⟩ := h.iterator
    rw [(World.find_of_get hj).2.1, (World.find_of_get hj).2.1]
    dsimp only
    rw [SlotTable.get_reset, SlotTable.get_reset, hit, hit']
    split
    · rfl
    · exact congrArg (fun b => some (Found.iterator it b)) hhas
  | batch => exact h.2

/-- The batch in a slot is replaced in both. -/
lemma updateBatch_alike (o : Outcome) {k : ℕ} {b : WriteBatch} (b' : WriteBatch)
    (hb : w.batches.get k = some b) (hb' : w'.batches.get k = some b) :
    Alike w w' (o, { w with batches := w.batches.update k b' })
      (o, { w' with batches := w'.batches.update k b' }) := by
  refine ⟨rfl, fun kind ref h => ?_⟩
  cases kind with
  | db => exact h.2
  | iterator => exact h.2
  | batch =>
    obtain ⟨j, b₁, hj, hb₁, hb₁'⟩ := h.batch
    rw [(World.find_of_get hj).2.2, (World.find_of_get hj).2.2]
    dsimp only
    rw [SlotTable.get_update (SlotTable.lt_size_of_get hb),
      SlotTable.get_update (SlotTable.lt_size_of_get hb'), hb₁, hb₁']

lemma resetBatch_alike (o : Outcome) (k : ℕ) :
    Alike w w' (o, { w with batches := w.batches.reset k })
      (o, { w' with batches := w'.batches.reset k }) := by
  refine ⟨rfl, fun kind ref h => ?_⟩
  cases kind with
  | db => exact h.2
  | iterator => exact h.2
  | batch =>
    obtain ⟨j, b, hj, hb, hb'⟩ := h.batch
    rw [(World.find_of_get hj).2.2, (World.find_of_get hj).2.2]
    dsimp only
    rw [SlotTable.get_reset, SlotTable.get_reset, hb, hb']

/-! ### Iterators and batches -/

/-- Two operations on the iterator found that are alike there. -/
lemma withIterator_alike {fn : HostFn} {act act' : Iterator → Outcome × World}
    (h : w.FindsAlike w' .iterator ref)
    (hact : ∀ k it, refIdx ref = some k → w.iterators.get k = some it →
      w'.iterators.get k = some it → w'.hasDb it = w.hasDb it → Alike w w' (act it) (act' it)) :
    Alike w w' (withIterator w fn ref act) (withIterator w' fn ref act') := by
  obtain ⟨k, it, hk, hit, hit', hhas⟩ := h.iterator
  rw [withIterator_of_get hk hit, withIterator_of_get hk hit']
  exact hact k it hk hit hit' hhas

/-- A move that keeps the database of the iterator. -/
lemma moveIterator_alike {k : ℕ} {it : Iterator} {moved : Option Iterator}
    (hk : refIdx ref = some k) (hit : w.iterators.get k = some it)
    (hit' : w'.iterators.get k = some it) (hhas : w'.hasDb it = w.hasDb it)
    (hmoved : ∀ it', moved = some it' → it'.slot = it.slot ∧ it'.dbId = it.dbId) :
    Alike w w' (moveIterator w ref it moved) (moveIterator w' ref it moved) := by
  unfold moveIterator
  rw [hhas]
  split
  · cases moved with
    | none => exact Alike.same _
    | some it' =>
      obtain ⟨hslot, hdbId⟩ := hmoved it' rfl
      have hhas' : w'.hasDb it' = w.hasDb it' := by
        unfold World.hasDb at hhas ⊢
        rw [hslot, hdbId]
        exact hhas
      dsimp only
      rw [slotOf_of_refIdx hk]
      exact updateIterator_alike _ hit hit' hhas'
  · exact Alike.same _

/-- Reading the entry goes by the iterator and by whether its database is open. -/
lemma readEntry_alike {it : Iterator} (hhas : w'.hasDb it = w.hasDb it)
    (read : Bytes × Bytes → JsValue) :
    Alike w w' (readEntry w it read) (readEntry w' it read) := by
  unfold readEntry
  rw [hhas]
  split
  · split
    · exact Alike.same _
    · exact Alike.same _
  · exact Alike.same _

/-- `compareKey` goes by the iterator, or by a null pointer in both. -/
lemma leveldbIteratorKeyCompare_alike (h : w.FindsAlike w' .iterator ref) (target : JsValue) :
    Alike w w' (leveldbIteratorKeyCompare w ref target)
      (leveldbIteratorKeyCompare w' ref target) := by
  obtain ⟨k, it, hk, hit, hit', hhas⟩ := h.iterator
  have hsome : valueToIterator w ref = some it := by
    rw [valueToIterator, toOption_valueToSlot, hk]
    exact hit
  have hsome' : valueToIterator w' ref = some it := by
    rw [valueToIterator, toOption_valueToSlot, hk]
    exact hit'
  rw [leveldbIteratorKeyCompare, leveldbIteratorKeyCompare, hsome, hsome']
  split
  · exact Alike.same _
  · exact readEntry_alike hhas _

lemma withBatch_alike {fn : HostFn} {act act' : WriteBatch → Outcome × World}
    (h : w.FindsAlike w' .batch ref)
    (hact : ∀ k b, refIdx ref = some k → w.batches.get k = some b →
      w'.batches.get k = some b → Alike w w' (act b) (act' b)) :
    Alike w w' (withBatch w fn ref act) (withBatch w' fn ref act') := by
  obtain ⟨k, b, hk, hb, hb'⟩ := h.batch
  rw [withBatch_of_get hk hb, withBatch_of_get hk hb']
  exact hact k b hk hb hb'

/-- Appending to a batch goes by the batch found. -/
lemma leveldbWriteBatchPut_alike (h : w.FindsAlike w' .batch ref) (k v : JsValue) :
    Alike w w' (leveldbWriteBatchPut w ref k v) (leveldbWriteBatchPut w' ref k v) := by
  refine withBatch_alike h fun j b hj hb hb' => ?_
  split
  · next key value _ _ =>
    rw [appendOp, appendOp, slotOf_of_refIdx hj]
    exact updateBatch_alike _ _ hb hb'
  · exact Alike.same _

lemma leveldbWriteBatchDelete_alike (h : w.FindsAlike w' .batch ref) (k : JsValue) :
    Alike w w' (leveldbWriteBatchDelete w ref k) (leveldbWriteBatchDelete w' ref k) := by
  refine withBatch_alike h fun j b hj hb hb' => ?_
  split
  · next key _ =>
    rw [appendOp, appendOp, slotOf_of_refIdx hj]
    exact updateBatch_alike _ _ hb hb'
  · exact Alike.same _

end

/-! ### Calls -/

namespace Process

/-- What there is to see of a call: its outcome and the native state it leaves. -/
def seen (r : Outcome × Process) : Outcome × World := (r.1, r.2.native)

section

variable {s t : Process} {ref : JsValue} {faults : Faults}

/-- The result that `index.ts` puts in place of the native one is the same in both. -/
lemma forwardAs_alike {v : JsValue} {r r' : Outcome × World} (h : Alike s.native t.native r r') :
    Alike s.native t.native (seen (s.forwardAs v r)) (seen (t.forwardAs v r')) :=
  ⟨congrArg (Outcome.returning v) h.1, h.2⟩

lemma close_alike {i : ℕ} {h h' : LevelDB} (href : h'.ref = h.ref)
    (hfind : s.native.FindsAlike t.native .db h.ref) :
    Alike s.native t.native (seen (s.close i h)) (seen (t.close i h')) := by
  obtain ⟨k, db, hk, hdb, hdb', -⟩ := hfind.db
  rw [close, close, href, leveldbClose_of_get hk hdb, leveldbClose_of_get hk hdb']
  exact closeSlot_alike _ k db

/-- `newIterator` ends the same way, and both leave what was found alike before. -/
lemma newIterator_alike {h h' : LevelDB} (href : h'.ref = h.ref)
    (hfind : s.native.FindsAlike t.native .db h.ref) :
    Alike s.native t.native (seen (s.newIterator h)) (seen (t.newIterator h')) := by
  have halike := leveldbNewIterator_alike hfind
  obtain ⟨k, db, hk, hdb, hdb', -⟩ := hfind.db
  have hdef : h.ref ≠ .undefined := by
    intro hu
    rw [hu] at hk
    cases hk
  rw [leveldbNewIterator, leveldbNewIterator, withDb_of_get hk hdb, withDb_of_get hk hdb']
    at halike
  rw [newIterator, newIterator, href, if_neg hdef, if_neg hdef, leveldbNewIterator,
    leveldbNewIterator, withDb_of_get hk hdb, withDb_of_get hk hdb']
  exact ⟨rfl, halike.2⟩

lemma merge_alike {h h' src src' : LevelDB} (href : h'.ref = h.ref) (hsrcRef : src'.ref = src.ref)
    (hfind : s.native.FindsAlike t.native .db h.ref)
    (hsrc : s.native.FindsAlike t.native .db src.ref) (batchMerge : Bool) :
    Alike s.native t.native (seen (s.merge faults h src batchMerge))
      (seen (t.merge faults h' src' batchMerge)) := by
  unfold merge
  rw [href, hsrcRef]
  split
  · exact Alike.same _
  · split
    · exact Alike.same _
    · exact forwardAs_alike (leveldbMerge_alike hfind hsrc batchMerge)

/-- All methods of an iterator go by what its reference finds. -/
lemma iteratorCall_alike {i : ℕ} {h h' : LevelDBIterator} (href : h'.ref = h.ref)
    (hfind : s.native.FindsAlike t.native .iterator h.ref) (m : IteratorMethod) :
    Alike s.native t.native (seen (s.iteratorCall faults i h m))
      (seen (t.iteratorCall faults i h' m)) := by
  -- the moves keep the database of the iterator
  have hmove : ∀ (fn : HostFn) (moved : Iterator → Option Iterator),
      (∀ it it', moved it = some it' → it'.slot = it.slot ∧ it'.dbId = it.dbId) →
      Alike s.native t.native
        (withIterator s.native fn h.ref fun it => moveIterator s.native h.ref it (moved it))
        (withIterator t.native fn h.ref fun it => moveIterator t.native h.ref it (moved it)) := by
    intro fn moved hmoved
    exact withIterator_alike hfind fun k it hk hit hit' hhas =>
      moveIterator_alike hk hit hit' hhas (hmoved it)
  have hread : ∀ (fn : HostFn) (read : Bytes × Bytes → JsValue),
      Alike s.native t.native
        (withIterator s.native fn h.ref fun it => readEntry s.native it read)
        (withIterator t.native fn h.ref fun it => readEntry t.native it read) := by
    intro fn read
    exact withIterator_alike hfind fun _ _ _ _ _ hhas => readEntry_alike hhas read
  cases m with
  | seekToFirst =>
    dsimp only [iteratorCall]
    rw [href]
    refine forwardAs_alike (hmove _ (fun it => some (it.seekToFirst (faults.moves 0)))
      fun it it' hit => ?_)
    cases hit
    simp [Iterator.seekToFirst]
  | seekLast =>
    dsimp only [iteratorCall]
    rw [href]
    refine forwardAs_alike (hmove _ (fun it => some (it.seekToLast (faults.moves 0)))
      fun it it' hit => ?_)
    cases hit
    simp [Iterator.seekToLast]
  | seek target =>
    dsimp only [iteratorCall]
    rw [href]
    refine forwardAs_alike (withIterator_alike hfind fun k it hk hit hit' hhas => ?_)
    split
    · exact Alike.same _
    · refine moveIterator_alike hk hit hit' hhas fun it' hmoved => ?_
      cases hmoved
      simp [Iterator.seek]
  | valid =>
    dsimp only [iteratorCall]
    rw [href]
    exact withIterator_alike hfind fun _ _ _ _ _ _ => Alike.same _
  | next =>
    dsimp only [iteratorCall]
    rw [href]
    exact forwardAs_alike (hmove _ (fun it => it.next (faults.moves 0))
      fun _ _ hit => (Iterator.next_id hit).2)
  | prev =>
    dsimp only [iteratorCall]
    rw [href]
    exact forwardAs_alike (hmove _ (fun it => it.prev (faults.moves 0))
      fun _ _ hit => (Iterator.prev_id hit).2)
  | close =>
    obtain ⟨k, it, hk, hit, hit', hhas⟩ := hfind.iterator
    dsimp only [iteratorCall]
    rw [href, leveldbIteratorDelete, leveldbIteratorDelete, withIterator_of_get hk hit,
      withIterator_of_get hk hit', hhas, slotOf_of_refIdx hk]
    by_cases hdb : s.native.hasDb it = true
    · rw [if_pos hdb, if_pos hdb]
      exact resetIterator_alike _ k
    · rw [if_neg hdb, if_neg hdb]
      exact Alike.same _
  | keyStr | keyBuf | valueStr | valueBuf =>
    dsimp only [iteratorCall]
    rw [href]
    exact hread _ _
  | compareKey target =>
    dsimp only [iteratorCall]
    rw [href]
    exact leveldbIteratorKeyCompare_alike hfind target

lemma batchClose_alike {i : ℕ} {h h' : LevelDBWriteBatch} (href : h'.ref = h.ref)
    (hfind : s.native.FindsAlike t.native .batch h.ref) :
    Alike s.native t.native (seen (s.batchClose i h)) (seen (t.batchClose i h')) := by
  obtain ⟨k, b, hk, hb, hb'⟩ := hfind.batch
  rw [batchClose, batchClose, href, leveldbWriteBatchClose, leveldbWriteBatchClose,
    withBatch_of_get hk hb, withBatch_of_get hk hb', slotOf_of_refIdx hk, hb, hb']
  exact resetBatch_alike _ k

/-- A call whose wrapper exists finds the same reference in both processes. -/
lemma ref_of_uses {α : Type} {xs ys : List α} {i : ℕ} {kind : Kind} {toHandle : α → Handle} {a : α}
    (hi : xs[i]? = some a)
    (huses : (ys[i]?.map fun a => (kind, toHandle a)).toList
      = (xs[i]?.map fun a => (kind, toHandle a)).toList) :
    ∃ b, ys[i]? = some b ∧ toHandle b = toHandle a := by
  rw [hi] at huses
  cases hy : ys[i]? with
  | none =>
    rw [hy] at huses
    cases huses
  | some b =>
    rw [hy] at huses
    injection huses with heq
    injection heq with _ hhandle
    exact ⟨b, rfl, hhandle⟩

/-- The same for a call through two wrappers. -/
lemma ref_of_uses₂ {α β : Type} {xs ys : List α} {us vs : List β} {i j : ℕ} {kind kind' : Kind}
    {toHandle : α → Handle} {toHandle' : β → Handle} {a : α} {b : β} (hi : xs[i]? = some a)
    (hj : us[j]? = some b)
    (huses : (ys[i]?.map fun a => (kind, toHandle a)).toList
        ++ (vs[j]?.map fun b => (kind', toHandle' b)).toList
      = (xs[i]?.map fun a => (kind, toHandle a)).toList
        ++ (us[j]?.map fun b => (kind', toHandle' b)).toList) :
    (∃ a', ys[i]? = some a' ∧ toHandle a' = toHandle a) ∧
      ∃ b', vs[j]? = some b' ∧ toHandle' b' = toHandle' b := by
  rw [hi, hj] at huses
  -- with both wrappers there the lists have two elements
  have hlen := congrArg List.length huses
  cases hy : ys[i]? with
  | none => cases hv : vs[j]? <;> simp [hy, hv] at hlen
  | some a' =>
    cases hv : vs[j]? with
    | none => simp [hy, hv] at hlen
    | some b' =>
      rw [hy, hv] at huses
      injection huses with ha hb
      injection ha with _ ha
      injection hb with hb
      injection hb with _ hb
      exact ⟨⟨a', rfl, ha⟩, b', rfl, hb⟩

/-- A method on a wrapper that does not exist throws. -/
lemma on_of_not_throw {α : Type} {wrappers : List α} {i : ℕ} {method : α → Outcome × Process}
    (hthrow : ∀ e, (s.on wrappers i method).1 ≠ .throw e) : ∃ a, wrappers[i]? = some a := by
  cases hi : wrappers[i]? with
  | none => exact absurd (by rw [on, hi]) (hthrow .typeError)
  | some a => exact ⟨a, rfl⟩

/-- **A call goes by what its references find.** If the same wrappers find the same in another
process, a call that does not throw ends there in the same way and leaves the same behind every
reference that found the same before. -/
theorem step_alike {c : Call} (faults : Faults) (hne : c.uses s ≠ []) (hthrow : ∀ e, (s.step (c, faults)).1 ≠ .throw e)
    (huses : c.uses t = c.uses s)
    (hfind : ∀ u ∈ c.uses s, s.native.FindsAlike t.native u.1 u.2.ref) :
    Alike s.native t.native (seen (s.step (c, faults))) (seen (t.step (c, faults))) := by
  cases c with
  | newLevelDB | destroyDB | newWriteBatch | closed => exact absurd rfl hne
  | close i =>
    obtain ⟨h, hi⟩ := on_of_not_throw hthrow
    obtain ⟨h', hi', hhandle⟩ := ref_of_uses hi huses
    dsimp only [step]
    rw [on_some hi, on_some hi']
    exact close_alike (congrArg Handle.ref hhandle) (hfind (.db, h.toHandle) (by simp [Call.uses, hi]))
  | put i k v =>
    obtain ⟨h, hi⟩ := on_of_not_throw hthrow
    obtain ⟨h', hi', hhandle⟩ := ref_of_uses hi huses
    have hu := hfind (.db, h.toHandle) (by simp [Call.uses, hi])
    dsimp only [step]
    rw [on_some hi, on_some hi', show h'.ref = h.ref from congrArg Handle.ref hhandle]
    exact forwardAs_alike (leveldbPut_alike hu k v)
  | delete i k =>
    obtain ⟨h, hi⟩ := on_of_not_throw hthrow
    obtain ⟨h', hi', hhandle⟩ := ref_of_uses hi huses
    have hu := hfind (.db, h.toHandle) (by simp [Call.uses, hi])
    dsimp only [step]
    rw [on_some hi, on_some hi', show h'.ref = h.ref from congrArg Handle.ref hhandle]
    exact forwardAs_alike (leveldbDelete_alike hu k)
  | getStr i k | getBuf i k =>
    obtain ⟨h, hi⟩ := on_of_not_throw hthrow
    obtain ⟨h', hi', hhandle⟩ := ref_of_uses hi huses
    have hu := hfind (.db, h.toHandle) (by simp [Call.uses, hi])
    dsimp only [step]
    rw [on_some hi, on_some hi', show h'.ref = h.ref from congrArg Handle.ref hhandle]
    exact getValue_alike hu _ _ k
  | newIterator i =>
    obtain ⟨h, hi⟩ := on_of_not_throw hthrow
    obtain ⟨h', hi', hhandle⟩ := ref_of_uses hi huses
    dsimp only [step]
    rw [on_some hi, on_some hi']
    exact newIterator_alike (congrArg Handle.ref hhandle)
      (hfind (.db, h.toHandle) (by simp [Call.uses, hi]))
  | write i j =>
    obtain ⟨h, hi⟩ := on_of_not_throw hthrow
    have hthrow' := hthrow
    dsimp only [step] at hthrow'
    rw [on_some hi] at hthrow'
    obtain ⟨b, hj⟩ := on_of_not_throw hthrow'
    obtain ⟨⟨h', hi', hhandle⟩, b', hj', hhandle'⟩ := ref_of_uses₂ hi hj huses
    dsimp only [step]
    rw [on_some hi, on_some hi', on_some hj, on_some hj',
      show h'.ref = h.ref from congrArg Handle.ref hhandle,
      show b'.ref = b.ref from congrArg Handle.ref hhandle']
    exact forwardAs_alike (leveldbWriteWriteBatch_alike
      (hfind (.db, h.toHandle) (by simp [Call.uses, hi]))
      (hfind (.batch, b.toHandle) (by simp [Call.uses, hj])))
  | merge i j batchMerge =>
    obtain ⟨h, hi⟩ := on_of_not_throw hthrow
    have hthrow' := hthrow
    dsimp only [step] at hthrow'
    rw [on_some hi] at hthrow'
    obtain ⟨src, hj⟩ := on_of_not_throw hthrow'
    obtain ⟨⟨h', hi', hhandle⟩, src', hj', hhandle'⟩ := ref_of_uses₂ hi hj huses
    dsimp only [step]
    rw [on_some hi, on_some hi', on_some hj, on_some hj']
    exact merge_alike (congrArg Handle.ref hhandle) (congrArg Handle.ref hhandle')
      (hfind (.db, h.toHandle) (by simp [Call.uses, hi]))
      (hfind (.db, src.toHandle) (by simp [Call.uses, hj])) batchMerge
  | iterator i m =>
    obtain ⟨h, hi⟩ := on_of_not_throw hthrow
    obtain ⟨h', hi', hhandle⟩ := ref_of_uses hi huses
    dsimp only [step]
    rw [on_some hi, on_some hi']
    exact iteratorCall_alike (congrArg Handle.ref hhandle)
      (hfind (.iterator, h.toHandle) (by simp [Call.uses, hi])) m
  | batchPut i k v =>
    obtain ⟨h, hi⟩ := on_of_not_throw hthrow
    obtain ⟨h', hi', hhandle⟩ := ref_of_uses hi huses
    have hu := hfind (.batch, h.toHandle) (by simp [Call.uses, hi])
    dsimp only [step]
    rw [on_some hi, on_some hi', show h'.ref = h.ref from congrArg Handle.ref hhandle]
    exact forwardAs_alike (leveldbWriteBatchPut_alike hu k v)
  | batchDelete i k =>
    obtain ⟨h, hi⟩ := on_of_not_throw hthrow
    obtain ⟨h', hi', hhandle⟩ := ref_of_uses hi huses
    have hu := hfind (.batch, h.toHandle) (by simp [Call.uses, hi])
    dsimp only [step]
    rw [on_some hi, on_some hi', show h'.ref = h.ref from congrArg Handle.ref hhandle]
    exact forwardAs_alike (leveldbWriteBatchDelete_alike hu k)
  | batchClose i =>
    obtain ⟨h, hi⟩ := on_of_not_throw hthrow
    obtain ⟨h', hi', hhandle⟩ := ref_of_uses hi huses
    dsimp only [step]
    rw [on_some hi, on_some hi']
    exact batchClose_alike (congrArg Handle.ref hhandle)
      (hfind (.batch, h.toHandle) (by simp [Call.uses, hi]))

end

end Process

end RnLeveldb
