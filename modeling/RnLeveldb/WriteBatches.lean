import RnLeveldb.UseAfterClose

/-!
# Write batches

The slots of `batches` are recycled: `leveldbNewWriteBatch` fills the first empty one. Still
no two wrappers that are not closed share a slot, so the records behind a wrapper are exactly
those issued through it. `issued` reads them off the calls of a run and their outcomes;
`IssuedOk` relates them to the slots.
-/

namespace RnLeveldb

/-- The record a call adds to a batch, and the number of the batch's wrapper. -/
def Call.batchOp : Call → Option (ℕ × BatchOp)
  | .batchPut i k v =>
    (valueToString k).bind fun key => (valueToString v).map fun value => (i, .put key value)
  | .batchDelete i k => (valueToString k).map fun key => (i, .delete key)
  | _ => none

/-- The record wrapper `j` was asked to add by a call, if the call returned. -/
def issuedBy (j : ℕ) (c : Call) : Outcome → Option BatchOp
  | .ret _ _ => c.batchOp.bind fun p => if p.1 = j then some p.2 else none
  | _ => none

/-- The `put` and `delete` calls on batch wrapper `j` that returned, in order. -/
def issued (j : ℕ) (calls : List ((Call × Faults) × Outcome)) : List BatchOp :=
  calls.filterMap fun e => issuedBy j e.1.1 e.2

namespace Process

variable {s s' : Process} {x : Call × Faults} {c : Call}

/-! ## Single calls -/

/-- `put` and `delete` throw and nothing happens, or append their record to the slot of the
wrapper. -/
lemma step_batchOp_cases {i : ℕ} (hc : (∃ k v, c = .batchPut i k v) ∨ ∃ k, c = .batchDelete i k)
    (f : Faults) :
    (∃ e, s.step (c, f) = (.throw e, s) ∧ ¬ e.IsStorage) ∨
      ∃ h k b op, s.batches[i]? = some h ∧ refIdx h.ref = some k ∧
        s.native.batches.get k = some b ∧ c.batchOp = some (i, op) ∧
        s.step (c, f) = (.ret .undefined [⟨.batch, b.id⟩],
          { s with native := { s.native with
              batches := s.native.batches.update k { b with ops := b.ops ++ [op] } } }) := by
  rcases hc with ⟨key, value, rfl⟩ | ⟨key, rfl⟩
  · dsimp only [step]
    cases hi : s.batches[i]? with
    | none => exact Or.inl ⟨.typeError, by rw [on, hi], id⟩
    | some h =>
      rw [on_some hi]
      obtain ⟨e, hw⟩ | ⟨k, b, hk, hb, hw⟩ :=
          withBatch_cases s.native .leveldbWriteBatchPut h.ref _ <;>
        rw [leveldbWriteBatchPut, hw]
      · exact Or.inl ⟨_, rfl, id⟩
      · cases hkey : valueToString key with
        | none => exact Or.inl ⟨_, rfl, id⟩
        | some a =>
          cases hvalue : valueToString value with
          | none => exact Or.inl ⟨_, rfl, id⟩
          | some a' =>
            refine Or.inr ⟨h, k, b, .put a a', rfl, hk, hb, by simp [Call.batchOp, hkey, hvalue], ?_⟩
            dsimp only [appendOp]
            rw [slotOf_of_refIdx hk]
            rfl
  · dsimp only [step]
    cases hi : s.batches[i]? with
    | none => exact Or.inl ⟨.typeError, by rw [on, hi], id⟩
    | some h =>
      rw [on_some hi]
      obtain ⟨e, hw⟩ | ⟨k, b, hk, hb, hw⟩ :=
          withBatch_cases s.native .leveldbWriteBatchDelete h.ref _ <;>
        rw [leveldbWriteBatchDelete, hw]
      · exact Or.inl ⟨_, rfl, id⟩
      · cases hkey : valueToString key with
        | none => exact Or.inl ⟨_, rfl, id⟩
        | some a =>
          refine Or.inr ⟨h, k, b, .delete a, rfl, hk, hb, by simp [Call.batchOp, hkey], ?_⟩
          dsimp only [appendOp]
          rw [slotOf_of_refIdx hk]
          rfl

/-- `write` throws before it reaches storage, or hands the records of the batch to
`DB::Write` of the database. -/
lemma step_write_cases (i j : ℕ) (f : Faults) :
    (∃ e, s.step (.write i j, f) = (.throw e, s) ∧ ¬ e.IsStorage) ∨
      ∃ h w k db kb b, s.dbs[i]? = some h ∧ s.batches[j]? = some w ∧ refIdx h.ref = some k ∧
        s.native.dbs.get k = some db ∧ refIdx w.ref = some kb ∧
        s.native.batches.get kb = some b ∧
        s.step (.write i j, f) = s.forwardAs .undefined
          (reportStatus .leveldbWriteWriteBatch [⟨.db, db.id⟩, ⟨.batch, b.id⟩]
            (s.native.write db b.ops (f.writes 0))) := by
  dsimp only [step]
  cases hi : s.dbs[i]? with
  | none => exact Or.inl ⟨.typeError, by rw [on, hi], id⟩
  | some h =>
    rw [on_some hi]
    cases hj : s.batches[j]? with
    | none => exact Or.inl ⟨.typeError, by rw [on, hj], id⟩
    | some w =>
      rw [on_some hj]
      obtain ⟨e, hw⟩ | ⟨k, db, hk, hdb, hw⟩ :=
          withDb_cases s.native .leveldbWriteWriteBatch h.ref _ <;>
        rw [leveldbWriteWriteBatch, hw]
      · exact Or.inl ⟨_, rfl, id⟩
      · obtain ⟨e, hw⟩ | ⟨kb, b, hkb, hb, hw⟩ :=
            withBatch_cases s.native .leveldbWriteWriteBatch w.ref _ <;>
          rw [hw]
        · exact Or.inl ⟨_, rfl, id⟩
        · exact Or.inr ⟨h, w, k, db, kb, b, rfl, rfl, hk, hdb, hkb, hb, rfl⟩

/-- A write that returns has been applied to the database; nothing else has changed. -/
lemma step_write_ret {i j : ℕ} {f : Faults} {v : JsValue} {on : List Obj}
    (hret : (s.step (.write i j, f)).1 = .ret v on) :
    ∃ h w k db kb b, s.dbs[i]? = some h ∧ s.batches[j]? = some w ∧ refIdx h.ref = some k ∧
      s.native.dbs.get k = some db ∧ refIdx w.ref = some kb ∧
      s.native.batches.get kb = some b ∧
      (s.step (.write i j, f)).2 = s.withDisk (Function.update s.native.disk db.dir
        (some (applyBatch (s.native.content db.dir) b.ops))) := by
  obtain ⟨e, hs, -⟩ | ⟨h, w, k, db, kb, b, hi, hj, hk, hdb, hkb, hb, hs⟩ := step_write_cases i j f
  · rw [hs] at hret
    cases hret
  · refine ⟨h, w, k, db, kb, b, hi, hj, hk, hdb, hkb, hb, ?_⟩
    rw [hs] at hret ⊢
    cases ho : f.writes 0 with
    | ok => rfl
    | fail f' applied =>
      rw [ho] at hret
      cases applied <;> cases hret

/-- A write that throws changes no batch, and at most the database it is made on; only a
failure of the storage gets that far. -/
lemma step_write_throw {i j : ℕ} {f : Faults} {e : JsError}
    (hthrow : (s.step (.write i j, f)).1 = .throw e) :
    (¬ e.IsStorage → (s.step (.write i j, f)).2 = s) ∧
      ∃ disk, (s.step (.write i j, f)).2 = s.withDisk disk ∧
        ∀ d, (∀ (h : LevelDB) (db : Db), s.dbs[i]? = some h → dbAt s.native h.ref = some db → d ≠ db.dir) →
          disk d = s.native.disk d := by
  obtain ⟨e', hs, he'⟩ | ⟨h, w, k, db, kb, b, hi, hj, hk, hdb, hkb, hb, hs⟩ :=
      step_write_cases i j f
  · rw [hs]
    exact ⟨fun _ => rfl, s.native.disk, rfl, fun _ _ => rfl⟩
  · have hat : dbAt s.native h.ref = some db := by rw [dbAt, hk, Option.bind_some, hdb]
    rw [hs] at hthrow ⊢
    cases ho : f.writes 0 with
    | ok =>
      rw [ho] at hthrow
      cases hthrow
    | fail f' applied =>
      rw [ho] at hthrow
      -- a failing `DB::Write` may still have stored the batch
      cases applied with
      | false =>
        cases hthrow
        exact ⟨fun h => absurd trivial h, s.native.disk, rfl, fun _ _ => rfl⟩
      | true =>
        cases hthrow
        refine ⟨fun h => absurd trivial h, _, rfl, fun d hd => ?_⟩
        exact Function.update_of_ne (hd h db hi hat) _ _

/-- Closing a batch throws and nothing happens, or returns. -/
lemma step_batchClose_throw {i : ℕ} {f : Faults} {e : JsError}
    (hthrow : (s.step (.batchClose i, f)).1 = .throw e) : (s.step (.batchClose i, f)).2 = s := by
  dsimp only [step] at hthrow ⊢
  cases hi : s.batches[i]? with
  | none => rw [on, hi]
  | some h =>
    rw [on_some hi] at hthrow ⊢
    unfold batchClose at hthrow ⊢
    obtain ⟨e, hw⟩ | ⟨k, b, hk, hb, hw⟩ :=
        withBatch_cases s.native .leveldbWriteBatchClose h.ref _ <;>
      rw [leveldbWriteBatchClose, hw] at hthrow ⊢
    rw [slotOf_of_refIdx hk, hb] at hthrow
    cases hthrow

/-! ## The records behind a wrapper -/

lemma issued_snoc (j : ℕ) (calls : List ((Call × Faults) × Outcome)) (x : Call × Faults)
    (out : Outcome) :
    issued j (calls ++ [(x, out)]) = issued j calls ++ (issuedBy j x.1 out).toList := by
  rw [issued, issued, List.filterMap_append]
  cases h : issuedBy j x.1 out <;> simp [h]

/-- The records in the slot of a wrapper are those issued through it. -/
structure IssuedOk (calls : List ((Call × Faults) × Outcome)) (s : Process) : Prop where
  installed : s.Installed
  ops : ∀ {j k : ℕ} {w : LevelDBWriteBatch} {b : WriteBatch}, s.batches[j]? = some w →
    refIdx w.ref = some k → s.native.batches.get k = some b → b.ops = issued j calls
  unborn : ∀ j, s.batches.length ≤ j → issued j calls = []

lemma Installed.batchHandle (h : s.Installed) {w : LevelDBWriteBatch} (hw : w ∈ s.batches) :
    ∃ o, BatchHandleOk s.native w o :=
  h.inv.batches.handles w hw (h.current.batches w hw)

/-- Two wrappers with the same index are one wrapper. -/
lemma Installed.batch_eq_of_ref (h : s.Installed) {a b : LevelDBWriteBatch} {i j k : ℕ}
    (hi : s.batches[i]? = some a) (hj : s.batches[j]? = some b) (ha : refIdx a.ref = some k)
    (hb : refIdx b.ref = some k) : i = j :=
  h.inv.batches.eq_of_ref hi hj (h.current.batches a (List.mem_of_getElem? hi))
    (h.current.batches b (List.mem_of_getElem? hj)) ha hb

variable {calls : List ((Call × Faults) × Outcome)}

/-- A record appended through wrapper `i`. -/
lemma IssuedOk.append (h : IssuedOk calls s) {i k : ℕ} {w : LevelDBWriteBatch} {b : WriteBatch}
    {op : BatchOp} {v : JsValue} {on : List Obj} (hi : s.batches[i]? = some w)
    (hk : refIdx w.ref = some k) (hb : s.native.batches.get k = some b)
    (hop : x.1.batchOp = some (i, op)) (hout : (s.step x).1 = .ret v on)
    (hstate : (s.step x).2 = { s with native := { s.native with
        batches := s.native.batches.update k { b with ops := b.ops ++ [op] } } }) :
    IssuedOk (calls ++ [(x, (s.step x).1)]) (s.step x).2 := by
  have hissued : ∀ j, issued j (calls ++ [(x, (s.step x).1)]) =
      issued j calls ++ if i = j then [op] else [] := by
    intro j
    rw [issued_snoc, hout, issuedBy, hop, Option.bind_some]
    split <;> rfl
  refine ⟨h.installed.step x, ?_, ?_⟩
  · rw [hstate]
    intro j k' w' b' hj hk' hb'
    dsimp only at hj hb'
    rw [SlotTable.get_update (SlotTable.lt_size_of_get hb)] at hb'
    rw [hissued]
    -- the slot that changes is that of `i`, and no other wrapper has it
    by_cases hij : i = j
    · subst hij
      rw [hi] at hj
      cases hj
      rw [hk] at hk'
      cases hk'
      rw [if_pos rfl] at hb'
      cases hb'
      rw [if_pos rfl, h.ops hi hk hb]
    · have hkk : k' ≠ k := by
        intro hkk
        rw [hkk] at hk'
        exact hij (h.installed.batch_eq_of_ref hi hj hk hk')
      rw [if_neg hkk] at hb'
      rw [if_neg hij, List.append_nil, h.ops hj hk' hb']
  · rw [hstate]
    intro j hj
    obtain ⟨hlt, -⟩ := List.getElem?_eq_some_iff.mp hi
    dsimp only at hj
    rw [hissued, if_neg (by omega), h.unborn j hj, List.append_nil]

/-- A call that adds no record. -/
lemma IssuedOk.effect (h : IssuedOk calls s) (heff : Effect s c s')
    (hput : ∀ i k v, c ≠ .batchPut i k v) (hdelete : ∀ i k, c ≠ .batchDelete i k) :
    (∀ {j k : ℕ} {w : LevelDBWriteBatch} {b : WriteBatch}, s'.batches[j]? = some w →
      refIdx w.ref = some k → s'.native.batches.get k = some b → b.ops = issued j calls) ∧
    ∀ j, s'.batches.length ≤ j → issued j calls = [] := by
  cases heff with
  | newBatch =>
    refine ⟨?_, fun j hj => ?_⟩
    · intro j k w b hj hk hb
      dsimp only at hj hb
      rw [SlotTable.get_alloc] at hb
      rcases Nat.lt_trichotomy j s.batches.length with hlt | heq | hgt
      · -- the slot that is recycled was empty, that of an older wrapper is not
        rw [List.getElem?_append_left hlt] at hj
        obtain ⟨o, hok⟩ := h.installed.batchHandle (List.mem_of_getElem? hj)
        have hne : k ≠ (s.native.batches.alloc { id := s.native.nextId, ops := [] }).1 := by
          intro hka
          exact hok.full k hk (by rw [hka]; exact SlotTable.get_alloc_idx _ _)
        rw [if_neg hne] at hb
        exact h.ops hj hk hb
      · -- the new wrapper: its batch is empty, and nothing was issued through it
        subst heq
        rw [List.getElem?_concat_length] at hj
        cases hj
        rw [refIdx_natCast] at hk
        cases hk
        rw [if_pos rfl] at hb
        cases hb
        exact (h.unborn _ le_rfl).symm
      · rw [List.getElem?_eq_none (by simp; omega)] at hj
        cases hj
    · refine h.unborn j ?_
      rw [List.length_append] at hj
      omega
  | closedBatch i k w b hi hk hb =>
    refine ⟨?_, fun j hj => h.unborn j (by simpa using hj)⟩
    intro j k' w' b' hj hk' hb'
    dsimp only at hj hb'
    rw [SlotTable.get_reset] at hb'
    rw [List.getElem?_set] at hj
    split at hb'
    · cases hb'
    · split at hj
      · -- the wrapper that was closed has the reference -1
        split at hj
        · cases hj
          cases hk'
        · cases hj
      · exact h.ops hj hk' hb'
  | appended c i k w b op hc =>
    rcases hc with ⟨key, value, rfl⟩ | ⟨key, rfl⟩
    · exact absurd rfl (hput i key value)
    · exact absurd rfl (hdelete i key)
  | stored | openFailed | opened | shared | closed | destroyed | forceClosed | newIterator
  | moved | closedIterator => exact ⟨h.ops, h.unborn⟩

lemma IssuedOk.step (h : IssuedOk calls s) (x : Call × Faults) :
    IssuedOk (calls ++ [(x, (s.step x).1)]) (s.step x).2 := by
  by_cases hc : ∃ i, (∃ k v, x.1 = .batchPut i k v) ∨ ∃ k, x.1 = .batchDelete i k
  · obtain ⟨i, hc⟩ := hc
    obtain ⟨e, hs, -⟩ | ⟨w, k, b, op, hi, hk, hb, hop, hs⟩ := step_batchOp_cases (s := s) hc x.2
    · have hs' : s.step x = (.throw e, s) := hs
      have hnone : ∀ j, issued j (calls ++ [(x, (s.step x).1)]) = issued j calls := by
        intro j
        rw [issued_snoc, hs']
        exact List.append_nil _
      rw [hs'] at hnone ⊢
      refine ⟨h.installed, ?_, ?_⟩
      · intro j k w b hj hk hb
        rw [hnone, h.ops hj hk hb]
      · intro j hj
        rw [hnone, h.unborn j hj]
    · have hs' : s.step x = _ := hs
      exact h.append hi hk hb hop (by rw [hs']) (by rw [hs'])
  · have hput : ∀ i k v, x.1 ≠ .batchPut i k v := fun i k v hx => hc ⟨i, Or.inl ⟨k, v, hx⟩⟩
    have hdelete : ∀ i k, x.1 ≠ .batchDelete i k := fun i k hx => hc ⟨i, Or.inr ⟨k, hx⟩⟩
    have hop : x.1.batchOp = none := by
      cases hx : x.1 with
      | batchPut i k v => exact absurd hx (hput i k v)
      | batchDelete i k => exact absurd hx (hdelete i k)
      | _ => rfl
    have hsame : ∀ j, issued j (calls ++ [(x, (s.step x).1)]) = issued j calls := by
      intro j
      have hnone : issuedBy j x.1 (s.step x).1 = none := by
        unfold issuedBy
        split
        · rw [hop]
          rfl
        · rfl
      rw [issued_snoc, hnone]
      exact List.append_nil _
    obtain ⟨hops, hunborn⟩ := h.effect (step_effect s x.1 x.2) hput hdelete
    refine ⟨h.installed.step x, ?_, ?_⟩
    · intro j k w b hj hk hb
      rw [hsame]
      exact hops hj hk hb
    · intro j hj
      rw [hsame]
      exact hunborn j hj

lemma issuedOk_run (disk : Dir → Option Content) (documentDir : Bytes)
    (cs : List (Call × Faults)) :
    IssuedOk (Machine.trace step (start disk documentDir) cs)
      (Machine.run step (start disk documentDir) cs) := by
  refine Machine.inv_trace (I := IssuedOk) (fun calls s x h => h.step x) ⟨?_, ?_, ?_⟩ cs
  · exact installed_start disk documentDir
  · intro j k w b hj
    cases hj
  · exact fun _ _ => rfl

/-! ## Batches of an application -/

/-- A write that returns applies the records issued through its batch wrapper. -/
lemma IssuedOk.write_ret (h : IssuedOk calls s) {i j : ℕ} {f : Faults} {v : JsValue}
    {on : List Obj} (hret : (s.step (.write i j, f)).1 = .ret v on) :
    ∃ (w : LevelDB) (db : Db), s.dbs[i]? = some w ∧ w.obj = some db.id ∧ dbAt s.native w.ref = some db ∧
      (s.step (.write i j, f)).2 = s.withDisk (Function.update s.native.disk db.dir
        (some (applyBatch (s.native.content db.dir) (issued j calls)))) := by
  obtain ⟨w, w', k, db, kb, b, hi, hj, hk, hdb, hkb, hb, hs⟩ := step_write_ret hret
  have hmem := List.mem_of_getElem? hi
  obtain ⟨o, hok⟩ := h.installed.inv.dbs.handles w hmem (h.installed.current.dbs w hmem)
  have htr := hok.holder.tracks
  rw [hk] at htr
  refine ⟨w, db, hi, by rw [hok.obj, htr.get_id hdb], by rw [dbAt, hk, Option.bind_some, hdb], ?_⟩
  rw [hs, h.ops hj hkb hb]

/-- **Write batches are isolated and applied as issued.** Within one installation, after every
run:

* two wrappers of batches that are not closed have different references;
* a write that returns changes its database, and nothing else, to what the records issued
  through the batch wrapper make of it, the last record on a key deciding; another write of
  the batch applies the same records again;
* a `put`, `delete` or `close` of a batch that throws changes nothing, nor does a write that
  throws, unless the storage fails, when it may have changed its database. -/
theorem write_batches_isolated (disk : Dir → Option Content) (documentDir : Bytes)
    (cs : List (Call × Faults)) :
    let s := Machine.run step (start disk documentDir) cs
    let calls := Machine.trace step (start disk documentDir) cs
    (∀ (i j : ℕ) (a b : LevelDBWriteBatch), s.batches[i]? = some a → s.batches[j]? = some b →
      a.ref ≠ .number (-1) → b.ref ≠ .number (-1) → i ≠ j → a.ref ≠ b.ref) ∧
    (∀ i j f v on, (s.step (.write i j, f)).1 = .ret v on →
      ∃ (w : LevelDB) (db : Db), s.dbs[i]? = some w ∧ w.obj = some db.id ∧ dbAt s.native w.ref = some db ∧
        (s.step (.write i j, f)).2 = s.withDisk (Function.update s.native.disk db.dir
          (some (applyBatch (s.native.content db.dir) (issued j calls)))) ∧
        (∀ key, (applyBatch (s.native.content db.dir) (issued j calls)).get key =
          (issued j calls).foldl (BatchOp.on key) ((s.native.content db.dir).get key)) ∧
        ∀ i' f' v' on', ((s.step (.write i j, f)).2.step (.write i' j, f')).1 = .ret v' on' →
          ∃ (w' : LevelDB) (db' : Db), s.dbs[i']? = some w' ∧ w'.obj = some db'.id ∧
            ((s.step (.write i j, f)).2.step (.write i' j, f')).2 =
              s.withDisk (Function.update (s.step (.write i j, f)).2.native.disk db'.dir
                (some (applyBatch ((s.step (.write i j, f)).2.native.content db'.dir)
                  (issued j calls))))) ∧
    (∀ i c f e, ((∃ k v, c = .batchPut i k v) ∨ (∃ k, c = .batchDelete i k) ∨ c = .batchClose i) →
      (s.step (c, f)).1 = .throw e → (s.step (c, f)).2 = s) ∧
    ∀ i j f e, (s.step (.write i j, f)).1 = .throw e →
      (¬ e.IsStorage → (s.step (.write i j, f)).2 = s) ∧
      ∃ disk', (s.step (.write i j, f)).2 = s.withDisk disk' ∧
        ∀ d, (∀ (h : LevelDB) (db : Db), s.dbs[i]? = some h → dbAt s.native h.ref = some db → d ≠ db.dir) →
          disk' d = s.native.disk d := by
  intro s calls
  have h : IssuedOk calls s := issuedOk_run disk documentDir cs
  refine ⟨?_, ?_, ?_, fun i j f e => step_write_throw⟩
  · intro i j a b hi hj ha hb hij heq
    obtain ⟨o, hok⟩ := h.installed.batchHandle (List.mem_of_getElem? hi)
    obtain ⟨k, hk⟩ := hok.ref.resolve_left ha
    have hka : refIdx a.ref = some k := by rw [hk, refIdx_natCast]
    exact hij (h.installed.batch_eq_of_ref hi hj hka (by rw [← heq]; exact hka))
  · intro i j f v on hret
    obtain ⟨w, db, hi, hobj, hat, hs⟩ := h.write_ret hret
    refine ⟨w, db, hi, hobj, hat, hs, fun key => get_applyBatch _ _ key, ?_⟩
    intro i' f' v' on' hret'
    obtain ⟨w', db', hi', hobj', -, hs'⟩ := (h.step (.write i j, f)).write_ret hret'
    -- the write itself issues no record
    have hsame : issued j (calls ++ [((.write i j, f), (s.step (.write i j, f)).1)])
        = issued j calls := by
      rw [issued_snoc, hret]
      exact List.append_nil _
    rw [hsame] at hs'
    rw [hs] at hi' hs' ⊢
    exact ⟨w', db', hi', hobj', hs'⟩
  · intro i c f e hc hthrow
    rcases hc with hput | hdelete | rfl
    · obtain ⟨e', hs, -⟩ | ⟨_, _, _, _, _, _, _, _, hs⟩ :=
        step_batchOp_cases (s := s) (Or.inl hput) f
      · rw [hs]
      · rw [hs] at hthrow
        cases hthrow
    · obtain ⟨e', hs, -⟩ | ⟨_, _, _, _, _, _, _, _, hs⟩ :=
        step_batchOp_cases (s := s) (Or.inr hdelete) f
      · rw [hs]
      · rw [hs] at hthrow
        cases hthrow
    · exact step_batchClose_throw hthrow

end Process

end RnLeveldb
