import RnLeveldb.Merge
import RnLeveldb.WriteBatches

/-!
# What a normal return says about the stored data

`put` and `write` return only when storage reported OK. `delete` also returns when storage
reported NotFound, and `merge` does not look at what its writes report. So a call that
returns has had its full effect except in two situations, which `NothingLost` rules out: a
delete whose NotFound is not about the key, and a write of a merge that was not applied and
mattered.
-/

namespace RnLeveldb

namespace Process

variable {s : Process} {f : Faults}

/-! ## Statements -/

/-- The call has had its full effect on the content of its database. -/
def FullEffect (s : Process) (x : Call × Faults) : Prop :=
  match x.1 with
  | .put i k v => ∃ h db key value, s.dbs[i]? = some h ∧ dbAt s.native h.ref = some db ∧
      valueToString k = some key ∧ valueToString v = some value ∧
      ∀ key', ((s.step x).2.native.content db.dir).get key' =
        if key = key' then some value else (s.native.content db.dir).get key'
  | .delete i k => ∃ h db key, s.dbs[i]? = some h ∧ dbAt s.native h.ref = some db ∧
      valueToString k = some key ∧
      ∀ key', ((s.step x).2.native.content db.dir).get key' =
        if key = key' then none else (s.native.content db.dir).get key'
  | .write i j => ∃ h db w n b, s.dbs[i]? = some h ∧ dbAt s.native h.ref = some db ∧
      s.batches[j]? = some w ∧ refIdx w.ref = some n ∧ s.native.batches.get n = some b ∧
      ∀ key', ((s.step x).2.native.content db.dir).get key' =
        b.ops.foldl (BatchOp.on key') ((s.native.content db.dir).get key')
  | .merge i j _ => ∃ h db h' src, s.dbs[i]? = some h ∧ dbAt s.native h.ref = some db ∧
      s.dbs[j]? = some h' ∧ dbAt s.native h'.ref = some src ∧
      ∀ key', ((s.step x).2.native.content db.dir).get key' =
        ((s.native.content src.dir).get key').or ((s.native.content db.dir).get key')
  | _ => True

/-- If the call returns, it has had its full effect. -/
def StoresAll (s : Process) (x : Call × Faults) : Prop :=
  ∀ v on, (s.step x).1 = .ret v on → s.FullEffect x

/-- The condition on the calls of a run. A `DB::Delete` that reports NotFound was applied or
its key is not there; and in a merge whose source is read to the end, each `DB::Put` (in batch
mode, the one `DB::Write`) was applied or the destination has its pairs already. -/
def NothingLost (s : Process) (x : Call × Faults) : Prop :=
  match x.1 with
  | .delete i k => ∀ h db key fail, s.dbs[i]? = some h → dbAt s.native h.ref = some db →
      valueToString k = some key → x.2.writes 0 = .fail fail false → fail.code = .notFound →
      (s.native.content db.dir).get key = none
  | .merge i j batchMerge => ∀ h db h' src, s.dbs[i]? = some h →
      dbAt s.native h.ref = some db → s.dbs[j]? = some h' → dbAt s.native h'.ref = some src →
      x.2.WalkOk (s.native.content src.dir).entries →
      ∀ n k v, (s.native.content src.dir).entries[n]? = some (k, v) →
        (x.2.writes (if batchMerge then 0 else n)).applied = true ∨
          (s.native.content db.dir).get k = some v
  | _ => True

/-! ## Single calls -/

lemma dbAt_eq_some {w : World} {ref : JsValue} {db : Db} :
    dbAt w ref = some db ↔ valueToDb w ref = .ok db := by
  rw [valueToDb, valueToSlot_ok, dbAt, Option.bind_eq_some_iff]

lemma step_put_cases (i : ℕ) (k v : JsValue) :
    (∃ e, s.step (.put i k v, f) = (.throw e, s)) ∨
      ∃ h db key value, s.dbs[i]? = some h ∧ dbAt s.native h.ref = some db ∧
        valueToString k = some key ∧ valueToString v = some value ∧
        s.step (.put i k v, f) = s.forwardAs .undefined (reportStatus .leveldbPut
          [⟨.db, db.id⟩] (s.native.write db [.put key value] (f.writes 0))) := by
  dsimp only [step]
  cases hi : s.dbs[i]? with
  | none => exact Or.inl ⟨.typeError, by rw [on, hi]⟩
  | some h =>
    rw [on_some hi]
    obtain ⟨e, hw⟩ | ⟨n, db, hn, hdb, hw⟩ := withDb_cases s.native .leveldbPut h.ref _ <;>
      rw [leveldbPut, hw]
    · exact Or.inl ⟨_, rfl⟩
    · cases hkey : valueToString k with
      | none => exact Or.inl ⟨_, rfl⟩
      | some key =>
        cases hvalue : valueToString v with
        | none => exact Or.inl ⟨_, rfl⟩
        | some value =>
          exact Or.inr ⟨h, db, key, value, rfl, by rw [dbAt, hn]; exact hdb, rfl, rfl, rfl⟩

/-- The outcome of a delete that has reached storage. -/
def deleteOutcome (db : Db) (r : Status × World) : Outcome × World :=
  match r with
  | (.ok, w') => (.ret .null [⟨.db, db.id⟩], w')
  | (.fail f, w') =>
    if f.code = .notFound then (.ret .null [⟨.db, db.id⟩], w')
    else (.throw (.host .leveldbDelete (.status f)), w')

lemma step_delete_of_dbAt {i : ℕ} {k : JsValue} {h : LevelDB} {db : Db} {key : Bytes}
    (hi : s.dbs[i]? = some h) (hat : dbAt s.native h.ref = some db)
    (hkey : valueToString k = some key) :
    s.step (.delete i k, f) = s.forwardAs .undefined
      (deleteOutcome db (s.native.write db [.delete key] (f.writes 0))) := by
  dsimp only [step]
  rw [on_some hi, leveldbDelete, withDb, dbAt_eq_some.mp hat]
  dsimp only
  rw [hkey]
  rfl

lemma step_delete_cases (i : ℕ) (k : JsValue) :
    (∃ e, s.step (.delete i k, f) = (.throw e, s)) ∨
      ∃ h db key, s.dbs[i]? = some h ∧ dbAt s.native h.ref = some db ∧
        valueToString k = some key := by
  cases hi : s.dbs[i]? with
  | none =>
    refine Or.inl ⟨.typeError, ?_⟩
    dsimp only [step]
    rw [on, hi]
  | some h =>
    cases hat : dbAt s.native h.ref with
    | none =>
      have huse : (Kind.db, h.toHandle) ∈ (Call.delete i k).uses s := by simp [Call.uses, hi]
      have hnone : s.native.objAt .db h.ref = none := by
        rw [World.objAt]
        exact congrArg (Option.map Db.id) hat
      obtain he | ⟨_, _, hc, -⟩ := step_of_empty huse hnone f
      · exact Or.inl he
      · cases hc
    | some db =>
      cases hkey : valueToString k with
      | none =>
        refine Or.inl ⟨.host .leveldbDelete .invalidParams, ?_⟩
        dsimp only [step]
        rw [on_some hi, leveldbDelete, withDb, dbAt_eq_some.mp hat]
        dsimp only
        rw [hkey]
        rfl
      | some key => exact Or.inr ⟨h, db, key, rfl, hat, rfl⟩

lemma step_merge_of_dbAt {i j : ℕ} {h h' : LevelDB} {db src : Db} (hi : s.dbs[i]? = some h)
    (hat : dbAt s.native h.ref = some db) (hj : s.dbs[j]? = some h')
    (hsrc : dbAt s.native h'.ref = some src) (bm : Bool) :
    s.step (.merge i j bm, f) = s.forwardAs .undefined
      (leveldbMerge s.native f h.ref h'.ref (.bool bm)) := by
  have hne : ∀ {ref : JsValue} {db : Db}, dbAt s.native ref = some db → ref ≠ .undefined := by
    rintro _ db hdb rfl
    cases hdb
  dsimp only [step]
  rw [on_some hi, on_some hj, merge, if_neg (hne hat), if_neg (hne hsrc)]

/-- A merge whose source is read to the end returns. -/
lemma step_merge_of_walkOk {i j : ℕ} {h h' : LevelDB} {db src : Db} (hi : s.dbs[i]? = some h)
    (hat : dbAt s.native h.ref = some db) (hj : s.dbs[j]? = some h')
    (hsrc : dbAt s.native h'.ref = some src) (bm : Bool)
    (hwalk : f.WalkOk (s.native.content src.dir).entries) :
    s.step (.merge i j bm, f) = (.ret .undefined [⟨.db, db.id⟩, ⟨.db, src.id⟩],
      { s with
        native :=
          if bm then
            (s.native.write db (mergeOps (s.native.content src.dir).entries) (f.writes 0)).2
          else mergePuts f db 0 (s.native.content src.dir).entries s.native }) := by
  rw [step_merge_of_dbAt hi hat hj hsrc,
    leveldbMerge_of_walkOk (dbAt_eq_some.mp hat) (dbAt_eq_some.mp hsrc) bm hwalk]
  rfl

/-- A merge whose source iterator fails throws; in batch mode nothing has been written. -/
lemma step_merge_of_fault {i j : ℕ} {h h' : LevelDB} {db src : Db} (hi : s.dbs[i]? = some h)
    (hat : dbAt s.native h.ref = some db) (hj : s.dbs[j]? = some h')
    (hsrc : dbAt s.native h'.ref = some src) (bm : Bool)
    (hwalk : ¬ f.WalkOk (s.native.content src.dir).entries) :
    (∃ e, (s.step (.merge i j bm, f)).1 = .throw e) ∧
      (bm = true → (s.step (.merge i j bm, f)).2 = s) := by
  obtain ⟨⟨fail, hthrow⟩, hsame⟩ :=
    leveldbMerge_of_fault (dbAt_eq_some.mp hat) (dbAt_eq_some.mp hsrc) bm hwalk
  rw [step_merge_of_dbAt hi hat hj hsrc]
  dsimp only [forwardAs]
  constructor
  · rw [hthrow]
    exact ⟨_, rfl⟩
  · intro hbm
    rw [hsame hbm]

lemma step_merge_cases (i j : ℕ) (bm : Bool) :
    (∃ e, s.step (.merge i j bm, f) = (.throw e, s)) ∨
      ∃ h db h' src, s.dbs[i]? = some h ∧ dbAt s.native h.ref = some db ∧
        s.dbs[j]? = some h' ∧ dbAt s.native h'.ref = some src := by
  have hempty : ∀ {h : LevelDB}, (Kind.db, h.toHandle) ∈ (Call.merge i j bm).uses s →
      dbAt s.native h.ref = none → ∃ e, s.step (.merge i j bm, f) = (.throw e, s) := by
    intro h huse hat
    have hnone : s.native.objAt .db h.ref = none := by
      rw [World.objAt]
      exact congrArg (Option.map Db.id) hat
    obtain he | ⟨_, _, hc, -⟩ := step_of_empty huse hnone f
    · exact he
    · cases hc
  cases hi : s.dbs[i]? with
  | none =>
    refine Or.inl ⟨.typeError, ?_⟩
    dsimp only [step]
    rw [on, hi]
  | some h =>
    cases hj : s.dbs[j]? with
    | none =>
      refine Or.inl ⟨.typeError, ?_⟩
      dsimp only [step]
      rw [on_some hi, on, hj]
    | some h' =>
      cases hat : dbAt s.native h.ref with
      | none => exact Or.inl (hempty (by simp [Call.uses, hi]) hat)
      | some db =>
        cases hsrc : dbAt s.native h'.ref with
        | none => exact Or.inl (hempty (by simp [Call.uses, hj]) hsrc)
        | some src => exact Or.inr ⟨h, db, h', src, rfl, hat, rfl, hsrc⟩

/-! ## Full effects -/

lemma storesAll_put (i : ℕ) (k v : JsValue) : s.StoresAll (.put i k v, f) := by
  intro v' on hret
  obtain ⟨e, hs⟩ | ⟨h, db, key, value, hi, hat, hkey, hvalue, hs⟩ :=
      step_put_cases (s := s) (f := f) i k v
  · rw [hs] at hret
    cases hret
  · refine ⟨h, db, key, value, hi, hat, hkey, hvalue, fun key' => ?_⟩
    -- `leveldbPut` throws on every status that is not OK
    have hok : (f.writes 0).applied = true := by
      cases ho : f.writes 0 with
      | ok => rfl
      | fail f' applied =>
        rw [hs, ho] at hret
        cases applied <;> cases hret
    rw [hs, forwardAs, reportStatus_snd, get_content_put]
    simp [hok]

lemma storesAll_write (i j : ℕ) : s.StoresAll (.write i j, f) := by
  intro v on hret
  obtain ⟨h, w, k, db, n, b, hi, hj, hk, hdb, hn, hb, hs⟩ := step_write_ret hret
  refine ⟨h, db, w, n, b, hi, by rw [dbAt, hk]; exact hdb, hj, hn, hb, fun key' => ?_⟩
  rw [hs, ← get_applyBatch]
  simp [withDisk, World.content]

/-- What a delete that has reached storage leaves. -/
lemma get_content_delete {w : World} {db : Db} (key : Bytes) (o : WriteOutcome) (key' : Bytes) :
    ((w.write db [.delete key] o).2.content db.dir).get key' =
      if o.applied = true ∧ key = key' then none else (w.content db.dir).get key' := by
  rw [get_content_write, ite_and]
  rfl

lemma storesAll_delete_iff (i : ℕ) (k : JsValue) :
    s.StoresAll (.delete i k, f) ↔ s.NothingLost (.delete i k, f) := by
  have hnative : ∀ {h db key}, s.dbs[i]? = some h → dbAt s.native h.ref = some db →
      valueToString k = some key → (s.step (.delete i k, f)).2.native =
        (s.native.write db [.delete key] (f.writes 0)).2 := by
    intro h db key hi hat hkey
    rw [step_delete_of_dbAt hi hat hkey]
    dsimp only [forwardAs]
    unfold deleteOutcome
    split
    · next hw => rw [hw]
    · next hw =>
      rw [hw]
      split <;> rfl
  constructor
  · intro hstores h db key fail hi hat hkey hw hcode
    -- a NotFound is reported as success
    have hret : (s.step (.delete i k, f)).1 = .ret .undefined [⟨.db, db.id⟩] := by
      rw [step_delete_of_dbAt hi hat hkey, hw]
      simp [World.write, deleteOutcome, hcode, forwardAs, Outcome.returning]
    obtain ⟨h', db', key', hi', hat', hkey', hget⟩ := hstores _ _ hret
    rw [hi] at hi'
    cases hi'
    rw [hat] at hat'
    cases hat'
    rw [hkey] at hkey'
    cases hkey'
    have := hget key
    rw [hnative hi hat hkey, get_content_delete, hw] at this
    simpa [WriteOutcome.applied] using this
  · intro hlost v on hret
    obtain ⟨e, hs⟩ | ⟨h, db, key, hi, hat, hkey⟩ := step_delete_cases (s := s) (f := f) i k
    · rw [hs] at hret
      cases hret
    · refine ⟨h, db, key, hi, hat, hkey, fun key' => ?_⟩
      rw [hnative hi hat hkey, get_content_delete]
      by_cases happ : (f.writes 0).applied = true
      · simp [happ]
      · -- returning without having been applied, the status was NotFound
        cases ho : f.writes 0 with
        | ok => exact absurd (by rw [ho]; rfl) happ
        | fail fail applied =>
          rw [ho] at happ
          have happ' : applied = false := by simpa [WriteOutcome.applied] using happ
          subst happ'
          have hcode : fail.code = .notFound := by
            by_contra hne
            rw [step_delete_of_dbAt hi hat hkey, ho] at hret
            simp [World.write, deleteOutcome, hne, forwardAs, Outcome.returning] at hret
          have hnone := hlost h db key fail hi hat hkey ho hcode
          by_cases hk : key = key'
          · subst hk
            simp [WriteOutcome.applied, hnone]
          · simp [WriteOutcome.applied, hk]

/-- The pairs of the source have reached the destination, write by write. -/
lemma get_content_merge {w : World} {faults : Faults} {dst : Db} {src : Content} (bm : Bool)
    {n : ℕ} {k v : Bytes} (hn : src.entries[n]? = some (k, v)) :
    ((if bm then (w.write dst (mergeOps src.entries) (faults.writes 0)).2
      else mergePuts faults dst 0 src.entries w).content dst.dir).get k =
      if (faults.writes (if bm then 0 else n)).applied then some v
      else (w.content dst.dir).get k := by
  cases bm with
  | true =>
    rw [if_pos rfl, if_pos rfl, get_content_write,
      foldl_mergeOps src.ascending (List.mem_of_getElem? hn)]
  | false =>
    have hputs : ((mergePuts faults dst 0 src.entries w).content dst.dir).get k =
        if (faults.writes (0 + n)).applied then some v else (w.content dst.dir).get k :=
      get_mergePuts src.ascending hn 0 w
    rw [Nat.zero_add] at hputs
    exact hputs

/-- Other keys of the destination are left alone. -/
lemma get_content_merge_of_none {w : World} {faults : Faults} {dst : Db} {src : Content}
    (bm : Bool) {key : Bytes} (hnone : src.get key = none) :
    ((if bm then (w.write dst (mergeOps src.entries) (faults.writes 0)).2
      else mergePuts faults dst 0 src.entries w).content dst.dir).get key =
      (w.content dst.dir).get key := by
  have hne : ∀ e ∈ src.entries, e.1 ≠ key := SortedMap.lookup_eq_none_iff.mp hnone
  cases bm with
  | true =>
    rw [if_pos rfl, get_content_write, foldl_mergeOps_of_not_mem hne, ite_self]
  | false =>
    rw [if_neg (by decide)]
    exact get_mergePuts_of_not_mem hne 0 w

lemma storesAll_merge_iff (i j : ℕ) (bm : Bool) :
    s.StoresAll (.merge i j bm, f) ↔ s.NothingLost (.merge i j bm, f) := by
  constructor
  · intro hstores h db h' src hi hat hj hsrc hwalk n k v hn
    have hstep := step_merge_of_walkOk hi hat hj hsrc bm hwalk
    obtain ⟨g, db', g', src', hi', hat', hj', hsrc', hget⟩ :=
      hstores .undefined [⟨.db, db.id⟩, ⟨.db, src.id⟩] (by rw [hstep])
    rw [hi] at hi'
    cases hi'
    rw [hat] at hat'
    cases hat'
    rw [hj] at hj'
    cases hj'
    rw [hsrc] at hsrc'
    cases hsrc'
    -- the merge has returned, so the pair must have arrived
    have hk : (s.native.content src.dir).get k = some v :=
      (SortedMap.get_eq_some_iff _).mpr (List.mem_of_getElem? hn)
    have := hget k
    rw [hstep, hk] at this
    dsimp only at this
    rw [get_content_merge bm hn] at this
    by_cases happ : (f.writes (if bm then 0 else n)).applied = true
    · exact Or.inl happ
    · rw [if_neg happ] at this
      exact Or.inr this
  · intro hlost v on hret
    obtain ⟨e, hs⟩ | ⟨h, db, h', src, hi, hat, hj, hsrc⟩ :=
        step_merge_cases (s := s) (f := f) i j bm
    · rw [hs] at hret
      cases hret
    · refine ⟨h, db, h', src, hi, hat, hj, hsrc, fun key => ?_⟩
      by_cases hwalk : f.WalkOk (s.native.content src.dir).entries
      · rw [step_merge_of_walkOk hi hat hj hsrc bm hwalk]
        dsimp only
        cases hkey : (s.native.content src.dir).get key with
        | none =>
          rw [get_content_merge_of_none bm hkey]
          rfl
        | some value =>
          obtain ⟨n, hn⟩ := List.getElem?_of_mem ((SortedMap.get_eq_some_iff _).mp hkey)
          rw [get_content_merge bm hn]
          rcases hlost h db h' src hi hat hj hsrc hwalk n key value hn with happ | hold
          · rw [if_pos happ]
            rfl
          · rw [hold, ite_self]
            rfl
      · -- the source iterator has failed, and the merge has thrown
        obtain ⟨⟨e, hthrow⟩, -⟩ := step_merge_of_fault hi hat hj hsrc bm hwalk
        rw [hthrow] at hret
        cases hret

theorem storesAll_iff (s : Process) (x : Call × Faults) : s.StoresAll x ↔ s.NothingLost x := by
  obtain ⟨c, f⟩ := x
  cases c with
  | put i k v => exact iff_of_true (storesAll_put i k v) trivial
  | write i j => exact iff_of_true (storesAll_write i j) trivial
  | delete i k => exact storesAll_delete_iff i k
  | merge i j bm => exact storesAll_merge_iff i j bm
  | newLevelDB | close | closed | getStr | getBuf | newIterator | destroyDB | iterator
  | newWriteBatch | batchPut | batchDelete | batchClose =>
    exact iff_of_true (fun _ _ _ => trivial) trivial

/-- **A normal return means the data is stored, unless a write got lost.** In a run every call
that returns has had its full effect exactly when no delete and no merge of the run loses a
write. -/
theorem normal_return_stored_iff (disk : Dir → Option Content) (documentDir : Bytes)
    (cs : List (Call × Faults)) :
    Machine.Along step StoresAll (start disk documentDir) cs ↔
      Machine.Along step NothingLost (start disk documentDir) cs :=
  Machine.along_congr storesAll_iff _ cs

/-- A merge returns although its only `DB::Put` failed. -/
theorem merge_loses_failing_put :
    ¬ Machine.Along step StoresAll (start (fun _ => none) (ascii "/d"))
      [(.newLevelDB [0x61] true false, {}), (.newLevelDB [0x62] true false, {}),
        (.put 1 (.string [0x6B]) (.string [0x76]), {}),
        (.merge 0 1 false, { writes := fun _ => .fail { code := .ioError, msg := [] } false })] := by
  rintro ⟨-, -, -, hmerge, -⟩
  rcases (storesAll_iff _ _).mp hmerge _ _ _ _ rfl rfl rfl rfl (fun _ _ => rfl) 0 [0x6B] [0x76] rfl
    with happ | hold
  · cases happ
  · cases hold

end Process

end RnLeveldb
