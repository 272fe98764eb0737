import RnLeveldb.Durability

/-!
# The two modes of `merge`

With `batchMerge` the pairs of the source are collected and written by one `DB::Write`;
otherwise each is written by a `DB::Put` of its own while the source is being read. The source
may be the destination itself: the iterator walks the content as it was when it was made. If
storage does not fail, both modes leave the source overriding the destination. In batch mode
a failure leaves either that or the destination as it was.
-/

namespace RnLeveldb

section

variable {faults : Faults} {dst : Db} {bm : Bool}

/-! ## The loop ends -/

/-- Where a positioning leaves the iterator. -/
lemma place_pos_cases (it : Iterator) (p : ℕ) (fault : Option Failure) :
    (it.place p fault).pos = none ∨ (it.place p fault).pos = some p ∧ p < it.entries.length := by
  cases fault with
  | some f => exact Or.inl rfl
  | none =>
    by_cases hp : p < it.entries.length
    · exact Or.inr ⟨if_pos hp, hp⟩
    · exact Or.inl (if_neg hp)

lemma place_entries (it : Iterator) (p : ℕ) (fault : Option Failure) :
    (it.place p fault).entries = it.entries := by
  cases fault <;> rfl

/-- With more turns than there are entries left, the loop stops where its condition fails. -/
lemma mergeLoop_pos {it : Iterator} {p fuel : ℕ}
    (hpos : it.pos = none ∨ it.pos = some p ∧ p < it.entries.length)
    (hfuel : it.entries.length - p < fuel) (n : ℕ) (w : World) (batch : List BatchOp) :
    (mergeLoop faults dst bm fuel n it w batch).1.pos = none := by
  induction fuel generalizing it p n w batch with
  | zero => omega
  | succ fuel ih =>
    rcases hpos with hnone | ⟨hpos, hlt⟩
    · rw [mergeLoop_of_not_valid hnone]
      exact hnone
    · have hget : it.entries[p]? = some (it.entries[p].1, it.entries[p].2) :=
        List.getElem?_eq_getElem hlt
      have hnext := place_pos_cases it (p + 1) (faults.moves (n + 1))
      have hlen := congrArg List.length (place_entries it (p + 1) (faults.moves (n + 1)))
      rw [← hlen] at hnext
      rw [mergeLoop_succ hpos hget]
      split
      · exact ih hnext (by omega) _ _ _
      · exact ih hnext (by omega) _ _ _

/-- The loop over the whole source ends, whatever fails. -/
lemma mergeLoop_ends (faults : Faults) (dst : Db) (bm : Bool) (it : Iterator) {fuel : ℕ}
    (hfuel : it.entries.length < fuel) (w : World) :
    (mergeLoop faults dst bm fuel 0 (it.seekToFirst (faults.moves 0)) w []).1.pos = none := by
  have hpos := place_pos_cases it 0 (faults.moves 0)
  rw [← place_entries it 0 (faults.moves 0)] at hpos hfuel
  exact mergeLoop_pos hpos (by omega) 0 w []

/-! ## What is left -/

/-- The pairs of `src` put into `dst`. -/
def Content.overriding (src dst : Content) : Content := applyBatch dst (mergeOps src.entries)

lemma Content.get_overriding (src dst : Content) (key : Bytes) :
    (Content.overriding src dst).get key = (src.get key).or (dst.get key) := by
  rw [Content.overriding, get_applyBatch]
  cases hkey : src.get key with
  | none => exact foldl_mergeOps_of_not_mem (SortedMap.lookup_eq_none_iff.mp hkey) _
  | some v => exact foldl_mergeOps src.ascending ((SortedMap.get_eq_some_iff _).mp hkey) _

/-- One put after the other is the same as all at once, if none fails. -/
lemma content_mergePuts {es : List (Bytes × Bytes)} (hok : ∀ n, faults.writes n = .ok) (n : ℕ)
    (w : World) (d : Dir) :
    (mergePuts faults dst n es w).content d =
      if d = dst.dir then applyBatch (w.content dst.dir) (mergeOps es) else w.content d := by
  induction es generalizing n w with
  | nil =>
    split
    · next hd =>
      rw [hd]
      rfl
    · rfl
  | cons e es ih =>
    obtain ⟨k, v⟩ := e
    have hput : ∀ d', (w.write dst [.put k v] (faults.writes n)).2.content d' =
        if d' = dst.dir then applyBatch (w.content dst.dir) [.put k v] else w.content d' := by
      intro d'
      rw [content_write, hok n]
      simp [WriteOutcome.applied]
    rw [mergePuts, ih, hput dst.dir, if_pos rfl]
    split
    · rfl
    · next hd => rw [hput d, if_neg hd]

/-- Both modes, if no write fails. -/
lemma content_merge_of_ok (bm : Bool) (dst : Db) (src : Content)
    (hok : ∀ n, faults.writes n = .ok) (w : World) (d : Dir) :
    (if bm then (w.write dst (mergeOps src.entries) (faults.writes 0)).2
      else mergePuts faults dst 0 src.entries w).content d =
      if d = dst.dir then Content.overriding src (w.content dst.dir) else w.content d := by
  cases bm with
  | true =>
    rw [if_pos rfl, content_write, hok 0]
    simp [WriteOutcome.applied, Content.overriding]
  | false =>
    rw [if_neg (by decide), content_mergePuts hok]
    rfl

end

namespace Process

/-- **The modes of `merge` agree, and batch mode is all or nothing.** For every pair of open
wrappers, which may stand for the same database: the loop over the source ends. If no storage
call fails, `merge` returns in both modes and leaves the same, the source overriding the
destination, and every other directory as it was. With any failures, batch mode leaves the
destination as it was or the source overriding it, and nothing else is changed; if the source
iterator has failed, it throws and the state is as it was. -/
theorem merge_modes_agree (s : Process) (i j : ℕ) (h h' : LevelDB) (db src : Db)
    (hi : s.dbs[i]? = some h) (hat : dbAt s.native h.ref = some db)
    (hj : s.dbs[j]? = some h') (hsrc : dbAt s.native h'.ref = some src) :
    (∀ (f : Faults) (bm : Bool) (it : Iterator) (fuel : ℕ), it.entries.length < fuel →
      (mergeLoop f db bm fuel 0 (it.seekToFirst (f.moves 0)) s.native []).1.pos = none) ∧
    (∀ (f : Faults) (bm : Bool), f.WalkOk (s.native.content src.dir).entries →
      (∀ n, f.writes n = .ok) →
      (s.step (.merge i j bm, f)).1 = .ret .undefined [⟨.db, db.id⟩, ⟨.db, src.id⟩] ∧
      (s.step (.merge i j bm, f)).2.native.content db.dir =
        Content.overriding (s.native.content src.dir) (s.native.content db.dir) ∧
      (∀ key, ((s.step (.merge i j bm, f)).2.native.content db.dir).get key =
        ((s.native.content src.dir).get key).or ((s.native.content db.dir).get key)) ∧
      ∀ d, d ≠ db.dir →
        (s.step (.merge i j bm, f)).2.native.content d = s.native.content d) ∧
    ∀ f : Faults,
      ((s.step (.merge i j true, f)).2.native.content db.dir = s.native.content db.dir ∨
        (s.step (.merge i j true, f)).2.native.content db.dir =
          Content.overriding (s.native.content src.dir) (s.native.content db.dir)) ∧
      (∀ d, d ≠ db.dir →
        (s.step (.merge i j true, f)).2.native.content d = s.native.content d) ∧
      (¬ f.WalkOk (s.native.content src.dir).entries →
        (∃ e, (s.step (.merge i j true, f)).1 = .throw e) ∧
          (s.step (.merge i j true, f)).2 = s) := by
  refine ⟨?_, ?_, ?_⟩
  · intro f bm it fuel hfuel
    exact mergeLoop_ends f db bm it hfuel s.native
  · intro f bm hwalk hok
    have hcontent := content_merge_of_ok bm db (s.native.content src.dir) hok s.native
    have hdb := (hcontent db.dir).trans (if_pos rfl)
    rw [step_merge_of_walkOk hi hat hj hsrc bm hwalk]
    refine ⟨rfl, hdb, fun key => ?_, fun d hd => (hcontent d).trans (if_neg hd)⟩
    exact (congrArg (fun c => SortedMap.get c key) hdb).trans (Content.get_overriding _ _ key)
  · intro f
    by_cases hwalk : f.WalkOk (s.native.content src.dir).entries
    · -- the one write took effect, or it did not
      have hcontent : ∀ d, (s.native.write db (mergeOps (s.native.content src.dir).entries)
          (f.writes 0)).2.content d = _ := content_write _ (f.writes 0)
      rw [step_merge_of_walkOk hi hat hj hsrc true hwalk]
      refine ⟨?_, fun d hd => (hcontent d).trans (if_neg fun hboth => hd hboth.1),
        fun hnot => absurd hwalk hnot⟩
      by_cases happlied : (f.writes 0).applied = true
      · exact Or.inr ((hcontent db.dir).trans (if_pos ⟨rfl, happlied⟩))
      · exact Or.inl ((hcontent db.dir).trans (if_neg fun hboth => happlied hboth.2))
    · obtain ⟨hthrow, hsame⟩ := step_merge_of_fault hi hat hj hsrc true hwalk
      have hstate := hsame rfl
      rw [hstate]
      exact ⟨Or.inl rfl, fun d _ => rfl, fun _ => ⟨hthrow, rfl⟩⟩

/-- Two open databases; the second has one entry. -/
def twoDatabases : Process :=
  Machine.run step (start (fun _ => none) (ascii "/d"))
    [(.newLevelDB [0x61] true false, {}), (.newLevelDB [0x62] true false, {}),
      (.put 1 (.string [0x6B]) (.string [0x76]), {})]

theorem merge_modes_agree_two_databases :
    ∃ h db h' src, twoDatabases.dbs[0]? = some h ∧ dbAt twoDatabases.native h.ref = some db ∧
      twoDatabases.dbs[1]? = some h' ∧ dbAt twoDatabases.native h'.ref = some src ∧
      ∀ bm key, ((twoDatabases.step (.merge 0 1 bm, {})).2.native.content db.dir).get key =
        ((twoDatabases.native.content src.dir).get key).or
          ((twoDatabases.native.content db.dir).get key) := by
  refine ⟨_, _, _, _, rfl, rfl, rfl, rfl, fun bm key => ?_⟩
  have hagree := merge_modes_agree twoDatabases 0 1 _ _ _ _ rfl rfl rfl rfl
  exact (hagree.2.1 {} bm (fun _ _ => rfl) fun _ => rfl).2.2.1 key

end Process

end RnLeveldb
