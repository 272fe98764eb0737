import RnLeveldb.HostFunctions

/-!
# What `leveldbMerge` writes

The loop of `leveldbMerge` over the source is taken apart once. When no positioning of the
source iterator fails it visits every entry and ends with an OK status; otherwise it ends
with the error, and in batch mode nothing has been written by then.

`mergePuts` is what the loop has written without batch mode, one `DB::Put` for each entry,
whose status nobody looks at.
-/

namespace RnLeveldb

/-- The call took effect, whatever status it reported. -/
def WriteOutcome.applied : WriteOutcome → Bool
  | .ok => true
  | .fail _ applied => applied

/-- One `DB::Put` after the other, the `i`-th with the outcome of the call's write `n + i`. -/
def mergePuts (faults : Faults) (dst : Db) : ℕ → List (Bytes × Bytes) → World → World
  | _, [], w => w
  | n, (k, v) :: es, w =>
    mergePuts faults dst (n + 1) es (w.write dst [.put k v] (faults.writes n)).2

/-- The records batch mode collects. -/
def mergeOps (es : List (Bytes × Bytes)) : List BatchOp := es.map fun e => .put e.1 e.2

/-- No positioning of the source iterator fails while it walks over `es`. -/
def Faults.WalkOk (faults : Faults) (es : List (Bytes × Bytes)) : Prop :=
  ∀ n ≤ es.length, faults.moves n = none

/-! ## The loop -/

section Loop

variable {faults : Faults} {dst : Db} {bm : Bool} {it : Iterator}

/-- The loop ends at an iterator that is not valid. -/
lemma mergeLoop_of_not_valid (hpos : it.pos = none) (fuel n : ℕ) (w : World)
    (batch : List BatchOp) :
    mergeLoop faults dst bm fuel n it w batch = (it, w, batch) := by
  cases fuel with
  | zero => rfl
  | succ fuel =>
    unfold mergeLoop
    simp [Iterator.entry, Iterator.next, hpos]

/-- One iteration, at entry `p` of the source. -/
lemma mergeLoop_succ {p : ℕ} {k v : Bytes} (hpos : it.pos = some p)
    (hp : it.entries[p]? = some (k, v)) (fuel n : ℕ) (w : World) (batch : List BatchOp) :
    mergeLoop faults dst bm (fuel + 1) n it w batch =
      if bm then
        mergeLoop faults dst bm fuel (n + 1) (it.place (p + 1) (faults.moves (n + 1))) w
          (batch ++ [.put k v])
      else
        mergeLoop faults dst bm fuel (n + 1) (it.place (p + 1) (faults.moves (n + 1)))
          (w.write dst [.put k v] (faults.writes n)).2 batch := by
  rw [mergeLoop]
  simp [Iterator.entry, Iterator.next, hpos, hp]

/-- From entry `p` on, if no positioning fails, the loop handles the remaining entries. -/
lemma mergeLoop_of_walkOk (rest : List (Bytes × Bytes)) {p fuel : ℕ} {w : World}
    {batch : List BatchOp} (hrest : it.entries.drop p = rest)
    (hpos : it.pos = if p < it.entries.length then some p else none) (hstatus : it.status = .ok)
    (hfuel : rest.length < fuel) (hwalk : faults.WalkOk it.entries) :
    (mergeLoop faults dst bm fuel p it w batch).1.status = .ok ∧
    (mergeLoop faults dst bm fuel p it w batch).2 =
      if bm then (w, batch ++ mergeOps rest) else (mergePuts faults dst p rest w, batch) := by
  -- on the entries still ahead of the iterator; the loop's counter is the position
  induction rest generalizing p fuel it w batch with
  | nil =>
    have hge : it.entries.length ≤ p := List.drop_eq_nil_iff.mp hrest
    have hnone : it.pos = none := by rw [hpos, if_neg (by omega)]
    rw [mergeLoop_of_not_valid hnone]
    refine ⟨hstatus, ?_⟩
    cases bm <;> simp [mergeOps, mergePuts]
  | cons e rest ih =>
    obtain ⟨k, v⟩ := e
    obtain ⟨hlt, hget, hnext⟩ := Iterator.of_drop_eq_cons hrest
    obtain ⟨fuel, rfl⟩ := Nat.exists_eq_succ_of_ne_zero (show fuel ≠ 0 by omega)
    rw [if_pos hlt] at hpos
    have hmove : faults.moves (p + 1) = none := hwalk (p + 1) hlt
    rw [Nat.succ_eq_add_one, mergeLoop_succ hpos hget, hmove]
    have hlen : rest.length < fuel := by
      rw [List.length_cons] at hfuel
      omega
    cases bm with
    | true =>
      have hassoc : batch ++ mergeOps ((k, v) :: rest) = batch ++ [.put k v] ++ mergeOps rest := by
        simp [mergeOps]
      rw [if_pos rfl, if_pos rfl, hassoc]
      exact ih hnext rfl hstatus hlen hwalk
    | false => exact ih hnext rfl hstatus hlen hwalk

/-- If a positioning fails later on, the loop ends with its error; batch mode has written
nothing. -/
lemma mergeLoop_of_fault (rest : List (Bytes × Bytes)) {p fuel m : ℕ} {w : World}
    {batch : List BatchOp} (hrest : it.entries.drop p = rest)
    (hpos : it.pos = if p < it.entries.length then some p else none)
    (hfuel : rest.length < fuel) (hm : p < m) (hle : m ≤ it.entries.length)
    (hfault : faults.moves m ≠ none) :
    (∃ f, (mergeLoop faults dst bm fuel p it w batch).1.status = .fail f) ∧
      (bm = true → (mergeLoop faults dst bm fuel p it w batch).2.1 = w) := by
  induction rest generalizing p fuel it w batch with
  | nil =>
    have hge : it.entries.length ≤ p := List.drop_eq_nil_iff.mp hrest
    omega
  | cons e rest ih =>
    obtain ⟨k, v⟩ := e
    obtain ⟨hlt, hget, hnext⟩ := Iterator.of_drop_eq_cons hrest
    obtain ⟨fuel, rfl⟩ := Nat.exists_eq_succ_of_ne_zero (show fuel ≠ 0 by omega)
    rw [if_pos hlt] at hpos
    rw [Nat.succ_eq_add_one, mergeLoop_succ hpos hget]
    cases hmove : faults.moves (p + 1) with
    | some f =>
      -- the iterator is no longer valid and keeps the error
      have hdone : ∀ w' batch', mergeLoop faults dst bm fuel (p + 1)
          (it.place (p + 1) (some f)) w' batch' = (it.place (p + 1) (some f), w', batch') :=
        fun w' batch' => mergeLoop_of_not_valid rfl fuel (p + 1) w' batch'
      rw [hdone, hdone]
      cases bm with
      | true => exact ⟨⟨f, rfl⟩, fun _ => rfl⟩
      | false => exact ⟨⟨f, rfl⟩, fun h => absurd h (by decide)⟩
    | none =>
      have hm' : p + 1 < m := by
        rcases Nat.lt_or_ge (p + 1) m with h | h
        · exact h
        · have hmp : m = p + 1 := by omega
          rw [hmp] at hfault
          exact absurd hmove hfault
      have hlen : rest.length < fuel := by
        rw [List.length_cons] at hfuel
        omega
      have hmoved : (it.place (p + 1) none).entries.drop (p + 1) = rest := hnext
      cases bm with
      | true => exact ih hmoved rfl hlen hm' hle
      | false =>
        refine ⟨(ih hmoved rfl hlen hm' hle).1, fun h => ?_⟩
        cases h

end Loop

/-! ## The host function -/

section

variable {w : World} {faults : Faults} {dstRef srcRef : JsValue} {dst src : Db}

/-- A merge whose source iterator never fails returns, whatever the writes report. -/
theorem leveldbMerge_of_walkOk (hdst : valueToDb w dstRef = .ok dst)
    (hsrc : valueToDb w srcRef = .ok src) (bm : Bool)
    (hwalk : faults.WalkOk (w.content src.dir).entries) :
    leveldbMerge w faults dstRef srcRef (.bool bm) =
      (.ret .null [⟨.db, dst.id⟩, ⟨.db, src.id⟩],
        if bm then (w.write dst (mergeOps (w.content src.dir).entries) (faults.writes 0)).2
        else mergePuts faults dst 0 (w.content src.dir).entries w) := by
  unfold leveldbMerge
  rw [hdst, hsrc]
  dsimp only
  generalize hit :
    (⟨w.nextId, slotOf srcRef, src.id, w.content src.dir, none, .ok⟩ : Iterator) = it
  have hentries : it.entries = (w.content src.dir).entries := by rw [← hit]; rfl
  have hstatus : it.status = .ok := by rw [← hit]
  have hmove : faults.moves 0 = none := hwalk 0 (Nat.zero_le _)
  rw [← hentries] at hwalk
  -- the loop starts at entry 0 with the whole source ahead
  have hfirst : (it.seekToFirst none).entries.drop 0 = it.entries := rfl
  obtain ⟨hst, heq⟩ : (mergeLoop faults dst bm (it.entries.length + 1) 0
        (it.seekToFirst none) w []).1.status = .ok ∧
      (mergeLoop faults dst bm (it.entries.length + 1) 0 (it.seekToFirst none) w []).2 =
        if bm then (w, [] ++ mergeOps it.entries) else (mergePuts faults dst 0 it.entries w, []) :=
    mergeLoop_of_walkOk it.entries hfirst rfl hstatus (Nat.lt_succ_self _) hwalk
  rw [hmove]
  generalize mergeLoop faults dst bm (it.entries.length + 1) 0 (it.seekToFirst none) w []
    = r at hst heq ⊢
  obtain ⟨it', w', batch⟩ := r
  dsimp only at hst heq ⊢
  rw [hst]
  cases bm with
  | true =>
    rw [if_pos rfl, Prod.mk.injEq] at heq
    rw [if_pos rfl, if_pos rfl, heq.1, heq.2, hentries, List.nil_append]
  | false =>
    rw [if_neg (by decide), Prod.mk.injEq] at heq
    rw [if_neg (by decide), if_neg (by decide), heq.1, hentries]

/-- A merge whose source iterator fails throws; batch mode leaves the destination alone. -/
theorem leveldbMerge_of_fault (hdst : valueToDb w dstRef = .ok dst)
    (hsrc : valueToDb w srcRef = .ok src) (bm : Bool)
    (hwalk : ¬ faults.WalkOk (w.content src.dir).entries) :
    (∃ f, (leveldbMerge w faults dstRef srcRef (.bool bm)).1 =
      .throw (.host .leveldbMerge (.status f))) ∧
      (bm = true → (leveldbMerge w faults dstRef srcRef (.bool bm)).2 = w) := by
  unfold leveldbMerge
  rw [hdst, hsrc]
  dsimp only
  generalize hit :
    (⟨w.nextId, slotOf srcRef, src.id, w.content src.dir, none, .ok⟩ : Iterator) = it
  have hentries : it.entries = (w.content src.dir).entries := by rw [← hit]; rfl
  have hloop : (∃ f, (mergeLoop faults dst bm (it.entries.length + 1) 0
      (it.seekToFirst (faults.moves 0)) w []).1.status = .fail f) ∧
      (bm = true → (mergeLoop faults dst bm (it.entries.length + 1) 0
        (it.seekToFirst (faults.moves 0)) w []).2.1 = w) := by
    cases hmove : faults.moves 0 with
    | some f =>
      have hnone : (it.seekToFirst (some f)).pos = none := rfl
      rw [mergeLoop_of_not_valid hnone]
      exact ⟨⟨f, rfl⟩, fun _ => rfl⟩
    | none =>
      -- a later positioning fails
      obtain ⟨m, hle, hfault⟩ : ∃ m, m ≤ (w.content src.dir).entries.length ∧
          faults.moves m ≠ none := by
        by_contra hno
        refine hwalk fun n hn => ?_
        by_contra hne
        exact hno ⟨n, hn, hne⟩
      have hpos : 0 < m := by
        rcases Nat.eq_zero_or_pos m with rfl | h
        · exact absurd hmove hfault
        · exact h
      rw [← hentries] at hle
      have hfirst : (it.seekToFirst none).entries.drop 0 = it.entries := rfl
      exact mergeLoop_of_fault it.entries hfirst rfl (Nat.lt_succ_self _) hpos hle hfault
  obtain ⟨⟨f, hst⟩, hw⟩ := hloop
  generalize mergeLoop faults dst bm (it.entries.length + 1) 0
    (it.seekToFirst (faults.moves 0)) w [] = r at hst hw ⊢
  obtain ⟨it', w', batch⟩ := r
  dsimp only at hst hw ⊢
  rw [hst]
  exact ⟨⟨f, rfl⟩, hw⟩

end

/-! ## What is stored -/

section

variable {w : World} {db : Db}

/-- The directory of the database gets the records if the write took effect. -/
lemma content_write (ops : List BatchOp) (o : WriteOutcome) (d : Dir) :
    (w.write db ops o).2.content d =
      if d = db.dir ∧ o.applied = true then applyBatch (w.content db.dir) ops
      else w.content d := by
  have hupd : ∀ w' : World, w'.disk = Function.update w.disk db.dir
      (some (applyBatch (w.content db.dir) ops)) →
      w'.content d = if d = db.dir then applyBatch (w.content db.dir) ops else w.content d := by
    intro w' hw'
    rw [World.content, hw']
    by_cases hd : d = db.dir
    · rw [hd, Function.update_self, if_pos rfl]
      rfl
    · rw [Function.update_of_ne hd, if_neg hd]
      rfl
  match o with
  | .ok => simpa [WriteOutcome.applied] using hupd _ rfl
  | .fail _ true => simpa [WriteOutcome.applied] using hupd _ rfl
  | .fail _ false => simp [World.write, WriteOutcome.applied]

/-- Key by key, in the directory of the database. -/
lemma get_content_write (ops : List BatchOp) (o : WriteOutcome) (key : Bytes) :
    ((w.write db ops o).2.content db.dir).get key =
      if o.applied = true then ops.foldl (BatchOp.on key) ((w.content db.dir).get key)
      else (w.content db.dir).get key := by
  rw [content_write]
  by_cases ho : o.applied = true
  · rw [if_pos ⟨rfl, ho⟩, if_pos ho, get_applyBatch]
  · rw [if_neg (fun h => ho h.2), if_neg ho]

lemma get_content_put (k v : Bytes) (o : WriteOutcome) (key : Bytes) :
    ((w.write db [.put k v] o).2.content db.dir).get key =
      if o.applied = true ∧ k = key then some v else (w.content db.dir).get key := by
  rw [get_content_write, ite_and]
  rfl

/-- Records on other keys do not matter. -/
lemma foldl_mergeOps_of_not_mem {es : List (Bytes × Bytes)} {key : Bytes}
    (h : ∀ e ∈ es, e.1 ≠ key) (old : Option Bytes) :
    (mergeOps es).foldl (BatchOp.on key) old = old := by
  induction es generalizing old with
  | nil => rfl
  | cons e es ih =>
    rw [mergeOps, List.map_cons, List.foldl_cons, BatchOp.on, if_neg (h e List.mem_cons_self)]
    exact ih (fun e he => h e (List.mem_cons_of_mem _ he)) old

lemma get_mergePuts_of_not_mem {faults : Faults} {es : List (Bytes × Bytes)} {key : Bytes}
    (h : ∀ e ∈ es, e.1 ≠ key) (n : ℕ) (w : World) :
    ((mergePuts faults db n es w).content db.dir).get key = (w.content db.dir).get key := by
  induction es generalizing n w with
  | nil => rfl
  | cons e es ih =>
    obtain ⟨k, v⟩ := e
    rw [mergePuts, ih (fun e he => h e (List.mem_cons_of_mem _ he)), get_content_put,
      if_neg (fun hk => h (k, v) List.mem_cons_self hk.2)]

/-- In key order no key is written twice, so its value depends on its own `DB::Put` only. -/
lemma get_mergePuts {faults : Faults} {es : List (Bytes × Bytes)} (hs : SortedMap.Ascending es)
    {i : ℕ} {k v : Bytes} (hi : es[i]? = some (k, v)) (n : ℕ) (w : World) :
    ((mergePuts faults db n es w).content db.dir).get k =
      if (faults.writes (n + i)).applied then some v else (w.content db.dir).get k := by
  induction es generalizing n w i with
  | nil => cases hi
  | cons e es ih =>
    obtain ⟨k', v'⟩ := e
    obtain ⟨hlt, hs'⟩ := List.pairwise_cons.mp hs
    cases i with
    | zero =>
      -- the later keys are greater, so they do not overwrite it
      cases hi
      have hne : ∀ e ∈ es, e.1 ≠ k := fun e he => ne_of_gt (hlt e he)
      rw [mergePuts, get_mergePuts_of_not_mem hne, get_content_put]
      simp
    | succ i =>
      have hmem : (k, v) ∈ es := List.mem_of_getElem? hi
      have hne : k' ≠ k := ne_of_lt (hlt (k, v) hmem)
      have hold : ((w.write db [.put k' v'] (faults.writes n)).2.content db.dir).get k =
          (w.content db.dir).get k := by
        rw [get_content_put]
        exact if_neg fun h => hne h.2
      have hidx : n + 1 + i = n + (i + 1) := by omega
      rw [mergePuts, ih hs' hi, hold, hidx]

lemma foldl_mergeOps {es : List (Bytes × Bytes)} (hs : SortedMap.Ascending es) {k v : Bytes}
    (hmem : (k, v) ∈ es) (old : Option Bytes) :
    (mergeOps es).foldl (BatchOp.on k) old = some v := by
  induction es generalizing old with
  | nil => cases hmem
  | cons e es ih =>
    obtain ⟨hlt, hs'⟩ := List.pairwise_cons.mp hs
    rw [mergeOps, List.map_cons, List.foldl_cons]
    rcases List.mem_cons.mp hmem with rfl | hmem
    · have hne : ∀ e ∈ es, e.1 ≠ k := fun e he => ne_of_gt (hlt e he)
      rw [BatchOp.on, if_pos rfl]
      exact foldl_mergeOps_of_not_mem hne _
    · exact ih hs' hmem _

end

end RnLeveldb
