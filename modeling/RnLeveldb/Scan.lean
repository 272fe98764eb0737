import RnLeveldb.UseAfterClose

/-!
# Scans

The loop `for (it.seek…; it.valid(); it.next())` of an application over a `LevelDBIterator`.
An iterator reports a failing read through `status()` only, and none of the host functions
for iterators looks at it: to the loop the end of the data and a failing read are the same.
A scan is therefore complete exactly when no positioning before the end fails.
-/

namespace RnLeveldb

/-- How the loop starts. -/
inductive ScanStart where
  | first
  | seek (target : JsValue)

namespace ScanStart

def method : ScanStart → IteratorMethod
  | .first => .seekToFirst
  | .seek target => .seek target

/-- The target, if there is one, is a string or a buffer. -/
def WellTyped : ScanStart → Prop
  | .first => True
  | .seek target => target.IsData

/-- The entry is at or past the start. -/
def covers : ScanStart → Bytes × Bytes → Bool
  | .first, _ => true
  | .seek target, e => (valueToString target).all fun t => t ≤ e.1

/-- The position of the first such entry. -/
def index (start : ScanStart) (es : List (Bytes × Bytes)) : ℕ :=
  match start with
  | .first => 0
  | .seek target => ((valueToString target).map (SortedMap.lowerBound es)).getD 0

/-- The entries at or past the start, in the order of the source. -/
def rest (start : ScanStart) (es : List (Bytes × Bytes)) : List (Bytes × Bytes) :=
  es.filter start.covers

lemma drop_index (start : ScanStart) {es : List (Bytes × Bytes)} (hs : SortedMap.Ascending es) :
    es.drop (start.index es) = start.rest es := by
  cases start with
  | first => exact (List.filter_eq_self.mpr fun _ _ => rfl).symm
  | seek target =>
    cases ht : valueToString target with
    | none =>
      rw [index, ht, rest, List.filter_eq_self.mpr fun e _ => by rw [covers, ht]; rfl]
      rfl
    | some t =>
      have hcovers : (seek target).covers = fun e => decide (t ≤ e.1) := by
        funext e
        rw [covers, ht]
        rfl
      rw [index, ht, rest, hcovers]
      exact SortedMap.drop_lowerBound_eq_filter hs t

lemma ascending_rest (start : ScanStart) {es : List (Bytes × Bytes)}
    (hs : SortedMap.Ascending es) : SortedMap.Ascending (start.rest es) :=
  hs.sublist List.filter_sublist

end ScanStart

namespace Process

variable {s : Process}

/-! ## The loop -/

/-- A call of the loop; its end, if it does not return, ends the loop. -/
def callRet (s : Process) (x : Call × Faults) : Except (Option Outcome) (JsValue × Process) :=
  match s.step x with
  | (.ret v _, s') => .ok (v, s')
  | (out, _) => .error (some out)

/-- The loop after its start, from its `n`-th iteration on. The entries visited so far are
those its body has read; the error `none` stands for too little fuel. -/
def scanLoop (faults : ℕ → Faults) (i : ℕ) : ℕ → ℕ → Process → List (JsValue × JsValue) →
    Except (Option Outcome) (List (JsValue × JsValue))
  | 0, _, _, _ => .error none
  | fuel + 1, n, s, visited => do
    let (valid, s) ← s.callRet (.iterator i .valid, {})
    if valid = .bool true then
      let (key, s) ← s.callRet (.iterator i .keyBuf, {})
      let (value, s) ← s.callRet (.iterator i .valueBuf, {})
      let (_, s) ← s.callRet (.iterator i .next, faults (n + 1))
      scanLoop faults i fuel (n + 1) s (visited ++ [(key, value)])
    else return visited

/-- The loop over iterator wrapper `i`; `faults n` is what LevelDB reports during the `n`-th
call that positions the iterator. -/
def scan (s : Process) (faults : ℕ → Faults) (i : ℕ) (start : ScanStart) (fuel : ℕ) :
    Except (Option Outcome) (List (JsValue × JsValue)) := do
  let (_, s) ← s.callRet (.iterator i start.method, faults 0)
  scanLoop faults i fuel 0 s []

/-- Entries as the loop's body reads them. -/
def buffers (es : List (Bytes × Bytes)) : List (JsValue × JsValue) :=
  es.map fun e => (.arrayBuffer e.1, .arrayBuffer e.2)

lemma buffers_inj {es fs : List (Bytes × Bytes)} (h : buffers es = buffers fs) : es = fs := by
  refine List.map_injective_iff.mpr ?_ h
  rintro ⟨k, v⟩ ⟨k', v'⟩ he
  cases he
  rfl

/-- The entries visited are all of them exactly when their number is right. -/
lemma buffers_take_eq_iff {es : List (Bytes × Bytes)} {m : ℕ} (hm : m ≤ es.length) :
    buffers (es.take m) = buffers es ↔ m = es.length := by
  constructor
  · intro heq
    have hlen := congrArg List.length (buffers_inj heq)
    rw [List.length_take, Nat.min_eq_left hm] at hlen
    exact hlen
  · intro heq
    rw [heq, List.take_length]

/-! ## Single calls -/

/-- Wrapper `i` refers to slot `k`, which holds `it`, and the database of `it` is open. -/
structure OnIterator (s : Process) (i k : ℕ) (it : Iterator) : Prop where
  wrapper : ∃ h, s.iterators[i]? = some h ∧ refIdx h.ref = some k
  slot : s.native.iterators.get k = some it
  db : s.native.hasDb it = true

variable {i k : ℕ} {it : Iterator}

/-- The process with its iterator moved. -/
def withIteratorAt (s : Process) (k : ℕ) (it : Iterator) : Process :=
  { s with native := { s.native with iterators := s.native.iterators.update k it } }

lemma OnIterator.move (h : OnIterator s i k it) (p : ℕ) (f : Option Failure) :
    OnIterator (s.withIteratorAt k (it.place p f)) i k (it.place p f) where
  wrapper := h.wrapper
  slot := by
    rw [withIteratorAt, SlotTable.get_update (SlotTable.lt_size_of_get h.slot), if_pos rfl]
  db := by
    have hdb := h.db
    unfold World.hasDb at hdb ⊢
    rw [Iterator.place_slot, Iterator.place_dbId]
    exact hdb

lemma OnIterator.valueToIterator (h : OnIterator s i k it) {w : LevelDBIterator}
    (hi : s.iterators[i]? = some w) : valueToIterator s.native w.ref = some it := by
  obtain ⟨w', hi', hk⟩ := h.wrapper
  rw [hi] at hi'
  cases hi'
  rw [RnLeveldb.valueToIterator, toOption_valueToSlot, hk]
  exact h.slot

lemma OnIterator.callRet_valid (h : OnIterator s i k it) (f : Faults) :
    s.callRet (.iterator i .valid, f) = .ok (.bool it.valid, s) := by
  obtain ⟨w, hi, hk⟩ := h.wrapper
  unfold callRet
  dsimp only [step]
  rw [on_some hi]
  dsimp only [iteratorCall, leveldbIteratorValid, withIterator]
  rw [h.valueToIterator hi]
  rfl

lemma OnIterator.callRet_keyBuf (h : OnIterator s i k it) {e : Bytes × Bytes}
    (he : it.entry = some e) (f : Faults) :
    s.callRet (.iterator i .keyBuf, f) = .ok (.arrayBuffer e.1, s) := by
  obtain ⟨w, hi, hk⟩ := h.wrapper
  unfold callRet
  dsimp only [step]
  rw [on_some hi]
  dsimp only [iteratorCall, leveldbIteratorKeyBuf, withIterator, forward]
  rw [h.valueToIterator hi]
  dsimp only [readEntry]
  rw [if_pos h.db, he]

lemma OnIterator.callRet_valueBuf (h : OnIterator s i k it) {e : Bytes × Bytes}
    (he : it.entry = some e) (f : Faults) :
    s.callRet (.iterator i .valueBuf, f) = .ok (.arrayBuffer e.2, s) := by
  obtain ⟨w, hi, hk⟩ := h.wrapper
  unfold callRet
  dsimp only [step]
  rw [on_some hi]
  dsimp only [iteratorCall, leveldbIteratorValueBuf, withIterator, forward]
  rw [h.valueToIterator hi]
  dsimp only [readEntry]
  rw [if_pos h.db, he]

/-- `next()` on a valid iterator returns, whatever its status is afterwards. -/
lemma OnIterator.callRet_next (h : OnIterator s i k it) {p : ℕ} (hp : it.pos = some p)
    (f : Faults) :
    s.callRet (.iterator i .next, f) =
      .ok (.undefined, s.withIteratorAt k (it.place (p + 1) (f.moves 0))) := by
  obtain ⟨w, hi, hk⟩ := h.wrapper
  unfold callRet
  dsimp only [step]
  rw [on_some hi]
  dsimp only [iteratorCall, leveldbIteratorNext, withIterator, forwardAs]
  rw [h.valueToIterator hi]
  dsimp only [moveIterator]
  rw [if_pos h.db, Iterator.next, hp]
  dsimp only [Option.map_some]
  rw [slotOf_of_refIdx hk]
  rfl

/-- So does a seek with a target of the right type. -/
lemma OnIterator.callRet_start (h : OnIterator s i k it) {start : ScanStart}
    (hty : start.WellTyped) (f : Faults) :
    s.callRet (.iterator i start.method, f) =
      .ok (.object, s.withIteratorAt k (it.place (start.index it.entries) (f.moves 0))) := by
  obtain ⟨w, hi, hk⟩ := h.wrapper
  unfold callRet
  dsimp only [step]
  rw [on_some hi]
  cases start with
  | first =>
    dsimp only [ScanStart.method, iteratorCall, leveldbIteratorSeekToFirst, withIterator,
      forwardAs]
    rw [h.valueToIterator hi]
    dsimp only [moveIterator]
    rw [if_pos h.db, slotOf_of_refIdx hk]
    rfl
  | seek target =>
    obtain ⟨t, ht⟩ := Option.isSome_iff_exists.mp (valueToString_isSome.mpr hty)
    dsimp only [ScanStart.method, iteratorCall, leveldbIteratorSeek, withIterator, forwardAs]
    rw [h.valueToIterator hi]
    dsimp only
    rw [ht]
    dsimp only [moveIterator]
    rw [if_pos h.db, slotOf_of_refIdx hk]
    dsimp only [ScanStart.index]
    rw [ht]
    rfl

/-! ## Completeness -/

variable {faults : ℕ → Faults}

/-- The loop ends normally at an iterator that is not valid. -/
lemma scanLoop_of_not_valid (h : OnIterator s i k it) (hpos : it.pos = none) {fuel : ℕ}
    (hfuel : 0 < fuel) (n : ℕ) (visited : List (JsValue × JsValue)) :
    scanLoop faults i fuel n s visited = .ok visited := by
  obtain ⟨fuel, rfl⟩ := Nat.exists_eq_succ_of_ne_zero (show fuel ≠ 0 by omega)
  rw [scanLoop, h.callRet_valid]
  have hv : it.valid = false := by rw [Iterator.valid, hpos]; rfl
  rw [hv]
  rfl

/-- One iteration. -/
lemma scanLoop_succ (h : OnIterator s i k it) {p : ℕ} {e : Bytes × Bytes}
    (hpos : it.pos = some p) (he : it.entries[p]? = some e) (fuel n : ℕ)
    (visited : List (JsValue × JsValue)) :
    scanLoop faults i (fuel + 1) n s visited =
      scanLoop faults i fuel (n + 1)
        (s.withIteratorAt k (it.place (p + 1) ((faults (n + 1)).moves 0)))
        (visited ++ [(.arrayBuffer e.1, .arrayBuffer e.2)]) := by
  have hentry : it.entry = some e := by rw [Iterator.entry, hpos, Option.bind_some, he]
  have hv : it.valid = true := by rw [Iterator.valid, hpos]; rfl
  rw [scanLoop, h.callRet_valid, hv]
  show (do
    let (key, s) ← s.callRet (.iterator i .keyBuf, {})
    let (value, s) ← s.callRet (.iterator i .valueBuf, {})
    let (_, s) ← s.callRet (.iterator i .next, faults (n + 1))
    scanLoop faults i fuel (n + 1) s (visited ++ [(key, value)])) = _
  rw [h.callRet_keyBuf hentry]
  show (do
    let (value, s) ← s.callRet (.iterator i .valueBuf, {})
    let (_, s) ← s.callRet (.iterator i .next, faults (n + 1))
    scanLoop faults i fuel (n + 1) s (visited ++ [(JsValue.arrayBuffer e.1, value)])) = _
  rw [h.callRet_valueBuf hentry]
  show (do
    let (_, s) ← s.callRet (.iterator i .next, faults (n + 1))
    scanLoop faults i fuel (n + 1) s
      (visited ++ [(JsValue.arrayBuffer e.1, JsValue.arrayBuffer e.2)])) = _
  rw [h.callRet_next hpos]
  rfl

/-- After the `n`-th positioning, at entry `p`, the loop visits a prefix of the remaining
entries, all of them exactly when neither this positioning nor a move between two of them
fails. -/
lemma scanLoop_spec (rest : List (Bytes × Bytes)) {p fuel n : ℕ}
    {visited : List (JsValue × JsValue)} (h : OnIterator s i k it)
    (hrest : it.entries.drop p = rest) (hfuel : rest.length < fuel) :
    ∃ m ≤ rest.length,
      scanLoop faults i fuel n (s.withIteratorAt k (it.place p ((faults n).moves 0))) visited =
        .ok (visited ++ buffers (rest.take m)) ∧
      (m = rest.length ↔ ∀ j < rest.length, (faults (n + j)).moves 0 = none) := by
  -- on the entries from the iterator on
  induction rest generalizing p fuel n visited s it with
  | nil =>
    have hge : it.entries.length ≤ p := List.drop_eq_nil_iff.mp hrest
    have hnone : (it.place p ((faults n).moves 0)).pos = none := by
      cases (faults n).moves 0 with
      | some f => rfl
      | none => exact if_neg (by omega)
    refine ⟨0, le_rfl, ?_, ?_⟩
    · rw [scanLoop_of_not_valid (h.move p _) hnone (by omega)]
      simp [buffers]
    · simp
  | cons e rest ih =>
    obtain ⟨hlt, hget, hnext⟩ := Iterator.of_drop_eq_cons hrest
    rw [List.length_cons] at hfuel
    have hmoved := h.move p ((faults n).moves 0)
    cases hfault : (faults n).moves 0 with
    | some f =>
      -- `valid()` is false after a failing move, as it is at the end
      rw [hfault] at hmoved
      refine ⟨0, Nat.zero_le _, ?_, ?_⟩
      · rw [scanLoop_of_not_valid hmoved rfl (by omega)]
        simp [buffers]
      · rw [List.length_cons]
        refine iff_of_false (by omega) fun hall => ?_
        have hzero := hall 0 (by omega)
        rw [Nat.add_zero, hfault] at hzero
        cases hzero
    | none =>
      rw [hfault] at hmoved
      obtain ⟨fuel, rfl⟩ := Nat.exists_eq_succ_of_ne_zero (show fuel ≠ 0 by omega)
      have hpos : (it.place p none).pos = some p := if_pos hlt
      obtain ⟨m, hm, hscan, hiff⟩ := ih (n := n + 1) (p := p + 1) hmoved hnext
        (Nat.lt_of_succ_lt_succ hfuel)
      refine ⟨m + 1, by simpa using hm, ?_, ?_⟩
      · rw [Nat.succ_eq_add_one, scanLoop_succ hmoved hpos hget, hscan]
        simp [buffers]
      · rw [List.length_cons, Nat.add_right_cancel_iff, hiff]
        constructor
        · intro hall j hj
          cases j with
          | zero => exact hfault
          | succ j =>
            have hidx : n + (j + 1) = n + 1 + j := by omega
            rw [hidx]
            exact hall j (by omega)
        · intro hall j hj
          have hidx : n + 1 + j = n + (j + 1) := by omega
          rw [hidx]
          exact hall (j + 1) (by omega)

/-- **A scan is complete exactly when no positioning before the end fails.** Over every open
iterator the loop ends without any call throwing, having visited the first `m` of the entries
at or past the start, which are in ascending order; these are all of them exactly when none
of the calls up to the one that reaches the last of them fails. -/
theorem scan_complete_iff (s : Process) (faults : ℕ → Faults) (i k : ℕ) (it : Iterator)
    (start : ScanStart) (fuel : ℕ) (h : OnIterator s i k it) (hty : start.WellTyped)
    (hfuel : it.entries.length < fuel) :
    SortedMap.Ascending (start.rest it.entries) ∧
    ∃ m, s.scan faults i start fuel = .ok (buffers ((start.rest it.entries).take m)) ∧
      (buffers ((start.rest it.entries).take m) = buffers (start.rest it.entries) ↔
        ∀ n < (start.rest it.entries).length, (faults n).moves 0 = none) := by
  have hs : SortedMap.Ascending it.entries := it.snapshot.ascending
  refine ⟨start.ascending_rest hs, ?_⟩
  have hlen : (start.rest it.entries).length < fuel :=
    lt_of_le_of_lt (List.filter_sublist.length_le) hfuel
  have hscan : s.scan faults i start fuel = scanLoop faults i fuel 0
      (s.withIteratorAt k (it.place (start.index it.entries) ((faults 0).moves 0))) [] := by
    rw [scan, h.callRet_start hty]
    rfl
  obtain ⟨m, hm, hloop, hiff⟩ :=
    scanLoop_spec (start.rest it.entries) (n := 0) h (start.drop_index hs) hlen
  refine ⟨m, hscan.trans hloop, ?_⟩
  rw [buffers_take_eq_iff hm, hiff]
  simp only [Nat.zero_add]

/-- A database whose entries were put in the order `c`, `a`, `b`, and an iterator on it. -/
def threeEntries : Process :=
  afterCalls [.newLevelDB [] true false, .put 0 (.string [0x63]) (.string [0x33]),
    .put 0 (.string [0x61]) (.string [0x31]), .put 0 (.string [0x62]) (.string [0x32]),
    .newIterator 0]

/-- That iterator. -/
def threeEntriesIterator : Iterator :=
  { id := 1
    slot := 0
    dbId := 0
    snapshot := ((SortedMap.empty.insert [0x63] [0x33]).insert [0x61] [0x31]).insert [0x62] [0x32] }

lemma onIterator_threeEntries : OnIterator threeEntries 0 0 threeEntriesIterator where
  wrapper := ⟨_, rfl, rfl⟩
  slot := rfl
  db := rfl

/-- From `aa` on, when nothing fails. -/
theorem scan_complete_threeEntries :
    threeEntries.scan (fun _ => {}) 0 (.seek (.string [0x61, 0x61])) 4 =
      .ok (buffers [([0x62], [0x32]), ([0x63], [0x33])]) := by
  obtain ⟨m, hscan, hiff⟩ := (scan_complete_iff threeEntries (fun _ => {}) 0 0
    threeEntriesIterator (.seek (.string [0x61, 0x61])) 4 onIterator_threeEntries trivial
    (by decide)).2
  rw [hscan, hiff.mpr fun _ _ => rfl]
  exact congrArg (fun es => Except.ok (buffers es)) (by decide)

/-- When the first `next()` fails, the loop ends normally after one entry. -/
theorem scan_truncated :
    OnIterator threeEntries 0 0 threeEntriesIterator ∧
    ([0x62], [0x32]) ∈ ScanStart.first.rest threeEntriesIterator.entries ∧
    threeEntries.scan
        (fun n => if n = 1 then { moves := fun _ => some { code := .ioError, msg := [] } } else {})
        0 .first 4
      = .ok (buffers [([0x61], [0x31])]) :=
  ⟨onIterator_threeEntries, by decide, rfl⟩

end Process

end RnLeveldb
