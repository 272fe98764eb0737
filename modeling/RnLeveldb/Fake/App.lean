import RnLeveldb.Fake.Iterator

/-!
# `FakeLevelDB` and its iterators

The application holds one store and any number of iterators on it, and calls them in any
order. A call of the store adds objects to the heap; the only change of an object is the
overwriting `put`, which assigns the value of a pair that iterators may hold as well.
-/

namespace RnLeveldb

/-! ## The store with its iterators -/

structure FakeApp where
  db : FakeLevelDB
  /-- Every iterator that was made, in this order. -/
  iterators : List FakeLevelDBIterator
deriving DecidableEq

/-- A call of the application. -/
inductive AppCall where
  | db (x : FakeCall)
  | newIterator
  | iterator (i : ℕ) (m : IteratorCall Data)
deriving DecidableEq

/-- What a method of the store returns, as a value of the application. -/
def FakeValue.toApp : FakeValue → AppValue ℕ
  | .undefined => .undefined
  | .null => .null
  | .bool b => .bool b
  | .string s => .string s
  | .buffer b => .buffer b

/-- The outcome of a method of the store. -/
def FakeLevelDB.Result.toApp : FakeLevelDB.Result → AppResult ℕ
  | .error e => .error (.thrown e)
  | .ok v => .ok v.toApp

namespace FakeApp

def new (h : Heap) : FakeApp := { db := .new h, iterators := [] }

def newIterator (s : FakeApp) : AppResult ℕ × FakeApp :=
  match FakeLevelDBIterator.new s.db with
  | .error e => (.error (.thrown e), s)
  | .ok it => (.ok (.iterator s.iterators.length), { s with iterators := s.iterators ++ [it] })

def callIterator (s : FakeApp) (i : ℕ) (m : IteratorCall Data) : AppResult ℕ × FakeApp :=
  match s.iterators[i]? with
  | none => (.error (.thrown .typeError), s)
  | some it =>
    ((it.step s.db.heap m).1, { s with iterators := s.iterators.set i (it.step s.db.heap m).2 })

def step (s : FakeApp) : AppCall → AppResult ℕ × FakeApp
  | .db x => (FakeLevelDB.Result.toApp (s.db.step x).1, { s with db := (s.db.step x).2 })
  | .newIterator => s.newIterator
  | .iterator i m => s.callIterator i m

end FakeApp

/-! ## What a call does to the heap -/

namespace FakeLevelDB

variable {s : FakeLevelDB} {kv : List ℕ} {c : Content} {x : FakeCall}

/-- An open store shows a map. -/
def Wf (s : FakeLevelDB) : Prop := ∀ kv, s.kv = some kv → ∃ c, s.Shows kv c

lemma wf_new (h : Heap) : (new h).Wf := by
  intro kv hkv
  cases hkv
  exact ⟨_, shows_new h⟩

lemma Wf.step (hs : s.Wf) (x : FakeCall) : (s.step x).2.Wf := by
  by_cases hx : x = .close
  · intro kv hkv
    rw [hx] at hkv
    cases hkv
  cases hopen : s.kv with
  | none =>
    intro kv hkv
    rw [step_kv_of_closed x hopen] at hkv
    cases hkv
  | some kv =>
    obtain ⟨c, hc⟩ := hs kv hopen
    obtain ⟨kv', hstep⟩ := hc.step hx
    intro kv'' hkv''
    rw [hstep.array] at hkv''
    cases hkv''
    exact ⟨_, hstep⟩

/-- The call is a `put` of `v` on the key of the pair `q` of the store. -/
def Overwrites (s : FakeLevelDB) (x : FakeCall) (q : ℕ) (v : Data) : Prop :=
  ∃ k kv, x = .put k v ∧ s.heap.Has k ∧ s.heap.Has v ∧
    s.kv = some kv ∧ q ∈ kv ∧ s.heap.key q = s.heap.bytesOf k

/-- A key that is there is found. -/
lemma Shows.exists_found (h : s.Shows kv c) {q : ℕ} (hq : q ∈ kv) :
    ∃ q', kv[SortedMap.lowerBound c.entries (s.heap.key q)]? = some q' ∧
      s.heap.key q' = s.heap.key q := by
  have hmem : (s.heap.key q, (s.heap.entry q).2) ∈ c.entries := by
    rw [← h.view]
    exact List.mem_map_of_mem hq
  obtain ⟨hnone, -⟩ | ⟨q', hq', hkey, -⟩ := h.found (s.heap.key q)
  · rw [(c.get_eq_some_iff).mpr hmem] at hnone
    cases hnone
  · exact ⟨q', hq', hkey⟩

/-- `put` adds an entry, or assigns the value of the entry of its key. -/
lemma Shows.put_cases (h : s.Shows kv c) (k v : Data) :
    (s.heap.Grows (s.put k v).2.heap ∧ ∀ q ∈ kv, s.heap.key q ≠ s.heap.bytesOf k) ∨
      ∃ q ∈ kv, s.heap.key q = s.heap.bytesOf k ∧
        (s.put k v).2.heap = (s.heap.toArraybuf v).2.setValue q (s.heap.toArraybuf v).1 := by
  have hgrow := s.heap.newPair_grows k v
  obtain ⟨hlen, hput⟩ | ⟨q, hq, ⟨hgt, hput⟩ | ⟨heq, hput⟩⟩ := h.put_eq k v
  · rw [hput]
    refine Or.inl ⟨hgrow, fun q hq hkey => ?_⟩
    obtain ⟨q', hq', -⟩ := h.exists_found hq
    rw [hkey, hlen, List.getElem?_length] at hq'
    cases hq'
  · rw [hput]
    refine Or.inl ⟨hgrow, fun q₁ hq₁ hkey => ?_⟩
    obtain ⟨q', hq', hkey'⟩ := h.exists_found hq₁
    rw [hkey, hq] at hq'
    cases hq'
    rw [hkey', hkey] at hgt
    exact lt_irrefl _ hgt
  · rw [hput]
    exact Or.inr ⟨q, List.mem_of_getElem? hq, heq, rfl⟩

/-- No two pairs of the store have the same key. -/
lemma Shows.key_inj (h : s.Shows kv c) {q q' : ℕ} (hq : q ∈ kv) (hq' : q' ∈ kv)
    (hkey : s.heap.key q = s.heap.key q') : q = q' :=
  List.inj_on_of_nodup_map h.nodup_keys hq hq' hkey

lemma Overwrites.unique (h : s.Shows kv c) {q q' : ℕ} {v v' : Data} (hq : s.Overwrites x q v)
    (hq' : s.Overwrites x q' v') : q = q' ∧ v = v' := by
  obtain ⟨k, kv₁, rfl, -, -, hkv, hmem, hkey⟩ := hq
  obtain ⟨k', kv₂, heq, -, -, hkv', hmem', hkey'⟩ := hq'
  rw [h.array] at hkv hkv'
  cases hkv
  cases hkv'
  cases heq
  exact ⟨h.key_inj hmem hmem' (hkey.trans hkey'.symm), rfl⟩

lemma delete_heap (s : FakeLevelDB) (k : Data) : (s.delete k).2.heap = s.heap := by
  unfold delete
  split
  · rfl
  · rfl
  · split <;> rfl

/-- **What a call does to the heap.** It adds objects, or it overwrites one pair. -/
lemma Wf.heap_step (hs : s.Wf) (x : FakeCall) :
    (s.heap.Grows (s.step x).2.heap ∧ ∀ q v, ¬ s.Overwrites x q v) ∨
      ∃ q v, s.Overwrites x q v ∧
        (s.step x).2.heap = (s.heap.toArraybuf v).2.setValue q (s.heap.toArraybuf v).1 := by
  by_cases hput : ∃ k v, x = .put k v ∧ s.heap.Has k ∧ s.heap.Has v
  · obtain ⟨k, v, rfl, hk, hv⟩ := hput
    have hstep : s.step (.put k v) = s.put k v := if_pos ⟨hk, hv⟩
    rw [hstep]
    cases hopen : s.kv with
    | none =>
      obtain ⟨e, he⟩ := step_of_closed hopen (x := .put k v) trivial
      rw [← hstep, he]
      refine Or.inl ⟨Heap.Grows.refl _, ?_⟩
      rintro q v' ⟨k', kv, -, -, -, hkv, -⟩
      rw [hopen] at hkv
      cases hkv
    | some kv =>
      obtain ⟨c, hc⟩ := hs kv hopen
      obtain ⟨hgrow, hne⟩ | ⟨q, hq, hkey, hheap⟩ := hc.put_cases k v
      · refine Or.inl ⟨hgrow, ?_⟩
        rintro q v' ⟨k', kv', heq, -, -, hkv', hq, hkey⟩
        rw [hopen] at hkv'
        cases hkv'
        cases heq
        exact hne q hq hkey
      · exact Or.inr ⟨q, v, ⟨k, kv, rfl, hk, hv, hopen, hq, hkey⟩, hheap⟩
  · refine Or.inl ⟨?_, ?_⟩
    · cases x with
      | newBuffer b => exact s.heap.newBuffer_grows b
      | put k v =>
        have hnot : ¬ (s.heap.Has k ∧ s.heap.Has v) := fun hd => hput ⟨k, v, rfl, hd⟩
        rw [FakeLevelDB.step, if_neg hnot]
        exact Heap.Grows.refl _
      | delete k =>
        dsimp only [FakeLevelDB.step]
        split
        · rw [delete_heap]
          exact Heap.Grows.refl _
        · exact Heap.Grows.refl _
      | getStr k | getBuf k =>
        dsimp only [FakeLevelDB.step]
        split <;> exact Heap.Grows.refl _
      | close | closed => exact Heap.Grows.refl _
    · rintro q v ⟨k, kv, rfl, hk, hv, -⟩
      exact hput ⟨k, v, rfl, hk, hv⟩

lemma Overwrites.hasPair (hs : s.Wf) {q : ℕ} {v : Data} (hq : s.Overwrites x q v) :
    s.heap.HasPair q := by
  obtain ⟨k, kv, -, -, -, hkv, hmem, -⟩ := hq
  obtain ⟨c, hc⟩ := hs kv hkv
  exact hc.pairs q hmem

/-- Pairs stay. -/
lemma Wf.hasPair_step (hs : s.Wf) (x : FakeCall) {p : ℕ} (hp : s.heap.HasPair p) :
    (s.step x).2.heap.HasPair p := by
  obtain ⟨hgrow, -⟩ | ⟨q, v, hover, hheap⟩ := hs.heap_step x
  · exact hgrow.hasPair hp
  · rw [hheap]
    have hgrow := s.heap.toArraybuf_grows v
    have hq := hgrow.hasPair (hover.hasPair hs)
    obtain ⟨k, kv, -, -, hv, -⟩ := hover
    exact Heap.setValue_hasPair hq.pair (Heap.toArraybuf_lt hv) hq.key (hgrow.hasPair hp)

end FakeLevelDB

/-- An array shows the overwritten value wherever the pair stands in it. -/
lemma Heap.view_overwrite (h : Heap) {q : ℕ} (hq : h.HasPair q) (v : Data) {kv : List ℕ}
    (hkv : ∀ p ∈ kv, h.HasPair p) :
    ((h.toArraybuf v).2.setValue q (h.toArraybuf v).1).view kv =
      kv.map (Function.update h.entry q (h.key q, h.bytesOf v)) := by
  have hgrow := h.toArraybuf_grows v
  have hkey : (h.toArraybuf v).2.key q = h.key q := congrArg Prod.fst (hgrow.entry hq)
  rw [view, setValue_entry _ (hgrow.hasPair hq).pair, hkey, toArraybuf_bytes]
  refine List.map_congr_left fun p hp => ?_
  by_cases hpq : p = q
  · rw [hpq, Function.update_self, Function.update_self]
  · rw [Function.update_of_ne hpq, Function.update_of_ne hpq]
    exact hgrow.entry (hkv p hp)

/-- Nothing is seen of it in arrays without the pair, or if the value was the same before. -/
lemma Heap.view_overwrite_eq_iff (h : Heap) {q : ℕ} (hq : h.HasPair q) (v : Data) {kv : List ℕ}
    (hkv : ∀ p ∈ kv, h.HasPair p) :
    ((h.toArraybuf v).2.setValue q (h.toArraybuf v).1).view kv = h.view kv ↔
      (q ∈ kv → h.bytes (h.pair q).2 = h.bytesOf v) := by
  rw [h.view_overwrite hq v hkv, view, List.map_inj_left]
  constructor
  · intro hsame hmem
    have hentry := hsame q hmem
    rw [Function.update_self] at hentry
    exact (congrArg Prod.snd hentry).symm
  · intro hsame p hp
    by_cases hpq : p = q
    · subst hpq
      rw [Function.update_self, ← hsame hp]
      rfl
    · rw [Function.update_of_ne hpq]

/-! ## What a call does to the iterators -/

/-- The array of an iterator is never replaced. -/
lemma FakeLevelDBIterator.step_kv (h : Heap) (it : FakeLevelDBIterator) (m : IteratorCall Data) :
    (it.step h m).2.kv = it.kv := by
  cases m with
  | seek d =>
    dsimp only [step, seek]
    cases getIdx (some (it.kv.map h.key)) (h.bytesOf d) <;> rfl
  | _ => rfl

namespace FakeApp

variable {s : FakeApp} {x : AppCall}

/-- The store shows a map, and the pairs of the iterators exist. -/
structure Wf (s : FakeApp) : Prop where
  db : s.db.Wf
  iterators : ∀ it ∈ s.iterators, ∀ p ∈ it.kv, s.db.heap.HasPair p

/-- The call is a `put` of `v` on the key of the pair `q` of the store. -/
def Overwrites (s : FakeApp) (x : AppCall) (q : ℕ) (v : Data) : Prop :=
  ∃ y, x = .db y ∧ s.db.Overwrites y q v

lemma newIterator_db (s : FakeApp) : s.newIterator.2.db = s.db := by
  unfold newIterator
  split <;> rfl

lemma callIterator_db (s : FakeApp) (i : ℕ) (m : IteratorCall Data) :
    (s.callIterator i m).2.db = s.db := by
  unfold callIterator
  split <;> rfl

/-- Only calls of the store change it. -/
lemma of_db_step {P : FakeLevelDB → Prop} (hs : P s.db) (hstep : ∀ y, P (s.db.step y).2)
    (x : AppCall) : P (s.step x).2.db := by
  cases x with
  | db y => exact hstep y
  | newIterator =>
    rw [step, newIterator_db]
    exact hs
  | iterator i m =>
    rw [step, callIterator_db]
    exact hs

/-- The arrays of the iterators. -/
def arrays (s : FakeApp) : List (List ℕ) := s.iterators.map FakeLevelDBIterator.kv

/-- The array of the iterator a call makes. -/
def newArray (s : FakeApp) : AppCall → List (List ℕ)
  | .newIterator => s.db.kv.toList
  | .db _ | .iterator _ _ => []

/-- Arrays are added and never replaced. -/
lemma arrays_step (s : FakeApp) (x : AppCall) : (s.step x).2.arrays = s.arrays ++ s.newArray x := by
  cases x with
  | db y => exact (List.append_nil _).symm
  | newIterator =>
    dsimp only [step, newIterator, FakeLevelDBIterator.new, newArray]
    cases s.db.kv with
    | none => exact (List.append_nil _).symm
    | some kv => exact List.map_append
  | iterator j m =>
    refine Eq.trans ?_ (List.append_nil _).symm
    dsimp only [step, callIterator]
    cases hj : s.iterators[j]? with
    | none => rfl
    | some it =>
      obtain ⟨hlt, rfl⟩ := List.getElem?_eq_some_iff.mp hj
      dsimp only [arrays]
      rw [List.map_set, FakeLevelDBIterator.step_kv, ← List.map_set, List.set_getElem_self]

lemma mem_newArray {s : FakeApp} {x : AppCall} {kv : List ℕ} (h : kv ∈ s.newArray x) :
    s.db.kv = some kv := by
  cases x with
  | newIterator => exact Option.mem_toList.mp h
  | db y | iterator i m => cases h

/-- **What a call does to the heap.** It adds objects, or it overwrites one pair. -/
lemma Wf.heap_step (hs : s.Wf) (x : AppCall) :
    (s.db.heap.Grows (s.step x).2.db.heap ∧ ∀ q v, ¬ s.Overwrites x q v) ∨
      ∃ q v, s.Overwrites x q v ∧ (s.step x).2.db.heap =
        (s.db.heap.toArraybuf v).2.setValue q (s.db.heap.toArraybuf v).1 := by
  cases x with
  | db y =>
    obtain ⟨hgrow, hnot⟩ | ⟨q, v, hover, hheap⟩ := hs.db.heap_step y
    · refine Or.inl ⟨hgrow, ?_⟩
      rintro q v ⟨y', heq, hover⟩
      cases heq
      exact hnot q v hover
    · exact Or.inr ⟨q, v, ⟨y, rfl, hover⟩, hheap⟩
  | newIterator =>
    refine Or.inl ⟨?_, ?_⟩
    · rw [step, newIterator_db]
      exact Heap.Grows.refl _
    · rintro q v ⟨y, heq, -⟩
      cases heq
  | iterator i m =>
    refine Or.inl ⟨?_, ?_⟩
    · rw [step, callIterator_db]
      exact Heap.Grows.refl _
    · rintro q v ⟨y, heq, -⟩
      cases heq

lemma Wf.arrays (hs : s.Wf) {kv : List ℕ} (hkv : kv ∈ s.arrays) {p : ℕ} (hp : p ∈ kv) :
    s.db.heap.HasPair p := by
  obtain ⟨it, hit, rfl⟩ := List.mem_map.mp hkv
  exact hs.iterators it hit p hp

lemma wf_new (h : Heap) : (new h).Wf where
  db := FakeLevelDB.wf_new h
  iterators := by
    intro it hit
    cases hit

/-- Pairs stay. -/
lemma Wf.hasPair_step (hs : s.Wf) (x : AppCall) {p : ℕ} (hp : s.db.heap.HasPair p) :
    (s.step x).2.db.heap.HasPair p :=
  of_db_step (P := fun db => db.heap.HasPair p) hp (fun y => hs.db.hasPair_step y hp) x

lemma Wf.step (hs : s.Wf) (x : AppCall) : (s.step x).2.Wf where
  db := of_db_step hs.db hs.db.step x
  iterators := by
    intro it hit p hp
    refine hs.hasPair_step x ?_
    have hmem : it.kv ∈ (s.step x).2.arrays := List.mem_map_of_mem hit
    rw [arrays_step, List.mem_append] at hmem
    rcases hmem with hmem | hmem
    · exact hs.arrays hmem hp
    · obtain ⟨c, hc⟩ := hs.db it.kv (mem_newArray hmem)
      exact hc.pairs p hp

lemma wf_run (h : Heap) (xs : List AppCall) : (Machine.run step (new h) xs).Wf :=
  Machine.inv_run (I := Wf) (fun _ x hs => hs.step x) (wf_new h) xs

/-- A call on an iterator is a step of this one. -/
lemma iterators_step_self {i : ℕ} {it : FakeLevelDBIterator} (hit : s.iterators[i]? = some it)
    (m : IteratorCall Data) :
    (s.step (.iterator i m)).2.iterators[i]? = some (it.step s.db.heap m).2 := by
  dsimp only [step, callIterator]
  rw [hit]
  exact List.getElem?_set_self (List.getElem?_eq_some_iff.mp hit).1

/-- Every other call leaves it alone. -/
lemma iterators_step_of_ne {i : ℕ} {it : FakeLevelDBIterator} (hit : s.iterators[i]? = some it)
    (hx : ∀ m, x ≠ .iterator i m) : (s.step x).2.iterators[i]? = some it := by
  cases x with
  | db y => exact hit
  | newIterator =>
    dsimp only [step, newIterator]
    split
    · exact hit
    · dsimp only
      rw [List.getElem?_append_left (List.getElem?_eq_some_iff.mp hit).1, hit]
  | iterator j m =>
    have hne : j ≠ i := by
      rintro rfl
      exact hx m rfl
    dsimp only [step, callIterator]
    split
    · exact hit
    · dsimp only
      rw [List.getElem?_set_ne hne, hit]

end FakeApp

end RnLeveldb
