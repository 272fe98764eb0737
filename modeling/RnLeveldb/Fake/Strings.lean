import RnLeveldb.Fake.App
import RnLeveldb.Utf8

/-!
# Strings in the fake store

Strings are stored as their UTF-8 bytes and decoded when they are read. `TextDecoder`, with the
options it has here, drops a byte order mark at the beginning of what it decodes. Every other
well-formed string comes back as it was stored.
-/

namespace RnLeveldb

/-- `toString` of `fake.ts`. -/
def Heap.toString (h : Heap) : Data → JsString
  | .string s => s
  | .buffer b => textDecode (h.bytes b)

/-! ## The byte order mark -/

lemma head?_encodeUtf16 {c : ℕ} (hc : IsScalar c) (s : JsString) :
    (encodeUtf16 c ++ s).head? = some 0xFEFF ↔ c = 0xFEFF := by
  have hmark : (0xFEFF : UInt16).toNat = 0xFEFF := rfl
  unfold encodeUtf16
  unfold IsScalar at hc
  by_cases hlt : c < 0x10000
  · rw [if_pos hlt, List.singleton_append, List.head?_cons, Option.some_inj, ← UInt16.toNat_inj,
      toNat_ofNat_unit hlt, hmark]
  · -- a pair begins with a high surrogate
    rw [if_neg hlt, List.cons_append, List.head?_cons, Option.some_inj, ← UInt16.toNat_inj,
      toNat_ofNat_unit (by omega), hmark]
    omega

variable {s t : JsString}

/-- Exactly a string that begins with a byte order mark comes back changed. -/
lemma WellFormed.textDecode_utf8 (hs : WellFormed s) :
    textDecode (utf8 s) = s ↔ s.head? ≠ some 0xFEFF := by
  unfold textDecode
  rw [hs.decodeScalars_utf8]
  obtain ⟨cs, hcs, rfl⟩ := hs
  rw [scalars_flatMap hcs]
  dsimp only
  cases cs with
  | nil => exact iff_of_true rfl nofun
  | cons c cs =>
    have hmark := head?_encodeUtf16 (hcs c List.mem_cons_self) (cs.flatMap encodeUtf16)
    rw [List.flatMap_cons, Ne, hmark, List.head?_cons]
    by_cases hc : c = 0xFEFF
    · subst hc
      rw [if_pos rfl, List.tail_cons]
      refine iff_of_false (fun heq => ?_) (fun hne => hne rfl)
      have hlen := congrArg List.length heq
      rw [List.length_append] at hlen
      have hone : (encodeUtf16 0xFEFF).length = 1 := rfl
      omega
    · rw [if_neg (mt Option.some.inj hc), List.flatMap_cons]
      exact iff_of_true rfl hc

/-! ## The store -/

namespace FakeLevelDB

variable {db : FakeLevelDB} {kv : List ℕ} {c : Content}

/-- A new iterator, sent to a key. -/
def iteratorAt (db : FakeLevelDB) (k : Data) : Except JsError FakeLevelDBIterator :=
  (FakeLevelDBIterator.new db).bind fun it => it.seek db.heap k

/-- It stands on the entry of the key. -/
lemma Shows.iteratorAt (h : db.Shows kv c) {k : Data} {v : Bytes}
    (hget : c.get (db.heap.bytesOf k) = some v) :
    ∃ it q, db.iteratorAt k = .ok it ∧ it.pos.get it.kv = some q ∧
      db.heap.entry q = (db.heap.bytesOf k, v) := by
  obtain ⟨hnone, -⟩ | ⟨q, hq, hkey, hvalue⟩ := h.found (db.heap.bytesOf k)
  · rw [hget] at hnone
    cases hnone
  have hnew : FakeLevelDBIterator.new db = .ok ⟨kv, .undefined⟩ := by
    rw [FakeLevelDBIterator.new, h.array]
  have hshows : FakeLevelDBIterator.Shows db.heap ⟨kv, .undefined⟩ c := h.view
  refine ⟨⟨kv, .index (SortedMap.lowerBound c.entries (db.heap.bytesOf k))⟩, q, ?_, hq, ?_⟩
  · rw [FakeLevelDB.iteratorAt, hnew]
    exact hshows.seek k
  · rw [hget] at hvalue
    exact Prod.ext hkey (Option.some.inj hvalue).symm

/-- What the store does with the string `s`, as a value and as a key. -/
structure StringSurvives (db : FakeLevelDB) (s : JsString) : Prop where
  roundTrip : (db.heap.toArraybuf (.string s)).2.toString
    (.buffer (db.heap.toArraybuf (.string s)).1) = s
  /-- `put(k, s)`, then `getStr(k)`. -/
  getStr : ∀ k, db.heap.Has k →
    ((db.step (.put k (.string s))).2.step (.getStr k)).1 = .ok (.string s)
  /-- `put(k, s)`, then a new iterator is sent to `k`. -/
  valueStr : ∀ k, db.heap.Has k → ∃ it, (db.step (.put k (.string s))).2.iteratorAt k = .ok it ∧
    it.valueStr (db.step (.put k (.string s))).2.heap = .ok (.string s)
  /-- `put(s, v)`, then a new iterator is sent to `s`. -/
  keyStr : ∀ v, db.heap.Has v →
    ∃ it, (db.step (.put (.string s) v)).2.iteratorAt (.string s) = .ok it ∧
      it.keyStr (db.step (.put (.string s) v)).2.heap = .ok (.string s)
  /-- Any iterator that stands on an entry with the bytes of `s`. -/
  iterators : ∀ (h : Heap) (it : FakeLevelDBIterator) (p : ℕ), it.pos.get it.kv = some p →
    ((h.entry p).1 = utf8 s → it.keyStr h = .ok (.string s)) ∧
      ((h.entry p).2 = utf8 s → it.valueStr h = .ok (.string s))
  /-- A `put` under another string leaves the value of `s` alone. -/
  distinct : ∀ t, WellFormed t → t ≠ s → ∀ v, db.heap.Has v →
    ((db.step (.put (.string t) v)).2.step (.getStr (.string s))).1 =
      (db.step (.getStr (.string s))).1

lemma Shows.step_getStr (h : db.Shows kv c) {k : Data} (hk : db.heap.Has k) :
    (db.step (.getStr k)).1 =
      .ok ((c.get (db.heap.bytesOf k)).elim .null fun v => .string (textDecode v)) := by
  have hstep : db.step (.getStr k) = (db.getStr k, db) := if_pos hk
  rw [hstep, h.getStr]

/-- The arguments of a call are what they were after a `put`. -/
lemma Shows.put_arguments (h : db.Shows kv c) (k v : Data) {d : Data} (hd : db.heap.Has d) :
    (db.put k v).2.heap.Has d ∧ (db.put k v).2.heap.bytesOf d = db.heap.bytesOf d := by
  obtain ⟨hgrow, -⟩ | ⟨q, -, -, hheap⟩ := h.put_cases k v
  · exact ⟨hgrow.has hd, hgrow.bytesOf hd⟩
  · have hgrow := db.heap.toArraybuf_grows v
    rw [hheap]
    -- assigning a pair concerns no buffer
    cases d with
    | string s => exact ⟨trivial, rfl⟩
    | buffer b => exact ⟨hgrow.has hd, hgrow.bytesOf hd⟩

/-- After a `put` the store shows the map with the new entry. -/
lemma Shows.step_put (h : db.Shows kv c) {k v : Data} (hk : db.heap.Has k)
    (hv : db.heap.Has v) :
    ∃ kv', (db.step (.put k v)).2.Shows kv' (c.insert (db.heap.bytesOf k) (db.heap.bytesOf v)) ∧
      ∀ d, db.heap.Has d → (db.step (.put k v)).2.heap.Has d ∧
        (db.step (.put k v)).2.heap.bytesOf d = db.heap.bytesOf d := by
  have hstep : db.step (.put k v) = db.put k v := if_pos ⟨hk, hv⟩
  rw [hstep]
  obtain ⟨-, kv', hput⟩ := h.put hk hv
  exact ⟨kv', hput, fun d hd => h.put_arguments k v hd⟩

lemma keyStr_of_entry {h : Heap} {it : FakeLevelDBIterator} {p : ℕ}
    (hp : it.pos.get it.kv = some p) :
    it.keyStr h = .ok (.string (textDecode (h.entry p).1)) := by
  rw [FakeLevelDBIterator.keyStr, FakeLevelDBIterator.ofEntry, hp]
  rfl

lemma valueStr_of_entry {h : Heap} {it : FakeLevelDBIterator} {p : ℕ}
    (hp : it.pos.get it.kv = some p) :
    it.valueStr h = .ok (.string (textDecode (h.entry p).2)) := by
  rw [FakeLevelDBIterator.valueStr, FakeLevelDBIterator.ofEntry, hp]
  rfl

/-- A string that is decoded as it was survives. -/
lemma Shows.stringSurvives (h : db.Shows kv c) (hs : WellFormed s)
    (hdecode : textDecode (utf8 s) = s) : db.StringSurvives s where
  roundTrip := by
    show textDecode ((db.heap.toArraybuf (.string s)).2.bytes _) = s
    rw [Heap.toArraybuf_bytes]
    exact hdecode
  getStr := by
    intro k hk
    obtain ⟨kv', hput, hsame⟩ := h.step_put hk (v := .string s) trivial
    obtain ⟨hhas, hbytes⟩ := hsame k hk
    rw [hput.step_getStr hhas, hbytes, SortedMap.get_insert, if_pos rfl]
    exact congrArg (fun s => Except.ok (FakeValue.string s)) hdecode
  valueStr := by
    intro k hk
    obtain ⟨kv', hput, hsame⟩ := h.step_put hk (v := .string s) trivial
    have hget : (c.insert (db.heap.bytesOf k) (utf8 s)).get
        ((db.step (.put k (.string s))).2.heap.bytesOf k) = some (utf8 s) := by
      rw [(hsame k hk).2, SortedMap.get_insert, if_pos rfl]
    obtain ⟨it, q, hit, hq, hentry⟩ := hput.iteratorAt hget
    refine ⟨it, hit, ?_⟩
    rw [valueStr_of_entry hq, hentry, hdecode]
  keyStr := by
    intro v hv
    obtain ⟨kv', hput, hsame⟩ := h.step_put (k := .string s) trivial hv
    have hget : (c.insert (utf8 s) (db.heap.bytesOf v)).get (utf8 s)
        = some (db.heap.bytesOf v) := by
      rw [SortedMap.get_insert, if_pos rfl]
    obtain ⟨it, q, hit, hq, hentry⟩ := hput.iteratorAt (k := .string s) hget
    refine ⟨it, hit, ?_⟩
    rw [keyStr_of_entry hq, hentry]
    exact congrArg (fun s => Except.ok (AppValue.string s)) hdecode
  iterators := by
    intro heap it p hp
    refine ⟨fun hkey => ?_, fun hvalue => ?_⟩
    · rw [keyStr_of_entry hp, hkey, hdecode]
    · rw [valueStr_of_entry hp, hvalue, hdecode]
  distinct := by
    intro t ht hne v hv
    obtain ⟨kv', hput, -⟩ := h.step_put (k := .string t) trivial hv
    have hbytes : utf8 t ≠ utf8 s := fun heq => hne (ht.utf8_inj hs heq)
    have hget : (c.insert (utf8 t) (db.heap.bytesOf v)).get (utf8 s) = c.get (utf8 s) := by
      rw [SortedMap.get_insert, if_neg hbytes]
    rw [hput.step_getStr (k := .string s) trivial, h.step_getStr (k := .string s) trivial]
    refine congrArg (fun r : Option Bytes => Except.ok (r.elim FakeValue.null fun v =>
      .string (textDecode v))) ?_
    exact hget

/-- **Strings survive the store unless they begin with a byte order mark.** In every store that
a run has left open, a well-formed string is read back as it was stored, by the store and by
iterators, as a value and as a key, and is not mixed up with another one, if and only if it
does not begin with U+FEFF. -/
theorem string_survives_iff (h : Heap) (xs : List FakeCall) (hopen : FakeCall.close ∉ xs)
    (s : JsString) (hs : WellFormed s) :
    (Machine.run step (new h) xs).StringSurvives s ↔ s.head? ≠ some 0xFEFF := by
  obtain ⟨kv, hshown⟩ := (shows_new h).run hopen
  rw [← hs.textDecode_utf8]
  constructor
  · intro hsurvives
    have htrip := hsurvives.roundTrip
    rwa [Heap.toString, Heap.toArraybuf_bytes] at htrip
  · exact hshown.stringSurvives hs

/-- `aé€😀` is well formed, and survives in a store in which a byte order mark was put. -/
theorem string_survives_multibyte :
    WellFormed [0x61, 0xE9, 0x20AC, 0xD83D, 0xDE00] ∧
      (Machine.run step (new ⟨[], []⟩)
        [.put (.string [0xFEFF, 0x61]) (.string [0xFEFF])]).StringSurvives
          [0x61, 0xE9, 0x20AC, 0xD83D, 0xDE00] :=
  have hs : WellFormed [0x61, 0xE9, 0x20AC, 0xD83D, 0xDE00] :=
    ⟨[0x61, 0xE9, 0x20AC, 0x1F600], by simp [IsScalar], by decide⟩
  ⟨hs, (string_survives_iff ⟨[], []⟩ _ (by decide) _ hs).mpr (by decide)⟩

/-- `getStr` of what was put as U+FEFF `a` returns `a`. -/
theorem byteOrderMark_lost :
    WellFormed [0xFEFF, 0x61] ∧
      textDecode (utf8 [0xFEFF, 0x61]) = [0x61] ∧
      ¬ (new ⟨[], []⟩).StringSurvives [0xFEFF, 0x61] := by
  refine ⟨⟨[0xFEFF, 0x61], by simp [IsScalar], rfl⟩, by decide +kernel, fun hsurvives => ?_⟩
  have htrip := hsurvives.getStr (.string [0x6B]) trivial
  exact absurd htrip (by decide +kernel)

end FakeLevelDB

end RnLeveldb
