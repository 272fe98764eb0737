import RnLeveldb.Fake.Snapshot

/-!
# Who owns the buffers

The native store copies: `valueToString` reads the bytes of its arguments, and what comes back
is a new buffer. `FakeLevelDB` keeps the buffers it is given and hands out those it keeps, so
that a write of the application into one of them reaches the store. This file compares it with
a store that copies, along runs in which the application may write into buffers between calls.

Each side has buffers of its own: the store that copies hands out a new buffer each time, where
the fake may hand out one that the application has already. The application names its buffers by
handles, the same on both sides.
-/

namespace RnLeveldb

/-! ## A store that copies -/

/-- The content of the store, if it is open, and iterators with entries of their own. -/
structure CopyingStore where
  content : Option Content
  iterators : List MapIterator

namespace CopyingStore

def new : CopyingStore := { content := some SortedMap.empty, iterators := [] }

variable (h : Heap) (s : CopyingStore)

/-- A call that needs an open store and an argument that exists. -/
def withContent (has : Prop) [Decidable has] (act : Content → AppResult Bytes × CopyingStore) :
    AppResult Bytes × CopyingStore :=
  if has then
    match s.content with
    | none => (.error (.thrown (.error (ascii "FakeLevelDB was closed!"))), s)
    | some c => act c
  else (.error (.thrown .typeError), s)

/-- The records are applied as the native store applies them. -/
def write (c : Content) (ops : List BatchOp) : AppResult Bytes × CopyingStore :=
  (.ok .undefined, { s with content := some (applyBatch c ops) })

/-- A call of the store; of its arguments it has the bytes they have at this moment. -/
def stepDb : FakeCall → AppResult Bytes × CopyingStore
  | .newBuffer b => (.ok (.buffer b), s)
  | .put k v =>
    s.withContent (h.Has k ∧ h.Has v) fun c => s.write c [.put (h.bytesOf k) (h.bytesOf v)]
  | .delete k => s.withContent (h.Has k) fun c => s.write c [.delete (h.bytesOf k)]
  | .getStr k =>
    s.withContent (h.Has k) fun c =>
      (.ok ((c.get (h.bytesOf k)).elim .null fun v => .string (textDecode v)), s)
  | .getBuf k =>
    s.withContent (h.Has k) fun c => (.ok ((c.get (h.bytesOf k)).elim .null .buffer), s)
  | .close => (.ok .undefined, { s with content := none })
  | .closed => (.ok (.bool s.content.isNone), s)

def newIterator : AppResult Bytes × CopyingStore :=
  match s.content with
  | none =>
    (.error (.thrown (.error (ascii "Could't make FakeLevelDBIterator: DB was closed!"))), s)
  | some c =>
    (.ok (.iterator s.iterators.length),
      { s with iterators := s.iterators ++ [⟨c.entries, .undefined⟩] })

def callIterator (i : ℕ) (m : IteratorCall Target) : AppResult Bytes × CopyingStore :=
  match s.iterators[i]? with
  | none => (.error (.thrown .typeError), s)
  | some it =>
    (it.report m, { s with iterators := s.iterators.set i { it with pos := it.move m } })

def step : AppCall → AppResult Bytes × CopyingStore
  | .db x => s.stepDb h x
  | .newIterator => s.newIterator
  | .iterator i m => s.callIterator i (m.resolve h)

end CopyingStore

/-! ## Writes of the application -/

/-- `new Uint8Array(buf)[i] = byte`; past the end nothing happens. -/
def Heap.writeByte (h : Heap) (b i : ℕ) (byte : UInt8) : Heap :=
  { h with buffers := h.buffers.set b ((h.bytes b).set i byte) }

namespace Heap

variable {h : Heap} {b : ℕ}

lemma writeByte_bytes_of_ne {b' : ℕ} (hne : b ≠ b') (i : ℕ) (byte : UInt8) :
    (h.writeByte b i byte).bytes b' = h.bytes b' := by
  rw [bytes, writeByte, List.getD_eq_getElem?_getD, List.getElem?_set_ne hne,
    ← List.getD_eq_getElem?_getD]
  rfl

lemma writeByte_bytes_self (hb : b < h.buffers.length) (i : ℕ) (byte : UInt8) :
    (h.writeByte b i byte).bytes b = (h.bytes b).set i byte := by
  rw [bytes, writeByte, List.getD_eq_getElem?_getD, List.getElem?_set_self hb]
  rfl

/-- A pair of other buffers shows nothing of it. -/
lemma writeByte_entry {p : ℕ} (hkey : b ≠ (h.pair p).1) (hvalue : b ≠ (h.pair p).2) (i : ℕ)
    (byte : UInt8) : (h.writeByte b i byte).entry p = h.entry p := by
  have hpair : (h.writeByte b i byte).pair p = h.pair p := rfl
  rw [entry, hpair, writeByte_bytes_of_ne hkey, writeByte_bytes_of_ne hvalue]
  rfl

lemma writeByte_hasPair {p : ℕ} (hp : h.HasPair p) (i : ℕ) (byte : UInt8) :
    (h.writeByte b i byte).HasPair p := by
  have hpair : (h.writeByte b i byte).pair p = h.pair p := rfl
  have hlen : (h.writeByte b i byte).buffers.length = h.buffers.length := List.length_set
  refine ⟨hp.pair, ?_, ?_⟩
  · rw [hpair, hlen]
    exact hp.key
  · rw [hpair, hlen]
    exact hp.value

lemma writeByte_eq_self {i : ℕ} {byte : UInt8} (hsame : (h.bytes b).set i byte = h.bytes b) :
    h.writeByte b i byte = h := by
  have hset : h.buffers.set b (h.bytes b) = h.buffers := by
    by_cases hb : b < h.buffers.length
    · rw [bytes, List.getD_eq_getElem?_getD, List.getElem?_eq_getElem hb, Option.getD_some,
        List.set_getElem_self]
    · exact List.set_eq_of_length_le (not_lt.mp hb)
  rw [writeByte, hsame, hset]

end Heap

/-- What the application does; buffers are given by their handles. -/
inductive AppEvent where
  | call (x : AppCall)
  | write (i k : ℕ) (byte : UInt8)
deriving DecidableEq

namespace FakeApp

/-- The array of the store, and those of the iterators. -/
def heldArrays (s : FakeApp) : List (List ℕ) := s.db.kv.toList ++ s.arrays

/-- The buffer is the key or the value of an entry of the store or of an iterator. -/
def Holds (s : FakeApp) (b : ℕ) : Prop :=
  ∃ kv ∈ s.heldArrays, ∃ p ∈ kv, b = (s.db.heap.pair p).1 ∨ b = (s.db.heap.pair p).2

instance (s : FakeApp) (b : ℕ) : Decidable (s.Holds b) :=
  inferInstanceAs (Decidable (∃ kv ∈ s.heldArrays, ∃ p ∈ kv,
    b = (s.db.heap.pair p).1 ∨ b = (s.db.heap.pair p).2))

def writeByte (s : FakeApp) (b i : ℕ) (byte : UInt8) : FakeApp :=
  { s with db := { s.db with heap := s.db.heap.writeByte b i byte } }

end FakeApp

/-- The call with its target replaced. -/
def IteratorCall.map {δ ε : Type} (f : δ → ε) : IteratorCall δ → IteratorCall ε
  | .seekToFirst => .seekToFirst
  | .seekLast => .seekLast
  | .seek d => .seek (f d)
  | .valid => .valid
  | .next => .next
  | .prev => .prev
  | .close => .close
  | .keyStr => .keyStr
  | .keyBuf => .keyBuf
  | .valueStr => .valueStr
  | .valueBuf => .valueBuf
  | .compareKey d => .compareKey (f d)

/-- The buffer a call hands out, if it does. -/
def AppResult.buffers {β : Type} : AppResult β → List β
  | .ok (.buffer b) => [b]
  | _ => []

/-- The application on the fake and on a store that copies, after the same calls. -/
structure OwnedApp where
  app : FakeApp
  copy : CopyingStore
  /-- The fake's buffer of each handle, in the order in which they were handed out; two handles
  may name one buffer. -/
  handles : List ℕ
  /-- The buffers of the other side, one for each handle. -/
  copyHeap : Heap

namespace OwnedApp

def new : OwnedApp :=
  { app := .new ⟨[], []⟩, copy := .new, handles := [], copyHeap := ⟨[], []⟩ }

/-- The fake's buffer of a handle; a number that was not handed out names none. -/
def buffer (r : OwnedApp) (i : ℕ) : ℕ := r.handles.getD i r.app.db.heap.buffers.length

/-- An argument as the fake is given it. -/
def data (r : OwnedApp) : Data → Data
  | .string s => .string s
  | .buffer i => .buffer (r.buffer i)

/-- A call as the fake is given it. -/
def onFake (r : OwnedApp) : AppCall → AppCall
  | .db (.put k v) => .db (.put (r.data k) (r.data v))
  | .db (.delete k) => .db (.delete (r.data k))
  | .db (.getStr k) => .db (.getStr (r.data k))
  | .db (.getBuf k) => .db (.getBuf (r.data k))
  | .iterator i m => .iterator i (m.map r.data)
  | x => x

/-- A step, with the results of both sides; a buffer is compared by its bytes. -/
def step (r : OwnedApp) : AppEvent → (AppResult Bytes × AppResult Bytes) × OwnedApp
  | .call x =>
    let fake := r.app.step (r.onFake x)
    let copy := r.copy.step r.copyHeap x
    ((AppResult.seen fake.2.db.heap fake.1, copy.1),
      { app := fake.2
        copy := copy.2
        handles := r.handles ++ fake.1.buffers
        -- what the other side hands out is always a new buffer
        copyHeap := { r.copyHeap with buffers := r.copyHeap.buffers ++ copy.1.buffers } })
  | .write i k byte =>
    ((.ok .undefined, .ok .undefined),
      { r with
        app := r.app.writeByte (r.buffer i) k byte
        copyHeap := r.copyHeap.writeByte i k byte })

/-- The application changes no byte of a buffer that is held by an entry or that it has under
another handle too, and does not overwrite the value of an entry that an iterator holds. -/
def Unshared (r : OwnedApp) : AppEvent → Prop
  | .call x => r.app.NoSharedOverwrite (r.onFake x)
  | .write i k byte =>
    (r.app.Holds (r.buffer i) ∨ ∃ j, j ≠ i ∧ r.handles[j]? = some (r.buffer i)) →
      (r.app.db.heap.bytes (r.buffer i)).set k byte = r.app.db.heap.bytes (r.buffer i)

end OwnedApp

/-! ## Calls of the store -/

namespace CopyingStore

variable {h : Heap} {s : CopyingStore} {c : Content} {has : Prop} [Decidable has]
  {act : Content → AppResult Bytes × CopyingStore}

lemma withContent_of_open (hhas : has) (hc : s.content = some c) :
    s.withContent has act = act c := by
  rw [withContent, if_pos hhas, hc]

lemma withContent_of_closed (hhas : has) (hc : s.content = none) :
    s.withContent has act =
      (.error (.thrown (.error (ascii "FakeLevelDB was closed!"))), s) := by
  rw [withContent, if_pos hhas, hc]

lemma withContent_of_not (hhas : ¬ has) :
    s.withContent has act = (.error (.thrown .typeError), s) := if_neg hhas

end CopyingStore

namespace FakeLevelDB

variable {s : FakeLevelDB} {t : CopyingStore} {kv : List ℕ} {c : Content}

/-- A lookup in an open store is seen as the lookup in the map. -/
lemma Shows.getBuf_seen (hs : s.Shows kv c) (k : Data) :
    AppResult.seen s.heap (Result.toApp (s.getBuf k)) =
      .ok ((c.get (s.heap.bytesOf k)).elim .null .buffer) := by
  obtain ⟨hnone, hbuf⟩ | ⟨b, hsome, hbuf⟩ := hs.getBuf k
  · rw [hbuf, hnone]
    rfl
  · rw [hbuf, hsome]
    rfl

lemma Shows.getStr_seen (hs : s.Shows kv c) (k : Data) :
    AppResult.seen s.heap (Result.toApp (s.getStr k)) =
      .ok ((c.get (s.heap.bytesOf k)).elim .null fun v => .string (textDecode v)) := by
  rw [hs.getStr]
  cases c.get (s.heap.bytesOf k) <;> rfl

/-- A call whose arguments do not all exist throws on both sides. -/
lemma seen_of_has {has : Prop} [Decidable has] {r : Result × FakeLevelDB}
    {act : Content → AppResult Bytes × CopyingStore}
    (hr : has → AppResult.seen r.2.heap (Result.toApp r.1) = (t.withContent has act).1) :
    AppResult.seen (if has then r else (.error .typeError, s)).2.heap
        (Result.toApp (if has then r else (.error .typeError, s)).1) =
      (t.withContent has act).1 := by
  by_cases hhas : has
  · rw [if_pos hhas]
    exact hr hhas
  · rw [if_neg hhas, CopyingStore.withContent_of_not hhas]
    rfl

lemma newBuffer_seen (s : FakeLevelDB) (b : Bytes) :
    AppResult.seen (s.step (.newBuffer b)).2.heap (Result.toApp (s.step (.newBuffer b)).1) =
      .ok (.buffer b) := by
  have hbytes : (s.heap.newBuffer b).2.bytes (s.heap.newBuffer b).1 = b := by
    simp [Heap.newBuffer, Heap.bytes]
  exact congrArg (fun b => Except.ok (AppValue.buffer b)) hbytes

/-- An open store returns what the copying store does. -/
lemma Shows.step_seen (hs : s.Shows kv c) (ht : t.content = some c) (x : FakeCall) :
    AppResult.seen (s.step x).2.heap (Result.toApp (s.step x).1) = (t.stepDb s.heap x).1 := by
  cases x with
  | newBuffer b => exact s.newBuffer_seen b
  | put k v =>
    refine seen_of_has fun hhas => ?_
    rw [CopyingStore.withContent_of_open hhas ht, (hs.put hhas.1 hhas.2).1]
    rfl
  | delete k =>
    refine seen_of_has fun hhas => ?_
    rw [CopyingStore.withContent_of_open hhas ht, (hs.delete k).1]
    rfl
  | getStr k =>
    refine seen_of_has fun hhas => ?_
    rw [CopyingStore.withContent_of_open hhas ht]
    exact hs.getStr_seen k
  | getBuf k =>
    refine seen_of_has fun hhas => ?_
    rw [CopyingStore.withContent_of_open hhas ht]
    exact hs.getBuf_seen k
  | close => rfl
  | closed =>
    dsimp only [FakeLevelDB.step, CopyingStore.stepDb]
    rw [hs.array, ht]
    rfl

/-- So does a closed one. -/
lemma step_seen_of_closed (hs : s.kv = none) (ht : t.content = none) (x : FakeCall) :
    AppResult.seen (s.step x).2.heap (Result.toApp (s.step x).1) = (t.stepDb s.heap x).1 := by
  cases x with
  | newBuffer b => exact s.newBuffer_seen b
  | put k v =>
    refine seen_of_has fun hhas => ?_
    rw [CopyingStore.withContent_of_closed hhas ht, put, idx_of_closed hs, hs]
    rfl
  | delete k =>
    refine seen_of_has fun hhas => ?_
    rw [CopyingStore.withContent_of_closed hhas ht, delete, idx_of_closed hs, hs]
    rfl
  | getStr k =>
    refine seen_of_has fun hhas => ?_
    rw [CopyingStore.withContent_of_closed hhas ht, getStr, getBuf, idx_of_closed hs, hs]
    rfl
  | getBuf k =>
    refine seen_of_has fun hhas => ?_
    rw [CopyingStore.withContent_of_closed hhas ht, getBuf, idx_of_closed hs, hs]
    rfl
  | close => rfl
  | closed =>
    dsimp only [FakeLevelDB.step, CopyingStore.stepDb]
    rw [hs, ht]
    rfl

end FakeLevelDB

namespace CopyingStore

variable {s : CopyingStore} {c : Content}

lemma stepDb_iterators (h : Heap) (s : CopyingStore) (x : FakeCall) :
    (s.stepDb h x).2.iterators = s.iterators := by
  cases x with
  | newBuffer | close | closed => rfl
  | put | delete | getStr | getBuf =>
    dsimp only [stepDb, withContent]
    split
    · split <;> rfl
    · rfl

/-- The content of an open store changes by the write of the call. -/
lemma stepDb_content {db : FakeLevelDB} (hc : s.content = some c) {x : FakeCall}
    (hx : x ≠ .close) : (s.stepDb db.heap x).2.content = some (applyBatch c (db.op x)) := by
  cases x with
  | newBuffer | closed => exact hc
  | put k v =>
    dsimp only [stepDb, FakeLevelDB.op]
    by_cases hhas : db.heap.Has k ∧ db.heap.Has v
    · rw [withContent_of_open hhas hc, if_pos hhas]
      rfl
    · rw [withContent_of_not hhas, if_neg hhas]
      exact hc
  | delete k =>
    dsimp only [stepDb, FakeLevelDB.op]
    by_cases hhas : db.heap.Has k
    · rw [withContent_of_open hhas hc, if_pos hhas]
      rfl
    · rw [withContent_of_not hhas, if_neg hhas]
      exact hc
  | getStr | getBuf =>
    dsimp only [stepDb, withContent]
    rw [hc]
    split <;> exact hc
  | close => exact absurd rfl hx

lemma stepDb_content_of_closed (h : Heap) (hc : s.content = none) (x : FakeCall) :
    (s.stepDb h x).2.content = none := by
  cases x with
  | newBuffer | closed => exact hc
  | close => rfl
  | put | delete | getStr | getBuf =>
    dsimp only [stepDb, withContent]
    rw [hc]
    split <;> exact hc

end CopyingStore

/-! ## Runs -/

/-- An iterator as it is seen. -/
def FakeLevelDBIterator.shown (h : Heap) (it : FakeLevelDBIterator) : MapIterator :=
  ⟨h.view it.kv, it.pos⟩

/-- The fake shows what the copying store has. -/
structure CopyingStore.Matches (app : FakeApp) (copy : CopyingStore) : Prop where
  wf : app.Wf
  content : ∀ kv, app.db.kv = some kv → ∃ c, copy.content = some c ∧ app.db.Shows kv c
  closed : app.db.kv = none → copy.content = none
  iterators : copy.iterators = app.iterators.map (FakeLevelDBIterator.shown app.db.heap)
  ascending : ∀ it ∈ app.iterators, SortedMap.Ascending (app.db.heap.view it.kv)

/-- Both sides are given the same arguments: the results are seen to be the same, and the two
still match. -/
def CopyingStore.MatchesAfter (app : FakeApp) (copy : CopyingStore) (x : AppCall) : Prop :=
  CopyingStore.Matches (app.step x).2 (copy.step app.db.heap x).2 ∧
    AppResult.seen (app.step x).2.db.heap (app.step x).1 = (copy.step app.db.heap x).1

namespace CopyingStore

variable {app : FakeApp} {copy : CopyingStore}

/-- The iterators are seen as before when their arrays are. -/
lemma map_shown_congr {h h' : Heap} {its : List FakeLevelDBIterator}
    (hview : ∀ it ∈ its, h'.view it.kv = h.view it.kv) :
    its.map (FakeLevelDBIterator.shown h') = its.map (FakeLevelDBIterator.shown h) :=
  List.map_congr_left fun it hit => congrArg (fun es => MapIterator.mk es it.pos) (hview it hit)

/-- A call of the store. -/
lemma Matches.callDb (hr : Matches app copy) {x : FakeCall} (hx : app.NoSharedOverwrite (.db x)) :
    MatchesAfter app copy (.db x) := by
  have hview : ∀ it ∈ app.iterators,
      (app.db.step x).2.heap.view it.kv = app.db.heap.view it.kv := by
    intro it hit
    exact (hr.wf.views_step_iff (.db x)).mpr hx it.kv (List.mem_map_of_mem hit)
  have hiterators : (copy.stepDb app.db.heap x).2.iterators =
      app.iterators.map (FakeLevelDBIterator.shown (app.db.step x).2.heap) := by
    rw [copy.stepDb_iterators, hr.iterators, map_shown_congr hview]
  have hascending : ∀ it ∈ app.iterators,
      SortedMap.Ascending ((app.db.step x).2.heap.view it.kv) := by
    intro it hit
    rw [hview it hit]
    exact hr.ascending it hit
  cases hkv : app.db.kv with
  | none =>
    have hclosed := hr.closed hkv
    refine ⟨⟨hr.wf.step (.db x), ?_, ?_, hiterators, hascending⟩,
      FakeLevelDB.step_seen_of_closed hkv hclosed x⟩
    · intro kv hkv'
      have hnone := FakeLevelDB.step_kv_of_closed x hkv
      rw [show (app.db.step x).2.kv = some kv from hkv'] at hnone
      cases hnone
    · intro _
      exact copy.stepDb_content_of_closed app.db.heap hclosed x
  | some kv =>
    obtain ⟨c, hc, hshows⟩ := hr.content kv hkv
    refine ⟨⟨hr.wf.step (.db x), ?_, ?_, hiterators, hascending⟩, hshows.step_seen hc x⟩
    · intro kv' hkv'
      by_cases hclose : x = .close
      · rw [hclose] at hkv'
        cases hkv'
      obtain ⟨kv'', hstep⟩ := hshows.step hclose
      have heq : some kv' = some kv'' := hkv'.symm.trans hstep.array
      cases heq
      exact ⟨_, CopyingStore.stepDb_content hc hclose, hstep⟩
    · intro hnone
      by_cases hclose : x = .close
      · rw [hclose]
        rfl
      obtain ⟨kv', hstep⟩ := hshows.step hclose
      have heq : some kv' = none := hstep.array.symm.trans hnone
      cases heq

/-- A new iterator. -/
lemma Matches.callNewIterator (hr : Matches app copy) : MatchesAfter app copy .newIterator := by
  have hwf := hr.wf.step .newIterator
  have hlen : copy.iterators.length = app.iterators.length := by
    rw [hr.iterators, List.length_map]
  cases hkv : app.db.kv with
  | none =>
    have hclosed := hr.closed hkv
    have happ : app.step .newIterator = (.error (.thrown
        (.error (ascii "Could't make FakeLevelDBIterator: DB was closed!"))), app) := by
      rw [FakeApp.step, FakeApp.newIterator, FakeLevelDBIterator.new, hkv]
    have hcopy : copy.step app.db.heap .newIterator = (.error (.thrown
        (.error (ascii "Could't make FakeLevelDBIterator: DB was closed!"))), copy) := by
      rw [CopyingStore.step, CopyingStore.newIterator, hclosed]
    rw [MatchesAfter, happ, hcopy]
    exact ⟨hr, rfl⟩
  | some kv =>
    obtain ⟨c, hc, hshows⟩ := hr.content kv hkv
    have happ : app.step .newIterator = (.ok (.iterator app.iterators.length),
        { app with iterators := app.iterators ++ [⟨kv, .undefined⟩] }) := by
      rw [FakeApp.step, FakeApp.newIterator, FakeLevelDBIterator.new, hkv]
    have hcopy : copy.step app.db.heap .newIterator =
        (.ok (.iterator copy.iterators.length),
          { copy with iterators := copy.iterators ++ [⟨c.entries, .undefined⟩] }) := by
      rw [CopyingStore.step, CopyingStore.newIterator, hc]
    rw [happ] at hwf
    rw [MatchesAfter, happ, hcopy, hlen]
    refine ⟨⟨hwf, hr.content, hr.closed, ?_, ?_⟩, rfl⟩
    · dsimp only
      rw [List.map_append, hr.iterators, ← hshows.view]
      rfl
    · intro it hit
      rcases List.mem_append.mp hit with hit | hit
      · exact hr.ascending it hit
      · rw [List.mem_singleton.mp hit, hshows.view]
        exact c.ascending

/-- A call of an iterator. -/
lemma Matches.callIterator (hr : Matches app copy) (i : ℕ) (m : IteratorCall Data) :
    MatchesAfter app copy (.iterator i m) := by
  have hwf := hr.wf.step (.iterator i m)
  have hget : copy.iterators[i]? =
      app.iterators[i]?.map (FakeLevelDBIterator.shown app.db.heap) := by
    rw [hr.iterators, List.getElem?_map]
  unfold MatchesAfter
  dsimp only [step, FakeApp.step, FakeApp.callIterator, CopyingStore.step,
    CopyingStore.callIterator] at hwf ⊢
  rw [hget]
  cases hit : app.iterators[i]? with
  | none => exact ⟨hr, rfl⟩
  | some it =>
    have hmem := List.mem_of_getElem? hit
    have hshows : it.Shows app.db.heap ⟨_, hr.ascending it hmem⟩ := rfl
    obtain ⟨hreport, hmove⟩ := hshows.step m
    rw [hit] at hwf
    refine ⟨⟨hwf, hr.content, hr.closed, ?_, ?_⟩, hreport⟩
    · dsimp only
      rw [hr.iterators, List.map_set, hmove]
      rfl
    · intro it' hit'
      rcases List.mem_or_eq_of_mem_set hit' with hit' | rfl
      · exact hr.ascending it' hit'
      · rw [FakeLevelDBIterator.step_kv]
        exact hr.ascending it hmem

/-- A write into a buffer that no entry holds. -/
lemma Matches.writeByte (hr : Matches app copy) {b : ℕ} (hholds : ¬ app.Holds b) (i : ℕ)
    (byte : UInt8) : Matches (app.writeByte b i byte) copy := by
  -- the entries of every array that is held stay as they are
  have hview : ∀ kv ∈ app.heldArrays,
      (app.db.heap.writeByte b i byte).view kv = app.db.heap.view kv := by
    intro kv hkv
    refine List.map_congr_left fun p hp => Heap.writeByte_entry ?_ ?_ i byte
    · exact fun hb => hholds ⟨kv, hkv, p, hp, Or.inl hb⟩
    · exact fun hb => hholds ⟨kv, hkv, p, hp, Or.inr hb⟩
  have hstore : ∀ kv, app.db.kv = some kv → kv ∈ app.heldArrays := by
    intro kv hkv
    exact List.mem_append_left _ (Option.mem_toList.mpr hkv)
  have hiterator : ∀ it ∈ app.iterators, it.kv ∈ app.heldArrays := by
    intro it hit
    exact List.mem_append_right _ (List.mem_map_of_mem hit)
  have hshows : ∀ kv c, app.db.Shows kv c →
      (app.writeByte b i byte).db.Shows kv c := by
    intro kv c hc
    refine ⟨hc.array, fun p hp => Heap.writeByte_hasPair (hc.pairs p hp) i byte, ?_⟩
    exact (hview kv (hstore kv hc.array)).trans hc.view
  refine ⟨⟨?_, ?_⟩, ?_, hr.closed, ?_, ?_⟩
  · intro kv hkv
    obtain ⟨c, hc⟩ := hr.wf.db kv hkv
    exact ⟨c, hshows kv c hc⟩
  · intro it hit p hp
    exact Heap.writeByte_hasPair (hr.wf.iterators it hit p hp) i byte
  · intro kv hkv
    obtain ⟨c, hcopy, hc⟩ := hr.content kv hkv
    exact ⟨c, hcopy, hshows kv c hc⟩
  · refine hr.iterators.trans (map_shown_congr fun it hit => ?_).symm
    exact hview it.kv (hiterator it hit)
  · intro it hit
    exact (hview it.kv (hiterator it hit)).symm ▸ hr.ascending it hit

/-- A call that overwrites nothing an iterator holds keeps the two sides together. -/
lemma Matches.step (hr : Matches app copy) {x : AppCall} (hx : app.NoSharedOverwrite x) :
    MatchesAfter app copy x := by
  cases x with
  | db x => exact hr.callDb hx
  | newIterator => exact hr.callNewIterator
  | iterator i m => exact hr.callIterator i m

end CopyingStore

/-! ## The buffers of both sides -/

namespace FakeLevelDB

variable {s : FakeLevelDB} {kv : List ℕ} {c : Content}

/-- The buffer `getBuf` hands out is that of an entry. -/
lemma Shows.getBuf_lt (hs : s.Shows kv c) {k : Data} {b : ℕ} (h : s.getBuf k = .ok (.buffer b)) :
    b < s.heap.buffers.length := by
  unfold FakeLevelDB.getBuf at h
  split at h
  · cases h
  · cases h
  · next curIdx kv' _ hkv =>
    rw [hs.array] at hkv
    cases hkv
    split at h
    · cases h
    · next q hq =>
      split at h
      · cases h
      · cases h
        exact (hs.pairs q (List.mem_of_getElem? hq)).value

lemma Wf.buffers_lt (hs : s.Wf) (x : FakeCall) {b : ℕ}
    (hb : b ∈ AppResult.buffers (Result.toApp (s.step x).1)) :
    b < (s.step x).2.heap.buffers.length := by
  cases x with
  | newBuffer bytes =>
    obtain rfl := List.mem_singleton.mp hb
    show s.heap.buffers.length < (s.heap.buffers ++ [bytes]).length
    simp
  | put k v =>
    dsimp only [FakeLevelDB.step] at hb
    split at hb
    · next hhas =>
      cases hkv : s.kv with
      | none =>
        rw [put, idx_of_closed hkv] at hb
        exact (List.not_mem_nil hb).elim
      | some kv =>
        obtain ⟨c, hc⟩ := hs kv hkv
        rw [(hc.put hhas.1 hhas.2).1] at hb
        exact (List.not_mem_nil hb).elim
    · exact (List.not_mem_nil hb).elim
  | delete k =>
    dsimp only [FakeLevelDB.step] at hb
    split at hb
    · cases hkv : s.kv with
      | none =>
        rw [delete, idx_of_closed hkv] at hb
        exact (List.not_mem_nil hb).elim
      | some kv =>
        obtain ⟨c, hc⟩ := hs kv hkv
        rw [(hc.delete k).1] at hb
        exact (List.not_mem_nil hb).elim
    · exact (List.not_mem_nil hb).elim
  | getStr k =>
    dsimp only [FakeLevelDB.step] at hb
    split at hb
    · cases hkv : s.kv with
      | none =>
        rw [getStr, getBuf, idx_of_closed hkv] at hb
        exact (List.not_mem_nil hb).elim
      | some kv =>
        obtain ⟨c, hc⟩ := hs kv hkv
        rw [hc.getStr k] at hb
        cases hget : c.get (s.heap.bytesOf k) <;> rw [hget] at hb <;>
          exact (List.not_mem_nil hb).elim
    · exact (List.not_mem_nil hb).elim
  | getBuf k =>
    have hheap : (s.step (.getBuf k)).2.heap = s.heap := by
      dsimp only [FakeLevelDB.step]
      split <;> rfl
    rw [hheap]
    dsimp only [FakeLevelDB.step] at hb
    split at hb
    · cases hkv : s.kv with
      | none =>
        rw [getBuf, idx_of_closed hkv] at hb
        exact (List.not_mem_nil hb).elim
      | some kv =>
        obtain ⟨c, hc⟩ := hs kv hkv
        obtain ⟨-, hnull⟩ | ⟨b', -, hbuf⟩ := hc.getBuf k
        · rw [hnull] at hb
          exact (List.not_mem_nil hb).elim
        · rw [hbuf] at hb
          obtain rfl := List.mem_singleton.mp hb
          exact hc.getBuf_lt hbuf
    · exact (List.not_mem_nil hb).elim
  | close | closed => exact (List.not_mem_nil hb).elim

end FakeLevelDB

lemma Pos.mem_of_get {α : Type*} {xs : List α} {pos : Pos} {a : α} (h : pos.get xs = some a) :
    a ∈ xs := by
  cases pos with
  | undefined | nan => cases h
  | index i =>
    cases i with
    | ofNat i => exact List.mem_of_getElem? h
    | negSucc i => cases h

/-- A buffer of an entry exists. -/
lemma FakeLevelDBIterator.buffers_lt {h : Heap} {it : FakeLevelDBIterator}
    (hit : ∀ p ∈ it.kv, h.HasPair p) (m : IteratorCall Data) {b : ℕ}
    (hb : b ∈ AppResult.buffers (it.step h m).1) : b < h.buffers.length := by
  cases m with
  | keyBuf =>
    dsimp only [step, keyBuf, ofEntry] at hb
    cases hget : it.pos.get it.kv with
    | none =>
      rw [hget] at hb
      exact (List.not_mem_nil hb).elim
    | some p =>
      rw [hget] at hb
      obtain rfl := List.mem_singleton.mp hb
      exact (hit p (Pos.mem_of_get hget)).key
  | valueBuf =>
    dsimp only [step, valueBuf, ofEntry] at hb
    cases hget : it.pos.get it.kv with
    | none =>
      rw [hget] at hb
      exact (List.not_mem_nil hb).elim
    | some p =>
      rw [hget] at hb
      obtain rfl := List.mem_singleton.mp hb
      exact (hit p (Pos.mem_of_get hget)).value
  | keyStr | valueStr =>
    dsimp only [step, keyStr, valueStr, ofEntry] at hb
    cases hget : it.pos.get it.kv <;> rw [hget] at hb <;> exact (List.not_mem_nil hb).elim
  | seek target =>
    dsimp only [step] at hb
    cases hseek : it.seek h target <;> rw [hseek] at hb <;> exact (List.not_mem_nil hb).elim
  | compareKey target =>
    dsimp only [step] at hb
    cases hcmp : it.compareKey h target <;> rw [hcmp] at hb <;> exact (List.not_mem_nil hb).elim
  | seekToFirst | seekLast | valid | next | prev | close => exact (List.not_mem_nil hb).elim

namespace FakeApp

variable {s : FakeApp}

/-- What a call hands out is a buffer that exists. -/
lemma Wf.buffers_lt (hs : s.Wf) (x : AppCall) {b : ℕ} (hb : b ∈ AppResult.buffers (s.step x).1) :
    b < (s.step x).2.db.heap.buffers.length := by
  cases x with
  | db x => exact hs.db.buffers_lt x hb
  | newIterator =>
    dsimp only [FakeApp.step, FakeApp.newIterator] at hb
    cases hnew : FakeLevelDBIterator.new s.db <;> rw [hnew] at hb <;>
      exact (List.not_mem_nil hb).elim
  | iterator i m =>
    rw [FakeApp.step, callIterator_db]
    dsimp only [FakeApp.step, FakeApp.callIterator] at hb
    cases hit : s.iterators[i]? with
    | none =>
      rw [hit] at hb
      exact (List.not_mem_nil hb).elim
    | some it =>
      rw [hit] at hb
      exact FakeLevelDBIterator.buffers_lt (hs.iterators it (List.mem_of_getElem? hit)) m hb

/-- Calls change no byte of a buffer. -/
lemma Wf.bytes_step (hs : s.Wf) (x : AppCall) :
    s.db.heap.buffers.length ≤ (s.step x).2.db.heap.buffers.length ∧
      ∀ b < s.db.heap.buffers.length, (s.step x).2.db.heap.bytes b = s.db.heap.bytes b := by
  obtain ⟨hgrow, -⟩ | ⟨q, v, -, hheap⟩ := hs.heap_step x
  · exact ⟨hgrow.buffers.length_le, fun b hb => hgrow.bytes hb⟩
  · -- a pair is assigned a buffer, and buffers are left as they are
    have hgrow := s.db.heap.toArraybuf_grows v
    rw [hheap]
    exact ⟨hgrow.buffers.length_le, fun b hb => hgrow.bytes hb⟩

end FakeApp

namespace CopyingStore

variable {s : CopyingStore}

lemma withContent_congr {has has' : Prop} [Decidable has] [Decidable has'] (h : has ↔ has')
    (act : Content → AppResult Bytes × CopyingStore) :
    s.withContent has act = s.withContent has' act := by
  by_cases hhas : has
  · rw [withContent, withContent, if_pos hhas, if_pos (h.mp hhas)]
  · rw [withContent_of_not hhas, withContent_of_not (mt h.mpr hhas)]

end CopyingStore

lemma AppResult.seen_buffers (h : Heap) (r : AppResult ℕ) :
    AppResult.buffers (AppResult.seen h r) = (AppResult.buffers r).map h.bytes := by
  cases r with
  | error e => rfl
  | ok v => cases v <;> rfl

namespace OwnedApp

variable {r : OwnedApp}

/-- The two sides match, and every handle shows the same bytes on both. -/
structure Agrees (r : OwnedApp) : Prop where
  stores : CopyingStore.Matches r.app r.copy
  lt : ∀ b ∈ r.handles, b < r.app.db.heap.buffers.length
  shown : r.handles.map r.app.db.heap.bytes = r.copyHeap.buffers

lemma Agrees.length (hr : r.Agrees) : r.handles.length = r.copyHeap.buffers.length := by
  rw [← hr.shown, List.length_map]

lemma buffer_of_lt {i : ℕ} (hi : i < r.handles.length) : r.buffer i = r.handles[i] := by
  rw [buffer, List.getD_eq_getElem?_getD, List.getElem?_eq_getElem hi, Option.getD_some]

lemma buffer_of_le {i : ℕ} (hi : r.handles.length ≤ i) :
    r.buffer i = r.app.db.heap.buffers.length := by
  rw [buffer, List.getD_eq_getElem?_getD, List.getElem?_eq_none hi, Option.getD_none]

lemma Agrees.bytes_buffer (hr : r.Agrees) (i : ℕ) :
    r.app.db.heap.bytes (r.buffer i) = r.copyHeap.bytes i := by
  have hcopy : r.copyHeap.bytes i = (r.handles[i]?.map r.app.db.heap.bytes).getD [] := by
    rw [← List.getElem?_map, hr.shown, ← List.getD_eq_getElem?_getD]
    rfl
  rw [hcopy]
  by_cases hi : i < r.handles.length
  · rw [buffer_of_lt hi, List.getElem?_eq_getElem hi]
    rfl
  · rw [buffer_of_le (not_lt.mp hi), List.getElem?_eq_none (not_lt.mp hi)]
    simp [Heap.bytes]

lemma Agrees.has_buffer (hr : r.Agrees) (i : ℕ) :
    r.buffer i < r.app.db.heap.buffers.length ↔ i < r.copyHeap.buffers.length := by
  rw [← hr.length]
  by_cases hi : i < r.handles.length
  · rw [buffer_of_lt hi]
    exact iff_of_true (hr.lt _ (List.getElem_mem hi)) hi
  · rw [buffer_of_le (not_lt.mp hi)]
    exact iff_of_false (lt_irrefl _) hi

lemma Agrees.has (hr : r.Agrees) (d : Data) : r.copyHeap.Has d ↔ r.app.db.heap.Has (r.data d) := by
  cases d with
  | string s => exact Iff.rfl
  | buffer i => exact (hr.has_buffer i).symm

lemma Agrees.bytesOf (hr : r.Agrees) (d : Data) :
    r.app.db.heap.bytesOf (r.data d) = r.copyHeap.bytesOf d := by
  cases d with
  | string s => rfl
  | buffer i => exact hr.bytes_buffer i

lemma Agrees.target (hr : r.Agrees) (d : Data) :
    r.app.db.heap.target (r.data d) = r.copyHeap.target d := by
  cases d with
  | string s => rfl
  | buffer i =>
    have hbytes := hr.bytes_buffer i
    simp only [Heap.target, Heap.bytesOf, Heap.uint8Array, data, hbytes]

/-- What the copying store does with its own buffers it would do with those of the fake. -/
lemma Agrees.copy_step (hr : r.Agrees) (x : AppCall) :
    r.copy.step r.copyHeap x = r.copy.step r.app.db.heap (r.onFake x) := by
  cases x with
  | db x =>
    cases x with
    | newBuffer | close | closed => rfl
    | put k v =>
      dsimp only [CopyingStore.step, CopyingStore.stepDb, onFake]
      rw [hr.bytesOf k, hr.bytesOf v]
      exact CopyingStore.withContent_congr (and_congr (hr.has k) (hr.has v)) _
    | delete k | getStr k | getBuf k =>
      dsimp only [CopyingStore.step, CopyingStore.stepDb, onFake]
      rw [hr.bytesOf k]
      exact CopyingStore.withContent_congr (hr.has k) _
  | newIterator => rfl
  | iterator i m =>
    have hresolve : (m.map r.data).resolve r.app.db.heap = m.resolve r.copyHeap := by
      cases m <;> simp only [IteratorCall.map, IteratorCall.resolve, hr.target]
    dsimp only [CopyingStore.step, onFake]
    rw [hresolve]

/-- A call keeps the two sides together. -/
lemma Agrees.call (hr : r.Agrees) {x : AppCall} (hx : r.Unshared (.call x)) :
    (r.step (.call x)).2.Agrees ∧ (r.step (.call x)).1.1 = (r.step (.call x)).1.2 := by
  obtain ⟨hmatches, hseen⟩ := hr.stores.step hx
  obtain ⟨hle, hbytes⟩ := hr.stores.wf.bytes_step (r.onFake x)
  dsimp only [step]
  rw [hr.copy_step x, ← hseen]
  refine ⟨⟨hmatches, ?_, ?_⟩, rfl⟩
  · intro b hb
    rcases List.mem_append.mp hb with hb | hb
    · exact lt_of_lt_of_le (hr.lt b hb) hle
    · exact hr.stores.wf.buffers_lt (r.onFake x) hb
  · dsimp only
    rw [List.map_append, AppResult.seen_buffers, ← hr.shown]
    congr 1
    exact List.map_congr_left fun b hb => hbytes b (hr.lt b hb)

/-- So does a write into a buffer that nothing else shows. -/
lemma Agrees.write (hr : r.Agrees) {i k : ℕ} {byte : UInt8}
    (hx : r.Unshared (.write i k byte)) : (r.step (.write i k byte)).2.Agrees := by
  by_cases hsame : (r.app.db.heap.bytes (r.buffer i)).set k byte = r.app.db.heap.bytes (r.buffer i)
  · -- nothing is changed on either side
    have hcopy : (r.copyHeap.bytes i).set k byte = r.copyHeap.bytes i := by
      rw [← hr.bytes_buffer i]
      exact hsame
    dsimp only [step, FakeApp.writeByte]
    rw [Heap.writeByte_eq_self hsame, Heap.writeByte_eq_self hcopy]
    exact hr
  have hholds : ¬ r.app.Holds (r.buffer i) := fun h => hsame (hx (Or.inl h))
  have hother : ∀ j, j ≠ i → r.handles[j]? ≠ some (r.buffer i) :=
    fun j hj h => hsame (hx (Or.inr ⟨j, hj, h⟩))
  refine ⟨hr.stores.writeByte hholds k byte, ?_, ?_⟩
  · intro b hb
    show b < (r.app.db.heap.buffers.set _ _).length
    rw [List.length_set]
    exact hr.lt b hb
  · show r.handles.map (r.app.db.heap.writeByte (r.buffer i) k byte).bytes
      = r.copyHeap.buffers.set i ((r.copyHeap.bytes i).set k byte)
    refine List.ext_getElem? fun j => ?_
    rw [← hr.shown, List.getElem?_set, List.getElem?_map, List.getElem?_map, List.length_map]
    by_cases hij : i = j
    · subst hij
      rw [if_pos rfl]
      by_cases hi : i < r.handles.length
      · have hbuf : r.buffer i = r.handles[i] := buffer_of_lt hi
        have hlt := hr.lt _ (List.getElem_mem hi)
        rw [if_pos hi, List.getElem?_eq_getElem hi, Option.map_some, ← hr.bytes_buffer i, hbuf,
          Heap.writeByte_bytes_self hlt]
      · rw [if_neg hi, List.getElem?_eq_none (not_lt.mp hi), Option.map_none]
    · rw [if_neg hij]
      cases hj : r.handles[j]? with
      | none => rfl
      | some b =>
        have hne : r.buffer i ≠ b := fun h => hother j (Ne.symm hij) (by rw [hj, h])
        rw [Option.map_some, Option.map_some, Heap.writeByte_bytes_of_ne hne]

/-- Every step that shares nothing keeps the two sides together. -/
lemma Agrees.step (hr : r.Agrees) {e : AppEvent} (he : r.Unshared e) :
    (r.step e).2.Agrees ∧ (r.step e).1.1 = (r.step e).1.2 := by
  cases e with
  | call x => exact hr.call he
  | write i k byte => exact ⟨hr.write he, rfl⟩

end OwnedApp

end RnLeveldb
