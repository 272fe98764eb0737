import RnLeveldb.Engine.Merger

/-!
# `table/block_builder.cc` and `table/block.cc`

The entries of a block are written one after another, and of each key only what it does not share
with the key in front of it. Every so often a key is written whole; the offsets of these restart
points come last. An iterator finds a restart point by binary search and goes on from there.
-/

namespace RnLeveldb

namespace Engine

open Zipper (Ascending)

/-! ## Building -/

/-- `options_->block_restart_interval` is `interval`. -/
structure BlockBuilder where
  interval : ℕ
  buffer : Bytes
  restarts : List ℕ
  counter : ℕ
  lastKey : Bytes

/-- An entry of which this many bytes of the key are shared. -/
def entryBytes (shared : ℕ) (key value : Bytes) : Bytes :=
  encodeVarint32 shared ++ (encodeVarint32 (key.length - shared) ++
    (encodeVarint32 value.length ++ (key.drop shared ++ value)))

namespace BlockBuilder

def new (interval : ℕ) : BlockBuilder where
  interval := interval
  buffer := []
  restarts := [0]
  counter := 0
  lastKey := []

/-- The bytes that are shared are counted by the loop that `FindShortestSeparator` has too. -/
def add (b : BlockBuilder) (key value : Bytes) : BlockBuilder :=
  if b.counter < b.interval then
    let shared := diffIndex b.lastKey key
    { b with
      buffer := b.buffer ++ entryBytes shared key value
      lastKey := b.lastKey.take shared ++ key.drop shared
      counter := b.counter + 1 }
  else
    { b with
      buffer := b.buffer ++ entryBytes 0 key value
      restarts := b.restarts ++ [b.buffer.length]
      lastKey := key
      counter := 1 }

/-- Behind the entries come the restart points and their number. -/
def finish (b : BlockBuilder) : Bytes :=
  b.buffer ++ (b.restarts.flatMap encodeFixed32 ++ encodeFixed32 b.restarts.length)

/-- The block with these entries. -/
def build (interval : ℕ) (entries : List (Bytes × Bytes)) : Bytes :=
  (entries.foldl (fun b e => b.add e.1 e.2) (new interval)).finish

end BlockBuilder

/-! ## Reading -/

/-- A block is its bytes; where its restart array begins and how long it is are read off them. -/
structure Block where
  data : Bytes
  restartOffset : ℕ
  numRestarts : ℕ

/-- `none` is the error marker. -/
def Block.new (contents : Bytes) : Option Block :=
  if contents.length < 4 then none
  else
    let numRestarts := decodeFixed32 (contents.drop (contents.length - 4))
    if (contents.length - 4) / 4 < numRestarts then none
    else some ⟨contents, contents.length - (1 + numRestarts) * 4, numRestarts⟩

/-- The three lengths in front of an entry. If each has one byte they are taken at once. -/
def decodeLengths : Bytes → Option (ℕ × ℕ × ℕ × Bytes)
  | s :: n :: v :: rest =>
    if (s.toNat ||| n.toNat ||| v.toNat) < 128 then some (s.toNat, n.toNat, v.toNat, rest)
    else do
      let (shared, p) ← getVarint32 (s :: n :: v :: rest)
      let (nonShared, p) ← getVarint32 p
      let (valueLength, p) ← getVarint32 p
      some (shared, nonShared, valueLength, p)
  | _ => none

/-- The lengths, and what comes behind them up to the limit. -/
def decodeEntry (input : Bytes) : Option (ℕ × ℕ × ℕ × Bytes) :=
  match decodeLengths input with
  | none => none
  | some (shared, nonShared, valueLength, p) =>
    if p.length % 2 ^ 32 < (nonShared + valueLength) % 2 ^ 32 then none
    else some (shared, nonShared, valueLength, p)

/-- `restarts_`, `num_restarts_` and the bytes are those of the block, which every function is
given. -/
structure BlockIter where
  current : ℕ
  restartIndex : ℕ
  key : Bytes
  /-- The value is this part of the block. -/
  valueStart : ℕ
  valueLength : ℕ
  status : Status

namespace Block

variable (b : Block)

/-- A new iterator is not valid: it stands behind the last entry. -/
def newIterator : BlockIter where
  current := b.restartOffset
  restartIndex := b.numRestarts
  key := []
  valueStart := 0
  valueLength := 0
  status := .ok

/-- The offset that is written at this place of the restart array. -/
def getRestartPoint (index : ℕ) : ℕ := decodeFixed32 (b.data.drop (b.restartOffset + index * 4))

/-- The entries from an offset on. -/
def entriesFrom (offset : ℕ) : Bytes := (b.data.take b.restartOffset).drop offset

/-- The loop of `Seek` over the restart array. -/
def searchRestarts (compare : Bytes → Bytes → Ordering) (target : Bytes) (left right : ℕ) :
    Option ℕ :=
  if left < right then
    let mid := (left + right + 1) / 2
    match decodeEntry (b.entriesFrom (b.getRestartPoint mid)) with
    | none => none
    | some (shared, nonShared, _, p) =>
      if shared ≠ 0 then none
      else if compare (p.take nonShared) target = .lt then searchRestarts compare target mid right
      else searchRestarts compare target left (mid - 1)
  else some left
termination_by right - left

/-- The loop at the end of `ParseNextKey`. -/
def advanceRestart (current index : ℕ) : ℕ :=
  if index + 1 < b.numRestarts ∧ b.getRestartPoint (index + 1) < current then
    advanceRestart current (index + 1)
  else index
termination_by b.numRestarts - index

/-- The loop at the beginning of `Prev`. -/
def restartBefore (original : ℕ) : ℕ → Option ℕ
  | 0 => if original ≤ b.getRestartPoint 0 then none else some 0
  | index + 1 =>
    if original ≤ b.getRestartPoint (index + 1) then restartBefore original index
    else some (index + 1)

end Block

namespace BlockIter

variable (b : Block) (it : BlockIter)

def valid : Bool := it.current < b.restartOffset

/-- Behind the value comes the next entry. -/
def nextEntryOffset : ℕ := it.valueStart + it.valueLength

/-- The iterator is set up to parse the entry at the restart point, with no key in front of it. -/
def seekToRestartPoint (index : ℕ) : BlockIter :=
  { it with
    key := []
    restartIndex := index
    valueStart := b.getRestartPoint index
    valueLength := 0 }

/-- The iterator is not valid any more, and its status says why. -/
def corruptionError : BlockIter where
  current := b.restartOffset
  restartIndex := b.numRestarts
  key := []
  valueStart := 0
  valueLength := 0
  status := .fail (corruption "bad entry in block")

/-- Whether there is an entry, and the iterator on it: its key is put together from the key in
front and the bytes that are not shared. -/
def parseNextKey : Bool × BlockIter :=
  let current := it.nextEntryOffset
  if b.restartOffset ≤ current then
    (false, { it with current := b.restartOffset, restartIndex := b.numRestarts })
  else
    match decodeEntry (b.entriesFrom current) with
    | none => (false, corruptionError b)
    | some (shared, nonShared, valueLength, p) =>
      if it.key.length < shared then (false, corruptionError b)
      else
        (true, { it with
          current := current
          key := it.key.take shared ++ p.take nonShared
          valueStart := b.restartOffset - p.length + nonShared
          valueLength := valueLength
          restartIndex := b.advanceRestart current it.restartIndex })

/-- Entries are parsed while there are any and `more` holds. No block has more entries than
bytes, so that many rounds are enough. -/
def parseWhile (more : BlockIter → Bool) : ℕ → BlockIter → BlockIter
  | 0, it => it
  | n + 1, it =>
    let r := it.parseNextKey b
    if r.1 && more r.2 then parseWhile more n r.2 else r.2

def seekToFirst : BlockIter := ((it.seekToRestartPoint b 0).parseNextKey b).2

/-- From the last restart point to the entry that ends at the restart array. -/
def seekToLast : BlockIter :=
  parseWhile b (fun it => it.nextEntryOffset < b.restartOffset) (b.restartOffset + 1)
    (it.seekToRestartPoint b (b.numRestarts - 1))

/-- From the restart point that the binary search has found to the first key at or past the
target. -/
def seek (compare : Bytes → Bytes → Ordering) (target : Bytes) : BlockIter :=
  match b.searchRestarts compare target 0 (b.numRestarts - 1) with
  | none => corruptionError b
  | some left =>
    parseWhile b (fun it => compare it.key target = .lt) (b.restartOffset + 1)
      (it.seekToRestartPoint b left)

def next : BlockIter := (it.parseNextKey b).2

/-- From the restart point in front of the entry to the last entry in front of it. -/
def prev : BlockIter :=
  match b.restartBefore it.current it.restartIndex with
  | none => { it with current := b.restartOffset, restartIndex := b.numRestarts }
  | some index =>
    parseWhile b (fun it' => it'.nextEntryOffset < it.current) (b.restartOffset + 1)
      (it.seekToRestartPoint b index)

def call (compare : Bytes → Bytes → Ordering) : Zipper.Call Bytes → BlockIter
  | .seek target => it.seek b compare target
  | .seekToFirst => it.seekToFirst b
  | .seekToLast => it.seekToLast b
  | .next => it.next b
  | .prev => it.prev b

/-- What `key` and `value` are where `Valid` holds. -/
def shown : Option (Bytes × Bytes) :=
  if it.valid b then some (it.key, (b.data.drop it.valueStart).take it.valueLength) else none

end BlockIter

/-! ## The entries of a block -/

/-- An entry and how many bytes of its key are shared. -/
structure Chunk where
  shared : ℕ
  key : Bytes
  value : Bytes

def Chunk.bytes (c : Chunk) : Bytes := entryBytes c.shared c.key c.value

/-- Where the entry with this number begins. -/
def offset (cs : List Chunk) (i : ℕ) : ℕ := ((cs.take i).flatMap Chunk.bytes).length

/-- What is shared is the same in the key in front. -/
def Chained : Bytes → List Chunk → Prop
  | _, [] => True
  | last, c :: cs =>
    (c.shared ≤ last.length ∧ c.shared ≤ c.key.length ∧
      last.take c.shared = c.key.take c.shared) ∧ Chained c.key cs

/-- The key of the last entry. -/
def lastKey (cs : List Chunk) : Bytes := (cs.getLast?.map Chunk.key).getD []

/-- An entry that shares what it says with the last key can be appended. -/
lemma chained_append {last : Bytes} {cs : List Chunk} (h : Chained last cs) {c : Chunk}
    (hlength : c.shared ≤ ((cs.getLast?.map Chunk.key).getD last).length)
    (hkey : c.shared ≤ c.key.length)
    (htake : ((cs.getLast?.map Chunk.key).getD last).take c.shared = c.key.take c.shared) :
    Chained last (cs ++ [c]) := by
  induction cs generalizing last with
  | nil => exact ⟨⟨hlength, hkey, htake⟩, trivial⟩
  | cons d cs ih =>
    refine ⟨h.1, ih h.2 ?_ ?_⟩ <;> cases hlast : cs.getLast? <;>
      simp_all [List.getLast?_cons]

/-- At any entry, what is shared is the same in the entry in front of it; nothing is in front of
the first. -/
lemma Chained.getElem {last : Bytes} {cs : List Chunk} (h : Chained last cs) {i : ℕ} {c : Chunk}
    (hi : cs[i]? = some c) :
    c.shared ≤ c.key.length ∧
      ∀ prior, (i = 0 → prior = last) → (∀ j, i = j + 1 → cs[j]?.map Chunk.key = some prior) →
        c.shared ≤ prior.length ∧ prior.take c.shared = c.key.take c.shared := by
  induction cs generalizing last i with
  | nil => cases hi
  | cons d cs ih =>
    cases i with
    | zero =>
      cases hi
      refine ⟨h.1.2.1, fun prior hprior _ => ?_⟩
      rw [hprior rfl]
      exact ⟨h.1.1, h.1.2.2⟩
    | succ i =>
      obtain ⟨hlen, hrest⟩ := ih h.2 hi
      refine ⟨hlen, fun prior _ hprior => hrest prior ?_ ?_⟩
      · rintro rfl
        have hfirst := hprior 0 rfl
        exact (Option.some_inj.mp hfirst).symm
      · intro j hj
        exact hprior (j + 1) (by omega)

/-- The bytes that are counted as shared are the same in both keys. -/
lemma diffIndex_spec (a b : Bytes) :
    diffIndex a b ≤ a.length ∧ diffIndex a b ≤ b.length ∧
      a.take (diffIndex a b) = b.take (diffIndex a b) := by
  induction a generalizing b with
  | nil => simp [diffIndex]
  | cons x a ih =>
    cases b with
    | nil => simp [diffIndex]
    | cons y b =>
      obtain ⟨ha, hb, htake⟩ := ih b
      rw [diffIndex]
      split
      · next heq => simp [heq, ha, hb, htake]
      · simp

/-- What a builder holds. `points` are the numbers of the entries at the restart points. -/
structure Built (b : BlockBuilder) (cs : List Chunk) (points : List ℕ) : Prop where
  buffer : b.buffer = cs.flatMap Chunk.bytes
  last : b.lastKey = lastKey cs
  chained : Chained [] cs
  restarts : b.restarts = points.map (offset cs)
  first : points[0]? = some 0
  range : ∀ p ∈ points, p < cs.length ∨ p = 0 ∧ cs = []
  whole : ∀ p ∈ points, ∀ c, cs[p]? = some c → c.shared = 0
  single : cs = [] → points = [0]

lemma built_new (interval : ℕ) : Built (.new interval) [] [0] where
  buffer := rfl
  last := rfl
  chained := trivial
  restarts := rfl
  first := rfl
  range := by simp
  whole := by simp
  single := fun _ => rfl

lemma offset_length (cs : List Chunk) : offset cs cs.length = (cs.flatMap Chunk.bytes).length := by
  rw [offset, List.take_length]

/-- Appending an entry does not move the ones in front. -/
lemma offset_append (cs : List Chunk) (c : Chunk) {i : ℕ} (hi : i ≤ cs.length) :
    offset (cs ++ [c]) i = offset cs i := by
  rw [offset, List.take_append_of_le_length hi, offset]

/-- An entry is added, and with it a restart point if it shares nothing. -/
lemma Built.add_chunk {b b' : BlockBuilder} {cs : List Chunk} {points : List ℕ}
    (h : Built b cs points) {c : Chunk} (hbuffer : b'.buffer = b.buffer ++ c.bytes)
    (hlast : b'.lastKey = c.key) (hlength : c.shared ≤ b.lastKey.length)
    (hkey : c.shared ≤ c.key.length) (htake : b.lastKey.take c.shared = c.key.take c.shared)
    {new : List ℕ} (hnew : ∀ p ∈ new, p = cs.length ∧ c.shared = 0)
    (hrestarts : b'.restarts = b.restarts ++ new.map (offset cs)) :
    Built b' (cs ++ [c]) (points ++ new) := by
  have hle : ∀ p ∈ points ++ new, p ≤ cs.length := by
    intro p hp
    rcases List.mem_append.mp hp with hp | hp
    · rcases h.range p hp with hlt | ⟨rfl, -⟩
      · exact le_of_lt hlt
      · exact Nat.zero_le _
    · exact le_of_eq (hnew p hp).1
  rw [h.last] at hlength htake
  refine ⟨?_, ?_, chained_append h.chained hlength hkey htake, ?_, ?_, fun p hp => ?_,
    fun p hp d hd => ?_, by simp⟩
  · rw [hbuffer, h.buffer, List.flatMap_append, List.flatMap_singleton]
  · rw [hlast, lastKey, List.getLast?_append]
    rfl
  · rw [hrestarts, h.restarts, ← List.map_append]
    exact List.map_congr_left fun p hp => (offset_append cs c (hle p hp)).symm
  · rw [List.getElem?_append_left, h.first]
    cases hpoints : points with
    | nil =>
      have hfirst := h.first
      rw [hpoints] at hfirst
      cases hfirst
    | cons p points => exact Nat.succ_pos _
  · rw [List.length_append, List.length_singleton]
    exact Or.inl (Nat.lt_succ_of_le (hle p hp))
  · rcases List.mem_append.mp hp with hold | hold
    · rcases h.range p hold with hlt | ⟨rfl, rfl⟩
      · rw [List.getElem?_append_left hlt] at hd
        exact h.whole p hold d hd
      · cases hd
        simpa [lastKey] using hlength
    · obtain ⟨rfl, hshared⟩ := hnew p hold
      rw [List.getElem?_append_right (le_refl _), Nat.sub_self] at hd
      cases hd
      exact hshared

/-- `Add` adds one entry with this key and value, however many bytes of the key it shares. -/
lemma Built.add {b : BlockBuilder} {cs : List Chunk} {points : List ℕ} (h : Built b cs points)
    (key value : Bytes) :
    ∃ c points', Built (b.add key value) (cs ++ [c]) points' ∧ (c.key, c.value) = (key, value) := by
  unfold BlockBuilder.add
  split
  · obtain ⟨hlast, hkey, htake⟩ := diffIndex_spec b.lastKey key
    have hfull : b.lastKey.take (diffIndex b.lastKey key) ++ key.drop (diffIndex b.lastKey key) =
        key := by
      rw [htake, List.take_append_drop]
    exact ⟨⟨diffIndex b.lastKey key, key, value⟩, points ++ [],
      h.add_chunk rfl hfull hlast hkey htake (by simp) (by simp), rfl⟩
  · have hbuffer : b.buffer.length = offset cs cs.length := by rw [h.buffer, offset_length]
    refine ⟨⟨0, key, value⟩, points ++ [cs.length],
      h.add_chunk rfl rfl (Nat.zero_le _) (Nat.zero_le _) rfl (by simp) ?_, rfl⟩
    dsimp only
    rw [hbuffer, List.map_singleton]

/-- The entry of a chunk. -/
def Chunk.entry (c : Chunk) : Bytes × Bytes := (c.key, c.value)

/-- What the builder holds after all the entries have been added. -/
lemma built_foldl (interval : ℕ) (entries : List (Bytes × Bytes)) :
    ∃ cs points, Built (entries.foldl (fun b e => b.add e.1 e.2) (.new interval)) cs points ∧
      cs.map Chunk.entry = entries := by
  induction entries using List.reverseRecOn with
  | nil => exact ⟨[], [0], built_new interval, rfl⟩
  | append_singleton entries e ih =>
    obtain ⟨cs, points, hbuilt, hentries⟩ := ih
    obtain ⟨c, points', hadd, hentry⟩ := hbuilt.add e.1 e.2
    refine ⟨cs ++ [c], points', ?_, ?_⟩
    · rw [List.foldl_append]
      exact hadd
    · rw [List.map_append, hentries, List.map_singleton, Chunk.entry, hentry]

/-- What is known of a block that was built. -/
structure IsBlock (b : Block) (cs : List Chunk) (points : List ℕ) : Prop where
  entries : b.data.take b.restartOffset = cs.flatMap Chunk.bytes
  restartOffset : b.restartOffset = offset cs cs.length
  numRestarts : b.numRestarts = points.length
  small : b.restartOffset < 2 ^ 32
  point : ∀ j p, points[j]? = some p → b.getRestartPoint j = offset cs p
  chained : Chained [] cs
  first : points[0]? = some 0
  range : ∀ p ∈ points, p < cs.length ∨ p = 0 ∧ cs = []
  whole : ∀ p ∈ points, ∀ c, cs[p]? = some c → c.shared = 0
  single : cs = [] → points = [0]

lemma length_flatMap_encodeFixed32 (vs : List ℕ) :
    (vs.flatMap encodeFixed32).length = vs.length * 4 := by
  induction vs with
  | nil => rfl
  | cons v vs ih =>
    rw [List.flatMap_cons, List.length_append, ih, length_encodeFixed32, List.length_cons]
    omega

/-- Each number of an array of fixed-width numbers is read back at its place. -/
lemma decodeFixed32_drop {vs : List ℕ} {j v : ℕ} (hv : vs[j]? = some v) (hlt : v < 2 ^ 32)
    (rest : Bytes) :
    decodeFixed32 ((vs.flatMap encodeFixed32 ++ rest).drop (j * 4)) = v := by
  induction vs generalizing j with
  | nil => cases hv
  | cons u vs ih =>
    rw [List.flatMap_cons, List.append_assoc]
    cases j with
    | zero =>
      cases hv
      rw [Nat.zero_mul, List.drop_zero, decodeFixed32_append hlt]
    | succ j =>
      have hskip : (j + 1) * 4 = (encodeFixed32 u).length + j * 4 := by
        rw [length_encodeFixed32]
        omega
      rw [hskip, List.drop_append, List.drop_eq_nil_of_le (by omega), List.nil_append,
        Nat.add_sub_cancel_left]
      exact ih hv

lemma offset_le (cs : List Chunk) (i : ℕ) : offset cs i ≤ offset cs cs.length := by
  have hsplit := List.take_append_drop i cs
  rw [offset, offset, List.take_length]
  conv_rhs => rw [← hsplit, List.flatMap_append, List.length_append]
  exact Nat.le_add_right _ _

/-- The bytes a builder has finished are opened as a block with the entries of the builder. -/
lemma Built.isBlock {bb : BlockBuilder} {cs : List Chunk} {points : List ℕ}
    (h : Built bb cs points) (hsize : bb.finish.length < 2 ^ 32) :
    ∃ b, Block.new bb.finish = some b ∧ IsBlock b cs points := by
  have hbuffer : bb.buffer.length = offset cs cs.length := by rw [h.buffer, offset_length]
  have hlength : bb.finish.length = bb.buffer.length + bb.restarts.length * 4 + 4 := by
    rw [BlockBuilder.finish, List.length_append, List.length_append, length_encodeFixed32,
      length_flatMap_encodeFixed32]
    omega
  have hcount : decodeFixed32 (bb.finish.drop (bb.finish.length - 4)) = bb.restarts.length := by
    have hdrop : bb.finish.length - 4 =
        (bb.buffer ++ bb.restarts.flatMap encodeFixed32).length := by
      rw [hlength, List.length_append, length_flatMap_encodeFixed32]
      omega
    rw [hdrop, BlockBuilder.finish, ← List.append_assoc, List.drop_left]
    have hdecode := decodeFixed32_append (v := bb.restarts.length) (by omega) []
    rwa [List.append_nil] at hdecode
  have hoffset : bb.finish.length - (1 + bb.restarts.length) * 4 = bb.buffer.length := by omega
  refine ⟨⟨bb.finish, bb.buffer.length, bb.restarts.length⟩, ?_, ?_⟩
  · rw [Block.new, if_neg (by omega), hcount]
    dsimp only
    rw [if_neg (by omega), hoffset]
  · refine ⟨?_, hbuffer, by rw [h.restarts, List.length_map], by dsimp only; omega,
      fun j p hp => ?_, h.chained, h.first, h.range, h.whole, h.single⟩
    · dsimp only
      rw [BlockBuilder.finish, List.take_left, h.buffer]
    · have hrestart : bb.restarts[j]? = some (offset cs p) := by
        rw [h.restarts, List.getElem?_map, hp]
        rfl
      have hle := offset_le cs p
      rw [Block.getRestartPoint]
      dsimp only
      rw [BlockBuilder.finish, ← List.drop_drop, List.drop_left,
        decodeFixed32_drop hrestart (by omega)]

/-! ## Offsets -/

section

variable {b : Block} {cs : List Chunk} {points : List ℕ} {it : BlockIter} {i : ℕ} {c : Chunk}

/-- Each entry has three bytes at least, for the three lengths. -/
lemma Chunk.length_bytes (c : Chunk) :
    3 + (c.key.length - c.shared) + c.value.length ≤ c.bytes.length := by
  have hone : ∀ v, 1 ≤ (encodeVarint32 v).length := by
    intro v
    unfold encodeVarint32
    split_ifs <;> simp
  have h1 := hone c.shared
  have h2 := hone (c.key.length - c.shared)
  have h3 := hone c.value.length
  rw [Chunk.bytes, entryBytes]
  simp only [List.length_append, List.length_drop]
  omega

/-- An entry begins where the one in front ends. -/
lemma offset_succ (hc : cs[i]? = some c) : offset cs (i + 1) = offset cs i + c.bytes.length := by
  rw [offset, List.take_add_one, hc, List.flatMap_append, List.length_append, offset]
  simp

lemma offset_lt (hc : cs[i]? = some c) : offset cs i < offset cs (i + 1) := by
  have hlen := c.length_bytes
  rw [offset_succ hc]
  omega

lemma offset_mono {j : ℕ} (hij : i ≤ j) : offset cs i ≤ offset cs j := by
  have htake : cs.take i = (cs.take j).take i := by rw [List.take_take, min_eq_left hij]
  have hle := offset_le (cs.take j) i
  rw [offset, ← htake, offset, List.take_length] at hle
  exact hle

/-- The order of the offsets is that of the entries. -/
lemma offset_lt_iff {j : ℕ} (hi : i ≤ cs.length) (hj : j ≤ cs.length) :
    offset cs i < offset cs j ↔ i < j := by
  constructor
  · intro hlt
    by_contra hle
    exact absurd hlt (not_lt.mpr (offset_mono (not_lt.mp hle)))
  · intro hlt
    have hc : cs[i]? = some cs[i] := List.getElem?_eq_getElem (by omega)
    exact lt_of_lt_of_le (offset_lt hc) (offset_mono hlt)

/-- No block has more entries than bytes. -/
lemma le_offset (hi : i ≤ cs.length) : i ≤ offset cs i := by
  induction i with
  | zero => exact Nat.zero_le _
  | succ i ih =>
    have hc : cs[i]? = some cs[i] := List.getElem?_eq_getElem (by omega)
    have hlt := offset_lt hc
    have hle := ih (by omega)
    omega

/-- A key is no longer than what of the keys is written up to it. -/
lemma Chained.length_key_le (h : Chained [] cs) (hc : cs[i]? = some c) :
    c.key.length ≤ offset cs (i + 1) := by
  induction i generalizing c with
  | zero =>
    obtain ⟨-, hprior⟩ := h.getElem hc
    have hshared := (hprior [] (fun _ => rfl) fun j hj => by omega).1
    have hlen := c.length_bytes
    rw [offset_succ hc]
    rw [List.length_nil] at hshared
    omega
  | succ i ih =>
    have hlt : i + 1 < cs.length := (List.getElem?_eq_some_iff.mp hc).1
    have hd : cs[i]? = some cs[i] := List.getElem?_eq_getElem (by omega)
    obtain ⟨-, hprior⟩ := h.getElem hc
    have hshared := (hprior cs[i].key (fun h0 => by omega) fun j hj => by
      obtain rfl : i = j := by omega
      rw [hd]
      rfl).1
    have hle := ih hd
    have hlen := c.length_bytes
    rw [offset_succ hc]
    omega

/-! ## Parsing an entry -/

lemma getVarint32_cons {x : UInt8} (hx : x.toNat < 128) (rest : Bytes) :
    getVarint32 (x :: rest) = some (x.toNat, rest) := by
  rw [getVarint32, if_pos ((and_128_eq_zero x.toNat (x.toNat_lt)).mpr hx)]

/-- The fast path reads what the other one reads. -/
lemma decodeLengths_eq {input : Bytes} (h : 3 ≤ input.length) :
    decodeLengths input = (do
      let (shared, p) ← getVarint32 input
      let (nonShared, p) ← getVarint32 p
      let (valueLength, p) ← getVarint32 p
      some (shared, nonShared, valueLength, p)) := by
  match input, h with
  | s :: n :: v :: rest, _ =>
    rw [decodeLengths]
    split
    · next hsmall =>
      have hs : s.toNat < 128 :=
        lt_of_le_of_lt (le_trans Nat.left_le_or Nat.left_le_or) hsmall
      have hn : n.toNat < 128 :=
        lt_of_le_of_lt (le_trans Nat.right_le_or Nat.left_le_or) hsmall
      have hv : v.toNat < 128 := lt_of_le_of_lt Nat.right_le_or hsmall
      rw [getVarint32_cons hs]
      simp [getVarint32_cons hn, getVarint32_cons hv]
    · rfl

/-- The lengths of an entry are read back, and behind them come the bytes of its key that are not
shared, its value and the rest. -/
lemma decodeEntry_append (hshared : c.shared < 2 ^ 32) (rest : Bytes)
    (hlen : (c.bytes ++ rest).length < 2 ^ 32) :
    decodeEntry (c.bytes ++ rest) =
      some (c.shared, c.key.length - c.shared, c.value.length,
        c.key.drop c.shared ++ (c.value ++ rest)) := by
  have hbytes := c.length_bytes
  rw [List.length_append] at hlen
  have hlengths : decodeLengths (c.bytes ++ rest) =
      some (c.shared, c.key.length - c.shared, c.value.length,
        c.key.drop c.shared ++ (c.value ++ rest)) := by
    rw [decodeLengths_eq (by rw [List.length_append]; omega), Chunk.bytes, entryBytes]
    simp only [List.append_assoc]
    rw [getVarint32_append hshared]
    dsimp only [Option.bind_eq_bind, Option.bind_some]
    rw [getVarint32_append (by omega)]
    dsimp only [Option.bind_some]
    rw [getVarint32_append (by omega)]
    rfl
  rw [decodeEntry, hlengths]
  dsimp only
  rw [if_neg]
  rw [List.length_append, List.length_append, List.length_drop, Nat.mod_eq_of_lt (by omega),
    Nat.mod_eq_of_lt (by omega)]
  omega

/-- At the offset of an entry begin its bytes and those of the entries behind it. -/
lemma IsBlock.entriesFrom (h : IsBlock b cs points) (hc : cs[i]? = some c) :
    b.entriesFrom (offset cs i) = c.bytes ++ (cs.drop (i + 1)).flatMap Chunk.bytes := by
  have hlt := (List.getElem?_eq_some_iff.mp hc).1
  have hdrop : cs.drop i = c :: cs.drop (i + 1) := by
    rw [List.drop_eq_getElem_cons hlt, (List.getElem?_eq_some_iff.mp hc).2]
  rw [Block.entriesFrom, h.entries, ← List.flatMap_cons, ← hdrop, offset]
  conv_lhs => rw [← List.take_append_drop i cs, List.flatMap_append]
  rw [List.take_append_drop, List.drop_left]

/-- What comes of an entry where it begins. -/
lemma IsBlock.decodeEntry (hb : IsBlock b cs points) (hc : cs[i]? = some c) :
    ∃ rest, decodeEntry (b.entriesFrom (offset cs i)) =
        some (c.shared, c.key.length - c.shared, c.value.length,
          c.key.drop c.shared ++ (c.value ++ rest)) ∧
      offset cs (i + 1) + rest.length = b.restartOffset := by
  have hlt := (List.getElem?_eq_some_iff.mp hc).1
  have hoffset := offset_succ hc
  have hend := @offset_mono cs (i + 1) cs.length hlt
  have hsmall := hb.small
  have hlimit := hb.restartOffset
  have hkey := hb.chained.length_key_le hc
  obtain ⟨hle, -⟩ := hb.chained.getElem hc
  have hfrom := hb.entriesFrom hc
  have hlen : (c.bytes ++ (cs.drop (i + 1)).flatMap Chunk.bytes).length =
      b.restartOffset - offset cs i := by
    rw [← hfrom, Block.entriesFrom, hb.entries, List.length_drop, hlimit, offset_length]
  refine ⟨(cs.drop (i + 1)).flatMap Chunk.bytes, ?_, ?_⟩
  · rw [hfrom]
    exact decodeEntry_append (by omega) _ (by rw [hlen]; omega)
  · rw [List.length_append] at hlen
    omega

/-- The iterator stands on the entry with this number. -/
structure At (b : Block) (cs : List Chunk) (it : BlockIter) (i : ℕ) (c : Chunk) : Prop where
  chunk : cs[i]? = some c
  key : it.key = c.key
  current : it.current = offset cs i
  valueStart : it.valueStart + c.value.length = offset cs (i + 1)
  valueLength : it.valueLength = c.value.length
  index : it.restartIndex < b.numRestarts
  status : it.status = .ok

/-- The iterator can parse the entry with this number, or it is behind the last. -/
structure Ready (b : Block) (cs : List Chunk) (it : BlockIter) (i : ℕ) : Prop where
  next : it.nextEntryOffset = offset cs i
  shared : ∀ c, cs[i]? = some c → c.shared ≤ it.key.length ∧ it.key.take c.shared =
    c.key.take c.shared
  index : it.restartIndex < b.numRestarts
  status : it.status = .ok

/-- The loop of `ParseNextKey` stays within the restart array. -/
lemma advanceRestart_lt {current index : ℕ} (h : index < b.numRestarts) :
    b.advanceRestart current index < b.numRestarts := by
  fun_induction Block.advanceRestart b current index with
  | case1 index hcond ih => exact ih hcond.1
  | case2 index hcond => exact h

/-- `ParseNextKey` leads to the entry that comes next. -/
lemma Ready.parseNextKey (h : Ready b cs it i) (hb : IsBlock b cs points)
    (hc : cs[i]? = some c) :
    (it.parseNextKey b).1 = true ∧ At b cs (it.parseNextKey b).2 i c := by
  obtain ⟨rest, hdecode, hrest⟩ := hb.decodeEntry hc
  obtain ⟨hshared, htake⟩ := h.shared c hc
  have hlt := offset_lt hc
  have hoffset := offset_succ hc
  have hbytes := c.length_bytes
  unfold BlockIter.parseNextKey
  dsimp only
  rw [h.next, if_neg (by omega), hdecode]
  dsimp only
  rw [if_neg (by omega)]
  refine ⟨rfl, hc, ?_, rfl, ?_, rfl, advanceRestart_lt h.index, h.status⟩
  · dsimp only
    rw [htake, List.take_left' (by rw [List.length_drop]), List.take_append_drop]
  · dsimp only
    simp only [List.length_append, List.length_drop]
    omega

/-! ## Moving -/

/-- Behind the last entry. -/
structure Off (b : Block) (it : BlockIter) : Prop where
  current : it.current = b.restartOffset
  status : it.status = .ok

/-- Where a move has led. -/
def Lands (b : Block) (cs : List Chunk) (it : BlockIter) (i : ℕ) : Prop :=
  (∃ c, At b cs it i c) ∨ i = cs.length ∧ Off b it

/-- On an entry, the iterator has the key that the next entry shares bytes with. -/
lemma At.ready (h : At b cs it i c) (hb : IsBlock b cs points) : Ready b cs it (i + 1) := by
  refine ⟨?_, fun d hd => ?_, h.index, h.status⟩
  · rw [BlockIter.nextEntryOffset, h.valueLength]
    exact h.valueStart
  · rw [h.key]
    refine (hb.chained.getElem hd).2 c.key (fun h0 => by omega) fun j hj => ?_
    obtain rfl : i = j := by omega
    rw [h.chunk]
    rfl

/-- Behind the last entry it finds that there are no more. -/
lemma Ready.parseNextKey_end (h : Ready b cs it cs.length) (hb : IsBlock b cs points) :
    (it.parseNextKey b).1 = false ∧ Off b (it.parseNextKey b).2 := by
  unfold BlockIter.parseNextKey
  dsimp only
  rw [h.next, if_pos (le_of_eq hb.restartOffset)]
  exact ⟨rfl, rfl, h.status⟩

lemma Ready.lands (h : Ready b cs it i) (hb : IsBlock b cs points) (hi : i ≤ cs.length) :
    Lands b cs (it.parseNextKey b).2 i := by
  rcases Nat.lt_or_ge i cs.length with hlt | hge
  · exact Or.inl ⟨cs[i], (h.parseNextKey hb (List.getElem?_eq_getElem hlt)).2⟩
  · obtain rfl : i = cs.length := by omega
    exact Or.inr ⟨rfl, (h.parseNextKey_end hb).2⟩

/-- The loops end at the first entry where `more` does not hold. -/
lemma Ready.parseWhile {a : ℕ} (h : Ready b cs it a) (hb : IsBlock b cs points) (ha : a ≤ i)
    (hi : i ≤ cs.length) {more : BlockIter → Bool}
    (hmore : ∀ j d it', a ≤ j → j < i → At b cs it' j d → more it' = true)
    (hstop : ∀ d it', At b cs it' i d → more it' = false) {n : ℕ} (hn : cs.length - a < n) :
    Lands b cs (it.parseWhile b more n) i := by
  induction n generalizing it a with
  | zero => omega
  | succ n ih =>
    rw [BlockIter.parseWhile]
    rcases Nat.lt_or_ge a cs.length with hlt | hge
    · obtain ⟨htrue, hat⟩ := h.parseNextKey hb (List.getElem?_eq_getElem hlt)
      rcases Nat.lt_or_ge a i with hai | hai
      · rw [htrue, hmore a _ _ (le_refl a) hai hat, Bool.and_self, if_pos rfl]
        exact ih (hat.ready hb) hai (fun j d it' hj => hmore j d it' (by omega)) (by omega)
      · obtain rfl : a = i := by omega
        rw [hstop _ _ hat, Bool.and_false, if_neg Bool.false_ne_true]
        exact Or.inl ⟨_, hat⟩
    · obtain rfl : a = cs.length := by omega
      obtain ⟨hfalse, hoff⟩ := h.parseNextKey_end hb
      rw [hfalse, Bool.false_and, if_neg Bool.false_ne_true]
      exact Or.inr ⟨by omega, hoff⟩

/-- The number of rounds the loops are given is enough. -/
lemma IsBlock.length_lt (hb : IsBlock b cs points) (a : ℕ) :
    cs.length - a < b.restartOffset + 1 := by
  have hle := le_offset (le_refl cs.length)
  rw [hb.restartOffset]
  omega

/-- There is a restart point in every block, also in an empty one. -/
lemma IsBlock.pos (hb : IsBlock b cs points) : 0 < b.numRestarts := by
  rw [hb.numRestarts]
  exact (List.getElem?_eq_some_iff.mp hb.first).1

/-- At a restart point no key is needed. -/
lemma IsBlock.ready (hb : IsBlock b cs points) (hstatus : it.status = .ok) {j p : ℕ}
    (hp : points[j]? = some p) : Ready b cs (it.seekToRestartPoint b j) p where
  next := by
    rw [BlockIter.nextEntryOffset, BlockIter.seekToRestartPoint]
    exact hb.point j p hp
  shared := by
    intro c hc
    rw [hb.whole p (List.mem_of_getElem? hp) c hc]
    exact ⟨Nat.zero_le _, rfl⟩
  index := by
    rw [hb.numRestarts]
    exact (List.getElem?_eq_some_iff.mp hp).1
  status := hstatus

lemma IsBlock.range_le (hb : IsBlock b cs points) {j p : ℕ} (hp : points[j]? = some p) :
    p ≤ cs.length := by
  rcases hb.range p (List.mem_of_getElem? hp) with hlt | ⟨rfl, -⟩
  · exact le_of_lt hlt
  · exact Nat.zero_le _

/-- `SeekToFirst` lands on the first entry. -/
lemma lands_seekToFirst (hb : IsBlock b cs points) (hstatus : it.status = .ok) :
    Lands b cs (it.seekToFirst b) 0 :=
  (hb.ready hstatus hb.first).lands hb (Nat.zero_le _)

lemma At.nextEntryOffset (h : At b cs it i c) : it.nextEntryOffset = offset cs (i + 1) := by
  rw [BlockIter.nextEntryOffset, h.valueLength]
  exact h.valueStart

lemma At.lt (h : At b cs it i c) : i < cs.length := (List.getElem?_eq_some_iff.mp h.chunk).1

/-- `SeekToLast` lands on the last one: the loop stops where an entry ends at the restart array.
-/
lemma lands_seekToLast (hb : IsBlock b cs points) (hstatus : it.status = .ok) :
    Lands b cs (it.seekToLast b) (cs.length - 1) := by
  have hpos := hb.pos
  obtain ⟨p, hp⟩ : ∃ p, points[b.numRestarts - 1]? = some p := by
    rw [hb.numRestarts] at hpos ⊢
    exact ⟨_, List.getElem?_eq_getElem (by omega)⟩
  have hle : p ≤ cs.length - 1 := by
    rcases hb.range p (List.mem_of_getElem? hp) with hlt | ⟨rfl, -⟩ <;> omega
  refine (hb.ready hstatus hp).parseWhile hb hle (Nat.sub_le _ _) (fun j d it' _ hj hat => ?_)
    (fun d it' hat => ?_) (hb.length_lt p)
  · rw [decide_eq_true_iff, hat.nextEntryOffset, hb.restartOffset,
      offset_lt_iff (by omega) (le_refl _)]
    omega
  · have hlt := hat.lt
    rw [decide_eq_false_iff_not, hat.nextEntryOffset, hb.restartOffset,
      offset_lt_iff (by omega) (le_refl _)]
    omega

/-- `Next` lands on the entry behind. -/
lemma lands_next (h : At b cs it i c) (hb : IsBlock b cs points) :
    Lands b cs (it.next b) (i + 1) :=
  (h.ready hb).lands hb h.lt

/-- The restart point in front of an entry, or the entry is the first. -/
lemma restartBefore_spec (hb : IsBlock b cs points) (hi : i ≤ cs.length) {index : ℕ}
    (hindex : index < b.numRestarts) :
    (b.restartBefore (offset cs i) index = none → i = 0) ∧
      ∀ j, b.restartBefore (offset cs i) index = some j → ∃ p, points[j]? = some p ∧ p < i := by
  have hpoint : ∀ j, j < b.numRestarts → ∃ p, points[j]? = some p ∧
      (offset cs i ≤ b.getRestartPoint j ↔ i ≤ p) := by
    intro j hj
    rw [hb.numRestarts] at hj
    have hp := List.getElem?_eq_getElem hj
    refine ⟨points[j], hp, ?_⟩
    rw [hb.point j _ hp, ← not_lt, offset_lt_iff (hb.range_le hp) hi, not_lt]
  induction index with
  | zero =>
    obtain ⟨p, hp, hiff⟩ := hpoint 0 hindex
    have hzero : p = 0 := by
      rw [hb.first] at hp
      exact (Option.some_inj.mp hp).symm
    rw [hzero] at hiff
    rw [Block.restartBefore]
    split
    · next hle => exact ⟨fun _ => Nat.le_zero.mp (hiff.mp hle), fun j hj => by cases hj⟩
    · next hnle =>
      refine ⟨fun h => (by cases h), fun j hj => ?_⟩
      cases hj
      rw [hiff] at hnle
      exact ⟨0, hb.first, by omega⟩
  | succ index ih =>
    obtain ⟨p, hp, hiff⟩ := hpoint (index + 1) hindex
    rw [Block.restartBefore]
    split
    · exact ih (by omega)
    · next hnle =>
      refine ⟨fun h => (by cases h), fun j hj => ?_⟩
      cases hj
      rw [hiff] at hnle
      exact ⟨p, hp, by omega⟩

/-- `Prev` lands on the entry in front; from the first one it goes off the end, like a step past
the last. -/
lemma lands_prev (h : At b cs it i c) (hb : IsBlock b cs points) :
    Lands b cs (it.prev b) (if i = 0 then cs.length else i - 1) := by
  have hlt := h.lt
  obtain ⟨hnone, hsome⟩ := restartBefore_spec hb (le_of_lt hlt) h.index
  unfold BlockIter.prev
  rw [h.current]
  split
  · next hbefore =>
    rw [if_pos (hnone hbefore)]
    exact Or.inr ⟨rfl, rfl, h.status⟩
  · next index hbefore =>
    obtain ⟨p, hp, hpi⟩ := hsome index hbefore
    rw [if_neg (by omega)]
    refine (hb.ready h.status hp).parseWhile hb (by omega) (by omega)
      (fun j d it' _ hj hat => ?_) (fun d it' hat => ?_) (hb.length_lt p)
    · rw [decide_eq_true_iff, hat.nextEntryOffset, offset_lt_iff (by omega) (le_of_lt hlt)]
      omega
    · rw [decide_eq_false_iff_not, hat.nextEntryOffset, offset_lt_iff (by omega) (le_of_lt hlt)]
      omega

/-! ## Seeking -/

variable {P : Type*} [LinearOrder P] {compare : Bytes → Bytes → Ordering} {place : Bytes → P}

/-- The search ends at a restart point with nothing in front of it to look for. -/
lemma searchRestarts_spec (hb : IsBlock b cs points) (target : Bytes) {left right : ℕ}
    (hright : right < b.numRestarts)
    (hleft : ∃ p, points[left]? = some p ∧
      (p = 0 ∨ ∃ c, cs[p]? = some c ∧ compare c.key target = .lt)) :
    ∃ found p, b.searchRestarts compare target left right = some found ∧
      points[found]? = some p ∧
      (p = 0 ∨ ∃ c, cs[p]? = some c ∧ compare c.key target = .lt) := by
  generalize hn : right - left = n
  induction n using Nat.strongRecOn generalizing left right with
  | ind n ih =>
    rw [Block.searchRestarts]
    split
    · next hlt =>
      have hmid : (left + right + 1) / 2 < points.length := by
        rw [hb.numRestarts] at hright
        omega
      have hp := List.getElem?_eq_getElem hmid
      have hrange : points[(left + right + 1) / 2] < cs.length := by
        rcases hb.range _ (List.mem_of_getElem? hp) with hin | ⟨-, hnil⟩
        · exact hin
        · rw [hb.single hnil, List.length_singleton] at hmid
          omega
      have hc := List.getElem?_eq_getElem hrange
      obtain ⟨rest, hdecode, -⟩ := hb.decodeEntry hc
      have hshared := hb.whole _ (List.mem_of_getElem? hp) _ hc
      dsimp only
      rw [hb.point _ _ hp, hdecode, hshared]
      dsimp only
      rw [if_neg (by simp), Nat.sub_zero, List.drop_zero, List.take_left]
      split
      · next hbefore => exact ih _ (by omega) hright ⟨_, hp, Or.inr ⟨_, hc, hbefore⟩⟩ rfl
      · exact ih _ (by omega) (by omega) hleft rfl
    · obtain ⟨p, hp, hbefore⟩ := hleft
      exact ⟨left, p, rfl, hp, hbefore⟩

/-- `Seek` lands on the first key that is not in front of the target: all keys in front of the
restart point it starts from are. -/
lemma lands_seek (hb : IsBlock b cs points) (hstatus : it.status = .ok)
    (hcompare : Compares compare place)
    (hsorted : Ascending (fun e => place e.1) (cs.map Chunk.entry)) (target : Bytes) {k : ℕ}
    (hk : k ≤ cs.length) (hbefore : ∀ j d, j < k → cs[j]? = some d → compare d.key target = .lt)
    (hat : ∀ d, cs[k]? = some d → compare d.key target ≠ .lt) :
    Lands b cs (it.seek b compare target) k := by
  obtain ⟨found, p, hfound, hp, hfront⟩ := searchRestarts_spec hb target
    (Nat.sub_lt hb.pos Nat.one_pos) ⟨0, hb.first, Or.inl rfl⟩
  have hle : p ≤ k := by
    rcases hfront with rfl | ⟨c, hc, hlt⟩
    · exact Nat.zero_le _
    · by_contra hgt
      have hplt := (List.getElem?_eq_some_iff.mp hc).1
      have hd : cs[k]? = some cs[k] := List.getElem?_eq_getElem (by omega)
      have hplace : place cs[k].key < place c.key := by
        rw [Ascending, List.pairwise_map, List.pairwise_iff_getElem] at hsorted
        have hpair := hsorted k p (by omega) hplt (by omega)
        rw [(List.getElem?_eq_some_iff.mp hc).2] at hpair
        exact hpair
      rw [hcompare.lt_iff] at hlt
      exact hat _ hd (hcompare.lt_iff.mpr (lt_trans hplace hlt))
  rw [BlockIter.seek, hfound]
  dsimp only
  refine (hb.ready hstatus hp).parseWhile hb hle hk (fun j d it' _ hj hin => ?_)
    (fun d it' hin => ?_) (hb.length_lt p)
  · rw [decide_eq_true_iff, hin.key]
    exact hbefore j d hj hin.chunk
  · rw [decide_eq_false_iff_not, hin.key]
    exact hat d hin.chunk

/-! ## Runs -/

/-- The value is the part of the block that the iterator has noted. -/
lemma At.shown (h : At b cs it i c) (hb : IsBlock b cs points) :
    it.shown b = some c.entry := by
  have hlt := h.lt
  have hvalid : it.valid b = true := by
    rw [BlockIter.valid, decide_eq_true_iff, h.current, hb.restartOffset,
      offset_lt_iff (le_of_lt hlt) (le_refl _)]
    exact hlt
  obtain ⟨header, hbytes⟩ : ∃ header, c.bytes = header ++ c.value :=
    ⟨encodeVarint32 c.shared ++ (encodeVarint32 (c.key.length - c.shared) ++
      (encodeVarint32 c.value.length ++ c.key.drop c.shared)), by simp [Chunk.bytes, entryBytes]⟩
  have hdrop : cs.drop i = c :: cs.drop (i + 1) := by
    rw [List.drop_eq_getElem_cons hlt, (List.getElem?_eq_some_iff.mp h.chunk).2]
  have hdata : b.data = ((cs.take i).flatMap Chunk.bytes ++ header) ++
      (c.value ++ ((cs.drop (i + 1)).flatMap Chunk.bytes ++ b.data.drop b.restartOffset)) := by
    conv_lhs => rw [← List.take_append_drop b.restartOffset b.data, hb.entries,
      ← List.take_append_drop i cs, List.flatMap_append, hdrop, List.flatMap_cons, hbytes]
    simp only [List.append_assoc]
  have hstart : ((cs.take i).flatMap Chunk.bytes ++ header).length = it.valueStart := by
    have hvalue := h.valueStart
    have hoffset := offset_succ h.chunk
    rw [hbytes, List.length_append] at hoffset
    rw [List.length_append, ← offset]
    omega
  rw [BlockIter.shown, if_pos hvalid, hdata, ← hstart, List.drop_left, h.valueLength,
    List.take_left, h.key]
  rfl

lemma Lands.le (h : Lands b cs it i) : i ≤ cs.length := by
  rcases h with ⟨c, hat⟩ | ⟨rfl, -⟩
  · exact le_of_lt hat.lt
  · exact le_refl _

lemma Lands.status (h : Lands b cs it i) : it.status = .ok := by
  rcases h with ⟨c, hat⟩ | ⟨-, hoff⟩
  · exact hat.status
  · exact hoff.status

/-- The iterator stands where a cursor over the entries stands. -/
def Stand (b : Block) (cs : List Chunk) (it : BlockIter) (z : Zipper (Bytes × Bytes)) : Prop :=
  ∃ i, Lands b cs it i ∧
    z = .between ((cs.map Chunk.entry).take i) ((cs.map Chunk.entry).drop i)

variable {z : Zipper (Bytes × Bytes)}

/-- Key and value of the iterator are the entry of the cursor. -/
lemma Stand.shown_eq (h : Stand b cs it z) (hb : IsBlock b cs points) :
    it.shown b = z.current := by
  obtain ⟨i, hlands, rfl⟩ := h
  rw [Zipper.between, Zipper.current, List.head?_drop, List.getElem?_map]
  rcases hlands with ⟨c, hat⟩ | ⟨rfl, hoff⟩
  · rw [hat.shown hb, hat.chunk, Option.map_some]
  · have hvalid : it.valid b = false := by
      rw [BlockIter.valid, hoff.current, decide_eq_false_iff_not]
      exact lt_irrefl _
    rw [BlockIter.shown, hvalid, if_neg Bool.false_ne_true, List.getElem?_eq_none (le_refl _)]
    rfl

/-- An iterator that can be moved stands on an entry. -/
lemma Lands.at_of_current (h : Lands b cs it i)
    (hz : (Zipper.between ((cs.map Chunk.entry).take i) ((cs.map Chunk.entry).drop i)).current ≠
      none) : ∃ c, At b cs it i c := by
  rcases h with hat | ⟨rfl, -⟩
  · exact hat
  · rw [Zipper.between, Zipper.current, List.head?_drop, List.getElem?_eq_none (by simp)] at hz
    exact absurd rfl hz

/-- Every call moves the iterator as it moves the cursor. -/
lemma Stand.call (h : Stand b cs it z) (hb : IsBlock b cs points)
    (hcompare : Compares compare place)
    (hsorted : Ascending (fun e => place e.1) (cs.map Chunk.entry)) {k : Zipper.Call Bytes}
    (hlegal : k = .next ∨ k = .prev → z.current ≠ none) :
    Stand b cs (it.call b compare k) (z.call (MergingIterator.isBefore compare) k) := by
  obtain ⟨i, hlands, rfl⟩ := h
  have hstatus := hlands.status
  have hall : (Zipper.between ((cs.map Chunk.entry).take i) ((cs.map Chunk.entry).drop i)).all =
      cs.map Chunk.entry := by
    rw [Zipper.all_between, List.take_append_drop]
  cases k with
  | seek target =>
    obtain ⟨hbefore, hat, hseek⟩ :=
      Zipper.seek_eq_between (MergingIterator.isBefore compare target) (cs.map Chunk.entry)
    refine ⟨_, lands_seek hb hstatus hcompare hsorted target (k :=
      ((cs.map Chunk.entry).takeWhile (MergingIterator.isBefore compare target)).length) ?_ ?_ ?_,
      ?_⟩
    · have hle := (List.takeWhile_sublist (MergingIterator.isBefore compare target)
        (l := cs.map Chunk.entry)).length_le
      rwa [List.length_map] at hle
    · intro j d hj hd
      have hin := hbefore j d.entry hj (by rw [List.getElem?_map, hd]; rfl)
      rwa [MergingIterator.isBefore, decide_eq_true_iff] at hin
    · intro d hd
      have hout := hat d.entry (by rw [List.getElem?_map, hd]; rfl)
      rwa [MergingIterator.isBefore, decide_eq_false_iff_not] at hout
    · rw [Zipper.call, hall, hseek]
  | seekToFirst =>
    refine ⟨0, lands_seekToFirst hb hstatus, ?_⟩
    rw [Zipper.call, hall]
    rfl
  | seekToLast =>
    refine ⟨cs.length - 1, lands_seekToLast hb hstatus, ?_⟩
    rw [Zipper.call, hall, Zipper.last_eq]
    rcases List.eq_nil_or_concat cs with rfl | ⟨front, c, rfl⟩
    · rfl
    · rw [List.concat_eq_append, List.map_append, List.map_singleton, Zipper.prev_between_append,
        List.length_append, List.length_singleton, Nat.add_sub_cancel,
        List.take_left' (by rw [List.length_map]), List.drop_left' (by rw [List.length_map])]
  | next =>
    obtain ⟨c, hat⟩ := hlands.at_of_current (hlegal (Or.inl rfl))
    refine ⟨i + 1, lands_next hat hb, ?_⟩
    have hlt : i < (cs.map Chunk.entry).length := by
      rw [List.length_map]
      exact hat.lt
    rw [Zipper.call, List.drop_eq_getElem_cons hlt, Zipper.next_between_cons,
      List.take_append_getElem hlt]
  | prev =>
    obtain ⟨c, hat⟩ := hlands.at_of_current (hlegal (Or.inr rfl))
    refine ⟨_, lands_prev hat hb, ?_⟩
    rw [Zipper.call]
    cases i with
    | zero =>
      rw [if_pos rfl, List.take_zero, List.drop_zero, Zipper.prev_between_nil,
        ← List.length_map Chunk.entry, List.take_length, List.drop_length]
    | succ i =>
      have hlt : i < (cs.map Chunk.entry).length := by
        have := hat.lt
        rw [List.length_map]
        omega
      rw [if_neg (Nat.succ_ne_zero i), Nat.add_sub_cancel, ← List.take_append_getElem hlt,
        Zipper.prev_between_append, ← List.drop_eq_getElem_cons hlt]

/-- So does every sequence of calls, of which `next` and `prev` are made at an entry. -/
lemma Stand.run (h : Stand b cs it z) (hb : IsBlock b cs points)
    (hcompare : Compares compare place)
    (hsorted : Ascending (fun e => place e.1) (cs.map Chunk.entry))
    {calls : List (Zipper.Call Bytes)}
    (hlegal : Zipper.Legal (MergingIterator.isBefore compare) z calls) :
    Stand b cs (calls.foldl (BlockIter.call b · compare) it)
      (calls.foldl (Zipper.call (MergingIterator.isBefore compare)) z) := by
  induction calls generalizing it z with
  | nil => exact h
  | cons k calls ih => exact ih (h.call hb hcompare hsorted hlegal.1) hlegal.2

lemma stand_newIterator : Stand b cs b.newIterator ⟨(cs.map Chunk.entry).reverse, []⟩ := by
  refine ⟨cs.length, Or.inr ⟨rfl, rfl, rfl⟩, ?_⟩
  rw [← List.length_map Chunk.entry, List.take_length, List.drop_length, Zipper.between]

end

/-- **Blocks.** Whatever the restart interval, the block that was built of entries in order is
opened, and an iterator over it, moved in any way, is a cursor over these entries. -/
theorem block_iterator_is_cursor {P : Type*} [LinearOrder P] {compare : Bytes → Bytes → Ordering}
    {place : Bytes → P} (hcompare : Compares compare place) (interval : ℕ)
    (entries : List (Bytes × Bytes)) (hsorted : Ascending (fun e => place e.1) entries)
    (hsize : (BlockBuilder.build interval entries).length < 2 ^ 32)
    (calls : List (Zipper.Call Bytes))
    (hlegal : Zipper.Legal (MergingIterator.isBefore compare) ⟨entries.reverse, []⟩ calls) :
    ∃ b, Block.new (BlockBuilder.build interval entries) = some b ∧ 0 < b.numRestarts ∧
      let it := calls.foldl (BlockIter.call b · compare) b.newIterator
      it.status = .ok ∧
      it.shown b = (calls.foldl (Zipper.call (MergingIterator.isBefore compare))
        ⟨entries.reverse, []⟩).current := by
  obtain ⟨cs, points, hbuilt, rfl⟩ := built_foldl interval entries
  obtain ⟨b, hnew, hb⟩ := hbuilt.isBlock hsize
  have hrun := stand_newIterator.run hb hcompare hsorted hlegal
  refine ⟨b, hnew, hb.pos, ?_, hrun.shown_eq hb⟩
  obtain ⟨i, hlands, -⟩ := hrun
  exact hlands.status

/-- There and back over a key that is shared in part. -/
theorem block_iterator_is_cursor_there_and_back :
    ∃ b, Block.new (BlockBuilder.build 2 [([1], [7]), ([1, 2], [8]), ([1, 3], [9])]) = some b ∧
      ([Zipper.Call.seek [1, 3], .prev, .prev, .next].foldl (BlockIter.call b · compareSlices)
        b.newIterator).shown b = some ([1, 2], [8]) := by
  have hsorted : Ascending (fun e : Bytes × Bytes => e.1)
      [([1], [7]), ([1, 2], [8]), ([1, 3], [9])] := by
    unfold Zipper.Ascending
    decide
  have hcompare : Compares compareSlices (fun key : Bytes => key) := by
    intro a b
    rw [compareSlices_eq]
    split_ifs <;> rfl
  obtain ⟨b, hnew, -, -, hshown⟩ := block_iterator_is_cursor hcompare 2
    [([1], [7]), ([1, 2], [8]), ([1, 3], [9])] hsorted (by decide +kernel)
    [.seek [1, 3], .prev, .prev, .next] (by
      simp only [Zipper.Legal, and_true]
      decide)
  exact ⟨b, hnew, hshown.trans (by decide)⟩

end Engine

end RnLeveldb
