import RnLeveldb.Engine.MemTable
import RnLeveldb.Lib.Cursor
import RnLeveldb.Lib.Zipper

/-!
# `DBIter`

An iterator of the database goes over internal entries, which are versions of keys, and shows
of each key the value that its snapshot sees. Going forward it stands on the entry it shows; going
back it stands in front of all entries of the key it shows, which it has saved.

The internal iterator is a cursor over a list of entries. What `ParseKey` samples for compactions
is left out.
-/

namespace RnLeveldb

namespace Engine

open Versions

inductive Direction where
  | forward
  | reverse
deriving DecidableEq

/-- An internal key and a value. -/
abbrev InternalEntry := Bytes × Bytes

structure DbIter where
  iter : Zipper InternalEntry
  sequence : ℕ
  status : Status
  savedKey : Bytes
  savedValue : Bytes
  direction : Direction
  valid : Bool

namespace DbIter

def new (entries : List InternalEntry) (sequence : ℕ) : DbIter where
  iter := ⟨entries.reverse, []⟩
  sequence := sequence
  status := .ok
  savedKey := []
  savedValue := []
  direction := .forward
  valid := false

def key (it : DbIter) : Bytes :=
  match it.direction with
  | .forward => (it.iter.current.map fun e => extractUserKey e.1).getD []
  | .reverse => it.savedKey

def value (it : DbIter) : Bytes :=
  match it.direction with
  | .forward => (it.iter.current.map Prod.snd).getD []
  | .reverse => it.savedValue

/-- `ParseKey` of an entry. -/
def parseKey (it : DbIter) (e : InternalEntry) : Option ParsedInternalKey × DbIter :=
  match parseInternalKey e.1 with
  | some ikey => (some ikey, it)
  | none => (none, { it with status := .fail (corruption "corrupted internal key in DBIter") })

/-- The loop of `FindNextUserEntry` over the entries from the current one on. The key to skip is
`saved_key_` in every call. -/
def findNextLoop (it : DbIter) (skipping : Bool) (before : List InternalEntry) :
    List InternalEntry → DbIter
  | [] => { it with iter := ⟨before, []⟩, savedKey := [], valid := false }
  | e :: rest =>
    match it.parseKey e with
    | (some ikey, it) =>
      if ikey.sequence ≤ it.sequence then
        match ikey.type with
        | .deletion => findNextLoop { it with savedKey := ikey.userKey } true (e :: before) rest
        | .value =>
          if skipping ∧ compareSlices ikey.userKey it.savedKey ≠ .gt then
            findNextLoop it skipping (e :: before) rest
          else { it with iter := ⟨before, e :: rest⟩, savedKey := [], valid := true }
      else findNextLoop it skipping (e :: before) rest
    | (none, it) => findNextLoop it skipping (e :: before) rest

def findNextUserEntry (it : DbIter) (skipping : Bool) : DbIter :=
  it.findNextLoop skipping it.iter.before it.iter.rest

/-- The loop of `FindPrevUserEntry`. `left` are the entries from the current one back. -/
def findPrevLoop (it : DbIter) (type : ValueType) :
    (left right : List InternalEntry) → ValueType × DbIter
  | [], right => (type, { it with iter := ⟨right.reverse, []⟩ })
  | e :: left, right =>
    match it.parseKey e with
    | (some ikey, it) =>
      if ikey.sequence ≤ it.sequence then
        -- a value that is not deleted was found, and this is an entry of another key
        if type ≠ .deletion ∧ compareSlices ikey.userKey it.savedKey = .lt then
          (type, { it with iter := ⟨left, e :: right⟩ })
        else
          match ikey.type with
          | .deletion =>
            findPrevLoop { it with savedKey := [], savedValue := [] } .deletion left (e :: right)
          | .value =>
            findPrevLoop { it with savedKey := extractUserKey e.1, savedValue := e.2 } .value left
              (e :: right)
      else findPrevLoop it type left (e :: right)
    | (none, it) => findPrevLoop it type left (e :: right)

/-- After the loop. -/
def endPrev : ValueType × DbIter → DbIter
  | (.deletion, it) =>
    { it with valid := false, savedKey := [], savedValue := [], direction := .forward }
  | (.value, it) => { it with valid := true }

def findPrevUserEntry (it : DbIter) : DbIter :=
  match it.iter.rest with
  | [] => endPrev (.deletion, it)
  | e :: right => endPrev (it.findPrevLoop .deletion (e :: it.iter.before) right)

/-- The loop of `Prev` that goes back until the key changes. -/
def leaveKey (savedKey : Bytes) (before rest : List InternalEntry) : Zipper InternalEntry :=
  match before with
  | [] => ⟨rest.reverse, []⟩
  | e :: before =>
    if compareSlices (extractUserKey e.1) savedKey = .lt then ⟨before, e :: rest⟩
    else leaveKey savedKey before (e :: rest)

def next (it : DbIter) : DbIter :=
  let it :=
    match it.direction with
    | .reverse =>
      -- the entries of the current key come now
      { it with
        direction := .forward
        iter := if it.iter.valid then it.iter.next else .first it.iter.all }
    | .forward => { it with savedKey := it.key, iter := it.iter.next }
  if it.iter.valid then it.findNextUserEntry true
  else { it with valid := false, savedKey := [] }

def prev (it : DbIter) : DbIter :=
  match it.direction with
  | .forward =>
    let it := { it with savedKey := it.key, iter := leaveKey it.key it.iter.before it.iter.rest }
    if it.iter.valid then { it with direction := .reverse }.findPrevUserEntry
    else { it with valid := false, savedKey := [], savedValue := [] }
  | .reverse => it.findPrevUserEntry

def seek (it : DbIter) (target : Bytes) : DbIter :=
  let savedKey := appendInternalKey ⟨target, it.sequence, kValueTypeForSeek⟩
  let it := { it with
    direction := .forward
    savedValue := []
    savedKey := savedKey
    iter := .seek (fun e => compareInternalKeys e.1 savedKey = Ordering.lt) it.iter.all }
  if it.iter.valid then it.findNextUserEntry false else { it with valid := false }

def seekToFirst (it : DbIter) : DbIter :=
  let it := { it with direction := .forward, savedValue := [], iter := .first it.iter.all }
  if it.iter.valid then it.findNextUserEntry false else { it with valid := false }

def seekToLast (it : DbIter) : DbIter :=
  { it with direction := .reverse, savedValue := [], iter := .last it.iter.all }.findPrevUserEntry

end DbIter

def DbIter.call (it : DbIter) : Zipper.Call Bytes → DbIter
  | .seek target => it.seek target
  | .seekToFirst => it.seekToFirst
  | .seekToLast => it.seekToLast
  | .next => it.next
  | .prev => it.prev

/-- What the iterator shows. -/
def DbIter.shown (it : DbIter) : Option (Bytes × Bytes) :=
  if it.valid then some (it.key, it.value) else none

/-! ## Entries of versions -/

def internalEntry (v : Version Bytes Bytes) : InternalEntry :=
  (appendInternalKey ⟨v.key, v.seq, versionType v⟩, v.value.getD [])

section

variable {it : DbIter} {vs : List (Version Bytes Bytes)} {v : Version Bytes Bytes}

lemma parseKey_internalEntry (hv : v.seq ≤ kMaxSequenceNumber) :
    it.parseKey (internalEntry v) = (some ⟨v.key, v.seq, versionType v⟩, it) := by
  rw [DbIter.parseKey, internalEntry, parseInternalKey_append hv]

lemma extractUserKey_internalEntry (v : Version Bytes Bytes) :
    extractUserKey (internalEntry v).1 = v.key :=
  extractUserKey_append v.key _

/-! ## Going forward -/

/-- One entry of the loop. -/
lemma findNextLoop_cons (hv : v.seq ≤ kMaxSequenceNumber) (skipping : Bool)
    (before rest : List InternalEntry) :
    it.findNextLoop skipping before (internalEntry v :: rest) =
      if v.seq ≤ it.sequence then
        match v.value with
        | none => DbIter.findNextLoop { it with savedKey := v.key } true
            (internalEntry v :: before) rest
        | some _ =>
          if skipping ∧ compareSlices v.key it.savedKey ≠ .gt then
            it.findNextLoop skipping (internalEntry v :: before) rest
          else { it with
            iter := ⟨before, internalEntry v :: rest⟩, savedKey := [], valid := true }
      else it.findNextLoop skipping (internalEntry v :: before) rest := by
  rw [DbIter.findNextLoop, parseKey_internalEntry hv]
  dsimp only
  cases hvalue : v.value <;> simp [versionType, hvalue]

/-- What the loop finds among `vs`, behind `front`: what the view has first, or nothing. `skip` is
the key that is hidden. -/
def FoundNext (it : DbIter) (skip : Option Bytes) (front vs : List (Version Bytes Bytes))
    (found : DbIter) : Prop :=
  (viewFrom it.sequence skip vs = [] ∧
    found = { it with
      iter := .between ((front ++ vs).map internalEntry) [], savedKey := [], valid := false }) ∨
  ∃ pre w post x, vs = pre ++ w :: post ∧ w.value = some x ∧ w.seq ≤ it.sequence ∧
    viewFrom it.sequence skip pre = [] ∧ lastSeen it.sequence skip pre ≠ some w.key ∧
    found = { it with
      iter := .between ((front ++ pre).map internalEntry) ((w :: post).map internalEntry)
      savedKey := [], valid := true }

/-- An entry is passed over. -/
lemma FoundNext.cons {skip skip' : Option Bytes} {front : List (Version Bytes Bytes)}
    {found : DbIter} (savedKey : Bytes)
    (h : FoundNext { it with savedKey := savedKey } skip' (front ++ [v]) vs found)
    (hview : ∀ ws, viewFrom it.sequence skip (v :: ws) = viewFrom it.sequence skip' ws)
    (hlast : ∀ ws, lastSeen it.sequence skip (v :: ws) = lastSeen it.sequence skip' ws) :
    FoundNext it skip front (v :: vs) found := by
  have hfront : ∀ ws, front ++ [v] ++ ws = front ++ v :: ws := by
    intro ws
    rw [List.append_assoc, List.singleton_append]
  rcases h with ⟨hnil, hfound⟩ | ⟨pre, w, post, x, hvs, hw, hseen, hnil, hne, hfound⟩
  · refine Or.inl ⟨by rw [hview]; exact hnil, ?_⟩
    rw [hfound, hfront]
  · refine Or.inr ⟨v :: pre, w, post, x, by rw [hvs, List.cons_append], hw, hseen, ?_, ?_, ?_⟩
    · rw [hview]
      exact hnil
    · rw [hlast]
      exact hne
    · rw [hfound, hfront]

lemma foundNext_findNextLoop (hvs : ∀ v ∈ vs, v.seq ≤ kMaxSequenceNumber) (hsorted : Sorted vs)
    {skip : Option Bytes} (hskip : ∀ k ∈ skip, it.savedKey = k)
    (hle : ∀ k ∈ skip, ∀ v ∈ vs, v.seq ≤ it.sequence → k ≤ v.key)
    (front : List (Version Bytes Bytes)) :
    FoundNext it skip front vs
      (it.findNextLoop skip.isSome (front.map internalEntry).reverse (vs.map internalEntry)) := by
  induction vs generalizing it skip front with
  | nil =>
    refine Or.inl ⟨rfl, ?_⟩
    rw [List.append_nil]
    rfl
  | cons v vs ih =>
    have hrest := fun u hu => hvs u (List.mem_cons_of_mem v hu)
    have hle' := fun k hk u hu => hle k hk u (List.mem_cons_of_mem v hu)
    have htail : Sorted vs := (List.pairwise_cons.mp hsorted).2
    have hbefore : internalEntry v :: (front.map internalEntry).reverse =
        ((front ++ [v]).map internalEntry).reverse := by
      rw [List.map_append, List.reverse_append]
      rfl
    have hpass := ih hrest htail hskip hle' (front ++ [v])
    rw [List.map_cons, findNextLoop_cons (hvs v List.mem_cons_self), hbefore]
    by_cases hseen : v.seq ≤ it.sequence
    · rw [if_pos hseen]
      have hlast : ∀ ws, lastSeen it.sequence skip (v :: ws) =
          lastSeen it.sequence (some v.key) ws := by
        intro ws
        rw [lastSeen, if_pos hseen]
      cases hvalue : v.value with
      | none =>
        -- a deletion hides what comes of its key
        have hdeleted := @ih { it with savedKey := v.key } hrest htail (some v.key)
          (fun k hk => Option.mem_some_iff.mp hk)
          (fun k hk u hu _ => hsorted.hides_head k hk u hu) (front ++ [v])
        refine hdeleted.cons v.key (fun ws => ?_) hlast
        by_cases hhidden : skip = some v.key
        · rw [viewFrom_cons_of_hidden (Or.inr hhidden), hhidden]
        · rw [viewFrom_cons_of_seen hseen hhidden, hvalue]
          rfl
      | some x =>
        dsimp only
        split
        · next hhidden =>
          obtain ⟨hsome, hcompare⟩ := hhidden
          obtain ⟨k, rfl⟩ := Option.isSome_iff_exists.mp hsome
          rw [hskip k rfl, Ne, compareSlices_eq_gt, not_lt] at hcompare
          have heq : k = v.key := le_antisymm (hle k rfl v List.mem_cons_self hseen) hcompare
          subst heq
          exact FoundNext.cons it.savedKey hpass
            (fun ws => viewFrom_cons_of_hidden (Or.inr rfl)) hlast
        · next hshown =>
          refine Or.inr ⟨[], v, vs, x, rfl, hvalue, hseen, rfl, ?_, ?_⟩
          · rintro rfl
            apply hshown
            refine ⟨rfl, ?_⟩
            rw [hskip v.key rfl, Ne, compareSlices_eq_gt]
            exact lt_irrefl _
          · rw [List.append_nil]
            rfl
    · rw [if_neg hseen]
      refine FoundNext.cons it.savedKey hpass
        (fun ws => viewFrom_cons_of_hidden (Or.inl (not_le.mp hseen))) fun ws => ?_
      rw [lastSeen, if_neg hseen]

/-! ## Where the iterator stands -/

/-- The entry of `w` is what the snapshot sees of its key. -/
structure Seen (sequence : ℕ) (vs pre : List (Version Bytes Bytes)) (w : Version Bytes Bytes)
    (post : List (Version Bytes Bytes)) (x : Bytes) : Prop where
  split : vs = pre ++ w :: post
  value : w.value = some x
  seen : w.seq ≤ sequence
  first : lastSeen sequence none pre ≠ some w.key

lemma Seen.viewFrom_eq {sequence : ℕ} {pre post : List (Version Bytes Bytes)}
    {w : Version Bytes Bytes} {x : Bytes} (h : Seen sequence vs pre w post x) :
    viewFrom sequence none vs =
      viewFrom sequence none pre ++ (w.key, x) :: viewFrom sequence (some w.key) post := by
  rw [h.split, viewFrom_append, viewFrom_cons_of_seen h.seen h.first, h.value]
  rfl

/-- What the iterator shows, and where it has its internal iterator for this. -/
inductive Stands (vs : List (Version Bytes Bytes)) (it : DbIter) : Option (Bytes × Bytes) → Prop
  | off (hvalid : it.valid = false) : Stands vs it none
  | forward (pre : List (Version Bytes Bytes)) (w : Version Bytes Bytes)
    (post : List (Version Bytes Bytes)) (x : Bytes) (hseen : Seen it.sequence vs pre w post x)
    (hiter : it.iter = .between (pre.map internalEntry) ((w :: post).map internalEntry))
    (hdirection : it.direction = .forward) (hvalid : it.valid = true) :
    Stands vs it (some (w.key, x))
  | reverse (pre newer : List (Version Bytes Bytes)) (w : Version Bytes Bytes)
    (post : List (Version Bytes Bytes)) (x : Bytes)
    (hseen : Seen it.sequence vs (pre ++ newer) w post x)
    (hnewer : ∀ u ∈ newer, it.sequence < u.seq)
    (hiter : it.iter =
      (Zipper.between (pre.map internalEntry) ((newer ++ w :: post).map internalEntry)).prev)
    (hdirection : it.direction = .reverse) (hvalid : it.valid = true)
    (hkey : it.savedKey = w.key) (hvalue : it.savedValue = x) : Stands vs it (some (w.key, x))

/-- An iterator over these versions that shows `c`. -/
structure Iterates (vs : List (Version Bytes Bytes)) (sequence : ℕ) (it : DbIter)
    (c : Option (Bytes × Bytes)) : Prop where
  sequence_eq : it.sequence = sequence
  status : it.status = .ok
  all : it.iter.all = vs.map internalEntry
  stands : Stands vs it c

lemma Iterates.shown_eq {sequence : ℕ} {c : Option (Bytes × Bytes)}
    (h : Iterates vs sequence it c) : it.shown = c := by
  unfold DbIter.shown
  cases h.stands with
  | off hvalid => rw [hvalid]; rfl
  | forward pre w post x hseen hiter hdirection hvalid =>
    rw [if_pos hvalid, DbIter.key, DbIter.value, hdirection, hiter]
    have hkey := extractUserKey_internalEntry w
    have hvalue : (internalEntry w).2 = x := by rw [internalEntry, hseen.value, Option.getD_some]
    rw [← hkey, ← hvalue]
    rfl
  | reverse pre newer w post x hseen hnewer hiter hdirection hvalid hkey hvalue =>
    rw [if_pos hvalid, DbIter.key, DbIter.value, hdirection, ← hkey, ← hvalue]

/-- The loop of `FindNextUserEntry` begins behind `front`. -/
lemma FoundNext.iterates {front : List (Version Bytes Bytes)} {skip : Option Bytes}
    {found : DbIter} (h : FoundNext it skip front vs found)
    (hdirection : it.direction = .forward) (hstatus : it.status = .ok)
    (hskip : skip = lastSeen it.sequence none front ∨ skip = none ∧
      ∀ v ∈ vs, v.seq ≤ it.sequence → lastSeen it.sequence none front ≠ some v.key) :
    Iterates (front ++ vs) it.sequence found
      (viewFrom it.sequence none (front ++ vs))[(viewFrom it.sequence none front).length]? := by
  have hview : viewFrom it.sequence (lastSeen it.sequence none front) vs =
      viewFrom it.sequence skip vs := by
    rcases hskip with rfl | ⟨rfl, hne⟩
    · rfl
    · exact viewFrom_of_ne hne
  rcases h with ⟨hnil, rfl⟩ | ⟨pre, w, post, x, rfl, hw, hseen, hnil, hne, rfl⟩
  · rw [viewFrom_append, hview, hnil, List.append_nil, List.getElem?_eq_none (le_refl _)]
    refine ⟨rfl, hstatus, ?_, .off rfl⟩
    rw [Zipper.all_between, List.append_nil]
  · have hfirst : Seen it.sequence (front ++ (pre ++ w :: post)) (front ++ pre) w post x := by
      refine ⟨by rw [List.append_assoc], hw, hseen, ?_⟩
      rw [lastSeen_append]
      rcases hskip with rfl | ⟨rfl, hfront⟩
      · exact hne
      · rw [lastSeen_eq_or]
        cases hlast : lastSeen it.sequence none pre with
        | none => exact hfront w (by simp) hseen
        | some k =>
          rw [hlast] at hne
          exact hne
    have hnil' : viewFrom it.sequence (lastSeen it.sequence none front) pre = [] := by
      rcases hskip with rfl | ⟨rfl, -⟩
      · exact hnil
      · exact viewFrom_eq_nil hnil _
    have hindex : (viewFrom it.sequence none (front ++ (pre ++ w :: post)))[
        (viewFrom it.sequence none front).length]? = some (w.key, x) := by
      rw [hfirst.viewFrom_eq, viewFrom_append, hnil', List.append_nil,
        List.getElem?_append_right (le_refl _), Nat.sub_self]
      rfl
    rw [hindex]
    refine ⟨rfl, hstatus, ?_, .forward (front ++ pre) w post x hfirst rfl hdirection rfl⟩
    rw [Zipper.all_between, ← List.map_append, List.append_assoc]

/-! ## Calls that go forward -/

/-- What an iterator goes over. -/
structure Encoded (vs : List (Version Bytes Bytes)) : Prop where
  sorted : Sorted vs
  seq_le : ∀ v ∈ vs, v.seq ≤ kMaxSequenceNumber

lemma Encoded.right {front : List (Version Bytes Bytes)} (h : Encoded (front ++ vs)) :
    Encoded vs where
  sorted := (List.pairwise_append.mp h.sorted).2.1
  seq_le := fun v hv => h.seq_le v (List.mem_append_right _ hv)

variable {sequence : ℕ} {c : Option (Bytes × Bytes)}

/-- The loop behind `front`, whose last key is skipped. -/
lemma findNextLoop_iterates {front : List (Version Bytes Bytes)} (hvs : Encoded (front ++ vs))
    (hdirection : it.direction = .forward) (hstatus : it.status = .ok) (skip : Option Bytes)
    (hsaved : ∀ k ∈ skip, it.savedKey = k)
    (hskip : skip = lastSeen it.sequence none front ∨ skip = none ∧
      ∀ v ∈ vs, v.seq ≤ it.sequence → lastSeen it.sequence none front ≠ some v.key) :
    Iterates (front ++ vs) it.sequence
      (it.findNextLoop skip.isSome (front.map internalEntry).reverse (vs.map internalEntry))
      (viewFrom it.sequence none (front ++ vs))[(viewFrom it.sequence none front).length]? := by
  have hle : ∀ k ∈ skip, ∀ v ∈ vs, v.seq ≤ it.sequence → k ≤ v.key := by
    intro k hk v hv _
    rcases hskip with rfl | ⟨rfl, -⟩
    · obtain ⟨u, hu, -, rfl⟩ := mem_of_lastSeen (Option.mem_def.mp hk)
      have hlt := (List.pairwise_append.mp hvs.sorted).2.2 u hu v hv
      rcases place_lt_iff.mp hlt with hlt | ⟨heq, -⟩
      · exact le_of_lt hlt
      · exact le_of_eq heq
    · cases hk
  have hfound := foundNext_findNextLoop hvs.right.seq_le hvs.right.sorted hsaved hle front
  exact hfound.iterates hdirection hstatus hskip

/-- An iterator that was sent to a place where nothing follows. -/
lemma iterates_off (hsequence : it.sequence = sequence) (hstatus : it.status = .ok)
    (hall : it.iter.all = vs.map internalEntry) :
    Iterates vs sequence { it with valid := false } none :=
  ⟨hsequence, hstatus, hall, .off rfl⟩

lemma Iterates.seekToFirst (h : Iterates vs sequence it c) (hvs : Encoded vs) :
    Iterates vs sequence it.seekToFirst (viewFrom sequence none vs).head? := by
  obtain ⟨rfl, hstatus, hall, -⟩ := h
  unfold DbIter.seekToFirst
  dsimp only
  rw [hall]
  cases vs with
  | nil =>
    exact @iterates_off { it with direction := .forward, savedValue := [], iter := .first [] } []
      it.sequence rfl hstatus rfl
  | cons v vs =>
    rw [List.head?_eq_getElem?]
    exact @findNextLoop_iterates { it with
      direction := .forward, savedValue := [], iter := .first ((v :: vs).map internalEntry) }
      (v :: vs) [] hvs rfl hstatus none (by simp) (Or.inl rfl)

/-- Versions that are too new are passed over. -/
lemma findNextLoop_newer {newer : List (Version Bytes Bytes)}
    (hseq : ∀ v ∈ newer, v.seq ≤ kMaxSequenceNumber) (hnewer : ∀ v ∈ newer, it.sequence < v.seq)
    (skipping : Bool) (before rest : List InternalEntry) :
    it.findNextLoop skipping before (newer.map internalEntry ++ rest) =
      it.findNextLoop skipping ((newer.map internalEntry).reverse ++ before) rest := by
  induction newer generalizing before with
  | nil => rfl
  | cons v newer ih =>
    rw [List.map_cons, List.cons_append, findNextLoop_cons (hseq v List.mem_cons_self),
      if_neg (not_le.mpr (hnewer v List.mem_cons_self)),
      ih (fun u hu => hseq u (List.mem_cons_of_mem _ hu))
        (fun u hu => hnewer u (List.mem_cons_of_mem _ hu)),
      List.reverse_cons, List.append_assoc, List.singleton_append]

/-- After `w` comes what the view has next. -/
lemma Seen.next {pre post : List (Version Bytes Bytes)} {w : Version Bytes Bytes} {x : Bytes}
    (h : Seen it.sequence vs pre w post x) (hvs : Encoded vs)
    (hdirection : it.direction = .forward) (hstatus : it.status = .ok)
    (hsaved : it.savedKey = w.key) :
    Iterates vs it.sequence
      (it.findNextLoop true ((pre ++ [w]).map internalEntry).reverse (post.map internalEntry))
      (SortedMap.after (viewFrom it.sequence none vs) w.key) := by
  have hlast : some w.key = lastSeen it.sequence none (pre ++ [w]) := by
    rw [lastSeen_append, lastSeen, if_pos h.seen, lastSeen]
  have hindex : (viewFrom it.sequence none vs)[(viewFrom it.sequence none pre).length]? =
      some (w.key, x) := by
    rw [h.viewFrom_eq, List.getElem?_append_right (le_refl _), Nat.sub_self]
    rfl
  have hlength : (viewFrom it.sequence none (pre ++ [w])).length =
      (viewFrom it.sequence none pre).length + 1 := by
    rw [viewFrom_append, viewFrom_cons_of_seen h.seen h.first, h.value, List.length_append]
    rfl
  have hafter := SortedMap.after_eq_getElem? (hvs.sorted.ascending_viewFrom none) hindex
  dsimp only at hafter
  have hsplit : vs = pre ++ [w] ++ post := by
    rw [h.split, List.append_assoc, List.singleton_append]
  rw [hafter, ← hlength]
  rw [hsplit] at hvs ⊢
  exact findNextLoop_iterates hvs hdirection hstatus (some w.key)
    (fun k hk => hsaved.trans (Option.mem_some_iff.mp hk)) (Or.inl hlast)

/-- The loop comes to `w` once more and passes over it. -/
lemma Seen.findNextLoop_eq {pre newer post : List (Version Bytes Bytes)}
    {w : Version Bytes Bytes} {x : Bytes} (h : Seen it.sequence vs (pre ++ newer) w post x)
    (hvs : Encoded vs) (hnewer : ∀ u ∈ newer, it.sequence < u.seq) (hkey : it.savedKey = w.key) :
    it.findNextLoop true (pre.map internalEntry).reverse
        ((newer ++ w :: post).map internalEntry) =
      it.findNextLoop true ((pre ++ newer ++ [w]).map internalEntry).reverse
        (post.map internalEntry) := by
  have hmem : ∀ v ∈ newer ++ [w], v ∈ vs := by
    intro v hv
    rw [h.split]
    rcases List.mem_append.mp hv with hv | hv
    · simp [hv]
    · simp [List.mem_singleton.mp hv]
  have hseq : ∀ v ∈ newer, v.seq ≤ kMaxSequenceNumber :=
    fun v hv => hvs.seq_le v (hmem v (List.mem_append_left _ hv))
  have hw : w.seq ≤ kMaxSequenceNumber := hvs.seq_le w (hmem w (by simp))
  have hhidden : compareSlices w.key it.savedKey ≠ .gt := by
    rw [hkey, Ne, compareSlices_eq_gt]
    exact lt_irrefl _
  rw [List.map_append, findNextLoop_newer hseq hnewer, List.map_cons, findNextLoop_cons hw,
    if_pos h.seen, h.value]
  dsimp only
  rw [if_pos ⟨rfl, hhidden⟩]
  congr 1
  simp

lemma Seen.findNextUserEntry {pre newer post : List (Version Bytes Bytes)}
    {w : Version Bytes Bytes} {x : Bytes} (h : Seen it.sequence vs (pre ++ newer) w post x)
    (hvs : Encoded vs) (hnewer : ∀ u ∈ newer, it.sequence < u.seq)
    (hiter : it.iter =
      .between (pre.map internalEntry) ((newer ++ w :: post).map internalEntry))
    (hdirection : it.direction = .forward) (hstatus : it.status = .ok)
    (hkey : it.savedKey = w.key) :
    Iterates vs it.sequence (it.findNextUserEntry true)
      (SortedMap.after (viewFrom it.sequence none vs) w.key) := by
  have hnext := h.next hvs hdirection hstatus hkey
  rw [← h.findNextLoop_eq hvs hnewer hkey] at hnext
  rw [DbIter.findNextUserEntry, hiter]
  exact hnext

/-- Where the internal iterator is at its end, nothing is found. -/
lemma findNextUserEntry_of_not_valid (h : ¬ it.iter.valid = true) (skipping : Bool) :
    it.findNextUserEntry skipping = { it with valid := false, savedKey := [] } := by
  have hrest := Zipper.rest_eq_nil h
  rw [DbIter.findNextUserEntry, hrest, DbIter.findNextLoop, ← hrest]

lemma key_of_forward {front rest : List InternalEntry} {w : Version Bytes Bytes}
    (hiter : it.iter = .between front (internalEntry w :: rest))
    (hdirection : it.direction = .forward) : it.key = w.key := by
  rw [DbIter.key, hdirection, hiter, ← extractUserKey_internalEntry w]
  rfl

lemma Iterates.next {e : Bytes × Bytes} (h : Iterates vs sequence it (some e)) (hvs : Encoded vs) :
    Iterates vs sequence it.next (SortedMap.after (viewFrom sequence none vs) e.1) := by
  obtain ⟨rfl, hstatus, hall, hstands⟩ := h
  have hfind : ∀ it' : DbIter, (if it'.iter.valid then it'.findNextUserEntry true
      else { it' with valid := false, savedKey := [] }) = it'.findNextUserEntry true := by
    intro it'
    split
    · rfl
    · next hend => rw [findNextUserEntry_of_not_valid hend]
  unfold DbIter.next
  dsimp only
  rw [hfind]
  cases hstands with
  | forward pre w post x hseen hiter hdirection hvalid =>
    rw [hdirection]
    dsimp only
    rw [key_of_forward hiter hdirection, hiter, List.map_cons, Zipper.next_between_cons,
      ← List.map_singleton, ← List.map_append]
    exact @Seen.next { it with
      direction := .forward
      savedKey := w.key
      iter := .between ((pre ++ [w]).map internalEntry) (post.map internalEntry) }
      vs pre post w x hseen hvs rfl hstatus rfl
  | reverse pre newer w post x hseen hnewer hiter hdirection hvalid hkey hvalue =>
    rw [hdirection]
    dsimp only
    rw [hiter, Zipper.next_prev]
    exact @Seen.findNextUserEntry { it with
      direction := .forward
      iter := .between (pre.map internalEntry) ((newer ++ w :: post).map internalEntry) }
      vs pre newer post w x hseen hvs hnewer rfl rfl hstatus hkey

/-- Where the internal iterator goes: behind what is before the target, or too new under it. -/
lemma seek_split (hvs : Encoded vs) (hsequence : sequence ≤ kMaxSequenceNumber) (target : Bytes) :
    ∃ front post, vs = front ++ post ∧
      Zipper.seek (fun e => compareInternalKeys e.1
        (appendInternalKey ⟨target, sequence, kValueTypeForSeek⟩) = Ordering.lt)
        (vs.map internalEntry) = .between (front.map internalEntry) (post.map internalEntry) ∧
      (∀ v ∈ front, v.seq ≤ sequence → v.key < target) ∧ ∀ v ∈ post, target ≤ v.key := by
  have hcompare : ∀ v ∈ vs, (compareInternalKeys (internalEntry v).1
      (appendInternalKey ⟨target, sequence, kValueTypeForSeek⟩) = .lt ↔
        v.key < target ∨ v.key = target ∧ sequence < v.seq) :=
    fun v hv => compareInternalKeys_seek (hvs.seq_le v hv) target hsequence
  let p : Version Bytes Bytes → Bool := fun v => compareInternalKeys (internalEntry v).1
    (appendInternalKey ⟨target, sequence, kValueTypeForSeek⟩) = Ordering.lt
  refine ⟨vs.takeWhile p, vs.dropWhile p, (List.takeWhile_append_dropWhile).symm, ?_, ?_, ?_⟩
  · rw [Zipper.seek, List.takeWhile_map, List.dropWhile_map]
    rfl
  · intro v hv hseen
    have hp : p v = true := List.mem_takeWhile_imp hv
    have hmem : v ∈ vs := (List.takeWhile_prefix p).subset hv
    rcases (hcompare v hmem).mp (of_decide_eq_true hp) with hlt | ⟨-, hlt⟩
    · exact hlt
    · exact absurd hseen (not_le.mpr hlt)
  · have hsorted : Sorted (vs.dropWhile p) := hvs.sorted.sublist (List.dropWhile_sublist p)
    cases hdrop : vs.dropWhile p with
    | nil => simp
    | cons u rest =>
      have hu : u ∈ vs := by
        apply (List.dropWhile_sublist p).subset
        rw [hdrop]
        exact List.mem_cons_self
      have hnot : ¬ p u = true := by
        have hhead := List.head?_dropWhile_not p vs
        rw [hdrop] at hhead
        simpa using hhead
      have hle : target ≤ u.key := by
        by_contra hlt
        exact hnot (decide_eq_true ((hcompare u hu).mpr (Or.inl (not_le.mp hlt))))
      rw [hdrop] at hsorted
      intro v hv
      rcases List.mem_cons.mp hv with rfl | hv
      · exact hle
      · exact le_trans hle (hsorted.hides_head u.key rfl v hv)

lemma Iterates.seek (h : Iterates vs sequence it c) (hvs : Encoded vs)
    (hsequence : sequence ≤ kMaxSequenceNumber) (target : Bytes) :
    Iterates vs sequence (it.seek target)
      (SortedMap.atOrPast (viewFrom sequence none vs) target) := by
  obtain ⟨rfl, hstatus, hall, -⟩ := h
  obtain ⟨front, post, hsplit, hseek, hfront, hpost⟩ := seek_split hvs hsequence target
  have hlast : ∀ v ∈ post, v.seq ≤ it.sequence → lastSeen it.sequence none front ≠ some v.key := by
    intro v hv _ heq
    obtain ⟨u, hu, hseen, hkey⟩ := mem_of_lastSeen heq
    have hlt := hfront u hu hseen
    rw [hkey] at hlt
    exact absurd hlt (not_lt.mpr (hpost v hv))
  have hindex : SortedMap.atOrPast (viewFrom it.sequence none vs) target =
      (viewFrom it.sequence none vs)[(viewFrom it.sequence none front).length]? := by
    rw [hsplit, viewFrom_append, List.getElem?_append_right (le_refl _), Nat.sub_self,
      SortedMap.atOrPast, List.find?_append, ← List.head?_eq_getElem?]
    have hbefore : (viewFrom it.sequence none front).find? (fun e => target ≤ e.1) = none := by
      rw [List.find?_eq_none]
      intro e he
      obtain ⟨v, hv, hseen, hkey⟩ := mem_of_mem_viewFrom he
      have hlt := hfront v hv hseen
      rw [hkey] at hlt
      simpa using hlt
    rw [hbefore, Option.none_or]
    cases hbehind : viewFrom it.sequence (lastSeen it.sequence none front) post with
    | nil => rfl
    | cons e es =>
      have he : e ∈ viewFrom it.sequence (lastSeen it.sequence none front) post := by
        rw [hbehind]
        exact List.mem_cons_self
      obtain ⟨v, hv, -, hkey⟩ := mem_of_mem_viewFrom he
      have hle := hpost v hv
      rw [hkey] at hle
      exact List.find?_cons_of_pos (by simpa using hle)
  unfold DbIter.seek
  dsimp only
  rw [hall, hseek, hindex]
  cases post with
  | nil =>
    have hend : (viewFrom it.sequence none vs)[(viewFrom it.sequence none front).length]? =
        none := by
      rw [hsplit, List.append_nil, List.getElem?_eq_none (le_refl _)]
    rw [hend]
    exact @iterates_off { it with
      direction := .forward
      savedValue := []
      savedKey := appendInternalKey ⟨target, it.sequence, kValueTypeForSeek⟩
      iter := .between (front.map internalEntry) [] } vs it.sequence rfl hstatus (by
        rw [Zipper.all_between, hsplit, List.append_nil, List.append_nil])
  | cons v post =>
    rw [hsplit] at hvs ⊢
    exact @findNextLoop_iterates { it with
      direction := .forward
      savedValue := []
      savedKey := appendInternalKey ⟨target, it.sequence, kValueTypeForSeek⟩
      iter := .between (front.map internalEntry) ((v :: post).map internalEntry) }
      (v :: post) front hvs rfl hstatus none (by simp) (Or.inr ⟨rfl, hlast⟩)

/-! ## Going back -/

/-- One entry of the loop. -/
lemma findPrevLoop_cons (hv : v.seq ≤ kMaxSequenceNumber) (type : ValueType)
    (left right : List InternalEntry) :
    it.findPrevLoop type (internalEntry v :: left) right =
      if v.seq ≤ it.sequence then
        if type ≠ .deletion ∧ compareSlices v.key it.savedKey = .lt then
          (type, { it with iter := ⟨left, internalEntry v :: right⟩ })
        else
          match v.value with
          | none => DbIter.findPrevLoop { it with savedKey := [], savedValue := [] } .deletion left
              (internalEntry v :: right)
          | some x => DbIter.findPrevLoop { it with savedKey := v.key, savedValue := x } .value left
              (internalEntry v :: right)
      else it.findPrevLoop type left (internalEntry v :: right) := by
  have hkey := extractUserKey_internalEntry v
  rw [DbIter.findPrevLoop, parseKey_internalEntry hv]
  dsimp only
  rw [hkey]
  cases hvalue : v.value <;> simp [versionType, internalEntry, hvalue]

/-- What the loop holds of `mid`, which it has gone over: its first key is deleted, or has the value
that is saved. -/
inductive Saved (it : DbIter) (mid : List (Version Bytes Bytes)) : ValueType → Prop
  | deletion (hnil : viewFrom it.sequence none mid = []) : Saved it mid .deletion
  | value (newer : List (Version Bytes Bytes)) (w : Version Bytes Bytes)
    (tail : List (Version Bytes Bytes)) (x : Bytes) (hmid : mid = newer ++ w :: tail)
    (hnewer : ∀ u ∈ newer, it.sequence < u.seq) (hvalue : w.value = some x)
    (hseen : w.seq ≤ it.sequence) (hnil : viewFrom it.sequence (some w.key) tail = [])
    (hkey : it.savedKey = w.key) (hsaved : it.savedValue = x) : Saved it mid .value

/-- What the loop finds in the end. `n` is the number of entries of the view up to where it
began. -/
def FoundPrev (it : DbIter) (vs : List (Version Bytes Bytes)) (n : ℕ)
    (found : ValueType × DbIter) : Prop :=
  (∃ z k x, found = (.deletion, { it with iter := z, savedKey := k, savedValue := x }) ∧
    z.all = vs.map internalEntry ∧ n = 0) ∨
  ∃ pre newer w post x, Seen it.sequence vs (pre ++ newer) w post x ∧
    (∀ u ∈ newer, it.sequence < u.seq) ∧ n = (viewFrom it.sequence none pre).length + 1 ∧
    found = (.value, { it with
      iter :=
        (Zipper.between (pre.map internalEntry) ((newer ++ w :: post).map internalEntry)).prev
      savedKey := w.key, savedValue := x })

/-- The value of `w` is the only thing that is seen of these. -/
lemma viewFrom_saved {snapshot : ℕ} {newer tail : List (Version Bytes Bytes)}
    {w : Version Bytes Bytes} {x : Bytes} (hnewer : ∀ u ∈ newer, snapshot < u.seq)
    (hvalue : w.value = some x) (hseen : w.seq ≤ snapshot)
    (hnil : viewFrom snapshot (some w.key) tail = []) {skip : Option Bytes}
    (hskip : skip ≠ some w.key) :
    viewFrom snapshot skip (newer ++ w :: tail) = [(w.key, x)] := by
  obtain ⟨hview, hlast⟩ := viewFrom_of_newer hnewer skip
  rw [viewFrom_append, hview, hlast, viewFrom_cons_of_seen hseen hskip, hvalue, hnil]
  rfl

lemma foundPrev_findPrevLoop {front mid post : List (Version Bytes Bytes)} {type : ValueType}
    (hvs : Encoded (front ++ mid ++ post)) (h : Saved it mid type) :
    FoundPrev it (front ++ mid ++ post) (viewFrom it.sequence none (front ++ mid)).length
      (it.findPrevLoop type (front.map internalEntry).reverse
        ((mid ++ post).map internalEntry)) := by
  induction front using List.reverseRecOn generalizing it mid type with
  | nil =>
    rw [List.nil_append, List.map_nil, List.reverse_nil, DbIter.findPrevLoop]
    cases h with
    | deletion hnil =>
      refine Or.inl ⟨_, it.savedKey, it.savedValue, rfl, ?_, ?_⟩
      · simp [Zipper.all]
      · rw [hnil, List.length_nil]
    | value newer w tail x hmid hnewer hvalue hseen hnil hkey hsaved =>
      subst hmid
      refine Or.inr ⟨[], newer, w, tail ++ post, x, ⟨?_, hvalue, hseen, ?_⟩, hnewer, ?_, ?_⟩
      · simp
      · rw [List.nil_append, (viewFrom_of_newer hnewer none).2]
        exact (Option.some_ne_none _).symm
      · rw [viewFrom_saved hnewer hvalue hseen hnil (Option.some_ne_none _).symm]
        rfl
      · rw [← hkey, ← hsaved, List.append_assoc, List.cons_append]
        rfl
  | append_singleton front u ih =>
    have hsplit : front ++ [u] ++ mid ++ post = front ++ (u :: mid) ++ post := by simp
    have hmid : front ++ [u] ++ mid = front ++ u :: mid := by simp
    have hleft : ((front ++ [u]).map internalEntry).reverse =
        internalEntry u :: (front.map internalEntry).reverse := by simp
    have hvs' := hvs
    rw [hsplit] at hvs'
    have hu : u.seq ≤ kMaxSequenceNumber := hvs.seq_le u (by simp)
    have hsorted : Sorted (u :: mid) := by
      have hfront := (List.pairwise_append.mp hvs'.sorted).1
      exact (List.pairwise_append.mp hfront).2.1
    rw [hleft, findPrevLoop_cons hu]
    by_cases hseen : u.seq ≤ it.sequence
    · rw [if_pos hseen]
      split
      · next hbreak =>
        -- the next key begins here
        cases h with
        | deletion => exact absurd rfl hbreak.1
        | value newer w tail x hmid' hnewer hvalue hwseen hnil hkey hsaved =>
          have hlt : u.key < w.key := by
            rw [← hkey]
            exact compareSlices_eq_lt.mp hbreak.2
          have hlast : lastSeen it.sequence none (front ++ [u]) = some u.key := by
            rw [lastSeen_append, lastSeen, if_pos hseen, lastSeen]
          have hne : some u.key ≠ some w.key := fun heq => ne_of_lt hlt (Option.some_inj.mp heq)
          subst hmid'
          refine Or.inr ⟨front ++ [u], newer, w, tail ++ post, x, ⟨?_, hvalue, hwseen, ?_⟩, hnewer,
            ?_, ?_⟩
          · simp
          · rw [lastSeen_append, hlast, (viewFrom_of_newer hnewer _).2]
            exact hne
          · rw [viewFrom_append, hlast, viewFrom_saved hnewer hvalue hwseen hnil hne,
              List.length_append]
            rfl
          · have hmap : (front ++ [u]).map internalEntry =
                front.map internalEntry ++ [internalEntry u] :=
              List.map_append
            have hright : newer ++ w :: (tail ++ post) = newer ++ w :: tail ++ post := by simp
            rw [hmap, Zipper.prev_between_append, hright, ← hkey, ← hsaved, List.map_append]
            rfl
      · next hgoOn =>
        have hnil : viewFrom it.sequence (some u.key) mid = [] := by
          cases h with
          | deletion hnil => exact viewFrom_eq_nil hnil _
          | value newer w tail x hmid' hnewer hvalue hwseen hnil hkey hsaved =>
            have hle : u.key ≤ w.key := hsorted.hides_head u.key rfl w (by simp [hmid'])
            have heq : u.key = w.key := by
              apply le_antisymm hle
              by_contra hlt
              apply hgoOn
              refine ⟨by simp, ?_⟩
              rw [hkey, compareSlices_eq_lt]
              exact not_le.mp hlt
            obtain ⟨hview, hlast⟩ := viewFrom_of_newer hnewer (some u.key)
            rw [hmid', viewFrom_append, hview, hlast,
              viewFrom_cons_of_hidden (Or.inr (congrArg some heq)), heq]
            exact hnil
        rw [hsplit, hmid]
        cases hvalue : u.value with
        | none =>
          have hdeleted : Saved { it with savedKey := [], savedValue := [] } (u :: mid)
              .deletion := by
            apply Saved.deletion
            rw [viewFrom_cons_of_seen hseen (Option.some_ne_none _).symm, hvalue, hnil]
            rfl
          exact ih hvs' hdeleted
        | some y =>
          have hfound : Saved { it with savedKey := u.key, savedValue := y } (u :: mid) .value :=
            .value [] u mid y rfl (by simp) hvalue hseen hnil rfl rfl
          exact ih hvs' hfound
    · rw [if_neg hseen, hsplit, hmid]
      have hpass : Saved it (u :: mid) type := by
        cases h with
        | deletion hnil =>
          apply Saved.deletion
          rw [viewFrom_cons_of_hidden (Or.inl (not_le.mp hseen))]
          exact hnil
        | value newer w tail x hmid' hnewer hvalue hwseen hnil hkey hsaved =>
          refine .value (u :: newer) w tail x (by rw [hmid', List.cons_append]) ?_ hvalue hwseen
            hnil hkey hsaved
          intro v hv
          rcases List.mem_cons.mp hv with rfl | hv
          · exact not_le.mp hseen
          · exact hnewer v hv
      exact ih hvs' hpass

lemma findPrevUserEntry_eq {front post : List InternalEntry}
    (hiter : it.iter = (Zipper.between front post).prev) :
    it.findPrevUserEntry = DbIter.endPrev (it.findPrevLoop .deletion front.reverse post) := by
  unfold DbIter.findPrevUserEntry
  induction front using List.reverseRecOn with
  | nil =>
    rw [hiter, Zipper.prev_between_nil, List.reverse_nil, DbIter.findPrevLoop]
    have hiter' : ⟨post.reverse, []⟩ = it.iter := hiter.symm
    rw [hiter']
    rfl
  | append_singleton front e =>
    rw [hiter, Zipper.prev_between_append, List.reverse_append, List.reverse_singleton,
      List.singleton_append]
    rfl

/-- `FindPrevUserEntry` goes back from `front`. -/
lemma findPrevUserEntry_iterates {front post : List (Version Bytes Bytes)}
    (hvs : Encoded (front ++ post))
    (hiter : it.iter = (Zipper.between (front.map internalEntry) (post.map internalEntry)).prev)
    (hdirection : it.direction = .reverse) (hstatus : it.status = .ok) :
    Iterates (front ++ post) it.sequence it.findPrevUserEntry
      (if (viewFrom it.sequence none front).length = 0 then none
        else (viewFrom it.sequence none (front ++ post))[
          (viewFrom it.sequence none front).length - 1]?) := by
  have hempty : front ++ [] ++ post = front ++ post := by rw [List.append_nil]
  have hfound := @foundPrev_findPrevLoop it front [] post .deletion (by rw [hempty]; exact hvs)
    (.deletion rfl)
  rw [hempty, List.append_nil, List.nil_append] at hfound
  rw [findPrevUserEntry_eq hiter]
  rcases hfound with ⟨z, k, x, hfound, hall, hzero⟩ |
    ⟨pre, newer, w, post', x, hseen, hnewer, hlength, hfound⟩
  · rw [hfound, if_pos hzero]
    exact ⟨rfl, hstatus, hall, .off rfl⟩
  · have hpre : viewFrom it.sequence none (pre ++ newer) = viewFrom it.sequence none pre := by
      rw [viewFrom_append, (viewFrom_of_newer hnewer _).1, List.append_nil]
    have hindex : (viewFrom it.sequence none (front ++ post))[
        (viewFrom it.sequence none front).length - 1]? = some (w.key, x) := by
      rw [hseen.viewFrom_eq, hpre, hlength, Nat.add_sub_cancel,
        List.getElem?_append_right (le_refl _), Nat.sub_self]
      rfl
    rw [hfound, if_neg (by rw [hlength]; exact Nat.succ_ne_zero _), hindex]
    refine ⟨rfl, hstatus, ?_, .reverse pre newer w post' x hseen hnewer rfl hdirection rfl rfl rfl⟩
    show (Zipper.between _ _).prev.all = _
    rw [Zipper.all_prev, Zipper.all_between, ← List.map_append, hseen.split, List.append_assoc]

lemma Iterates.seekToLast (h : Iterates vs sequence it c) (hvs : Encoded vs) :
    Iterates vs sequence it.seekToLast (viewFrom sequence none vs).getLast? := by
  obtain ⟨rfl, hstatus, hall, -⟩ := h
  unfold DbIter.seekToLast
  rw [hall, Zipper.last_eq]
  have hlast := @findPrevUserEntry_iterates { it with
    direction := .reverse
    savedValue := []
    iter := (Zipper.between (vs.map internalEntry) ([].map internalEntry)).prev } vs []
    (by rw [List.append_nil]; exact hvs) rfl rfl hstatus
  rw [List.append_nil] at hlast
  rw [List.getLast?_eq_getElem?]
  cases hview : viewFrom it.sequence none vs with
  | nil => simpa [hview] using hlast
  | cons e es => simpa [hview] using hlast

/-- The loop of `Prev` goes back over the versions of the key. -/
lemma leaveKey_spec (key : Bytes) (front : List (Version Bytes Bytes)) (rest : List InternalEntry) :
    ∃ pre mid, front = pre ++ mid ∧ (∀ v ∈ mid, ¬ v.key < key) ∧
      DbIter.leaveKey key (front.map internalEntry).reverse rest =
        (Zipper.between (pre.map internalEntry) (mid.map internalEntry ++ rest)).prev := by
  induction front using List.reverseRecOn generalizing rest with
  | nil => exact ⟨[], [], rfl, by simp, rfl⟩
  | append_singleton front u ih =>
    have hmap : (front ++ [u]).map internalEntry = front.map internalEntry ++ [internalEntry u] :=
      List.map_append
    rw [hmap, List.reverse_append, List.reverse_singleton, List.singleton_append, DbIter.leaveKey,
      extractUserKey_internalEntry]
    split
    · refine ⟨front ++ [u], [], by rw [List.append_nil], by simp, ?_⟩
      rw [hmap, Zipper.prev_between_append]
      rfl
    · next hsame =>
      rw [compareSlices_eq_lt] at hsame
      obtain ⟨pre, mid, hfront, hmid, hleave⟩ := ih (internalEntry u :: rest)
      refine ⟨pre, mid ++ [u], by rw [hfront, List.append_assoc], ?_, ?_⟩
      · intro v hv
        rcases List.mem_append.mp hv with hv | hv
        · exact hmid v hv
        · rw [List.mem_singleton.mp hv]
          exact hsame
      · rw [hleave]
        simp

lemma Iterates.prev {e : Bytes × Bytes} (h : Iterates vs sequence it (some e)) (hvs : Encoded vs) :
    Iterates vs sequence it.prev (SortedMap.before (viewFrom sequence none vs) e.1) := by
  obtain ⟨rfl, hstatus, hall, hstands⟩ := h
  have hbefore : ∀ {pre newer w post x}, Seen it.sequence vs (pre ++ newer) w post x →
      (∀ u ∈ newer, it.sequence < u.seq) →
      SortedMap.before (viewFrom it.sequence none vs) w.key =
        if (viewFrom it.sequence none pre).length = 0 then none
        else (viewFrom it.sequence none vs)[(viewFrom it.sequence none pre).length - 1]? := by
    intro pre newer w post x hseen hnewer
    have hindex : (viewFrom it.sequence none vs)[(viewFrom it.sequence none pre).length]? =
        some (w.key, x) := by
      rw [hseen.viewFrom_eq, viewFrom_append, (viewFrom_of_newer hnewer _).1, List.append_nil,
        List.getElem?_append_right (le_refl _), Nat.sub_self]
      rfl
    exact SortedMap.before_eq_getElem? (hvs.sorted.ascending_viewFrom none) hindex
  unfold DbIter.prev
  cases hstands with
  | forward pre w post x hseen hiter hdirection hvalid =>
    obtain ⟨front, mid, rfl, hmid, hleave⟩ :=
      leaveKey_spec w.key pre ((w :: post).map internalEntry)
    have hsame : ∀ v ∈ mid, v.key = w.key := by
      intro v hv
      have hsorted := hvs.sorted
      rw [hseen.split] at hsorted
      have hlt := (List.pairwise_append.mp hsorted).2.2 v (List.mem_append_right _ hv) w
        List.mem_cons_self
      rcases place_lt_iff.mp hlt with hlt | ⟨heq, -⟩
      · exact absurd hlt (hmid v hv)
      · exact heq
    have hnewer : ∀ v ∈ mid, it.sequence < v.seq := by
      have hfirst := hseen.first
      rw [lastSeen_append] at hfirst
      exact newer_of_lastSeen_ne hsame hfirst
    have hback : DbIter.leaveKey it.key it.iter.before it.iter.rest =
        (Zipper.between (front.map internalEntry) ((mid ++ w :: post).map internalEntry)).prev := by
      rw [← List.map_append] at hleave
      rw [key_of_forward hiter hdirection, hiter]
      exact hleave
    rw [hback, key_of_forward hiter hdirection, hdirection, hbefore hseen hnewer]
    dsimp only
    have hsplit : vs = front ++ (mid ++ w :: post) := by rw [hseen.split, List.append_assoc]
    split
    · rw [hsplit] at hvs ⊢
      exact @findPrevUserEntry_iterates { it with
        direction := .reverse
        savedKey := w.key
        iter := (Zipper.between (front.map internalEntry)
          ((mid ++ w :: post).map internalEntry)).prev } front (mid ++ w :: post) hvs rfl rfl
        hstatus
    · next hend =>
      have hfront : front = [] := by
        rcases List.eq_nil_or_concat front with hnil | ⟨front', u, rfl⟩
        · exact hnil
        · rw [List.concat_eq_append, List.map_append, List.map_singleton,
            Zipper.prev_between_append] at hend
          exact absurd rfl hend
      have hzero : (viewFrom it.sequence none front).length = 0 := by
        rw [hfront]
        rfl
      rw [if_pos hzero]
      exact @iterates_off { it with
        direction := .forward
        savedKey := []
        savedValue := []
        iter := (Zipper.between (front.map internalEntry)
          ((mid ++ w :: post).map internalEntry)).prev } vs it.sequence rfl hstatus (by
          rw [Zipper.all_prev, Zipper.all_between, ← List.map_append, hsplit])
  | reverse pre newer w post x hseen hnewer hiter hdirection hvalid hkey hvalue =>
    rw [hdirection]
    dsimp only
    rw [hbefore hseen hnewer]
    have hsplit : vs = pre ++ (newer ++ w :: post) := by rw [hseen.split, List.append_assoc]
    rw [hsplit] at hvs ⊢
    exact findPrevUserEntry_iterates hvs hiter hdirection hstatus

end

/-! ## Runs -/

/-- What a cursor over a list of entries does. -/
def cursorStep (es : List (Bytes × Bytes)) (c : Option (Bytes × Bytes)) :
    Zipper.Call Bytes → Option (Bytes × Bytes)
  | .seek target => SortedMap.atOrPast es target
  | .seekToFirst => es.head?
  | .seekToLast => es.getLast?
  | .next => c.bind fun e => SortedMap.after es e.1
  | .prev => c.bind fun e => SortedMap.before es e.1

/-- `Next` and `Prev` are called only where `Valid` holds. -/
def LegalCalls (es : List (Bytes × Bytes)) :
    Option (Bytes × Bytes) → List (Zipper.Call Bytes) → Prop
  | _, [] => True
  | c, call :: calls =>
    (call = .next ∨ call = .prev → c ≠ none) ∧ LegalCalls es (cursorStep es c call) calls

lemma Iterates.call {vs : List (Version Bytes Bytes)} {sequence : ℕ} {it : DbIter}
    {c : Option (Bytes × Bytes)} (h : Iterates vs sequence it c) (hvs : Encoded vs)
    (hsequence : sequence ≤ kMaxSequenceNumber) {call : Zipper.Call Bytes}
    (hlegal : call = .next ∨ call = .prev → c ≠ none) :
    Iterates vs sequence (it.call call) (cursorStep (viewFrom sequence none vs) c call) := by
  cases call with
  | seek target => exact h.seek hvs hsequence target
  | seekToFirst => exact h.seekToFirst hvs
  | seekToLast => exact h.seekToLast hvs
  | next =>
    obtain ⟨e, rfl⟩ := Option.ne_none_iff_exists'.mp (hlegal (Or.inl rfl))
    exact h.next hvs
  | prev =>
    obtain ⟨e, rfl⟩ := Option.ne_none_iff_exists'.mp (hlegal (Or.inr rfl))
    exact h.prev hvs

lemma Iterates.run {vs : List (Version Bytes Bytes)} {sequence : ℕ} {it : DbIter}
    {c : Option (Bytes × Bytes)} (h : Iterates vs sequence it c) (hvs : Encoded vs)
    (hsequence : sequence ≤ kMaxSequenceNumber) {calls : List (Zipper.Call Bytes)}
    (hlegal : LegalCalls (viewFrom sequence none vs) c calls) :
    Iterates vs sequence (calls.foldl DbIter.call it)
      (calls.foldl (cursorStep (viewFrom sequence none vs)) c) := by
  induction calls generalizing it c with
  | nil => exact h
  | cons call calls ih => exact ih (h.call hvs hsequence hlegal.1) hlegal.2

lemma iterates_new (vs : List (Version Bytes Bytes)) (sequence : ℕ) :
    Iterates vs sequence (.new (vs.map internalEntry) sequence) none where
  sequence_eq := rfl
  status := rfl
  all := by simp [DbIter.new, Zipper.all]
  stands := .off rfl

/-- **Iterators.** Whatever way an iterator is moved, with any changes of direction, it shows what
a cursor over the map shows that its snapshot reads: of each key the newest version that is not
newer than the snapshot, if that is no deletion. -/
theorem db_iter_is_cursor (vs : List (Version Bytes Bytes)) (hvs : Encoded vs) (sequence : ℕ)
    (hsequence : sequence ≤ kMaxSequenceNumber) (calls : List (Zipper.Call Bytes))
    (hlegal : LegalCalls (view vs hvs.sorted sequence).entries none calls) :
    let it := calls.foldl DbIter.call (.new (vs.map internalEntry) sequence)
    it.shown = calls.foldl (cursorStep (view vs hvs.sorted sequence).entries) none ∧
      it.status = .ok ∧
      ∀ key, (view vs hvs.sorted sequence).get key = readAt vs sequence key := by
  intro it
  have hrun := (iterates_new vs sequence).run hvs hsequence hlegal
  exact ⟨hrun.shown_eq, hrun.status, fun key => get_view hvs.sorted⟩

/-- There and back over a deleted key and a version that is too new. -/
theorem db_iter_is_cursor_there_and_back :
    ([Zipper.Call.seekToLast, .prev, .next, .prev].foldl DbIter.call (.new
      ([⟨[1], 9, some [7]⟩, ⟨[1], 2, some [5]⟩, ⟨[2], 4, none⟩, ⟨[2], 3, some [6]⟩,
        ⟨[3], 1, some [8]⟩].map internalEntry) 5)).shown = some ([1], [5]) := by
  have hvs : Encoded [⟨[1], 9, some [7]⟩, ⟨[1], 2, some [5]⟩, ⟨[2], 4, none⟩, ⟨[2], 3, some [6]⟩,
      ⟨[3], 1, some [8]⟩] := by
    refine ⟨?_, by decide⟩
    simp only [Sorted, List.pairwise_cons, place_lt_iff]
    decide
  refine (db_iter_is_cursor _ hvs 5 (by decide) [.seekToLast, .prev, .next, .prev] ?_).1
  simp only [view, LegalCalls, and_true]
  decide

end Engine

end RnLeveldb
