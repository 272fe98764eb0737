import RnLeveldb.Engine.MemTable
import RnLeveldb.Engine.Merger
import Mathlib.Data.List.Sort

/-!
# `db/skiplist.h`

The nodes of a skip list are linked in the order of their keys on several levels, on each of which
every node is that is at least so high. A search goes down a level where the next node would be
too far.

Nodes are numbers, the head is the first of them. There is one writer and nobody reads while it
writes; the heights, which the source draws at random, are inputs.
-/

namespace RnLeveldb

namespace Engine

open Zipper (Ascending)

def kMaxHeight : ℕ := 12

structure SkipList (κ : Type*) where
  /-- The keys of the nodes. That of the head is never looked at. -/
  keys : List κ
  /-- By level and node. `none` is the null pointer. -/
  next : ℕ → ℕ → Option ℕ
  maxHeight : ℕ

namespace SkipList

variable {κ : Type*}

def head : ℕ := 0

/-- Any key will do for the head. -/
def new (any : κ) : SkipList κ where
  keys := [any]
  next := fun _ _ => none
  maxHeight := 1

variable (compare : κ → κ → Ordering) (sl : SkipList κ)

def keyIsAfterNode (key nodeKey : κ) : Bool := compare nodeKey key = .lt

/-- The loop of the searches: it goes on over nodes with keys of which `goes` holds, and returns
the last of them and what it would write to `prev`. `none` is a loop that has not ended after this
many steps. -/
def search (goes : κ → Bool) : ℕ → ℕ → ℕ → (ℕ → ℕ) → Option (ℕ × (ℕ → ℕ))
  | 0, _, _, _ => none
  | n + 1, x, level, prev =>
    match (sl.next level x).filter fun y => sl.keys[y]?.any goes with
    | some y => search goes n y level prev
    | none =>
      let prev := fun l => if l = level then x else prev l
      match level with
      | 0 => some (x, prev)
      | level + 1 => search goes n x level prev

/-- A search from the head, for as many steps as there are nodes and levels. -/
def searchFromHead (goes : κ → Bool) : Option (ℕ × (ℕ → ℕ)) :=
  sl.search goes (sl.keys.length + sl.maxHeight) head (sl.maxHeight - 1) fun _ => head

def findGreaterOrEqual (key : κ) : Option (Option ℕ × (ℕ → ℕ)) :=
  (sl.searchFromHead (keyIsAfterNode compare key)).map fun r => (sl.next 0 r.1, r.2)

def findLessThan (key : κ) : Option ℕ :=
  (sl.searchFromHead (keyIsAfterNode compare key)).map Prod.fst

def findLast : Option ℕ := (sl.searchFromHead fun _ => true).map Prod.fst

/-- A new node is linked in behind the nodes that were found, and behind the head on new levels. -/
def link (key : κ) (height : ℕ) (found : ℕ → ℕ) : SkipList κ :=
  let prev := fun l => if sl.maxHeight ≤ l then head else found l
  let x := sl.keys.length
  { keys := sl.keys ++ [key]
    next := fun l y =>
      if l < height then
        if y = x then sl.next l (prev l) else if y = prev l then some x else sl.next l y
      else sl.next l y
    maxHeight := max sl.maxHeight height }

def insert (key : κ) (height : ℕ) : Option (SkipList κ) :=
  (sl.findGreaterOrEqual compare key).map fun r => sl.link key height r.2

/-! ## Iterators -/

/-- `node_ = nullptr` if the node is the head. -/
def notHead (x : ℕ) : Option ℕ := if x = head then none else some x

/-- A call of an iterator that stands at this node. -/
def call (node : Option ℕ) : Zipper.Call κ → Option (Option ℕ)
  | .seek target => (sl.findGreaterOrEqual compare target).map Prod.fst
  | .seekToFirst => some (sl.next 0 head)
  | .seekToLast => sl.findLast.map notHead
  | .next => some (node.bind (sl.next 0))
  | .prev =>
    match node.bind fun x => sl.keys[x]? with
    | none => some none
    | some key => (sl.findLessThan compare key).map notHead

/-- The key of the node. -/
def shown (node : Option ℕ) : Option κ := node.bind fun x => sl.keys[x]?

end SkipList

/-! ## The nodes in order -/

/-- A node with its key and its height. -/
structure SkipNode (κ : Type*) where
  id : ℕ
  key : κ
  height : ℕ

section

variable {κ : Type*} {compare : κ → κ → Ordering} {sl : SkipList κ} {h n p x : SkipNode κ}
  {nodes less rest front mid : List (SkipNode κ)} {l : ℕ}

/-- The first of the nodes that is higher than the level. -/
def firstOn (l : ℕ) (nodes : List (SkipNode κ)) : Option (SkipNode κ) :=
  nodes.find? fun y => l < y.height

/-- The last of the nodes that is higher than the level. -/
def lastOn (l : ℕ) (nodes : List (SkipNode κ)) : Option (SkipNode κ) := firstOn l nodes.reverse

/-- The nodes behind the head `h` are these. -/
structure Linked (sl : SkipList κ) (h : SkipNode κ) (nodes : List (SkipNode κ)) : Prop where
  head_id : h.id = SkipList.head
  head_height : h.height = kMaxHeight
  length : sl.keys.length = nodes.length + 1
  key : ∀ x ∈ nodes, sl.keys[x.id]? = some x.key
  nodup : (h :: nodes).Pairwise fun x y => x.id ≠ y.id
  height : ∀ x ∈ nodes, 0 < x.height ∧ x.height ≤ sl.maxHeight
  maxHeight : 0 < sl.maxHeight ∧ sl.maxHeight ≤ kMaxHeight
  next : ∀ front x rest, h :: nodes = front ++ x :: rest → ∀ l < x.height,
    sl.next l x.id = (firstOn l rest).map SkipNode.id

lemma firstOn_append (l : ℕ) (xs ys : List (SkipNode κ)) :
    firstOn l (xs ++ ys) = (firstOn l xs).or (firstOn l ys) := List.find?_append

lemma firstOn_eq_none : firstOn l nodes = none ↔ ∀ y ∈ nodes, y.height ≤ l := by
  rw [firstOn, List.find?_eq_none]
  simp

lemma firstOn_mem (hx : firstOn l nodes = some x) : x ∈ nodes := List.mem_of_find?_eq_some hx

lemma firstOn_cons_of_lt (hx : l < x.height) : firstOn l (x :: rest) = some x :=
  List.find?_cons_of_pos (by simpa using hx)

lemma firstOn_cons_of_le (hx : x.height ≤ l) : firstOn l (x :: rest) = firstOn l rest :=
  List.find?_cons_of_neg (by simpa using hx)

lemma lastOn_split (hsplit : nodes = front ++ x :: mid) (hx : l < x.height)
    (hlow : ∀ y ∈ mid, y.height ≤ l) : lastOn l nodes = some x := by
  have hnone : firstOn l mid.reverse = none := by
    rw [firstOn_eq_none]
    simpa using hlow
  rw [lastOn, hsplit, List.reverse_append, List.reverse_cons, List.append_assoc, firstOn_append,
    hnone, Option.none_or, List.singleton_append, firstOn_cons_of_lt hx]

lemma lastOn_eq_some (hp : lastOn l nodes = some p) :
    ∃ front mid, nodes = front ++ p :: mid ∧ l < p.height ∧ ∀ y ∈ mid, y.height ≤ l := by
  obtain ⟨hhigh, xs, ys, hsplit, hlow⟩ := List.find?_eq_some_iff_append.mp hp
  refine ⟨ys.reverse, xs.reverse, ?_, by simpa using hhigh, fun y hy => ?_⟩
  · rw [← List.reverse_reverse nodes, hsplit, List.reverse_append, List.reverse_cons,
      List.append_assoc, List.singleton_append]
  · have hy' := hlow y (List.mem_reverse.mp hy)
    simpa using hy'

/-- A node is the last one on its level if it has the number of the last one. -/
lemma lastOn_id (hnodup : nodes.Pairwise fun x y => x.id ≠ y.id)
    (hsplit : nodes = front ++ x :: mid) (hx : l < x.height) (hp : lastOn l nodes = some p) :
    x.id = p.id ↔ firstOn l mid = none := by
  constructor
  · intro hid
    rw [firstOn_eq_none]
    by_contra hhigh
    push Not at hhigh
    obtain ⟨y, hy, hly⟩ := hhigh
    have hmid : ∃ q ∈ mid, lastOn l nodes = some q := by
      have hsome : (firstOn l mid.reverse).isSome := by
        rw [Option.isSome_iff_ne_none, ne_eq, firstOn_eq_none]
        intro hlow
        exact absurd (hlow y (List.mem_reverse.mpr hy)) (by omega)
      obtain ⟨q, hq⟩ := Option.isSome_iff_exists.mp hsome
      refine ⟨q, List.mem_reverse.mp (firstOn_mem hq), ?_⟩
      rw [lastOn, hsplit, List.reverse_append, List.reverse_cons, List.append_assoc,
        firstOn_append, hq, Option.some_or]
    obtain ⟨q, hq, hlast⟩ := hmid
    rw [hp, Option.some_inj] at hlast
    rw [hsplit] at hnodup
    have hne := (List.pairwise_cons.mp (List.pairwise_append.mp hnodup).2.1).1 q hq
    exact hne (by rw [hid, hlast])
  · intro hnone
    rw [lastOn_split hsplit hx (firstOn_eq_none.mp hnone), Option.some_inj] at hp
    rw [hp]

/-- A search ends, at the last node that it goes over, and `prev` has the last ones of its
levels. -/
lemma search_spec {goes : κ → Bool} (hl : Linked sl h (less ++ rest))
    (hless : ∀ y ∈ less, goes y.key = true) (hrest : ∀ y ∈ rest, goes y.key = false)
    {front mid : List (SkipNode κ)} (hsplit : h :: less = front ++ x :: mid) {level : ℕ}
    (hlevel : level < x.height) {n : ℕ} (hn : mid.length + level < n) (prev : ℕ → ℕ) :
    ∃ f r found, h :: less = f ++ [r] ∧ sl.search goes n x.id level prev = some (r.id, found) ∧
      (∀ l ≤ level, ∃ p, lastOn l (h :: less) = some p ∧ found l = p.id) ∧
      ∀ l, level < l → found l = prev l := by
  induction n generalizing x front mid level prev with
  | zero => omega
  | succ n ih =>
    have hfull : h :: (less ++ rest) = front ++ x :: (mid ++ rest) := by
      rw [← List.cons_append, hsplit, List.append_assoc, List.cons_append]
    have hnext := hl.next front x (mid ++ rest) hfull level hlevel
    have hmid : ∀ y ∈ mid, y ∈ less := by
      intro y hy
      cases front with
      | nil =>
        cases hsplit
        exact hy
      | cons z front =>
        rw [List.cons_append, List.cons.injEq] at hsplit
        rw [hsplit.2]
        simp [hy]
    rw [SkipList.search, hnext, firstOn_append]
    cases hfind : firstOn level mid with
    | some y =>
      obtain ⟨hhigh, m1, m2, hm, -⟩ := List.find?_eq_some_iff_append.mp hfind
      have hy : y ∈ less := hmid y (by simp [hm])
      have hpass : (Option.map SkipNode.id ((some y).or
          (firstOn level rest))).filter
            (fun z => sl.keys[z]?.any goes) = some y.id := by
        simp [hl.key y (List.mem_append_left _ hy), hless y hy]
      rw [hpass]
      have hsplit' : h :: less = (front ++ x :: m1) ++ y :: m2 := by
        rw [hsplit, hm, List.append_assoc, List.cons_append]
      refine ih hsplit' (by simpa using hhigh) ?_ prev
      · rw [hm, List.length_append, List.length_cons] at hn
        omega
    | none =>
      have hlow := firstOn_eq_none.mp hfind
      have hstop : (Option.map SkipNode.id ((none : Option (SkipNode κ)).or
          (firstOn level rest))).filter
            (fun z => sl.keys[z]?.any goes) = none := by
        rw [Option.none_or]
        cases hr : firstOn level rest with
        | none => rfl
        | some g =>
          have hg := firstOn_mem hr
          simp [hl.key g (List.mem_append_right _ hg), hrest g hg]
      rw [hstop]
      cases level with
      | zero =>
        have hnil : mid = [] := by
          rw [List.eq_nil_iff_forall_not_mem]
          intro y hy
          have hpos := (hl.height y (List.mem_append_left _ (hmid y hy))).1
          have hle := hlow y hy
          omega
        refine ⟨front, x, fun l => if l = 0 then x.id else prev l, by rw [hsplit, hnil], rfl,
          fun l hle => ?_, fun l hlt => ?_⟩
        · obtain rfl : l = 0 := by omega
          exact ⟨x, lastOn_split hsplit hlevel hlow, if_pos rfl⟩
        · exact if_neg (by omega)
      | succ level =>
        obtain ⟨f, r, found, hlast, hsearch, hprev, hkeep⟩ := ih hsplit
          (by omega : level < x.height) (by omega) (fun l => if l = level + 1 then x.id else prev l)
        refine ⟨f, r, found, hlast, hsearch, fun l hle => ?_, fun l hlt => ?_⟩
        · rcases Nat.lt_or_ge level l with hlt | hge
          · obtain rfl : l = level + 1 := by omega
            refine ⟨x, lastOn_split hsplit hlevel hlow, ?_⟩
            rw [hkeep _ hlt, if_pos rfl]
          · exact hprev l hge
        · rw [hkeep l (by omega), if_neg (by omega)]

/-- No search from the head takes more steps than there are nodes and levels. -/
lemma searchFromHead_spec (goes : κ → Bool) (hl : Linked sl h (less ++ rest))
    (hless : ∀ y ∈ less, goes y.key = true) (hrest : ∀ y ∈ rest, goes y.key = false) :
    ∃ f r found, h :: less = f ++ [r] ∧ sl.searchFromHead goes = some (r.id, found) ∧
      ∀ l < sl.maxHeight, ∃ p, lastOn l (h :: less) = some p ∧ found l = p.id := by
  have hmax := hl.maxHeight
  have hlength := hl.length
  rw [List.length_append] at hlength
  have hlevel : sl.maxHeight - 1 < h.height := by
    rw [hl.head_height]
    omega
  have hn : less.length + (sl.maxHeight - 1) < sl.keys.length + sl.maxHeight := by omega
  obtain ⟨f, r, found, hlast, hsearch, hprev, -⟩ := search_spec hl hless hrest
    (List.nil_append _).symm hlevel hn fun _ => SkipList.head
  rw [hl.head_id] at hsearch
  exact ⟨f, r, found, hlast, hsearch, fun l hlt => hprev l (by omega)⟩

lemma linked_new (any : κ) : Linked (.new any) ⟨SkipList.head, any, kMaxHeight⟩ [] where
  head_id := rfl
  head_height := rfl
  length := rfl
  key := by simp
  nodup := List.pairwise_singleton _ _
  height := by simp
  maxHeight := ⟨Nat.one_pos, (by decide : 1 ≤ kMaxHeight)⟩
  next := by
    intro front x rest hsplit l hl
    rw [List.singleton_eq_append_iff] at hsplit
    rcases hsplit with ⟨-, hx⟩ | ⟨-, hx⟩
    · obtain ⟨-, rfl⟩ := List.cons.inj hx
      rfl
    · cases hx

lemma Linked.id_lt (hl : Linked sl h nodes) (hx : x ∈ h :: nodes) : x.id < sl.keys.length := by
  rcases List.mem_cons.mp hx with rfl | hx
  · rw [hl.head_id, hl.length, SkipList.head]
    omega
  · exact (List.getElem?_eq_some_iff.mp (hl.key x hx)).1

section

variable {key : κ} {height : ℕ} {found : ℕ → ℕ} (hl : Linked sl h (less ++ rest))
  (hfound : ∀ l < sl.maxHeight, ∃ p, lastOn l (h :: less) = some p ∧ found l = p.id)

include hl hfound

/-- `prev` at an insertion. -/
lemma Linked.prev (hlevel : l < kMaxHeight) :
    ∃ p, lastOn l (h :: less) = some p ∧
      (if sl.maxHeight ≤ l then SkipList.head else found l) = p.id := by
  by_cases hmax : sl.maxHeight ≤ l
  · refine ⟨h, lastOn_split (List.nil_append _).symm (by rwa [hl.head_height]) fun y hy => ?_, ?_⟩
    · exact le_trans (hl.height y (List.mem_append_left _ hy)).2 hmax
    · rw [if_pos hmax, hl.head_id]
  · rw [if_neg hmax]
    exact hfound l (by omega)

/-- The links that an insertion leaves alone, and those that it changes. -/
lemma Linked.next_old (hheight : height ≤ kMaxHeight) (hx : x ∈ h :: (less ++ rest)) :
    (sl.link key height found).next l x.id =
      if l < height ∧ (lastOn l (h :: less)).map SkipNode.id = some x.id then some sl.keys.length
      else sl.next l x.id := by
  by_cases hlevel : l < height
  · obtain ⟨p, hp, hprev⟩ := hl.prev hfound (lt_of_lt_of_le hlevel hheight)
    simp only [SkipList.link, if_pos hlevel, if_neg (ne_of_lt (hl.id_lt hx)), hprev, hp]
    simp [hlevel, eq_comm]
  · simp [SkipList.link, hlevel]

/-- The links of the new node. -/
lemma Linked.next_new (hheight : height ≤ kMaxHeight) (hlevel : l < height) :
    (sl.link key height found).next l sl.keys.length = (firstOn l rest).map SkipNode.id := by
  obtain ⟨p, hp, hprev⟩ := hl.prev hfound (lt_of_lt_of_le hlevel hheight)
  obtain ⟨front, mid, hsplit, hhigh, hlow⟩ := lastOn_eq_some hp
  simp only [SkipList.link, if_pos hlevel, if_true, hprev]
  rw [hl.next front p (mid ++ rest) ?_ l hhigh, firstOn_append, firstOn_eq_none.mpr hlow,
    Option.none_or]
  rw [← List.cons_append, hsplit, List.append_assoc, List.cons_append]

/-- The links of the nodes in front of the new one. -/
lemma Linked.next_front (hheight : height ≤ kMaxHeight)
    (hsplit : h :: less = front ++ x :: mid) (hx : l < x.height) :
    (sl.link key height found).next l x.id =
      (firstOn l (mid ++ ⟨sl.keys.length, key, height⟩ :: rest)).map SkipNode.id := by
  have hfull : h :: (less ++ rest) = front ++ x :: (mid ++ rest) := by
    rw [← List.cons_append, hsplit, List.append_assoc, List.cons_append]
  have hold := hl.next front x (mid ++ rest) hfull l hx
  have hnodup : (h :: less).Pairwise fun x y => x.id ≠ y.id := by
    have hall := hl.nodup
    rw [← List.cons_append] at hall
    exact (List.pairwise_append.mp hall).1
  rw [hl.next_old hfound hheight (by rw [hfull]; simp), hold, firstOn_append, firstOn_append]
  by_cases hlevel : l < height
  · obtain ⟨p, hp, -⟩ := hl.prev hfound (lt_of_lt_of_le hlevel hheight)
    have hid := lastOn_id hnodup hsplit hx hp
    rw [hp, firstOn_cons_of_lt hlevel]
    cases hmid : firstOn l mid with
    | none =>
      rw [hmid] at hid
      simp [hlevel, hid.mpr rfl]
    | some y =>
      rw [hmid] at hid
      have hne : p.id ≠ x.id := fun heq => by
        cases hid.mp heq.symm
      simp [hne]
  · rw [firstOn_cons_of_le (not_lt.mp hlevel), if_neg (by simp [hlevel])]

/-- The links of the nodes behind the new one. -/
lemma Linked.next_behind (hheight : height ≤ kMaxHeight) {after : List (SkipNode κ)}
    (hsplit : rest = mid ++ x :: after) (hx : l < x.height) :
    (sl.link key height found).next l x.id = (firstOn l after).map SkipNode.id := by
  subst hsplit
  have hold := hl.next (h :: less ++ mid) x after (by simp) l hx
  have hnodup := hl.nodup
  rw [← List.cons_append] at hnodup
  rw [hl.next_old hfound hheight (by simp), hold, if_neg]
  rintro ⟨-, hlast⟩
  cases hp : lastOn l (h :: less) with
  | none =>
    rw [hp] at hlast
    cases hlast
  | some p =>
    rw [hp, Option.map_some, Option.some_inj] at hlast
    have hmem : p ∈ h :: less := List.mem_reverse.mp (firstOn_mem hp)
    exact (List.pairwise_append.mp hnodup).2.2 p hmem x (by simp) hlast

/-- An insertion in front of the first node that is not less. -/
lemma Linked.link (hheight : 0 < height ∧ height ≤ kMaxHeight) :
    Linked (sl.link key height found) h (less ++ ⟨sl.keys.length, key, height⟩ :: rest) where
  head_id := hl.head_id
  head_height := hl.head_height
  length := by
    have hlength := hl.length
    simp only [SkipList.link, List.length_append, List.length_cons, List.length_nil] at hlength ⊢
    omega
  key := by
    intro x hx
    rw [List.mem_append, List.mem_cons, or_left_comm, ← List.mem_append] at hx
    rcases hx with rfl | hx
    · exact List.getElem?_concat_length
    · have hkey := hl.key x hx
      exact (List.getElem?_append_left (hl.id_lt (List.mem_cons_of_mem _ hx))).trans hkey
  nodup := by
    rw [← List.cons_append]
    refine (List.perm_middle.pairwise_iff fun hxy => Ne.symm hxy).mpr
      (List.pairwise_cons.mpr ⟨fun y hy => ?_, hl.nodup⟩)
    exact ne_of_gt (hl.id_lt hy)
  height := by
    intro x hx
    rw [List.mem_append, List.mem_cons, or_left_comm, ← List.mem_append] at hx
    rcases hx with rfl | hx
    · exact ⟨hheight.1, le_max_right _ _⟩
    · exact ⟨(hl.height x hx).1, le_trans (hl.height x hx).2 (le_max_left _ _)⟩
  maxHeight := ⟨lt_of_lt_of_le hheight.1 (le_max_right _ _), max_le hl.maxHeight.2 hheight.2⟩
  next := by
    intro front x after hsplit l hx
    rw [← List.cons_append, List.append_eq_append_iff] at hsplit
    rcases hsplit with ⟨as, -, has⟩ | ⟨bs, hbs, hafter⟩
    · cases as with
      | nil =>
        obtain ⟨rfl, rfl⟩ := List.cons.inj has
        exact hl.next_new hfound hheight.2 hx
      | cons a as =>
        obtain ⟨-, hrest'⟩ := List.cons.inj has
        exact hl.next_behind hfound hheight.2 hrest' hx
    · cases bs with
      | nil =>
        obtain ⟨rfl, rfl⟩ := List.cons.inj hafter
        exact hl.next_new hfound hheight.2 hx
      | cons b bs =>
        obtain ⟨rfl, rfl⟩ := List.cons.inj hafter
        exact hl.next_front hfound hheight.2 hbs hx

end

/-! ## Insertions in any order -/

variable {P : Type*} [LinearOrder P] {place : κ → P}

/-- The nodes of which the keys are less than a key, and the others. -/
lemma split_at (hasc : Ascending (fun y : SkipNode κ => place y.key) nodes) (key : κ) :
    nodes.filter (fun y => place y.key < place key) ++
      nodes.filter (fun y => ¬ place y.key < place key) = nodes := by
  have hall := hasc.all_cut (Zipper.isLower_lt (place key))
  rwa [Zipper.cut, Zipper.all_between] at hall

lemma Linked.inserted (hcompare : Compares compare place) (hl : Linked sl h nodes)
    (hasc : Ascending (fun y : SkipNode κ => place y.key) nodes) {key : κ} {height : ℕ}
    (hnew : ∀ y ∈ nodes, place y.key ≠ place key) (hheight : 0 < height ∧ height ≤ kMaxHeight) :
    ∃ sl', sl.insert compare key height = some sl' ∧ ∃ nodes', Linked sl' h nodes' ∧
      Ascending (fun y : SkipNode κ => place y.key) nodes' ∧
      (nodes'.map SkipNode.key).Perm (key :: nodes.map SkipNode.key) := by
  have hsplit := split_at hasc key
  have hless : ∀ y ∈ nodes.filter (fun y => place y.key < place key), place y.key < place key := by
    intro y hy
    simpa using (List.mem_filter.mp hy).2
  have hrest : ∀ y ∈ nodes.filter (fun y => ¬ place y.key < place key),
      place key < place y.key := by
    intro y hy
    have hy' := List.mem_filter.mp hy
    exact lt_of_le_of_ne (by simpa using hy'.2) (Ne.symm (hnew y hy'.1))
  generalize nodes.filter (fun y => place y.key < place key) = less at hsplit hless
  generalize nodes.filter (fun y => ¬ place y.key < place key) = rest at hsplit hrest
  subst hsplit
  obtain ⟨hascLess, hascRest, hbetween⟩ := List.pairwise_append.mp hasc
  obtain ⟨f, r, found, -, hsearch, hfound⟩ := searchFromHead_spec
    (SkipList.keyIsAfterNode compare key) hl
    (fun y hy => decide_eq_true (hcompare.lt_iff.mpr (hless y hy)))
    (fun y hy => decide_eq_false fun hlt => lt_asymm (hrest y hy) (hcompare.lt_iff.mp hlt))
  refine ⟨sl.link key height found, ?_, _, hl.link hfound hheight, ?_, ?_⟩
  · rw [SkipList.insert, SkipList.findGreaterOrEqual, hsearch]
    rfl
  · refine List.pairwise_append.mpr ⟨hascLess, List.pairwise_cons.mpr ⟨hrest, hascRest⟩, ?_⟩
    intro y hy z hz
    rcases List.mem_cons.mp hz with rfl | hz
    · exact hless y hy
    · exact hbetween y hy z hz
  · rw [List.map_append, List.map_append, List.map_cons]
    exact List.perm_middle

/-- The list after insertions, each with the height drawn for it. -/
def SkipList.inserts (compare : κ → κ → Ordering) (sl : SkipList κ) (inserted : List (κ × ℕ)) :
    Option (SkipList κ) :=
  inserted.foldlM (fun sl i => sl.insert compare i.1 i.2) sl

lemma Linked.inserts (hcompare : Compares compare place) (hl : Linked sl h nodes)
    (hasc : Ascending (fun y : SkipNode κ => place y.key) nodes) {inserted : List (κ × ℕ)}
    (hheights : ∀ i ∈ inserted, 0 < i.2 ∧ i.2 ≤ kMaxHeight)
    (hnew : ∀ y ∈ nodes, ∀ i ∈ inserted, place y.key ≠ place i.1)
    (hdistinct : inserted.Pairwise fun a b => place a.1 ≠ place b.1) :
    ∃ sl', sl.inserts compare inserted = some sl' ∧ ∃ nodes', Linked sl' h nodes' ∧
      Ascending (fun y : SkipNode κ => place y.key) nodes' ∧
      (nodes'.map SkipNode.key).Perm (nodes.map SkipNode.key ++ inserted.map Prod.fst) := by
  induction inserted generalizing sl nodes with
  | nil => exact ⟨sl, rfl, nodes, hl, hasc, by simp⟩
  | cons i inserted ih =>
    obtain ⟨hi, hdistinct⟩ := List.pairwise_cons.mp hdistinct
    obtain ⟨sl1, hinsert, nodes1, hl1, hasc1, hperm1⟩ := hl.inserted hcompare hasc
      (fun y hy => hnew y hy i List.mem_cons_self) (hheights i List.mem_cons_self)
    have hnew1 : ∀ y ∈ nodes1, ∀ j ∈ inserted, place y.key ≠ place j.1 := by
      intro y hy j hj
      rcases List.mem_cons.mp (hperm1.mem_iff.mp (List.mem_map_of_mem hy)) with hkey | hold
      · rw [hkey]
        exact hi j hj
      · obtain ⟨y', hy', hkey⟩ := List.mem_map.mp hold
        rw [← hkey]
        exact hnew y' hy' j (List.mem_cons_of_mem _ hj)
    obtain ⟨sl', hinserts, nodes', hl', hasc', hperm'⟩ := ih hl1 hasc1
      (fun j hj => hheights j (List.mem_cons_of_mem _ hj)) hnew1 hdistinct
    refine ⟨sl', ?_, nodes', hl', hasc', hperm'.trans ?_⟩
    · rw [SkipList.inserts, List.foldlM_cons, hinsert]
      exact hinserts
    rw [List.map_cons]
    exact (hperm1.append_right _).trans List.perm_middle.symm

/-- A list after insertions of keys that are all different. -/
lemma linked_inserts (hcompare : Compares compare place) (any : κ) {inserted : List (κ × ℕ)}
    (hheights : ∀ i ∈ inserted, 0 < i.2 ∧ i.2 ≤ kMaxHeight)
    (hdistinct : inserted.Pairwise fun a b => compare a.1 b.1 ≠ .eq) :
    ∃ sl, (SkipList.new any).inserts compare inserted = some sl ∧ ∃ h nodes, Linked sl h nodes ∧
      Ascending (fun y : SkipNode κ => place y.key) nodes ∧
      (nodes.map SkipNode.key).Perm (inserted.map Prod.fst) := by
  obtain ⟨sl, hinserts, nodes, hl, hasc, hperm⟩ := (linked_new any).inserts hcompare List.Pairwise.nil hheights
    (by simp) (hdistinct.imp fun hne heq => hne (hcompare.eq_iff.mpr heq))
  exact ⟨sl, hinserts, _, nodes, hl, hasc, hperm⟩

/-! ## Iterators as cursors -/

/-- An iterator at this node is this cursor over the keys. -/
def CursorAt (nodes : List (SkipNode κ)) (node : Option ℕ) (z : Zipper κ) : Prop :=
  ∃ front rest, nodes = front ++ rest ∧ node = rest.head?.map SkipNode.id ∧
    z = Zipper.between (front.map SkipNode.key) (rest.map SkipNode.key)

/-- A new iterator. -/
lemma cursorAt_none (nodes : List (SkipNode κ)) :
    CursorAt nodes none (.between (nodes.map SkipNode.key) []) :=
  ⟨nodes, [], (List.append_nil nodes).symm, rfl, rfl⟩

lemma CursorAt.all {node : Option ℕ} {z : Zipper κ} (hat : CursorAt nodes node z) :
    z.all = nodes.map SkipNode.key := by
  obtain ⟨front, rest, rfl, -, rfl⟩ := hat
  rw [Zipper.all_between, List.map_append]

lemma CursorAt.shown_eq {node : Option ℕ} {z : Zipper κ} (hl : Linked sl h nodes)
    (hat : CursorAt nodes node z) : sl.shown node = z.current := by
  obtain ⟨front, rest, rfl, rfl, rfl⟩ := hat
  cases rest with
  | nil => rfl
  | cons x rest => exact hl.key x (by simp)

lemma Linked.height_pos (hl : Linked sl h nodes) (hx : x ∈ h :: nodes) : 0 < x.height := by
  rcases List.mem_cons.mp hx with rfl | hx
  · rw [hl.head_height, kMaxHeight]
    omega
  · exact (hl.height x hx).1

/-- The links of the lowest level. -/
lemma Linked.next_lowest (hl : Linked sl h nodes) (hsplit : h :: nodes = front ++ x :: rest) :
    sl.next 0 x.id = rest.head?.map SkipNode.id := by
  rw [hl.next front x rest hsplit 0 (hl.height_pos (by rw [hsplit]; simp))]
  cases rest with
  | nil => rfl
  | cons y rest => rw [firstOn_cons_of_lt (hl.height_pos (by rw [hsplit]; simp)), List.head?_cons]

/-- The last of the nodes that a search goes over is one step back from its end. -/
lemma Linked.cursorAt_notHead (hl : Linked sl h (less ++ rest)) (hlast : h :: less = front ++ [x]) :
    CursorAt (less ++ rest) (SkipList.notHead x.id)
      (Zipper.between (less.map SkipNode.key) (rest.map SkipNode.key)).prev := by
  have hget := congrArg List.getLast? hlast
  rw [List.getLast?_concat] at hget
  rcases List.eq_nil_or_concat less with rfl | ⟨before, y, rfl⟩
  · rw [List.getLast?_singleton, Option.some_inj] at hget
    subst hget
    refine ⟨rest, [], by simp, if_pos hl.head_id, ?_⟩
    rw [List.map_nil, Zipper.prev_between_nil]
  · rw [List.concat_eq_append, ← List.cons_append, List.getLast?_concat, Option.some_inj] at hget
    subst hget
    have hne : y.id ≠ SkipList.head := by
      rw [← hl.head_id]
      exact Ne.symm ((List.pairwise_cons.mp hl.nodup).1 y (by simp))
    refine ⟨before, y :: rest, by simp, if_neg hne, ?_⟩
    rw [List.concat_eq_append, List.map_append, List.map_singleton, Zipper.prev_between_append,
      List.map_cons]

/-- What a call does. -/
lemma Linked.call (hcompare : Compares compare place) (hl : Linked sl h nodes)
    (hasc : Ascending (fun y : SkipNode κ => place y.key) nodes) {node : Option ℕ} {z : Zipper κ}
    (hat : CursorAt nodes node z) (c : Zipper.Call κ)
    (hlegal : c = .next ∨ c = .prev → z.current ≠ none) :
    ∃ node', sl.call compare node c = some node' ∧
      CursorAt nodes node' (z.call (SkipList.keyIsAfterNode compare) c) := by
  cases c with
  | seek target =>
    have hasc' : Ascending place (nodes.map SkipNode.key) := List.pairwise_map.mpr hasc
    have hbefore : SkipList.keyIsAfterNode compare target =
        fun k => decide (place k < place target) := by
      funext k
      rw [SkipList.keyIsAfterNode, decide_eq_decide]
      exact hcompare.lt_iff
    have hsplit := split_at hasc target
    rw [Zipper.call, hat.all, hbefore, hasc'.seek_eq (Zipper.isLower_lt (place target)), Zipper.cut,
      List.filter_map, List.filter_map]
    have hl' := hl
    rw [← hsplit] at hl'
    obtain ⟨f, r, found, hlast, hsearch, -⟩ := searchFromHead_spec
      (SkipList.keyIsAfterNode compare target) hl'
      (fun y hy => by rw [hbefore]; exact (List.mem_filter.mp hy).2)
      (fun y hy => by rw [hbefore]; simpa using (List.mem_filter.mp hy).2)
    refine ⟨sl.next 0 r.id, ?_, _, _, hsplit.symm, ?_, rfl⟩
    · rw [SkipList.call, SkipList.findGreaterOrEqual, hsearch]
      rfl
    · apply hl'.next_lowest
      rw [← List.cons_append, hlast, List.append_assoc, List.singleton_append]
  | seekToFirst =>
    refine ⟨_, rfl, [], nodes, rfl, ?_, by rw [Zipper.call, hat.all]; rfl⟩
    rw [← hl.head_id]
    exact hl.next_lowest (List.nil_append _).symm
  | seekToLast =>
    have hl' : Linked sl h (nodes ++ []) := by rwa [List.append_nil]
    obtain ⟨f, r, found, hlast, hsearch, -⟩ := searchFromHead_spec (fun _ => true) hl'
      (fun _ _ => rfl) (by simp)
    have hcursor := hl'.cursorAt_notHead hlast
    rw [List.append_nil] at hcursor
    refine ⟨SkipList.notHead r.id, ?_, ?_⟩
    · rw [SkipList.call, SkipList.findLast, hsearch]
      rfl
    · rw [Zipper.call, hat.all, Zipper.last_eq]
      exact hcursor
  | next =>
    obtain ⟨front, rest, rfl, rfl, rfl⟩ := hat
    cases rest with
    | nil => exact absurd rfl (hlegal (.inl rfl))
    | cons x rest =>
      refine ⟨_, rfl, front ++ [x], rest, by simp, ?_, ?_⟩
      · exact hl.next_lowest (List.cons_append).symm
      · rw [Zipper.call, List.map_cons, Zipper.next_between_cons, List.map_append,
          List.map_singleton]
  | prev =>
    obtain ⟨front, rest, rfl, rfl, rfl⟩ := hat
    cases rest with
    | nil => exact absurd rfl (hlegal (.inr rfl))
    | cons x rest =>
      obtain ⟨-, hrest, hfront⟩ := List.pairwise_append.mp hasc
      obtain ⟨f, r, found, hlast, hsearch, -⟩ := searchFromHead_spec
        (SkipList.keyIsAfterNode compare x.key) hl
        (fun y hy => decide_eq_true (hcompare.lt_iff.mpr (hfront y hy x List.mem_cons_self)))
        (fun y hy => decide_eq_false fun hlt => by
          have hlt' := hcompare.lt_iff.mp hlt
          rcases List.mem_cons.mp hy with rfl | hy
          · exact lt_irrefl _ hlt'
          · exact lt_asymm hlt' ((List.pairwise_cons.mp hrest).1 y hy))
      have hkey : sl.keys[x.id]? = some x.key := hl.key x (by simp)
      refine ⟨SkipList.notHead r.id, ?_, hl.cursorAt_notHead hlast⟩
      rw [SkipList.call, List.head?_cons, Option.map_some, Option.bind_some, hkey]
      dsimp only
      rw [SkipList.findLessThan, hsearch]
      rfl

lemma Linked.calls (hcompare : Compares compare place) (hl : Linked sl h nodes)
    (hasc : Ascending (fun y : SkipNode κ => place y.key) nodes) {calls : List (Zipper.Call κ)}
    {node : Option ℕ} {z : Zipper κ} (hat : CursorAt nodes node z)
    (hlegal : Zipper.Legal (SkipList.keyIsAfterNode compare) z calls) :
    ∃ node', calls.foldlM (sl.call compare) node = some node' ∧
      CursorAt nodes node' (calls.foldl (Zipper.call (SkipList.keyIsAfterNode compare)) z) := by
  induction calls generalizing node z with
  | nil => exact ⟨node, rfl, hat⟩
  | cons c calls ih =>
    obtain ⟨node1, hcall, hat1⟩ := hl.call hcompare hasc hat c hlegal.1
    rw [List.foldlM_cons, hcall]
    exact ih hat1 hlegal.2

lemma ascending_inj {xs : List κ} (h : Ascending place xs) {a b : κ} (ha : a ∈ xs)
    (hb : b ∈ xs) (hplace : place a = place b) : a = b := by
  obtain ⟨front, rest, rfl, hfront, hrest⟩ := h.split hb
  rcases List.mem_append.mp ha with ha | ha
  · exact absurd hplace (ne_of_lt (hfront a ha))
  · rcases List.mem_cons.mp ha with rfl | ha
    · rfl
    · exact absurd hplace (ne_of_gt (hrest a ha))

/-- Ascending keys are what sorting any arrangement of them gives. -/
lemma insertionSort_eq {keys inserted : List κ} (hasc : Ascending place keys)
    (hperm : keys.Perm inserted) :
    inserted.insertionSort (fun a b => place a ≤ place b) = keys := by
  have htotal : Std.Total fun a b : κ => place a ≤ place b := ⟨fun _ _ => le_total _ _⟩
  have htrans : IsTrans κ fun a b => place a ≤ place b := ⟨fun _ _ _ => le_trans⟩
  have hsorted := List.perm_insertionSort (fun a b => place a ≤ place b) inserted
  refine List.Perm.eq_of_pairwise (fun a b ha hb (hab : place a ≤ place b) hba => ?_)
    (List.pairwise_insertionSort _ inserted) (hasc.imp le_of_lt) (hsorted.trans hperm.symm)
  exact ascending_inj hasc (hperm.mem_iff.mpr (hsorted.mem_iff.mp ha)) hb (le_antisymm hab hba)

/-- **Skip lists.** Whatever is inserted and however high the nodes are, all searches end, and an
iterator that is moved in any way is a cursor over the sorted keys. -/
theorem skip_list_iterator_is_cursor (hcompare : Compares compare place) (any : κ)
    {inserted : List (κ × ℕ)} (hheights : ∀ i ∈ inserted, 0 < i.2 ∧ i.2 ≤ kMaxHeight)
    (hdistinct : inserted.Pairwise fun a b => compare a.1 b.1 ≠ .eq)
    (calls : List (Zipper.Call κ))
    (hlegal : Zipper.Legal (SkipList.keyIsAfterNode compare)
      (.between ((inserted.map Prod.fst).insertionSort fun a b => place a ≤ place b) []) calls) :
    ∃ sl, (SkipList.new any).inserts compare inserted = some sl ∧
      ∃ node, calls.foldlM (sl.call compare) none = some node ∧
        sl.shown node =
          (calls.foldl (Zipper.call (SkipList.keyIsAfterNode compare)) (.between
            ((inserted.map Prod.fst).insertionSort fun a b => place a ≤ place b) [])).current := by
  obtain ⟨sl, hinserts, h, nodes, hl, hasc, hperm⟩ :=
    linked_inserts hcompare any hheights hdistinct
  rw [insertionSort_eq (List.pairwise_map.mpr hasc) hperm] at hlegal ⊢
  obtain ⟨node, hcalls, hat⟩ := hl.calls hcompare hasc (cursorAt_none nodes) hlegal
  exact ⟨sl, hinserts, node, hcalls, hat.shown_eq hl⟩

/-- Three keys of different heights. -/
theorem skip_list_iterator_is_cursor_three :
    ∃ sl, (SkipList.new 0).inserts Ord.compare [(5, 1), (2, 3), (9, 2)] = some sl ∧
      ∃ node, [Zipper.Call.seek 4, .next, .prev, .prev].foldlM (sl.call Ord.compare) none =
        some node ∧ sl.shown node = some 2 := by
  have hcompare : Compares (Ord.compare : ℕ → ℕ → Ordering) id := Nat.compare_eq_ite_lt
  have hheights : ∀ i ∈ [(5, 1), (2, 3), (9, 2)], 0 < i.2 ∧ i.2 ≤ kMaxHeight := by decide
  obtain ⟨sl, hinserts, node, hcalls, hshown⟩ := skip_list_iterator_is_cursor hcompare 0 hheights
    (by decide) [.seek 4, .next, .prev, .prev] (by
      simp only [Zipper.Legal, and_true]
      decide)
  exact ⟨sl, hinserts, node, hcalls, hshown.trans (by decide)⟩

/-! ## Memtables -/

/-- The order of the entries. -/
def entryPlace (entry : Bytes) : Bytes ×ₗ ℕᵒᵈ := internalPlace (lengthPrefixed entry)

lemma compares_entries : Compares compareEntries entryPlace :=
  fun a b => compareInternalKeys_eq (lengthPrefixed a) (lengthPrefixed b)

lemma insertEntry_eq (entry : Bytes) (table : List Bytes) :
    insertEntry entry table =
      table.orderedInsert (fun a b => entryPlace a ≤ entryPlace b) entry := by
  induction table with
  | nil => rfl
  | cons e table ih =>
    rw [insertEntry, List.orderedInsert_cons, ih]
    by_cases hlt : entryPlace e < entryPlace entry
    · rw [if_pos (compares_entries.lt_iff.mpr hlt), if_neg (not_le.mpr hlt)]
    · rw [if_neg (mt compares_entries.lt_iff.mp hlt), if_pos (not_lt.mp hlt)]

/-- **Memtables.** A lookup in the skip list, however high its nodes are, finds what a lookup in
the list of its entries finds. -/
theorem memtable_seeks_in_skip_list (any : Bytes) {inserted : List (Bytes × ℕ)}
    (hheights : ∀ i ∈ inserted, 0 < i.2 ∧ i.2 ≤ kMaxHeight)
    (hdistinct : inserted.Pairwise fun a b => compareEntries a.1 b.1 ≠ .eq) (target : Bytes) :
    ∃ sl, (SkipList.new any).inserts compareEntries inserted = some sl ∧
      ∃ node found, sl.findGreaterOrEqual compareEntries target = some (node, found) ∧
        sl.shown node =
          seekEntry target (inserted.foldl (fun table i => insertEntry i.1 table) []) := by
  obtain ⟨sl, hinserts, h, nodes, hl, hasc, hperm⟩ :=
    linked_inserts compares_entries any hheights hdistinct
  have htable : inserted.foldl (fun table i => insertEntry i.1 table) [] =
      nodes.map SkipNode.key := by
    rw [← insertionSort_eq (List.pairwise_map.mpr hasc)
      (hperm.trans (List.reverse_perm _).symm), ← List.map_reverse, List.insertionSort,
      List.foldr_map, List.foldl_eq_foldr_reverse]
    simp only [insertEntry_eq]
  obtain ⟨node, hcall, hat⟩ := hl.call compares_entries hasc (cursorAt_none nodes) (.seek target)
    (by simp)
  obtain ⟨⟨node, found⟩, hfind, rfl⟩ := Option.map_eq_some_iff.mp hcall
  refine ⟨sl, hinserts, node, found, hfind, ?_⟩
  rw [htable]
  refine (hat.shown_eq hl).trans ?_
  have hbefore : SkipList.keyIsAfterNode compareEntries target =
      fun e => !decide (compareEntries e target ≠ .lt) := by
    funext e
    simp [SkipList.keyIsAfterNode]
  rw [Zipper.call, (cursorAt_none nodes).all, Zipper.seek, Zipper.current, seekEntry,
    List.find?_eq_head?_dropWhile_not, hbefore]

/-- A key that was deleted after it was put. -/
theorem memtable_seeks_in_skip_list_deleted :
    ∃ sl, (SkipList.new []).inserts compareEntries [(encodeEntry 1 .value [97] [7], 2),
        (encodeEntry 2 .value [98] [], 1), (encodeEntry 3 .deletion [97] [], 4)] = some sl ∧
      ∃ node found, sl.findGreaterOrEqual compareEntries (memtableKey [97] 5) =
        some (node, found) ∧ sl.shown node = some (encodeEntry 3 .deletion [97] []) := by
  have hheights : ∀ i ∈ [(encodeEntry 1 .value [97] [7], 2), (encodeEntry 2 .value [98] [], 1),
      (encodeEntry 3 .deletion [97] [], 4)], 0 < i.2 ∧ i.2 ≤ kMaxHeight := by decide
  obtain ⟨sl, hinserts, node, found, hfind, hshown⟩ :=
    memtable_seeks_in_skip_list [] hheights (by decide) (memtableKey [97] 5)
  exact ⟨sl, hinserts, node, found, hfind, hshown.trans (by decide)⟩

end

end Engine

end RnLeveldb
