import RnLeveldb.Engine.DbIter

/-!
# `MergingIterator`

The entries of several iterators in one order. Going forward all children stand at or behind the
key that is shown, going back all others stand in front of it; a change of direction sends them
there.
-/

namespace RnLeveldb

namespace Engine

open Zipper (Ascending cut IsFirst IsLast IsLower)

/-- The children are cursors over their entries. -/
structure MergingIterator (κ ν : Type*) where
  children : List (Zipper (κ × ν))
  /-- The index of the child that is shown. -/
  current : Option ℕ
  direction : Direction

namespace MergingIterator

variable {κ ν : Type*} (compare : κ → κ → Ordering)

/-- No child is positioned, and there is no current one. -/
def new (children : List (List (κ × ν))) : MergingIterator κ ν where
  children := children.map fun es => ⟨es.reverse, []⟩
  current := none
  direction := .forward

/-- The entry of `current_`. -/
def shown (it : MergingIterator κ ν) : Option (κ × ν) :=
  it.current.bind fun i => (it.children[i]?).bind Zipper.current

/-- What a seek steps over. -/
def isBefore (target : κ) (e : κ × ν) : Bool := compare e.1 target = .lt

/-- The body of the loop of `FindSmallest`. `smallest` is the index of a child and its key. -/
def smaller (i : ℕ) (child : Zipper (κ × ν)) (smallest : Option (ℕ × κ)) : Option (ℕ × κ) :=
  match child.current, smallest with
  | none, smallest => smallest
  | some e, none => some (i, e.1)
  | some e, some (j, key) => if compare e.1 key = .lt then some (i, e.1) else some (j, key)

/-- The loop keeps the first of the smallest keys. -/
def findSmallest : ℕ → Option (ℕ × κ) → List (Zipper (κ × ν)) → Option (ℕ × κ)
  | _, smallest, [] => smallest
  | i, smallest, child :: children =>
    findSmallest (i + 1) (smaller compare i child smallest) children

/-- The body of the loop of `FindLargest`. -/
def larger (i : ℕ) (child : Zipper (κ × ν)) (largest : Option (ℕ × κ)) : Option (ℕ × κ) :=
  match child.current, largest with
  | none, largest => largest
  | some e, none => some (i, e.1)
  | some e, some (j, key) => if compare e.1 key = .gt then some (i, e.1) else some (j, key)

/-- This loop begins at the last child. -/
def findLargest : ℕ → List (Zipper (κ × ν)) → Option (ℕ × κ)
  | _, [] => none
  | i, child :: children => larger compare i child (findLargest (i + 1) children)

/-- The children were sent forward. -/
def forward (children : List (Zipper (κ × ν))) : MergingIterator κ ν :=
  ⟨children, (findSmallest compare 0 none children).map Prod.fst, .forward⟩

/-- The children were sent back. -/
def reverse (children : List (Zipper (κ × ν))) : MergingIterator κ ν :=
  ⟨children, (findLargest compare 0 children).map Prod.fst, .reverse⟩

/-- A child that is not shown goes behind the key. -/
def goBehind (key : κ) (child : Zipper (κ × ν)) : Zipper (κ × ν) :=
  let child := Zipper.seek (isBefore compare key) child.all
  match child.current with
  | none => child
  | some e => if compare key e.1 = .eq then child.next else child

/-- A child that is not shown goes in front of the key. -/
def goBefore (key : κ) (child : Zipper (κ × ν)) : Zipper (κ × ν) :=
  let child := Zipper.seek (isBefore compare key) child.all
  if child.valid then child.prev else .last child.all

/-- If the iterator has moved back, all other children are put behind the current key first. -/
def next (it : MergingIterator κ ν) : MergingIterator κ ν :=
  match it.current, it.shown with
  | some i, some e =>
    let children :=
      match it.direction with
      | .forward => it.children
      | .reverse =>
        it.children.mapIdx fun j child => if j = i then child else goBehind compare e.1 child
    forward compare (children.modify i Zipper.next)
  | _, _ => it

/-- If it has moved forward, they are put in front of it. -/
def prev (it : MergingIterator κ ν) : MergingIterator κ ν :=
  match it.current, it.shown with
  | some i, some e =>
    let children :=
      match it.direction with
      | .reverse => it.children
      | .forward =>
        it.children.mapIdx fun j child => if j = i then child else goBefore compare e.1 child
    reverse compare (children.modify i Zipper.prev)
  | _, _ => it

def call (it : MergingIterator κ ν) : Zipper.Call κ → MergingIterator κ ν
  | .seek target =>
    forward compare (it.children.map fun child => Zipper.seek (isBefore compare target) child.all)
  | .seekToFirst => forward compare (it.children.map fun child => .first child.all)
  | .seekToLast => reverse compare (it.children.map fun child => .last child.all)
  | .next => it.next compare
  | .prev => it.prev compare

end MergingIterator

/-! ## The smallest and the largest child -/

section

variable {κ ν P : Type*} {compare : κ → κ → Ordering} {place : κ → P}

/-- A child of these stands on the key. The first of them has the number `i`. -/
def StandsAt (i : ℕ) (children : List (Zipper (κ × ν))) (p : ℕ × κ) : Prop :=
  ∃ j child e, p.1 = i + j ∧ children[j]? = some child ∧ child.current = some e ∧ e.1 = p.2

lemma StandsAt.cons {i : ℕ} {children : List (Zipper (κ × ν))} {p : ℕ × κ}
    (h : StandsAt (i + 1) children p) (child : Zipper (κ × ν)) :
    StandsAt i (child :: children) p := by
  obtain ⟨j, child', e, hp, hchild, he, hkey⟩ := h
  exact ⟨j + 1, child', e, by omega, by rwa [List.getElem?_cons_succ], he, hkey⟩

/-- What the body of either loop does. `le` says which key is better. -/
structure Better (le : P → P → Prop) (place : κ → P) (i : ℕ) (child : Zipper (κ × ν))
    (best found : Option (ℕ × κ)) : Prop where
  of_none : found = none → best = none ∧ child.current = none
  mem : ∀ p ∈ found, p ∈ best ∨ p.1 = i ∧ ∃ e, child.current = some e ∧ e.1 = p.2
  le_best : ∀ p ∈ found, ∀ q ∈ best, le (place p.2) (place q.2)
  le_child : ∀ p ∈ found, ∀ e, child.current = some e → le (place p.2) (place e.1)

/-- The key of the child is taken, or it is not. -/
lemma better_of_ite {le : P → P → Prop} (hrefl : ∀ a, le a a) {i : ℕ} {child : Zipper (κ × ν)}
    {e : κ × ν} (hchild : child.current = some e) (best : ℕ × κ) {c : Prop} [Decidable c]
    (hpos : c → le (place e.1) (place best.2)) (hneg : ¬ c → le (place best.2) (place e.1)) :
    Better le place i child (some best) (if c then some (i, e.1) else some best) := by
  by_cases hc : c
  · rw [if_pos hc]
    refine ⟨by simp, fun p hp => Or.inr ?_, fun p hp q hq => ?_, fun p hp f hf => ?_⟩ <;> cases hp
    · exact ⟨rfl, e, hchild, rfl⟩
    · cases hq
      exact hpos hc
    · rw [hchild] at hf
      cases hf
      exact hrefl _
  · rw [if_neg hc]
    refine ⟨by simp, fun p hp => Or.inl hp, fun p hp q hq => ?_, fun p hp f hf => ?_⟩ <;> cases hp
    · cases hq
      exact hrefl _
    · rw [hchild] at hf
      cases hf
      exact hneg hc

lemma better_of_none {le : P → P → Prop} (hrefl : ∀ a, le a a) {i : ℕ} {child : Zipper (κ × ν)}
    {e : κ × ν} (hchild : child.current = some e) :
    Better le place i child none (some (i, e.1)) := by
  refine ⟨by simp, fun p hp => Or.inr ?_, by simp, fun p hp f hf => ?_⟩ <;> cases hp
  · exact ⟨rfl, e, hchild, rfl⟩
  · rw [hchild] at hf
    cases hf
    exact hrefl _

lemma better_of_not_valid {le : P → P → Prop} (hrefl : ∀ a, le a a) {i : ℕ}
    {child : Zipper (κ × ν)} (hchild : child.current = none) (best : Option (ℕ × κ)) :
    Better le place i child best best := by
  refine ⟨fun h => ⟨h, hchild⟩, fun p hp => Or.inl hp, fun p hp q hq => ?_, by simp [hchild]⟩
  rw [Option.mem_unique hp hq]
  exact hrefl _

variable [LinearOrder P]

/-- `compare` goes by the places of the keys. -/
def Compares (compare : κ → κ → Ordering) (place : κ → P) : Prop :=
  ∀ a b, compare a b = if place a < place b then .lt else if place b < place a then .gt else .eq

/-- The comparison is the order of the places. -/
lemma Compares.lt_iff (h : Compares compare place) {a b : κ} :
    compare a b = .lt ↔ place a < place b := by
  rw [h]
  split_ifs <;> simp_all

lemma Compares.gt_iff (h : Compares compare place) {a b : κ} :
    compare a b = .gt ↔ place b < place a := by
  rw [h]
  rcases lt_trichotomy (place a) (place b) with hlt | heq | hgt
  · simp [hlt, not_lt_of_gt hlt]
  · simp [heq]
  · simp [hgt, not_lt_of_gt hgt]

lemma Compares.eq_iff (h : Compares compare place) {a b : κ} :
    compare a b = .eq ↔ place a = place b := by
  rw [h]
  rcases lt_trichotomy (place a) (place b) with hlt | heq | hgt
  · simp [hlt, ne_of_lt hlt]
  · simp [heq]
  · simp [hgt, not_lt_of_gt hgt, ne_of_gt hgt]

/-- A step of the loop takes the smaller key. -/
lemma better_smaller (hcompare : Compares compare place) (i : ℕ) (child : Zipper (κ × ν))
    (smallest : Option (ℕ × κ)) :
    Better (· ≤ ·) place i child smallest (MergingIterator.smaller compare i child smallest) := by
  unfold MergingIterator.smaller
  cases hchild : child.current with
  | none => exact better_of_not_valid le_refl hchild smallest
  | some e =>
    cases smallest with
    | none => exact better_of_none le_refl hchild
    | some best =>
      refine better_of_ite le_refl hchild best (fun hlt => ?_) fun hlt => ?_
      · exact le_of_lt (hcompare.lt_iff.mp hlt)
      · rw [hcompare.lt_iff] at hlt
        exact not_lt.mp hlt

/-- And one of the loop in the other direction the larger one. -/
lemma better_larger (hcompare : Compares compare place) (i : ℕ) (child : Zipper (κ × ν))
    (largest : Option (ℕ × κ)) :
    Better (· ≥ ·) place i child largest (MergingIterator.larger compare i child largest) := by
  have hrefl : ∀ a : P, a ≥ a := fun a => le_refl a
  unfold MergingIterator.larger
  cases hchild : child.current with
  | none => exact better_of_not_valid hrefl hchild largest
  | some e =>
    cases largest with
    | none => exact better_of_none hrefl hchild
    | some best =>
      refine better_of_ite hrefl hchild best (fun hgt => ?_) fun hgt => ?_
      · exact le_of_lt (hcompare.gt_iff.mp hgt)
      · rw [hcompare.gt_iff] at hgt
        exact not_lt.mp hgt

/-- The best of the children that stand on an entry. -/
structure Best (le : P → P → Prop) (place : κ → P) (i : ℕ) (children : List (Zipper (κ × ν)))
    (best : Option (ℕ × κ)) : Prop where
  of_none : best = none → ∀ child ∈ children, child.current = none
  standsAt : ∀ p ∈ best, StandsAt i children p
  le : ∀ p ∈ best, ∀ child ∈ children, ∀ e, child.current = some e → le (place p.2) (place e.1)

/-- What `FindLargest` finds is the largest of the keys the children stand on. -/
lemma best_findLargest (hcompare : Compares compare place) (i : ℕ)
    (children : List (Zipper (κ × ν))) :
    Best (· ≥ ·) place i children (MergingIterator.findLargest compare i children) := by
  induction children generalizing i with
  | nil => exact ⟨by simp, by simp [MergingIterator.findLargest], by simp⟩
  | cons child children ih =>
    have hrest := ih (i + 1)
    have hstep := better_larger hcompare i child
      (MergingIterator.findLargest compare (i + 1) children)
    rw [MergingIterator.findLargest]
    refine ⟨fun hnone c hc => ?_, fun p hp => ?_, fun p hp c hc e he => ?_⟩
    · obtain ⟨hlargest, hchild⟩ := hstep.of_none hnone
      rcases List.mem_cons.mp hc with rfl | hc
      · exact hchild
      · exact hrest.of_none hlargest c hc
    · rcases hstep.mem p hp with hp | ⟨hi, e, he, hkey⟩
      · exact (hrest.standsAt p hp).cons child
      · exact ⟨0, child, e, by omega, rfl, he, hkey⟩
    · rcases List.mem_cons.mp hc with rfl | hc
      · exact hstep.le_child p hp e he
      · cases hlargest : MergingIterator.findLargest compare (i + 1) children with
        | none =>
          rw [hrest.of_none hlargest c hc] at he
          cases he
        | some q =>
          exact le_trans (hrest.le q hlargest c hc e he) (hstep.le_best p hp q hlargest)

/-- The best of a child that was found before and the children that are left. -/
lemma findSmallest_spec (hcompare : Compares compare place) (i : ℕ)
    (smallest : Option (ℕ × κ)) (children : List (Zipper (κ × ν))) :
    (MergingIterator.findSmallest compare i smallest children = none → smallest = none ∧
      ∀ child ∈ children, child.current = none) ∧
    ∀ p ∈ MergingIterator.findSmallest compare i smallest children,
      (p ∈ smallest ∨ StandsAt i children p) ∧ (∀ q ∈ smallest, place p.2 ≤ place q.2) ∧
      ∀ child ∈ children, ∀ e, child.current = some e → place p.2 ≤ place e.1 := by
  induction children generalizing i smallest with
  | nil =>
    refine ⟨fun h => ⟨h, by simp⟩, fun p hp => ⟨Or.inl hp, fun q hq => ?_, by simp⟩⟩
    rw [Option.mem_unique hp hq]
  | cons child children ih =>
    have hstep := better_smaller hcompare i child smallest
    obtain ⟨hnone, hsome⟩ := ih (i + 1) (MergingIterator.smaller compare i child smallest)
    rw [MergingIterator.findSmallest]
    refine ⟨fun h => ?_, fun p hp => ?_⟩
    · obtain ⟨hsmaller, hrest⟩ := hnone h
      obtain ⟨hsmallest, hchild⟩ := hstep.of_none hsmaller
      refine ⟨hsmallest, fun c hc => ?_⟩
      rcases List.mem_cons.mp hc with rfl | hc
      · exact hchild
      · exact hrest c hc
    · obtain ⟨hfrom, hle, hchildren⟩ := hsome p hp
      refine ⟨?_, fun q hq => ?_, fun c hc e he => ?_⟩
      · rcases hfrom with hfrom | hfrom
        · rcases hstep.mem p hfrom with hp | ⟨hi, e, he, hkey⟩
          · exact Or.inl hp
          · exact Or.inr ⟨0, child, e, by omega, rfl, he, hkey⟩
        · exact Or.inr (hfrom.cons child)
      · cases hsmaller : MergingIterator.smaller compare i child smallest with
        | none =>
          rw [(hstep.of_none hsmaller).1] at hq
          cases hq
        | some r => exact le_trans (hle r hsmaller) (hstep.le_best r hsmaller q hq)
      · rcases List.mem_cons.mp hc with rfl | hc
        · cases hsmaller : MergingIterator.smaller compare i c smallest with
          | none =>
            rw [(hstep.of_none hsmaller).2] at he
            cases he
          | some r => exact le_trans (hle r hsmaller) (hstep.le_child r hsmaller e he)
        · exact hchildren c hc e he

/-- What `FindSmallest` finds is the smallest of them. -/
lemma best_findSmallest (hcompare : Compares compare place) (children : List (Zipper (κ × ν))) :
    Best (· ≤ ·) place 0 children (MergingIterator.findSmallest compare 0 none children) := by
  obtain ⟨hnone, hsome⟩ := findSmallest_spec hcompare 0 none children
  refine ⟨fun h => (hnone h).2, fun p hp => ?_, fun p hp => (hsome p hp).2.2⟩
  rcases (hsome p hp).1 with h | h
  · cases h
  · exact h

/-! ## The merged entries -/

/-- The lists of the children and their entries in one order. -/
structure Merged (place : κ → P) (ls : List (List (κ × ν))) (merged : List (κ × ν)) : Prop where
  perm : merged.Perm ls.flatten
  ascending : Ascending (fun e => place e.1) merged
  children : ∀ l ∈ ls, Ascending (fun e => place e.1) l

variable {ls : List (List (κ × ν))} {merged : List (κ × ν)}

/-- The merged list has the entries of the children and no others. -/
lemma Merged.mem_iff (h : Merged place ls merged) {e : κ × ν} :
    e ∈ merged ↔ ∃ l ∈ ls, e ∈ l := by
  rw [h.perm.mem_iff, List.mem_flatten]

/-- No two children have entries of one place. -/
lemma Merged.ne (h : Merged place ls merged) {i j : ℕ} {l l' : List (κ × ν)} (hl : ls[i]? = some l)
    (hl' : ls[j]? = some l') (hij : i ≠ j) {e f : κ × ν} (he : e ∈ l) (hf : f ∈ l') :
    place e.1 ≠ place f.1 := by
  have hmerged : merged.Pairwise fun a b => place a.1 ≠ place b.1 :=
    h.ascending.imp fun hlt => ne_of_lt hlt
  have hls := (List.pairwise_flatten.mp
    ((h.perm.pairwise_iff fun hne => Ne.symm hne).mp hmerged)).2
  obtain ⟨hi, rfl⟩ := List.getElem?_eq_some_iff.mp hl
  obtain ⟨hj, rfl⟩ := List.getElem?_eq_some_iff.mp hl'
  rcases Nat.lt_or_gt_of_ne hij with hlt | hgt
  · exact List.pairwise_iff_getElem.mp hls i j hi hj hlt e he f hf
  · exact Ne.symm (List.pairwise_iff_getElem.mp hls j i hj hi hgt f hf e he)

/-- What the children show of a cut of all of them. -/
lemma Merged.isFirst (h : Merged place ls merged) {p : P → Prop} [DecidablePred p] (hp : IsLower p)
    {best : ℕ × κ}
    (hbest : Best (· ≤ ·) place 0 (ls.map (cut (fun e => place e.1) p)) (some best)) :
    ∃ l e, ls[best.1]? = some l ∧ IsFirst (fun e => place e.1) p l e ∧
      IsFirst (fun e => place e.1) p merged e := by
  obtain ⟨j, child, e, hj, hchild, he, hkey⟩ := hbest.standsAt best rfl
  rw [List.getElem?_map, Option.map_eq_some_iff] at hchild
  obtain ⟨l, hl, rfl⟩ := hchild
  have hmem := List.mem_of_getElem? hl
  have hfirst := ((h.children l hmem).isFirst_iff hp).mp he
  refine ⟨l, e, by rwa [hj, Nat.zero_add], hfirst, h.mem_iff.mpr ⟨l, hmem, hfirst.mem⟩,
    hfirst.outside, fun x hx hpx => ?_⟩
  obtain ⟨l', hl', hx⟩ := h.mem_iff.mp hx
  cases hcurrent : (cut (fun e => place e.1) p l').current with
  | none => exact absurd (Zipper.current_cut_eq_none.mp hcurrent x hx) hpx
  | some f =>
    have hle := hbest.le best rfl _ (List.mem_map_of_mem hl') f hcurrent
    rw [← hkey] at hle
    exact le_trans hle ((((h.children l' hl').isFirst_iff hp).mp hcurrent).le x hx hpx)

lemma Merged.isLast (h : Merged place ls merged) {p : P → Prop} [DecidablePred p] (hp : IsLower p)
    {best : ℕ × κ}
    (hbest : Best (· ≥ ·) place 0 (ls.map fun l => (cut (fun e => place e.1) p l).prev)
      (some best)) :
    ∃ l e, ls[best.1]? = some l ∧ IsLast (fun e => place e.1) p l e ∧
      IsLast (fun e => place e.1) p merged e := by
  obtain ⟨j, child, e, hj, hchild, he, hkey⟩ := hbest.standsAt best rfl
  rw [List.getElem?_map, Option.map_eq_some_iff] at hchild
  obtain ⟨l, hl, rfl⟩ := hchild
  have hmem := List.mem_of_getElem? hl
  have hlast := ((h.children l hmem).isLast_iff hp).mp he
  refine ⟨l, e, by rwa [hj, Nat.zero_add], hlast, h.mem_iff.mpr ⟨l, hmem, hlast.mem⟩,
    hlast.inside, fun x hx hpx => ?_⟩
  obtain ⟨l', hl', hx⟩ := h.mem_iff.mp hx
  cases hcurrent : (cut (fun e => place e.1) p l').prev.current with
  | none => exact absurd hpx (Zipper.current_prev_cut_eq_none.mp hcurrent x hx)
  | some f =>
    have hle := hbest.le best rfl _
      (List.mem_map_of_mem (f := fun l => (cut (fun e => place e.1) p l).prev) hl') f hcurrent
    rw [← hkey] at hle
    exact le_trans ((((h.children l' hl').isLast_iff hp).mp hcurrent).le x hx hpx) hle

/-! ## The children and their numbers -/

lemma mapIdx_congr {f g : ℕ → List (κ × ν) → Zipper (κ × ν)}
    (h : ∀ j l, ls[j]? = some l → f j l = g j l) : ls.mapIdx f = ls.mapIdx g := by
  rw [List.mapIdx_eq_mapIdx_iff]
  exact fun j hj => h j _ (List.getElem?_eq_getElem hj)

lemma map_eq_mapIdx (f : List (κ × ν) → Zipper (κ × ν)) : ls.map f = ls.mapIdx fun _ => f := by
  apply List.ext_getElem?
  intro j
  rw [List.getElem?_map, List.getElem?_mapIdx]

lemma modify_mapIdx (i : ℕ) (f : ℕ → List (κ × ν) → Zipper (κ × ν))
    (g : Zipper (κ × ν) → Zipper (κ × ν)) :
    (ls.mapIdx f).modify i g = ls.mapIdx fun j l => if j = i then g (f j l) else f j l := by
  apply List.ext_getElem?
  intro j
  rw [List.getElem?_modify, List.getElem?_mapIdx, List.getElem?_mapIdx]
  by_cases hj : i = j
  · simp [hj, Function.comp_def]
  · simp [hj, Ne.symm hj]

/-! ## What holds in all runs -/

/-- The iterator stands where a cursor over the merged entries stands. -/
inductive Merges (place : κ → P) (ls : List (List (κ × ν))) (merged : List (κ × ν))
    (it : MergingIterator κ ν) (z : Zipper (κ × ν)) : Prop where
  | off (current : it.current = none) (all : it.children.map Zipper.all = ls)
      (off : z.current = none) (merged_eq : z.all = merged)
  /-- All children stand at the first entry that is not in front of the key. -/
  | forward (i : ℕ) (l : List (κ × ν)) (e : κ × ν) (child : ls[i]? = some l) (mem : e ∈ l)
      (direction : it.direction = .forward) (current : it.current = some i)
      (children : it.children = ls.map (cut (fun e => place e.1) (· < place e.1)))
      (cursor : z = cut (fun e => place e.1) (· < place e.1) merged)
  /-- The others stand at the last entry in front of the key. -/
  | reverse (i : ℕ) (l : List (κ × ν)) (e : κ × ν) (child : ls[i]? = some l) (mem : e ∈ l)
      (direction : it.direction = .reverse) (current : it.current = some i)
      (children : it.children = ls.mapIdx fun j l =>
        if j = i then cut (fun e => place e.1) (· < place e.1) l
        else (cut (fun e => place e.1) (· < place e.1) l).prev)
      (cursor : z = cut (fun e => place e.1) (· < place e.1) merged)

/-- Going forward, all children stand at their first entries behind the cut. -/
lemma merges_forward (hcompare : Compares compare place) (h : Merged place ls merged)
    {p : P → Prop} [DecidablePred p] (hp : IsLower p) :
    Merges place ls merged
      (MergingIterator.forward compare (ls.map (cut (fun e => place e.1) p)))
      (cut (fun e => place e.1) p merged) := by
  have hbest := best_findSmallest hcompare (ls.map (cut (fun e => place e.1) p))
  cases hfound : MergingIterator.findSmallest compare 0 none
      (ls.map (cut (fun e => place e.1) p)) with
  | none =>
    refine .off (by rw [MergingIterator.forward, hfound]; rfl) ?_ ?_ (h.ascending.all_cut hp)
    · rw [MergingIterator.forward, List.map_map]
      exact (List.map_congr_left fun l hl => (h.children l hl).all_cut hp).trans ls.map_id
    · rw [Zipper.current_cut_eq_none]
      intro x hx
      obtain ⟨l, hl, hx⟩ := h.mem_iff.mp hx
      exact Zipper.current_cut_eq_none.mp (hbest.of_none hfound _ (List.mem_map_of_mem hl)) x hx
  | some best =>
    rw [hfound] at hbest
    obtain ⟨l, e, hl, hfirst, hmerged⟩ := h.isFirst hp hbest
    refine .forward best.1 l e hl hfirst.mem rfl ?_ ?_ (hmerged.cut_eq hp)
    · rw [MergingIterator.forward, hfound]
      rfl
    · apply List.map_congr_left
      intro l' hl'
      exact Zipper.cut_congr fun x hx => hmerged.iff hp (h.mem_iff.mpr ⟨l', hl', hx⟩)

/-- Of another child the entries in front of the key are those that are not behind it. -/
lemma Merged.cut_le (h : Merged place ls merged) {i j : ℕ} {l l' : List (κ × ν)} {e : κ × ν}
    (hl : ls[i]? = some l) (he : e ∈ l) (hl' : ls[j]? = some l') (hij : j ≠ i) :
    cut (fun e => place e.1) (· ≤ place e.1) l' = cut (fun e => place e.1) (· < place e.1) l' :=
  Zipper.cut_congr fun _ hx => ⟨fun hle => lt_of_le_of_ne hle (h.ne hl' hl hij hx he), le_of_lt⟩

/-- Going back, all of them stand at their last ones in front of it. -/
lemma merges_reverse (hcompare : Compares compare place) (h : Merged place ls merged)
    {p : P → Prop} [DecidablePred p] (hp : IsLower p) :
    Merges place ls merged
      (MergingIterator.reverse compare (ls.map fun l => (cut (fun e => place e.1) p l).prev))
      (cut (fun e => place e.1) p merged).prev := by
  have hbest := best_findLargest hcompare 0 (ls.map fun l => (cut (fun e => place e.1) p l).prev)
  cases hfound : MergingIterator.findLargest compare 0
      (ls.map fun l => (cut (fun e => place e.1) p l).prev) with
  | none =>
    refine .off (by rw [MergingIterator.reverse, hfound]; rfl) ?_ ?_
      (by rw [Zipper.all_prev, h.ascending.all_cut hp])
    · rw [MergingIterator.reverse, List.map_map]
      refine (List.map_congr_left fun l hl => ?_).trans ls.map_id
      rw [Function.comp_apply, Zipper.all_prev, (h.children l hl).all_cut hp, id]
    · rw [Zipper.current_prev_cut_eq_none]
      intro x hx
      obtain ⟨l, hl, hx⟩ := h.mem_iff.mp hx
      exact Zipper.current_prev_cut_eq_none.mp (hbest.of_none hfound _
        (List.mem_map_of_mem (f := fun l => (cut (fun e => place e.1) p l).prev) hl)) x hx
  | some best =>
    rw [hfound] at hbest
    obtain ⟨l, e, hl, hlast, hmerged⟩ := h.isLast hp hbest
    refine .reverse best.1 l e hl hlast.mem rfl ?_ ?_ (hmerged.prev_cut h.ascending hp)
    · rw [MergingIterator.reverse, hfound]
      rfl
    · rw [MergingIterator.reverse, map_eq_mapIdx]
      apply mapIdx_congr
      intro j l' hl'
      split
      · next hj =>
        rw [hj, hl, Option.some_inj] at hl'
        rw [← hl', hlast.prev_cut (h.children l (List.mem_of_getElem? hl)) hp]
      · next hj =>
        have hcut : cut (fun e => place e.1) p l' = cut (fun e => place e.1) (· ≤ place e.1) l' :=
          Zipper.cut_congr fun x hx =>
            hmerged.iff hp (h.mem_iff.mpr ⟨l', List.mem_of_getElem? hl', hx⟩)
        rw [hcut, h.cut_le hl hlast.mem hl' hj]

lemma Merges.all_eq {it : MergingIterator κ ν} {z : Zipper (κ × ν)}
    (h : Merges place ls merged it z) (hmerged : Merged place ls merged) : it.children.map Zipper.all = ls ∧ z.all = merged := by
  cases h with
  | off current all off merged_eq => exact ⟨all, merged_eq⟩
  | forward i l e child mem direction current children cursor =>
    rw [children, cursor, List.map_map]
    refine ⟨?_, hmerged.ascending.all_cut (Zipper.isLower_lt _)⟩
    exact (List.map_congr_left fun l hl =>
      (hmerged.children l hl).all_cut (Zipper.isLower_lt _)).trans ls.map_id
  | reverse i l e child mem direction current children cursor =>
    rw [children, cursor]
    refine ⟨?_, hmerged.ascending.all_cut (Zipper.isLower_lt _)⟩
    apply List.ext_getElem?
    intro j
    rw [List.getElem?_map, List.getElem?_mapIdx]
    cases hl : ls[j]? with
    | none => rfl
    | some l' =>
      have hall := (hmerged.children l' (List.mem_of_getElem? hl)).all_cut
        (Zipper.isLower_lt (place e.1))
      by_cases hj : j = i
      · simpa [hj] using hall
      · simpa [hj] using hall

/-- The iterator shows the entry that the cursor stands on. -/
lemma Merges.shown_eq {it : MergingIterator κ ν} {z : Zipper (κ × ν)}
    (h : Merges place ls merged it z) (hmerged : Merged place ls merged) :
    it.shown = z.current := by
  have hcurrent : ∀ (i : ℕ) (l : List (κ × ν)) (e : κ × ν), ls[i]? = some l → e ∈ l →
      (cut (fun e => place e.1) (· < place e.1) l).current =
        (cut (fun e => place e.1) (· < place e.1) merged).current := by
    intro i l e hl he
    have hmem := List.mem_of_getElem? hl
    rw [((hmerged.children l hmem).cut_lt he).1,
      (hmerged.ascending.cut_lt (hmerged.mem_iff.mpr ⟨l, hmem, he⟩)).1]
  unfold MergingIterator.shown
  cases h with
  | off current all off merged_eq => rw [current, off, Option.bind_none]
  | forward i l e child mem direction current children cursor =>
    rw [current, Option.bind_some, children, cursor, List.getElem?_map, child, Option.map_some,
      Option.bind_some, hcurrent i l e child mem]
  | reverse i l e child mem direction current children cursor =>
    rw [current, Option.bind_some, children, cursor, List.getElem?_mapIdx, child, Option.map_some,
      Option.bind_some, if_pos rfl, hcurrent i l e child mem]

lemma isBefore_eq (hcompare : Compares compare place) (target : κ) :
    MergingIterator.isBefore compare target =
      fun e : κ × ν => decide (place e.1 < place target) := by
  funext e
  rw [MergingIterator.isBefore, decide_eq_decide, hcompare.lt_iff]

/-- A seek in a child. -/
lemma Merged.seek_eq (h : Merged place ls merged) (hcompare : Compares compare place) (target : κ)
    {l : List (κ × ν)} (hl : l ∈ ls) :
    Zipper.seek (MergingIterator.isBefore compare target) l =
      cut (fun e => place e.1) (· < place target) l := by
  rw [isBefore_eq hcompare]
  exact (h.children l hl).seek_eq (Zipper.isLower_lt _)

/-- The child that is shown goes on, and with it all stand behind the key. -/
lemma Merged.modify_next (h : Merged place ls merged) {i : ℕ} {l : List (κ × ν)} {e : κ × ν}
    (hl : ls[i]? = some l) (he : e ∈ l) :
    (ls.map (cut (fun e => place e.1) (· < place e.1))).modify i Zipper.next =
      ls.map (cut (fun e => place e.1) (· ≤ place e.1)) := by
  rw [map_eq_mapIdx, modify_mapIdx, map_eq_mapIdx]
  apply mapIdx_congr
  intro j l' hl'
  split
  · next hj =>
    rw [hj, hl, Option.some_inj] at hl'
    rw [← hl', ((h.children l (List.mem_of_getElem? hl)).cut_lt he).2]
  · next hj => rw [h.cut_le hl he hl' hj]

/-- After a turn to the front all children stand at the first entry that is not in front of the
key. -/
lemma Merged.mapIdx_goBehind (h : Merged place ls merged) (hcompare : Compares compare place)
    {i : ℕ} {l : List (κ × ν)} {e : κ × ν} (hl : ls[i]? = some l) (he : e ∈ l) :
    ((ls.mapIdx fun j l =>
        if j = i then cut (fun e => place e.1) (· < place e.1) l
        else (cut (fun e => place e.1) (· < place e.1) l).prev).mapIdx fun j child =>
      if j = i then child else MergingIterator.goBehind compare e.1 child) =
      ls.map (cut (fun e => place e.1) (· < place e.1)) := by
  rw [List.mapIdx_mapIdx, map_eq_mapIdx]
  apply mapIdx_congr
  intro j l' hl'
  rw [Function.comp_apply]
  split
  · rfl
  · next hj =>
    have hmem := List.mem_of_getElem? hl'
    have hall := (h.children l' hmem).all_cut (Zipper.isLower_lt (place e.1))
    rw [MergingIterator.goBehind, Zipper.all_prev, hall, h.seek_eq hcompare e.1 hmem]
    cases hcurrent : (cut (fun e => place e.1) (· < place e.1) l').current with
    | none => rfl
    | some f =>
      have hf := (((h.children l' hmem).isFirst_iff (Zipper.isLower_lt _)).mp hcurrent).mem
      have hne : compare e.1 f.1 ≠ .eq := by
        rw [Ne, hcompare.eq_iff]
        exact h.ne hl hl' (Ne.symm hj) he hf
      exact if_neg hne

/-- After a turn to the back the others stand at the last entry in front of the key. -/
lemma Merged.mapIdx_goBefore (h : Merged place ls merged) (hcompare : Compares compare place)
    {i : ℕ} {e : κ × ν} :
    ((ls.map (cut (fun e => place e.1) (· < place e.1))).mapIdx fun j child =>
      if j = i then child else MergingIterator.goBefore compare e.1 child) =
      ls.mapIdx fun j l =>
        if j = i then cut (fun e => place e.1) (· < place e.1) l
        else (cut (fun e => place e.1) (· < place e.1) l).prev := by
  rw [map_eq_mapIdx, List.mapIdx_mapIdx]
  apply mapIdx_congr
  intro j l' hl'
  rw [Function.comp_apply]
  split
  · rfl
  · have hmem := List.mem_of_getElem? hl'
    have hall := (h.children l' hmem).all_cut (Zipper.isLower_lt (place e.1))
    rw [MergingIterator.goBefore, hall, h.seek_eq hcompare e.1 hmem]
    split
    · rfl
    · next hvalid =>
      have hcurrent : (cut (fun e => place e.1) (· < place e.1) l').current = none := by
        rw [Zipper.current, Zipper.rest_eq_nil hvalid]
        rfl
      rw [Zipper.cut_eq_end (Zipper.current_cut_eq_none.mp hcurrent), Zipper.all_between,
        List.append_nil, Zipper.last_eq]

/-- The child that is shown goes back. -/
lemma modify_prev (i : ℕ) (e : κ × ν) :
    (ls.mapIdx fun j l =>
        if j = i then cut (fun e => place e.1) (· < place e.1) l
        else (cut (fun e => place e.1) (· < place e.1) l).prev).modify i Zipper.prev =
      ls.map fun l => (cut (fun e => place e.1) (· < place e.1) l).prev := by
  rw [modify_mapIdx, map_eq_mapIdx]
  apply mapIdx_congr
  intro j l' hl'
  split <;> rfl

/-! ## Calls -/

section

variable {it : MergingIterator κ ν} {z : Zipper (κ × ν)}

/-- A seek puts all children to the same cut. -/
lemma Merges.seek (h : Merges place ls merged it z) (hcompare : Compares compare place)
    (hmerged : Merged place ls merged) (target : κ) :
    Merges place ls merged (it.call compare (.seek target))
      (z.call (MergingIterator.isBefore compare) (.seek target)) := by
  have hchildren : it.children.map
      (fun child => Zipper.seek (MergingIterator.isBefore compare target) child.all) =
      ls.map (cut (fun e => place e.1) (· < place target)) := by
    rw [← (h.all_eq hmerged).1, List.map_map]
    apply List.map_congr_left
    intro child hchild
    apply hmerged.seek_eq hcompare
    rw [← (h.all_eq hmerged).1]
    exact List.mem_map_of_mem hchild
  have hz : z.call (MergingIterator.isBefore compare) (.seek target) =
      cut (fun e => place e.1) (· < place target) merged := by
    rw [Zipper.call, (h.all_eq hmerged).2, isBefore_eq hcompare]
    exact hmerged.ascending.seek_eq (Zipper.isLower_lt _)
  rw [MergingIterator.call, hchildren, hz]
  exact merges_forward hcompare hmerged (Zipper.isLower_lt _)

lemma Merges.seekToFirst (h : Merges place ls merged it z) (hcompare : Compares compare place)
    (hmerged : Merged place ls merged) :
    Merges place ls merged (it.call compare .seekToFirst)
      (z.call (MergingIterator.isBefore compare) .seekToFirst) := by
  have hfirst : ∀ xs : List (κ × ν),
      Zipper.first xs = cut (fun e => place e.1) (fun _ => False) xs :=
    fun xs => (Zipper.cut_eq_first fun _ _ hx => hx).symm
  have hchildren : it.children.map (fun child => Zipper.first child.all) =
      ls.map (cut (fun e => place e.1) fun _ => False) := by
    rw [← (h.all_eq hmerged).1, List.map_map]
    exact List.map_congr_left fun child _ => hfirst child.all
  rw [MergingIterator.call, hchildren, Zipper.call, (h.all_eq hmerged).2, hfirst]
  exact merges_forward hcompare hmerged fun _ _ _ hb => hb

lemma Merges.seekToLast (h : Merges place ls merged it z) (hcompare : Compares compare place)
    (hmerged : Merged place ls merged) :
    Merges place ls merged (it.call compare .seekToLast)
      (z.call (MergingIterator.isBefore compare) .seekToLast) := by
  have hlast : ∀ xs : List (κ × ν),
      Zipper.last xs = (cut (fun e => place e.1) (fun _ => True) xs).prev := by
    intro xs
    rw [Zipper.last_eq, Zipper.cut_eq_end fun _ _ => trivial]
  have hchildren : it.children.map (fun child => Zipper.last child.all) =
      ls.map fun l => (cut (fun e => place e.1) (fun _ => True) l).prev := by
    rw [← (h.all_eq hmerged).1, List.map_map]
    exact List.map_congr_left fun child _ => hlast child.all
  rw [MergingIterator.call, hchildren, Zipper.call, (h.all_eq hmerged).2, hlast]
  exact merges_reverse hcompare hmerged fun _ _ _ _ => trivial

/-- A step forward, from either direction. -/
lemma Merges.next (h : Merges place ls merged it z) (hcompare : Compares compare place)
    (hmerged : Merged place ls merged) (hz : z.current ≠ none) :
    Merges place ls merged (it.next compare) z.next := by
  have hshown := h.shown_eq hmerged
  cases h with
  | off current all off merged_eq => exact absurd off hz
  | forward i l e child mem direction current children cursor =>
    have hcut := hmerged.ascending.cut_lt
      (hmerged.mem_iff.mpr ⟨l, List.mem_of_getElem? child, mem⟩)
    rw [cursor, hcut.1] at hshown
    rw [cursor, hcut.2]
    simp only [MergingIterator.next, current, hshown, direction, children]
    rw [hmerged.modify_next child mem]
    exact merges_forward hcompare hmerged (Zipper.isLower_le _)
  | reverse i l e child mem direction current children cursor =>
    have hcut := hmerged.ascending.cut_lt
      (hmerged.mem_iff.mpr ⟨l, List.mem_of_getElem? child, mem⟩)
    rw [cursor, hcut.1] at hshown
    rw [cursor, hcut.2]
    simp only [MergingIterator.next, current, hshown, direction, children]
    rw [hmerged.mapIdx_goBehind hcompare child mem, hmerged.modify_next child mem]
    exact merges_forward hcompare hmerged (Zipper.isLower_le _)

/-- A step back, from either direction. -/
lemma Merges.prev (h : Merges place ls merged it z) (hcompare : Compares compare place)
    (hmerged : Merged place ls merged) (hz : z.current ≠ none) :
    Merges place ls merged (it.prev compare) z.prev := by
  have hshown := h.shown_eq hmerged
  cases h with
  | off current all off merged_eq => exact absurd off hz
  | forward i l e child mem direction current children cursor =>
    rw [cursor, (hmerged.ascending.cut_lt
      (hmerged.mem_iff.mpr ⟨l, List.mem_of_getElem? child, mem⟩)).1] at hshown
    rw [cursor]
    simp only [MergingIterator.prev, current, hshown, direction, children]
    rw [hmerged.mapIdx_goBefore hcompare, modify_prev]
    exact merges_reverse hcompare hmerged (Zipper.isLower_lt _)
  | reverse i l e child mem direction current children cursor =>
    rw [cursor, (hmerged.ascending.cut_lt
      (hmerged.mem_iff.mpr ⟨l, List.mem_of_getElem? child, mem⟩)).1] at hshown
    rw [cursor]
    simp only [MergingIterator.prev, current, hshown, direction, children]
    rw [modify_prev]
    exact merges_reverse hcompare hmerged (Zipper.isLower_lt _)

/-- Every call moves the iterator as it moves the cursor. -/
lemma Merges.call (h : Merges place ls merged it z) (hcompare : Compares compare place)
    (hmerged : Merged place ls merged) {c : Zipper.Call κ}
    (hlegal : c = .next ∨ c = .prev → z.current ≠ none) :
    Merges place ls merged (it.call compare c) (z.call (MergingIterator.isBefore compare) c) := by
  cases c with
  | seek target => exact h.seek hcompare hmerged target
  | seekToFirst => exact h.seekToFirst hcompare hmerged
  | seekToLast => exact h.seekToLast hcompare hmerged
  | next => exact h.next hcompare hmerged (hlegal (Or.inl rfl))
  | prev => exact h.prev hcompare hmerged (hlegal (Or.inr rfl))

/-- So does every sequence of calls. -/
lemma Merges.run (h : Merges place ls merged it z) (hcompare : Compares compare place)
    (hmerged : Merged place ls merged) {calls : List (Zipper.Call κ)}
    (hlegal : Zipper.Legal (MergingIterator.isBefore compare) z calls) :
    Merges place ls merged (calls.foldl (MergingIterator.call compare) it)
      (calls.foldl (Zipper.call (MergingIterator.isBefore compare)) z) := by
  induction calls generalizing it z with
  | nil => exact h
  | cons c calls ih => exact ih (h.call hcompare hmerged hlegal.1) hlegal.2

end

/-- Before the first call the iterator is not valid, like a cursor behind the last entry. -/
lemma merges_new (ls : List (List (κ × ν))) (merged : List (κ × ν)) :
    Merges place ls merged (.new ls) ⟨merged.reverse, []⟩ := by
  refine .off rfl ?_ rfl (by simp [Zipper.all])
  rw [MergingIterator.new, List.map_map]
  exact (List.map_congr_left fun l _ => by simp [Zipper.all]).trans ls.map_id

/-- **Merging.** Whatever way a merging iterator is moved, with any changes of direction, it shows
what a cursor over all the entries in one order shows. -/
theorem merging_iterator_is_cursor (hcompare : Compares compare place)
    (hmerged : Merged place ls merged) (calls : List (Zipper.Call κ))
    (hlegal : Zipper.Legal (MergingIterator.isBefore compare) ⟨merged.reverse, []⟩ calls) :
    (calls.foldl (MergingIterator.call compare) (.new ls)).shown =
      (calls.foldl (Zipper.call (MergingIterator.isBefore compare))
        ⟨merged.reverse, []⟩).current :=
  ((merges_new ls merged).run hcompare hmerged hlegal).shown_eq hmerged

lemma compares_internalKeys : Compares compareInternalKeys internalPlace :=
  compareInternalKeys_eq

end

/-- There and back over the entries of two children. -/
theorem merging_iterator_is_cursor_there_and_back :
    ([Zipper.Call.seekToLast, .prev, .next, .prev, .prev].foldl
      (MergingIterator.call compareInternalKeys)
      (.new [[⟨[1], 9, some [7]⟩, ⟨[2], 4, none⟩].map internalEntry,
        [⟨[1], 2, some [5]⟩].map internalEntry])).shown =
      some (internalEntry ⟨[1], 9, some [7]⟩) := by
  have hascending : ∀ es : List (Bytes × Bytes),
      es.Pairwise (fun a b => compareInternalKeys a.1 b.1 = .lt) →
      Ascending (fun e => internalPlace e.1) es :=
    fun es h => h.imp fun hlt => compareInternalKeys_eq_lt.mp hlt
  have hmerged : Merged internalPlace [[⟨[1], 9, some [7]⟩, ⟨[2], 4, none⟩].map internalEntry,
      [⟨[1], 2, some [5]⟩].map internalEntry]
      ([⟨[1], 9, some [7]⟩, ⟨[1], 2, some [5]⟩, ⟨[2], 4, none⟩].map internalEntry) := by
    refine ⟨(List.Perm.swap _ _ []).cons _, hascending _ (by decide), fun l hl => ?_⟩
    simp only [List.mem_cons, List.not_mem_nil, or_false] at hl
    rcases hl with rfl | rfl
    · exact hascending _ (by decide)
    · exact hascending _ (by decide)
  refine (merging_iterator_is_cursor compares_internalKeys hmerged
    [.seekToLast, .prev, .next, .prev, .prev] ?_).trans (by decide)
  simp only [Zipper.Legal, and_true]
  decide

end Engine

end RnLeveldb
