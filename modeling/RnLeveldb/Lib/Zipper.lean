import Mathlib.Data.List.Induction
import Mathlib.Data.List.TakeWhile
import Mathlib.Order.Lattice

/-!
# Cursors over lists

A cursor over a list is the list cut in two in front of the entry it stands on. If there is none
behind the cut it stands on no entry; a step off either end leads there.
-/

/-- What is in front of the cut, the nearest first, and what is behind it. -/
structure Zipper (α : Type*) where
  before : List α
  rest : List α
deriving DecidableEq

namespace Zipper

variable {α β : Type*}

/-- The whole list. -/
def all (z : Zipper α) : List α := z.before.reverse ++ z.rest

/-- The entry the cursor stands on. -/
def current (z : Zipper α) : Option α := z.rest.head?

def valid (z : Zipper α) : Bool := !z.rest.isEmpty

/-- In front of the first entry, so that the cursor stands on it. -/
def first (xs : List α) : Zipper α := ⟨[], xs⟩

/-- On the last entry, or on none if the list is empty. -/
def last (xs : List α) : Zipper α :=
  match xs.reverse with
  | [] => ⟨[], []⟩
  | x :: before => ⟨before, [x]⟩

/-- The first entry of which `p` does not hold. -/
def seek (p : α → Bool) (xs : List α) : Zipper α := ⟨(xs.takeWhile p).reverse, xs.dropWhile p⟩

/-- A step past the last entry leads behind it, where the cursor stays. -/
def next (z : Zipper α) : Zipper α :=
  match z.rest with
  | [] => z
  | x :: rest => ⟨x :: z.before, rest⟩

/-- A step back from the first entry leads behind the last one, too. -/
def prev (z : Zipper α) : Zipper α :=
  match z.before with
  | [] => ⟨z.rest.reverse, []⟩
  | x :: before => ⟨before, x :: z.rest⟩

/-- The cut between two lists. -/
def between (xs ys : List α) : Zipper α := ⟨xs.reverse, ys⟩

@[simp] lemma all_between (xs ys : List α) : (between xs ys).all = xs ++ ys := by
  rw [between, all, List.reverse_reverse]

lemma rest_eq_nil {z : Zipper α} (h : ¬ z.valid = true) : z.rest = [] := by
  cases hrest : z.rest with
  | nil => rfl
  | cons x rest => simp [valid, hrest] at h

/-- A step forward after a step back. -/
lemma next_prev (z : Zipper α) : (if z.prev.valid then z.prev.next else first z.prev.all) = z := by
  obtain ⟨before, rest⟩ := z
  cases before with
  | nil => simp [prev, valid, first, all]
  | cons x before => rfl

/-- A step back moves the cut over one entry. -/
lemma prev_between_append (xs : List α) (x : α) (ys : List α) :
    (between (xs ++ [x]) ys).prev = between xs (x :: ys) := by
  rw [between, List.reverse_append, List.reverse_singleton, List.singleton_append]
  rfl

lemma prev_between_nil (ys : List α) : (between [] ys).prev = between ys [] := rfl

/-- So does a step forward. -/
lemma next_between_cons (xs : List α) (y : α) (ys : List α) :
    (between xs (y :: ys)).next = between (xs ++ [y]) ys := by
  rw [between, between, List.reverse_append, List.reverse_singleton, List.singleton_append]
  rfl

/-- The last entry is one step back from the end. -/
lemma last_eq (xs : List α) : last xs = (between xs []).prev := by
  induction xs using List.reverseRecOn with
  | nil => rfl
  | append_singleton xs x =>
    rw [prev_between_append, last, List.reverse_append, List.reverse_singleton,
      List.singleton_append]
    rfl

/-- A step does not change the list. -/
@[simp] lemma all_prev (z : Zipper α) : z.prev.all = z.all := by
  unfold prev all
  split
  · next h => simp [h]
  · next h => simp [h]

/-- A search, by the numbers of the entries. -/
lemma seek_eq_between (p : α → Bool) (xs : List α) :
    (∀ j x, j < (xs.takeWhile p).length → xs[j]? = some x → p x = true) ∧
      (∀ x, xs[(xs.takeWhile p).length]? = some x → p x = false) ∧
      seek p xs = between (xs.take (xs.takeWhile p).length) (xs.drop (xs.takeWhile p).length) := by
  have hsplit := List.takeWhile_append_dropWhile (p := p) (l := xs)
  have hfront : ∀ x ∈ xs.takeWhile p, p x = true := fun x hx => List.mem_takeWhile_imp hx
  have hrest := List.head?_dropWhile_not p xs
  rw [seek]
  generalize xs.takeWhile p = front at hsplit hfront
  generalize xs.dropWhile p = rest at hsplit hrest
  subst hsplit
  refine ⟨fun j x hj hx => ?_, fun x hx => ?_, by rw [List.take_left, List.drop_left, between]⟩
  · rw [List.getElem?_append_left hj] at hx
    exact hfront x (List.mem_of_getElem? hx)
  · rw [List.getElem?_append_right (le_refl _), Nat.sub_self, ← List.head?_eq_getElem?] at hx
    rw [hx] at hrest
    simpa using hrest

/-! ## Ascending lists -/

section

variable {α P : Type*} {place : α → P} {xs ys : List α} {p q : P → Prop} [DecidablePred p]
  [DecidablePred q] {e : α}

/-- The cut behind the entries whose places are in `p`. -/
def cut (place : α → P) (p : P → Prop) [DecidablePred p] (xs : List α) : Zipper α :=
  between (xs.filter fun x => p (place x)) (xs.filter fun x => ¬ p (place x))

/-- In a list whose front is in `p` and whose rest is not, the cut is between the two. -/
lemma cut_append (hxs : ∀ x ∈ xs, p (place x)) (hys : ∀ y ∈ ys, ¬ p (place y)) :
    cut place p (xs ++ ys) = between xs ys := by
  have hin : (xs ++ ys).filter (fun x => p (place x)) = xs := by
    rw [List.filter_append, List.filter_eq_self.mpr (by simpa using hxs),
      List.filter_eq_nil_iff.mpr (by simpa using hys), List.append_nil]
  have hout : (xs ++ ys).filter (fun x => ¬ p (place x)) = ys := by
    rw [List.filter_append, List.filter_eq_nil_iff.mpr (by simpa using hxs),
      List.filter_eq_self.mpr (by simpa using hys), List.nil_append]
  rw [cut, hin, hout]

lemma cut_eq_first (h : ∀ x ∈ xs, ¬ p (place x)) : cut place p xs = first xs := by
  have hcut := cut_append (fun x hx => absurd hx List.not_mem_nil) h
  exact hcut

lemma cut_eq_end (h : ∀ x ∈ xs, p (place x)) : cut place p xs = between xs [] := by
  have hcut := cut_append h fun y hy => absurd hy List.not_mem_nil
  rw [List.append_nil] at hcut
  exact hcut

/-- A cut depends on `p` at the places of the entries only. -/
lemma cut_congr (h : ∀ x ∈ xs, (p (place x) ↔ q (place x))) : cut place p xs = cut place q xs := by
  unfold cut
  congr 1
  · apply List.filter_congr
    intro x hx
    rw [decide_eq_decide]
    exact h x hx
  · apply List.filter_congr
    intro x hx
    rw [decide_eq_decide]
    exact not_congr (h x hx)

/-- The cursor stands on nothing if all entries are in front of the cut. -/
lemma current_cut_eq_none : (cut place p xs).current = none ↔ ∀ x ∈ xs, p (place x) := by
  rw [current, cut, between, List.head?_eq_none_iff, List.filter_eq_nil_iff]
  simp

/-- And one step back it does if none is. -/
lemma current_prev_cut_eq_none :
    (cut place p xs).prev.current = none ↔ ∀ x ∈ xs, ¬ p (place x) := by
  have hnil : (xs.filter fun x => p (place x)) = [] ↔ ∀ x ∈ xs, ¬ p (place x) := by
    rw [List.filter_eq_nil_iff]
    simp
  rw [cut, ← hnil]
  rcases List.eq_nil_or_concat (xs.filter fun x => p (place x)) with hnone | ⟨front, u, hlast⟩
  · rw [hnone, prev_between_nil]
    simp [current, between]
  · rw [hlast, List.concat_eq_append, prev_between_append]
    simp [current, between]

variable [LinearOrder P]

/-- The places of the entries ascend. -/
def Ascending (place : α → P) (xs : List α) : Prop := xs.Pairwise fun a b => place a < place b

/-- A set of places that goes up to some place. -/
def IsLower (p : P → Prop) : Prop := ∀ a b, a ≤ b → p b → p a

/-- The two kinds of lower sets that come up: the places in front of `c`, without it and with it.
-/
lemma isLower_lt (c : P) : IsLower (· < c) := fun _ _ hab hb => lt_of_le_of_lt hab hb

lemma isLower_le (c : P) : IsLower (· ≤ c) := fun _ _ hab hb => le_trans hab hb

/-- `e` is the first entry outside `p`. -/
structure IsFirst (place : α → P) (p : P → Prop) (xs : List α) (e : α) : Prop where
  mem : e ∈ xs
  outside : ¬ p (place e)
  le : ∀ x ∈ xs, ¬ p (place x) → place e ≤ place x

/-- `e` is the last entry in `p`. -/
structure IsLast (place : α → P) (p : P → Prop) (xs : List α) (e : α) : Prop where
  mem : e ∈ xs
  inside : p (place e)
  le : ∀ x ∈ xs, p (place x) → place x ≤ place e

/-- A search for the first entry outside a lower set finds its cut, as the entries inside are all
in front. -/
lemma Ascending.seek_eq (h : Ascending place xs) (hp : IsLower p) :
    seek (fun x => p (place x)) xs = cut place p xs := by
  have hsplit := List.takeWhile_append_dropWhile (p := fun x => decide (p (place x))) (l := xs)
  have hfront : ∀ x ∈ xs.takeWhile (fun x => p (place x)), p (place x) := by
    intro x hx
    have hpx := List.mem_takeWhile_imp hx
    simpa using hpx
  have hrest : ∀ y ∈ xs.dropWhile (fun x => p (place x)), ¬ p (place y) := by
    have htail : Ascending place (xs.dropWhile fun x => p (place x)) :=
      h.sublist (List.dropWhile_sublist _)
    cases hdrop : xs.dropWhile (fun x => p (place x)) with
    | nil => simp
    | cons u rest =>
      have hu : ¬ p (place u) := by
        have hhead := List.head?_dropWhile_not (fun x => decide (p (place x))) xs
        rw [hdrop] at hhead
        simpa using hhead
      rw [hdrop] at htail
      intro y hy hpy
      rcases List.mem_cons.mp hy with rfl | hy
      · exact hu hpy
      · exact hu (hp _ _ (le_of_lt ((List.pairwise_cons.mp htail).1 y hy)) hpy)
  have hcut := cut_append hfront hrest
  rw [hsplit] at hcut
  rw [hcut]
  rfl

/-- Cutting an ascending list by a lower set does not reorder it. -/
lemma Ascending.all_cut (h : Ascending place xs) (hp : IsLower p) : (cut place p xs).all = xs := by
  rw [← h.seek_eq hp, seek, all, List.reverse_reverse, List.takeWhile_append_dropWhile]

/-- What is in front of an entry and what is behind it. -/
lemma Ascending.split (h : Ascending place xs) (he : e ∈ xs) :
    ∃ front rest, xs = front ++ e :: rest ∧ (∀ x ∈ front, place x < place e) ∧
      ∀ x ∈ rest, place e < place x := by
  obtain ⟨front, rest, rfl⟩ := List.append_of_mem he
  obtain ⟨-, hrest, hfront⟩ := List.pairwise_append.mp h
  exact ⟨front, rest, rfl, fun x hx => hfront x hx e List.mem_cons_self,
    (List.pairwise_cons.mp hrest).1⟩

/-- In front of an entry the cursor stands on it, and the next step leads behind it. -/
lemma Ascending.cut_lt (h : Ascending place xs) (he : e ∈ xs) :
    (cut place (· < place e) xs).current = some e ∧
      (cut place (· < place e) xs).next = cut place (· ≤ place e) xs := by
  obtain ⟨front, rest, rfl, hfront, hrest⟩ := h.split he
  have hlt : cut place (· < place e) (front ++ e :: rest) = between front (e :: rest) := by
    apply cut_append hfront
    intro x hx
    rcases List.mem_cons.mp hx with rfl | hx
    · exact lt_irrefl _
    · exact lt_asymm (hrest x hx)
  have hle : cut place (· ≤ place e) (front ++ [e] ++ rest) = between (front ++ [e]) rest := by
    apply cut_append
    · intro x hx
      rcases List.mem_append.mp hx with hx | hx
      · exact le_of_lt (hfront x hx)
      · rw [List.mem_singleton.mp hx]
    · exact fun x hx => not_le.mpr (hrest x hx)
  rw [List.append_assoc, List.singleton_append] at hle
  rw [hlt, hle, next_between_cons]
  exact ⟨rfl, rfl⟩

/-- A lower set with a first entry outside consists, on the list, of what is in front of that
entry. -/
lemma IsFirst.iff (h : IsFirst place p xs e) (hp : IsLower p) {x : α} (hx : x ∈ xs) :
    p (place x) ↔ place x < place e := by
  constructor
  · intro hpx
    by_contra hle
    exact h.outside (hp _ _ (not_lt.mp hle) hpx)
  · intro hlt
    by_contra hpx
    exact absurd (h.le x hx hpx) (not_le.mpr hlt)

omit [DecidablePred p] in
/-- And one with a last entry inside of what is not behind it. -/
lemma IsLast.iff (h : IsLast place p xs e) (hp : IsLower p) {x : α} (hx : x ∈ xs) :
    p (place x) ↔ place x ≤ place e :=
  ⟨h.le x hx, fun hle => hp _ _ hle h.inside⟩

lemma IsFirst.cut_eq (h : IsFirst place p xs e) (hp : IsLower p) :
    cut place p xs = cut place (· < place e) xs :=
  cut_congr fun _ hx => h.iff hp hx

lemma IsLast.cut_eq (h : IsLast place p xs e) (hp : IsLower p) :
    cut place p xs = cut place (· ≤ place e) xs :=
  cut_congr fun _ hx => h.iff hp hx

/-- Where the cursor stands after a search: on the first entry outside the set. -/
lemma Ascending.isFirst_iff (h : Ascending place xs) (hp : IsLower p) :
    (cut place p xs).current = some e ↔ IsFirst place p xs e := by
  constructor
  · intro hcurrent
    rw [current, cut, between, List.head?_eq_some_iff] at hcurrent
    obtain ⟨rest, hrest⟩ := hcurrent
    have hmem : ∀ x, x ∈ e :: rest ↔ x ∈ xs ∧ ¬ p (place x) := by
      intro x
      rw [← hrest, List.mem_filter, decide_eq_true_iff]
    have hsorted : Ascending place (e :: rest) := by
      rw [← hrest]
      exact h.sublist List.filter_sublist
    have he := (hmem e).mp List.mem_cons_self
    refine ⟨he.1, he.2, fun x hx hpx => ?_⟩
    rcases List.mem_cons.mp ((hmem x).mpr ⟨hx, hpx⟩) with rfl | hx
    · exact le_refl _
    · exact le_of_lt ((List.pairwise_cons.mp hsorted).1 x hx)
  · intro hfirst
    rw [hfirst.cut_eq hp]
    exact (h.cut_lt hfirst.mem).1

/-- A step back from a cut. -/
lemma IsLast.prev_cut (hlast : IsLast place p xs e) (h : Ascending place xs) (hp : IsLower p) :
    (cut place p xs).prev = cut place (· < place e) xs := by
  have hcut := h.cut_lt hlast.mem
  rw [hlast.cut_eq hp, ← hcut.2]
  have hvalid : (cut place (· < place e) xs).rest ≠ [] := by
    intro hnil
    have hcurrent := hcut.1
    rw [current, hnil] at hcurrent
    cases hcurrent
  generalize cut place (· < place e) xs = z at hvalid
  obtain ⟨before, rest⟩ := z
  cases rest with
  | nil => exact absurd rfl hvalid
  | cons x rest => rfl

/-- And one step back: on the last entry inside. -/
lemma Ascending.isLast_iff (h : Ascending place xs) (hp : IsLower p) :
    (cut place p xs).prev.current = some e ↔ IsLast place p xs e := by
  constructor
  · intro hcurrent
    have hmem : ∀ x, x ∈ xs.filter (fun x => p (place x)) ↔ x ∈ xs ∧ p (place x) := by
      intro x
      rw [List.mem_filter, decide_eq_true_iff]
    have hsorted : Ascending place (xs.filter fun x => p (place x)) := h.sublist List.filter_sublist
    rw [cut] at hcurrent
    rcases List.eq_nil_or_concat (xs.filter fun x => p (place x)) with hnone | ⟨front, u, hlast⟩
    · rw [hnone, prev_between_nil] at hcurrent
      cases hcurrent
    · rw [List.concat_eq_append] at hlast
      rw [hlast, prev_between_append] at hcurrent
      have hu : u = e := Option.some_inj.mp hcurrent
      subst hu
      rw [hlast] at hmem hsorted
      have hmemu := (hmem u).mp (List.mem_append_right _ List.mem_cons_self)
      refine ⟨hmemu.1, hmemu.2, fun x hx hpx => ?_⟩
      rcases List.mem_append.mp ((hmem x).mpr ⟨hx, hpx⟩) with hx | hx
      · exact le_of_lt ((List.pairwise_append.mp hsorted).2.2 x hx u List.mem_cons_self)
      · rw [List.mem_singleton.mp hx]
  · intro hlast
    rw [hlast.prev_cut h hp]
    exact (h.cut_lt hlast.mem).1

end

/-! ## Calls -/

/-- What can be done with a cursor. -/
inductive Call (κ : Type*) where
  | seek (target : κ)
  | seekToFirst
  | seekToLast
  | next
  | prev
deriving DecidableEq

/-- `isBefore` says which entries are in front of a target. -/
def call {α κ : Type*} (isBefore : κ → α → Bool) (z : Zipper α) : Call κ → Zipper α
  | .seek target => seek (isBefore target) z.all
  | .seekToFirst => first z.all
  | .seekToLast => last z.all
  | .next => z.next
  | .prev => z.prev

/-- The next and the previous entry are asked for only where the cursor stands on one. -/
def Legal {α κ : Type*} (isBefore : κ → α → Bool) : Zipper α → List (Call κ) → Prop
  | _, [] => True
  | z, c :: calls =>
    (c = .next ∨ c = .prev → z.current ≠ none) ∧ Legal isBefore (z.call isBefore c) calls

end Zipper
