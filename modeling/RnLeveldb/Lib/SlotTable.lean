import Mathlib.Tactic

/-!
# Slot tables and handles

A slot table is a growing vector of slots, each empty or holding one object. An emptied
slot keeps its index, so an index is a *handle* on the object put there, as long as the
slot is not filled again with another one.

Objects carry an identity (`id : α → ℕ`, drawn from a counter that only grows). The file
relates indices to identities:

* `Ids t next`: identities in the table are below the counter, and no two slots share one;
* `Tracks t idx o`: a holder that remembers the index `idx` and was given the object of
  identity `o` finds in that slot this object or nothing, and finds it nowhere else;
* `Holder t next idx o` adds that the object was handed out before, from a slot that exists;
* one lemma for each table operation says how they survive it.
-/

/-- A vector of slots. -/
structure SlotTable (α : Type*) where
  slots : List (Option α)
deriving DecidableEq, Repr

namespace SlotTable

variable {α : Type*}

/-! ## Operations -/

/-- No slots. -/
def empty : SlotTable α := ⟨[]⟩

def size (t : SlotTable α) : ℕ := t.slots.length

/-- The object in slot `i`, if there is such a slot and it is not empty. -/
def get (t : SlotTable α) (i : ℕ) : Option α := t.slots[i]?.join

/-- A new last slot. -/
def push (t : SlotTable α) (a : Option α) : SlotTable α := ⟨t.slots ++ [a]⟩

/-- Empty slot `i`. -/
def reset (t : SlotTable α) (i : ℕ) : SlotTable α := ⟨t.slots.set i none⟩

/-- Replace what slot `i` holds. -/
def update (t : SlotTable α) (i : ℕ) (a : α) : SlotTable α := ⟨t.slots.set i (some a)⟩

/-- Fill the first empty slot, or a new last one when there is none; the index used is
returned. -/
def alloc (t : SlotTable α) (a : α) : ℕ × SlotTable α :=
  match t.slots.findIdx? (·.isNone) with
  | some i => (i, t.update i a)
  | none => (t.size, t.push (some a))

@[simp] lemma get_empty (i : ℕ) : (empty : SlotTable α).get i = none := rfl

@[simp] lemma size_push (t : SlotTable α) (a : Option α) : (t.push a).size = t.size + 1 := by
  simp [size, push]

@[simp] lemma size_reset (t : SlotTable α) (i : ℕ) : (t.reset i).size = t.size := by
  simp [size, reset]

@[simp] lemma size_update (t : SlotTable α) (i : ℕ) (a : α) :
    (t.update i a).size = t.size := by
  simp [size, update]

/-- What some slot holds is found under its index. -/
lemma mem_slots {t : SlotTable α} {a : α} : some a ∈ t.slots ↔ ∃ i, t.get i = some a := by
  simp only [get, Option.join_eq_some_iff]
  exact List.mem_iff_getElem?

/-- An index that finds something is in range. -/
lemma lt_size_of_get {t : SlotTable α} {i : ℕ} {a : α} (h : t.get i = some a) : i < t.size := by
  by_contra hge
  have : t.slots[i]? = none := List.getElem?_eq_none (Nat.le_of_not_lt hge)
  simp [get, this] at h

lemma get_of_size_le {t : SlotTable α} {i : ℕ} (h : t.size ≤ i) : t.get i = none := by
  simp [get, List.getElem?_eq_none h]

/-- A new last slot; the others are as they were. -/
lemma get_push (t : SlotTable α) (a : Option α) (i : ℕ) :
    (t.push a).get i = if i = t.size then a else t.get i := by
  unfold get push size
  rcases Nat.lt_trichotomy i t.slots.length with h | h | h
  · rw [List.getElem?_append_left h, if_neg (by omega)]
  · subst h
    simp
  · rw [if_neg (by omega), List.getElem?_eq_none (by simp; omega),
      List.getElem?_eq_none (by omega)]

@[simp] lemma get_push_none (t : SlotTable α) (i : ℕ) : (t.push none).get i = t.get i := by
  rw [get_push]
  split
  · next hi => rw [hi, get_of_size_le le_rfl]
  · rfl

/-- Resetting empties one slot and moves none. -/
lemma get_reset (t : SlotTable α) (i j : ℕ) :
    (t.reset i).get j = if j = i then none else t.get j := by
  unfold get reset
  by_cases hji : j = i
  · subst hji
    rw [if_pos rfl, List.getElem?_set, if_pos rfl]
    split <;> rfl
  · rw [if_neg hji, List.getElem?_set_ne (Ne.symm hji)]

/-- An update replaces what one slot holds. -/
lemma get_update {t : SlotTable α} {i : ℕ} (h : i < t.size) (a : α) (j : ℕ) :
    (t.update i a).get j = if j = i then some a else t.get j := by
  unfold get update
  by_cases hji : j = i
  · subst hji
    rw [if_pos rfl, List.getElem?_set_self h]
    rfl
  · rw [if_neg hji, List.getElem?_set_ne (Ne.symm hji)]

/-- The index `alloc` uses was empty. -/
lemma get_alloc_idx (t : SlotTable α) (a : α) : t.get (t.alloc a).1 = none := by
  unfold alloc
  split
  · next i hi =>
    obtain ⟨hlt, hnone, -⟩ := List.findIdx?_eq_some_iff_getElem.mp hi
    have : t.slots[i] = none := by simpa using hnone
    simp [get, List.getElem?_eq_getElem hlt, this]
  · exact get_of_size_le (le_refl _)

/-- An allocation fills the slot whose index it returns. -/
lemma get_alloc (t : SlotTable α) (a : α) (j : ℕ) :
    (t.alloc a).2.get j = if j = (t.alloc a).1 then some a else t.get j := by
  unfold alloc
  split
  · next i hi =>
    obtain ⟨hlt, -, -⟩ := List.findIdx?_eq_some_iff_getElem.mp hi
    exact get_update hlt a j
  · exact get_push t (some a) j

/-! ## Identities -/

section Identity

variable (id : α → ℕ)

/-- The object of identity `o` is in some slot. -/
def Live (t : SlotTable α) (o : ℕ) : Prop := ∃ i a, t.get i = some a ∧ id a = o

/-- Identities are below the counter and held by one slot each. -/
structure Ids (t : SlotTable α) (next : ℕ) : Prop where
  lt : ∀ {i a}, t.get i = some a → id a < next
  inj : ∀ {i j a b}, t.get i = some a → t.get j = some b → id a = id b → i = j

/-- The holder of index `idx` (`none`: it has dropped its index), who was given the object
of identity `o`, finds it in its slot or not at all. -/
def Tracks (t : SlotTable α) : Option ℕ → ℕ → Prop
  | none, o => ¬ t.Live id o
  | some i, o => ∀ j a, t.get j = some a → (id a = o ↔ j = i)

variable {id} {t : SlotTable α} {next : ℕ} {idx : Option ℕ} {o i : ℕ}

lemma ids_empty (next : ℕ) : (empty : SlotTable α).Ids id next :=
  ⟨fun h => by simp at h, fun h => by simp at h⟩

/-- Numbers that were not given out yet stay so. -/
lemma Ids.mono {next' : ℕ} (h : t.Ids id next) (hle : next ≤ next') : t.Ids id next' :=
  ⟨fun hg => lt_of_lt_of_le (h.lt hg) hle, h.inj⟩

/-- An empty slot at the end changes no identity. -/
lemma Ids.push_none (h : t.Ids id next) : (t.push none).Ids id next := by
  have hget : ∀ {j a}, (t.push none).get j = some a → t.get j = some a := by
    intro j a hj
    rw [get_push] at hj
    split at hj
    · cases hj
    · exact hj
  exact ⟨fun hg => h.lt (hget hg), fun hg hg' => h.inj (hget hg) (hget hg')⟩

/-- Filling one empty slot with a fresh object keeps identities apart. -/
lemma Ids.fill {t' : SlotTable α} {a : α} (h : t.Ids id next) (ha : id a = next)
    (hget : ∀ j, t'.get j = if j = i then some a else t.get j) : t'.Ids id (next + 1) := by
  have hcases : ∀ {j b}, t'.get j = some b → (j = i ∧ b = a) ∨ (j ≠ i ∧ t.get j = some b) := by
    intro j b hj
    rw [hget] at hj
    by_cases hji : j = i
    · rw [if_pos hji] at hj
      exact Or.inl ⟨hji, (Option.some.inj hj).symm⟩
    · rw [if_neg hji] at hj
      exact Or.inr ⟨hji, hj⟩
  constructor
  · intro j b hj
    rcases hcases hj with ⟨-, rfl⟩ | ⟨-, hb⟩
    · omega
    · exact Nat.lt_succ_of_lt (h.lt hb)
  · intro j k b c hj hk hbc
    rcases hcases hj with ⟨rfl, rfl⟩ | ⟨-, hb⟩ <;> rcases hcases hk with ⟨rfl, rfl⟩ | ⟨-, hc⟩
    · rfl
    · have := h.lt hc
      omega
    · have := h.lt hb
      omega
    · exact h.inj hb hc hbc

/-- Emptying a slot leaves the others distinct. -/
lemma Ids.reset (h : t.Ids id next) (i : ℕ) : (t.reset i).Ids id next := by
  have hget : ∀ {j a}, (t.reset i).get j = some a → t.get j = some a := by
    intro j a hj
    rw [get_reset] at hj
    split at hj
    · cases hj
    · exact hj
  exact ⟨fun hg => h.lt (hget hg), fun hg hg' => h.inj (hget hg) (hget hg')⟩

/-- An object changed in place keeps its identity. -/
lemma get_update_same_id {a b : α} (ha : t.get i = some a) (hid : id b = id a) {j : ℕ} {c : α}
    (hj : (t.update i b).get j = some c) : ∃ d, t.get j = some d ∧ id d = id c := by
  rw [get_update (lt_size_of_get ha)] at hj
  by_cases hji : j = i
  · rw [if_pos hji] at hj
    obtain rfl := Option.some.inj hj
    exact ⟨a, by rw [hji]; exact ha, hid.symm⟩
  · rw [if_neg hji] at hj
    exact ⟨c, hj, rfl⟩

/-- Replacing an object by one of the same identity keeps them distinct. -/
lemma Ids.update {a b : α} (h : t.Ids id next) (ha : t.get i = some a) (hid : id b = id a) :
    (t.update i b).Ids id next := by
  constructor
  · intro j c hj
    obtain ⟨d, hd, hdc⟩ := get_update_same_id ha hid hj
    rw [← hdc]
    exact h.lt hd
  · intro j k c e hj hk hce
    obtain ⟨d, hd, hdc⟩ := get_update_same_id ha hid hj
    obtain ⟨f, hf, hfe⟩ := get_update_same_id ha hid hk
    exact h.inj hd hf (by rw [hdc, hfe, hce])

/-! ## Handles -/

/-- What the index of a holder finds has the identity that it tracks. -/
lemma Tracks.get_id {a : α} (h : t.Tracks id (some i) o) (ha : t.get i = some a) : id a = o :=
  (h i a ha).mpr rfl

/-- A holder's object is live exactly when its slot is not empty. -/
lemma Tracks.live_iff (h : t.Tracks id (some i) o) : t.Live id o ↔ t.get i ≠ none := by
  constructor
  · rintro ⟨j, a, hj, ha⟩
    have hji := (h j a hj).mp ha
    rw [← hji, hj]
    simp
  · intro hne
    obtain ⟨a, ha⟩ := Option.ne_none_iff_exists'.mp hne
    exact ⟨i, a, ha, h.get_id ha⟩

/-- A holder who finds an object finds its own. -/
lemma Tracks.find_eq (h : t.Tracks id idx o) (hne : (idx.bind t.get).map id ≠ none) :
    (idx.bind t.get).map id = some o := by
  obtain ⟨p, hp⟩ := Option.ne_none_iff_exists'.mp hne
  obtain ⟨a, ha, rfl⟩ := Option.map_eq_some_iff.mp hp
  obtain ⟨i, rfl, hget⟩ := Option.bind_eq_some_iff.mp ha
  rw [hp, h.get_id hget]

/-- A holder whose object is live finds it. -/
lemma Tracks.find_of_live (h : t.Tracks id idx o) (hlive : t.Live id o) :
    (idx.bind t.get).map id = some o := by
  cases idx with
  | none => exact absurd hlive h
  | some i =>
    obtain ⟨a, ha⟩ := Option.ne_none_iff_exists'.mp (h.live_iff.mp hlive)
    rw [Option.bind_some, ha, Option.map_some, h.get_id ha]

/-- A change that keeps every object of the table keeps it live. -/
lemma Live.of_get {t' : SlotTable α} (h : t.Live id o)
    (hget : ∀ i a, t.get i = some a → ∃ b, t'.get i = some b ∧ id b = id a) : t'.Live id o := by
  obtain ⟨i, a, ha, rfl⟩ := h
  obtain ⟨b, hb, hid⟩ := hget i a ha
  exact ⟨i, b, hb, hid⟩

/-- An object in a slot stays there when another one is pushed. -/
lemma Live.push (h : t.Live id o) (a : Option α) : (t.push a).Live id o := by
  refine h.of_get fun i b hb => ⟨b, ?_, rfl⟩
  rw [get_push, if_neg (ne_of_lt (lt_size_of_get hb))]
  exact hb

lemma Live.alloc (h : t.Live id o) (a : α) : (t.alloc a).2.Live id o := by
  refine h.of_get fun i b hb => ⟨b, ?_, rfl⟩
  have hne : i ≠ (t.alloc a).1 := by
    intro hi
    rw [hi, get_alloc_idx] at hb
    cases hb
  rw [get_alloc, if_neg hne]
  exact hb

lemma Live.update {a b : α} (h : t.Live id o) (ha : t.get i = some a) (hid : id b = id a) :
    (t.update i b).Live id o := by
  refine h.of_get fun j c hc => ?_
  rw [get_update (lt_size_of_get ha)]
  by_cases hji : j = i
  · rw [hji, ha] at hc
    cases hc
    exact ⟨b, if_pos hji, hid⟩
  · exact ⟨c, by rw [if_neg hji]; exact hc, rfl⟩

/-- Emptying a slot, only the object in it is lost. -/
lemma Live.reset (h : t.Live id o) (i : ℕ) :
    (t.reset i).Live id o ∨ ∃ a, t.get i = some a ∧ id a = o := by
  obtain ⟨j, a, ha, rfl⟩ := h
  by_cases hji : j = i
  · exact Or.inr ⟨a, by rw [← hji]; exact ha, rfl⟩
  · exact Or.inl ⟨j, a, by rw [get_reset, if_neg hji]; exact ha, rfl⟩

/-- Handing out the index of an object in the table. -/
lemma Ids.tracks {a : α} (h : t.Ids id next) (ha : t.get i = some a) :
    t.Tracks id (some i) (id a) :=
  fun _ _ hj => ⟨fun hid => h.inj hj ha hid, fun hji => by subst hji; rw [ha] at hj; cases hj; rfl⟩

/-- Objects can only leave the table: whatever the change, if it adds no object, holders
that keep their index keep track. -/
lemma Tracks.of_get_sub {t' : SlotTable α}
    (hget : ∀ {j b}, t'.get j = some b → ∃ a, t.get j = some a ∧ id a = id b)
    (h : t.Tracks id idx o) : t'.Tracks id idx o := by
  cases idx with
  | none =>
    rintro ⟨j, b, hj, hb⟩
    obtain ⟨a, ha, hab⟩ := hget hj
    exact h ⟨j, a, ha, hab.trans hb⟩
  | some i =>
    intro j b hj
    obtain ⟨a, ha, hab⟩ := hget hj
    rw [← hab]
    exact h j a ha

/-- A fresh object in a slot that is not the holder's. -/
lemma Tracks.fill {t' : SlotTable α} {a : α} (h : t.Tracks id idx o) (ho : o < id a)
    (hne : idx ≠ some i) (hget : ∀ j, t'.get j = if j = i then some a else t.get j) :
    t'.Tracks id idx o := by
  cases idx with
  | none =>
    rintro ⟨j, b, hj, hb⟩
    rw [hget] at hj
    by_cases hji : j = i
    · rw [if_pos hji] at hj
      cases hj
      omega
    · rw [if_neg hji] at hj
      exact h ⟨j, b, hj, hb⟩
  | some k =>
    intro j b hj
    rw [hget] at hj
    by_cases hji : j = i
    · rw [if_pos hji] at hj
      cases hj
      have hki : k ≠ i := fun e => hne (by rw [e])
      constructor
      · intro hb
        omega
      · intro hjk
        omega
    · rw [if_neg hji] at hj
      exact h j b hj

/-- A push does not fill a slot that a holder has lost. -/
lemma Tracks.push_none (h : t.Tracks id idx o) : (t.push none).Tracks id idx o := by
  refine h.of_get_sub fun {j b} hj => ?_
  rw [get_push] at hj
  split at hj
  · cases hj
  · exact ⟨b, hj, rfl⟩

/-- Nor does a reset, of whatever slot. -/
lemma Tracks.reset (h : t.Tracks id idx o) (i : ℕ) : (t.reset i).Tracks id idx o := by
  refine h.of_get_sub fun {j b} hj => ?_
  rw [get_reset] at hj
  split at hj
  · cases hj
  · exact ⟨b, hj, rfl⟩

/-- Emptying its slot, a holder may drop its index. -/
lemma Tracks.reset_self (h : t.Tracks id (some i) o) : (t.reset i).Tracks id none o := by
  rintro ⟨j, b, hj, hb⟩
  rw [get_reset] at hj
  split at hj
  · cases hj
  · next hji => exact hji ((h j b hj).mp hb)

/-- An update keeps the identities, so that all holders track what they tracked. -/
lemma Tracks.update {a b : α} (h : t.Tracks id idx o) (ha : t.get i = some a)
    (hid : id b = id a) : (t.update i b).Tracks id idx o :=
  h.of_get_sub fun hj => get_update_same_id ha hid hj

variable (id) in
/-- A holder of an index of the table: besides keeping track of its object, it was given one
that existed, in a slot that exists. -/
structure Holder (t : SlotTable α) (next : ℕ) (idx : Option ℕ) (o : ℕ) : Prop where
  lt : o < next
  inRange : ∀ i, idx = some i → i < t.size
  tracks : t.Tracks id idx o

/-- The index of a new last slot, given out with its object. -/
lemma Ids.holder_push {a : α} (h : t.Ids id next) (ha : id a = next) :
    (t.push (some a)).Holder id (next + 1) (some t.size) next where
  lt := Nat.lt_succ_self next
  inRange := by
    intro i hi
    cases hi
    rw [size_push]
    exact Nat.lt_succ_self _
  tracks := by
    have hget : (t.push (some a)).get t.size = some a := by rw [get_push, if_pos rfl]
    rw [← ha]
    exact (h.fill ha (get_push t (some a))).tracks hget

/-- The index of an object that is in the table, given out once more. -/
lemma Ids.holder {a : α} (h : t.Ids id next) (ha : t.get i = some a) :
    t.Holder id next (some i) (id a) where
  lt := h.lt ha
  inRange := fun _ hi => by cases hi; exact lt_size_of_get ha
  tracks := h.tracks ha

lemma Holder.mono {next' : ℕ} (h : t.Holder id next idx o) (hle : next ≤ next') :
    t.Holder id next' idx o :=
  ⟨lt_of_lt_of_le h.lt hle, h.inRange, h.tracks⟩

lemma Holder.push_none (h : t.Holder id next idx o) : (t.push none).Holder id next idx o where
  lt := h.lt
  inRange := fun i hi => by
    rw [size_push]
    exact Nat.lt_succ_of_lt (h.inRange i hi)
  tracks := h.tracks.push_none

/-- The object that is pushed is new to every holder. -/
lemma Holder.push {a : α} (h : t.Holder id next idx o) (ha : id a = next) :
    (t.push (some a)).Holder id (next + 1) idx o where
  lt := Nat.lt_succ_of_lt h.lt
  inRange := fun i hi => by
    rw [size_push]
    exact Nat.lt_succ_of_lt (h.inRange i hi)
  tracks := by
    have hne : idx ≠ some t.size := fun e => absurd (h.inRange _ e) (lt_irrefl _)
    exact h.tracks.fill (by rw [ha]; exact h.lt) hne (get_push t (some a))

lemma Holder.reset (h : t.Holder id next idx o) (i : ℕ) : (t.reset i).Holder id next idx o where
  lt := h.lt
  inRange := fun j hj => by
    rw [size_reset]
    exact h.inRange j hj
  tracks := h.tracks.reset i

/-- The holder whose slot is emptied has lost its object. -/
lemma Holder.reset_self (h : t.Holder id next (some i) o) :
    (t.reset i).Holder id next none o where
  lt := h.lt
  inRange := fun _ hj => by cases hj
  tracks := h.tracks.reset_self

lemma Holder.update {a b : α} (h : t.Holder id next idx o) (ha : t.get i = some a)
    (hid : id b = id a) : (t.update i b).Holder id next idx o where
  lt := h.lt
  inRange := fun j hj => by
    rw [size_update]
    exact h.inRange j hj
  tracks := h.tracks.update ha hid

/-- An allocation takes away no slot. -/
lemma size_le_alloc (t : SlotTable α) (a : α) : t.size ≤ (t.alloc a).2.size := by
  unfold alloc
  split
  · rw [size_update]
  · rw [size_push]
    exact Nat.le_succ _

/-- A table that reuses empty slots: only a holder whose slot is not empty keeps track. -/
lemma Holder.alloc {a : α} (h : t.Holder id next idx o) (ha : id a = next)
    (hfull : ∀ i, idx = some i → t.get i ≠ none) :
    (t.alloc a).2.Holder id (next + 1) idx o where
  lt := Nat.lt_succ_of_lt h.lt
  inRange := fun i hi => lt_of_lt_of_le (h.inRange i hi) (size_le_alloc t a)
  tracks := by
    have hne : idx ≠ some (t.alloc a).1 := fun e => hfull _ e (get_alloc_idx t a)
    exact h.tracks.fill (by rw [ha]; exact h.lt) hne (get_alloc t a)

/-- The index that an allocation returns tracks the new object. -/
lemma Ids.holder_alloc {a : α} (h : t.Ids id next) (ha : id a = next) :
    (t.alloc a).2.Holder id (next + 1) (some (t.alloc a).1) next := by
  have hget : (t.alloc a).2.get (t.alloc a).1 = some a := by rw [get_alloc, if_pos rfl]
  have hids : (t.alloc a).2.Ids id (next + 1) := h.fill ha (get_alloc t a)
  have := hids.holder hget
  rwa [ha] at this

end Identity

end SlotTable
