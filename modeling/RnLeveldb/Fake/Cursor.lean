import RnLeveldb.Fake.App
import RnLeveldb.Lib.Cursor

/-!
# The iterators of `fake.ts` as ordered cursors

`LevelDBIteratorI` documents an ordered cursor: `seek` goes to the first key at or past its
target, `next` and `prev` to the neighbours, and each call says when the cursor is valid
afterwards. While the store is not written, a `FakeLevelDBIterator` on which `next` and `prev`
are called only when it is valid does exactly that.
-/

namespace RnLeveldb

/-! ## The documented cursor -/

/-- Where a call leaves the cursor over the entries `es`; the moves by one entry require that
it stands on one. -/
def cursorMove (es : List (Bytes × Bytes)) (cursor : Option (Bytes × Bytes)) :
    IteratorCall Target → Option (Bytes × Bytes)
  | .seekToFirst => es.head?
  | .seekLast => es.getLast?
  | .seek target => SortedMap.atOrPast es target.bytes
  | .next => cursor.bind fun e => SortedMap.after es e.1
  | .prev => cursor.bind fun e => SortedMap.before es e.1
  | .close => none
  | .valid | .keyStr | .keyBuf | .valueStr | .valueBuf | .compareKey _ => cursor

lemma Pos.get_eq_some {α : Type*} {xs : List α} {pos : Pos} {a : α} :
    pos.get xs = some a ↔ ∃ i : ℕ, pos = .index i ∧ xs[i]? = some a := by
  constructor
  · intro h
    cases pos with
    | undefined | nan => cases h
    | index i =>
      cases i with
      | ofNat i => exact ⟨i, rfl, h⟩
      | negSucc i => cases h
  · rintro ⟨i, rfl, h⟩
    exact h

lemma Pos.get_index_pred {α : Type*} (xs : List α) (i : ℕ) :
    Pos.get xs (.index ((i : ℤ) - 1)) = if i = 0 then none else xs[i - 1]? := by
  cases i with
  | zero => rfl
  | succ i =>
    have hpred : ((i + 1 : ℕ) : ℤ) - 1 = i := by omega
    rw [hpred, if_neg (Nat.succ_ne_zero i), Nat.add_sub_cancel]
    rfl

/-- The positions in an array follow the cursor. -/
lemma MapIterator.entry_move {it : MapIterator} (hasc : SortedMap.Ascending it.entries)
    {m : IteratorCall Target} (hm : m = .next ∨ m = .prev → it.entry.isSome) :
    MapIterator.entry ⟨it.entries, it.move m⟩ = cursorMove it.entries it.entry m := by
  cases m with
  | seekToFirst => exact List.head?_eq_getElem?.symm
  | seekLast =>
    dsimp only [entry, move, cursorMove]
    rw [Pos.get_index_pred, List.getLast?_eq_getElem?]
    split
    · next hnil =>
      rw [hnil, List.length_eq_zero_iff.mp hnil]
      rfl
    · rfl
  | seek target => exact (SortedMap.atOrPast_eq_getElem? hasc target.bytes).symm
  | next =>
    obtain ⟨e, he⟩ := Option.isSome_iff_exists.mp (hm (Or.inl rfl))
    obtain ⟨i, hpos, hi⟩ := Pos.get_eq_some.mp he
    dsimp only [move, cursorMove]
    rw [he, hpos, Option.bind_some, SortedMap.after_eq_getElem? hasc hi]
    rfl
  | prev =>
    obtain ⟨e, he⟩ := Option.isSome_iff_exists.mp (hm (Or.inr rfl))
    obtain ⟨i, hpos, hi⟩ := Pos.get_eq_some.mp he
    dsimp only [move, cursorMove]
    rw [he, hpos, Option.bind_some, SortedMap.before_eq_getElem? hasc hi]
    exact Pos.get_index_pred _ i
  | close | valid | keyStr | keyBuf | valueStr | valueBuf | compareKey => rfl

namespace FakeLevelDBIterator

variable {h : Heap} {it : FakeLevelDBIterator} {c : Content}

/-- What `valid`, `keyBuf` and `valueBuf` say of an iterator that stands on an entry, or on
none. -/
def StandsOn (h : Heap) (it : FakeLevelDBIterator) : Option (Bytes × Bytes) → Prop
  | none => it.valid = false
  | some e => it.valid = true ∧ AppResult.seen h (it.keyBuf h) = .ok (.buffer e.1) ∧
      AppResult.seen h (it.valueBuf h) = .ok (.buffer e.2)

lemma Shows.standsOn (hs : it.Shows h c) : it.StandsOn h (it.onMap c).entry := by
  have hvalid := hs.valid
  have hkey := (hs.step .keyBuf).1
  have hvalue := (hs.step .valueBuf).1
  dsimp only [IteratorCall.resolve, MapIterator.report, MapIterator.ofEntry] at hkey hvalue
  cases he : (it.onMap c).entry with
  | none =>
    rw [he] at hvalid
    exact hvalid
  | some e =>
    rw [he] at hvalid hkey hvalue
    exact ⟨hvalid, hkey, hvalue⟩

/-- Of two entries with the same buffers there is only one. -/
lemma StandsOn.eq {cursor : Option (Bytes × Bytes)} {e : Bytes × Bytes}
    (hcursor : it.StandsOn h cursor) (he : it.StandsOn h (some e)) : cursor = some e := by
  cases cursor with
  | none =>
    have hvalid := he.1
    rw [hcursor] at hvalid
    cases hvalid
  | some e' =>
    have hkey := hcursor.2.1.symm.trans he.2.1
    have hvalue := hcursor.2.2.symm.trans he.2.2
    exact congrArg some (AppResult.eq_of_buffers hkey hvalue)

/-- A call that is allowed where the cursor stands. -/
lemma Shows.step_entry (hs : it.Shows h c) {m : IteratorCall Data}
    (hm : m = .next ∨ m = .prev → it.valid = true) :
    ((it.step h m).2.onMap c).entry = cursorMove c.entries (it.onMap c).entry (m.resolve h) := by
  have hallowed : m.resolve h = .next ∨ m.resolve h = .prev → (it.onMap c).entry.isSome := by
    rw [← hs.valid]
    intro hmove
    apply hm
    cases m with
    | next => exact Or.inl rfl
    | prev => exact Or.inr rfl
    | _ => rcases hmove with hmove | hmove <;> cases hmove
  have hmove := MapIterator.entry_move c.ascending hallowed
  rw [(hs.step m).2]
  exact hmove

lemma Shows.step_shows (hs : it.Shows h c) (m : IteratorCall Data) : (it.step h m).2.Shows h c := by
  rw [(hs.step m).2]
  exact hs

/-! ## Loops -/

/-- An entry as the loops below see it. -/
def seenEntry (e : Bytes × Bytes) : AppResult Bytes × AppResult Bytes :=
  (.ok (.buffer e.1), .ok (.buffer e.2))

/-- `while (it.valid()) { it.keyBuf(); it.valueBuf(); it.m(); }`: what the buffers were, unless
the loop makes more than `fuel` tests. -/
def walk (h : Heap) (m : IteratorCall Data) :
    ℕ → FakeLevelDBIterator → Option (List (AppResult Bytes × AppResult Bytes))
  | 0, _ => none
  | fuel + 1, it =>
    if it.valid then
      (walk h m fuel (it.step h m).2).map fun rest =>
        (AppResult.seen h (it.keyBuf h), AppResult.seen h (it.valueBuf h)) :: rest
    else some []

lemma walk_of_not_valid {m : IteratorCall Data} (fuel : ℕ) (hvalid : it.valid = false) :
    walk h m (fuel + 1) it = some [] := by
  rw [walk, hvalid]
  rfl

lemma walk_of_standsOn {m : IteratorCall Data} (fuel : ℕ) {e : Bytes × Bytes}
    (hon : it.StandsOn h (some e)) :
    walk h m (fuel + 1) it = (walk h m fuel (it.step h m).2).map (seenEntry e :: ·) := by
  rw [walk, hon.1, hon.2.1, hon.2.2]
  rfl

/-- From index `i` on, `next` lists what is left from there. -/
lemma Shows.walk_next (hs : it.Shows h c) {i : ℕ} (hpos : it.pos = .index i) {fuel : ℕ}
    (hfuel : c.entries.length - i < fuel) :
    walk h .next fuel it = some ((c.entries.drop i).map seenEntry) := by
  induction fuel generalizing it i with
  | zero => omega
  | succ fuel ih =>
    have hon := hs.standsOn
    have hentry : (it.onMap c).entry = c.entries[i]? := by
      rw [MapIterator.entry, onMap, hpos]
      rfl
    rw [hentry] at hon
    by_cases hi : i < c.entries.length
    · rw [List.getElem?_eq_getElem hi] at hon
      have hnext : (it.step h .next).2.pos = .index ((i + 1 : ℕ) : ℤ) := by
        show it.pos.next = _
        rw [hpos]
        rfl
      rw [walk_of_standsOn fuel hon, ih (hs.step_shows .next) hnext (by omega),
        List.drop_eq_getElem_cons hi]
      rfl
    · rw [List.getElem?_eq_none (not_lt.mp hi)] at hon
      rw [walk_of_not_valid fuel hon, List.drop_eq_nil_of_le (not_lt.mp hi)]
      rfl

/-- From the entry before index `i` on, `prev` lists the first `i` entries from the last. -/
lemma Shows.walk_prev (hs : it.Shows h c) {i : ℕ} (hi : i ≤ c.entries.length)
    (hpos : it.pos = .index ((i : ℤ) - 1)) {fuel : ℕ} (hfuel : i < fuel) :
    walk h .prev fuel it = some ((c.entries.take i).reverse.map seenEntry) := by
  induction fuel generalizing it i with
  | zero => omega
  | succ fuel ih =>
    have hon := hs.standsOn
    have hentry : (it.onMap c).entry = if i = 0 then none else c.entries[i - 1]? := by
      rw [MapIterator.entry, onMap, hpos]
      exact Pos.get_index_pred _ i
    rw [hentry] at hon
    cases i with
    | zero => exact walk_of_not_valid fuel hon
    | succ i =>
      rw [if_neg (Nat.succ_ne_zero i), Nat.add_sub_cancel, List.getElem?_eq_getElem hi] at hon
      have hprev : (it.step h .prev).2.pos = .index ((i : ℤ) - 1) := by
        show it.pos.prev = _
        rw [hpos]
        show Pos.index ((((i + 1 : ℕ) : ℤ) - 1) - 1) = _
        congr 1
        omega
      rw [walk_of_standsOn fuel hon, ih (hs.step_shows .prev) (by omega) hprev (by omega),
        List.take_succ_eq_append_getElem hi, List.reverse_append]
      rfl

/-! ## What the interface documents -/

/-- What `LevelDBIteratorI` says of the calls, and what two loops list. -/
structure IsOrderedCursor (h : Heap) (it : FakeLevelDBIterator) (c : Content) : Prop where
  seek_valid : ∀ d, (it.step h (.seek d)).2.valid = true ↔ ∃ e ∈ c.entries, h.bytesOf d ≤ e.1
  seek_least : ∀ d e, (it.step h (.seek d)).2.StandsOn h (some e) →
    e ∈ c.entries ∧ h.bytesOf d ≤ e.1 ∧ ∀ e' ∈ c.entries, h.bytesOf d ≤ e'.1 → e.1 ≤ e'.1
  next_valid : ∀ e, it.StandsOn h (some e) →
    ((it.step h .next).2.valid = true ↔ c.entries.getLast? ≠ some e)
  prev_valid : ∀ e, it.StandsOn h (some e) →
    ((it.step h .prev).2.valid = true ↔ c.entries.head? ≠ some e)
  ascending : ∀ d fuel, c.entries.length < fuel →
    walk h .next fuel (it.step h (.seek d)).2 =
      some ((c.entries.filter fun e => h.bytesOf d ≤ e.1).map seenEntry)
  descending : ∀ fuel, c.entries.length < fuel →
    walk h .prev fuel (it.step h .seekLast).2 = some (c.entries.reverse.map seenEntry)

/-- After an allowed call it is valid when the cursor stands on an entry. -/
lemma Shows.step_valid (hs : it.Shows h c) {m : IteratorCall Data}
    (hm : m = .next ∨ m = .prev → it.valid = true) :
    (it.step h m).2.valid = (cursorMove c.entries (it.onMap c).entry (m.resolve h)).isSome := by
  rw [(hs.step_shows m).valid, hs.step_entry hm]

lemma Shows.mem_of_standsOn (hs : it.Shows h c) {e : Bytes × Bytes}
    (hon : it.StandsOn h (some e)) : (it.onMap c).entry = some e ∧ e ∈ c.entries := by
  have he := hs.standsOn.eq hon
  obtain ⟨i, -, hi⟩ := Pos.get_eq_some.mp he
  exact ⟨he, List.mem_of_getElem? hi⟩

lemma Shows.isOrderedCursor (hs : it.Shows h c) : it.IsOrderedCursor h c where
  seek_valid := by
    intro d
    rw [hs.step_valid (by simp)]
    exact SortedMap.atOrPast_isSome
  seek_least := by
    intro d e hon
    obtain ⟨he, -⟩ := (hs.step_shows (.seek d)).mem_of_standsOn hon
    rw [hs.step_entry (by simp)] at he
    exact SortedMap.le_of_atOrPast c.ascending he
  next_valid := by
    intro e hon
    obtain ⟨he, hmem⟩ := hs.mem_of_standsOn hon
    rw [hs.step_valid fun _ => hon.1, he]
    exact SortedMap.after_isSome c.ascending hmem
  prev_valid := by
    intro e hon
    obtain ⟨he, hmem⟩ := hs.mem_of_standsOn hon
    rw [hs.step_valid fun _ => hon.1, he]
    exact SortedMap.before_isSome c.ascending hmem
  ascending := by
    intro d fuel hfuel
    rw [(hs.step_shows (.seek d)).walk_next (congrArg pos (hs.step (.seek d)).2) (by omega)]
    rw [← SortedMap.drop_lowerBound_eq_filter c.ascending]
    rfl
  descending := by
    intro fuel hfuel
    have hlast := congrArg pos (hs.step .seekLast).2
    rw [(hs.step_shows .seekLast).walk_prev le_rfl hlast hfuel, List.take_length]

end FakeLevelDBIterator

/-! ## Runs -/

/-- The application, and where the documented cursor stands that one of its iterators is to be
compared with. -/
structure CursorApp where
  app : FakeApp
  cursor : Option (Bytes × Bytes)

namespace CursorApp

/-- A call; those on iterator `i` move the cursor over the entries of `c`. -/
def step (c : Content) (i : ℕ) (r : CursorApp) (x : AppCall) : AppResult ℕ × CursorApp :=
  ((r.app.step x).1,
    { app := (r.app.step x).2
      cursor :=
        match x with
        | .iterator j m =>
          if j = i then cursorMove c.entries r.cursor (m.resolve r.app.db.heap) else r.cursor
        | .db _ | .newIterator => r.cursor })

/-- The store is not written, iterator `i` is not closed, and it is moved by one entry only
when it is valid. -/
def Documented (i : ℕ) (r : CursorApp) : AppCall → Prop
  | .db (.put _ _) | .db (.delete _) => False
  | .iterator j m => j = i → m ≠ .close ∧
      (m = .next ∨ m = .prev → ∀ it ∈ r.app.iterators[i]?, it.valid = true)
  | .db _ | .newIterator => True

/-- Iterator `i` shows the entries of `c`, and stands where the cursor does. -/
def Agrees (c : Content) (i : ℕ) (r : CursorApp) : Prop :=
  r.app.Wf ∧ ∃ it, r.app.iterators[i]? = some it ∧ it.Shows r.app.db.heap c ∧
    r.cursor = (it.onMap c).entry

variable {c : Content} {i : ℕ} {r : CursorApp} {x : AppCall}

/-- Without a `put` nothing is overwritten. -/
lemma Documented.view (hx : Documented i r x) (hr : r.app.Wf) {kv : List ℕ}
    (hkv : ∀ p ∈ kv, r.app.db.heap.HasPair p) :
    (r.app.step x).2.db.heap.view kv = r.app.db.heap.view kv := by
  obtain ⟨hgrow, -⟩ | ⟨q, v, hover, -⟩ := hr.heap_step x
  · exact hgrow.view hkv
  · obtain ⟨y, rfl, k, kv, rfl, -⟩ := hover
    exact absurd hx id

lemma Agrees.step (hr : Agrees c i r) (hx : Documented i r x) : Agrees c i (r.step c i x).2 := by
  obtain ⟨hwf, it, hit, hshows, hcursor⟩ := hr
  have hpairs : ∀ p ∈ it.kv, r.app.db.heap.HasPair p :=
    hwf.iterators it (List.mem_of_getElem? hit)
  have hview := hx.view hwf hpairs
  refine ⟨hwf.step x, ?_⟩
  by_cases hself : ∃ m, x = .iterator i m
  · obtain ⟨m, rfl⟩ := hself
    have hheap : (r.app.step (.iterator i m)).2.db = r.app.db := r.app.callIterator_db i m
    have hvalid : m = .next ∨ m = .prev → it.valid = true := fun hm => (hx rfl).2 hm it hit
    refine ⟨_, FakeApp.iterators_step_self hit m, ?_, ?_⟩
    · dsimp only [CursorApp.step]
      rw [hheap]
      exact hshows.step_shows m
    · rw [hshows.step_entry hvalid, ← hcursor]
      exact if_pos rfl
  · have hother : ∀ m, x ≠ .iterator i m := fun m hm => hself ⟨m, hm⟩
    refine ⟨it, FakeApp.iterators_step_of_ne hit hother, hview.trans hshows, ?_⟩
    rw [← hcursor]
    cases x with
    | db y | newIterator => rfl
    | iterator j m =>
      have hne : j ≠ i := by
        rintro rfl
        exact hother m rfl
      exact if_neg hne

end CursorApp

/-- Iterator `i` of the application, which has just been made, is an ordered cursor over the
entries of the store: after every run of documented calls it stands where the cursor does, and
from there the calls do what the interface says. -/
def FakeApp.BehavesAsCursor (s : FakeApp) (i : ℕ) : Prop :=
  ∃ (kv : List ℕ) (c : Content), s.db.kv = some kv ∧ s.db.heap.view kv = c.entries ∧
    ∀ ys, Machine.Along (CursorApp.step c i) (CursorApp.Documented i) ⟨s, none⟩ ys →
      let r := Machine.run (CursorApp.step c i) ⟨s, none⟩ ys
      ∃ it, r.app.iterators[i]? = some it ∧ it.StandsOn r.app.db.heap r.cursor ∧
        it.IsOrderedCursor r.app.db.heap c

lemma FakeApp.newIterator_eq_ok {s : FakeApp} {i : ℕ}
    (h : (s.step .newIterator).1 = .ok (.iterator i)) :
    ∃ kv, s.db.kv = some kv ∧ i = s.iterators.length ∧
      (s.step .newIterator).2 = { s with iterators := s.iterators ++ [⟨kv, .undefined⟩] } := by
  dsimp only [step, newIterator, FakeLevelDBIterator.new] at h ⊢
  cases hkv : s.db.kv with
  | none =>
    rw [hkv] at h
    cases h
  | some kv =>
    rw [hkv] at h
    cases h
    exact ⟨kv, rfl, rfl, rfl⟩

/-- **A `FakeLevelDBIterator` is an ordered cursor.** This holds of every iterator that
`newIterator` returns in a run of the application. -/
theorem fakeLevelDBIterator_behaves_as_cursor (h : Heap) (xs : List AppCall) (i : ℕ)
    (hnew : ((Machine.run FakeApp.step (.new h) xs).step .newIterator).1 = .ok (.iterator i)) :
    ((Machine.run FakeApp.step (.new h) xs).step .newIterator).2.BehavesAsCursor i := by
  have hwf := FakeApp.wf_run h xs
  have hwf' := hwf.step .newIterator
  obtain ⟨kv, hkv, rfl, hstep⟩ := FakeApp.newIterator_eq_ok hnew
  obtain ⟨c, hc⟩ := hwf.db kv hkv
  rw [hstep] at hwf' ⊢
  refine ⟨kv, c, hkv, hc.view, fun ys hys => ?_⟩
  have hinit : CursorApp.Agrees c _ ⟨_, none⟩ :=
    ⟨hwf', ⟨kv, .undefined⟩, List.getElem?_concat_length, hc.view, rfl⟩
  obtain ⟨-, it, hit, hshows, hcursor⟩ := Machine.inv_run_of_along
    (fun _ _ hr hx => hr.step hx) hinit hys
  refine ⟨it, hit, ?_, hshows.isOrderedCursor⟩
  rw [hcursor]
  exact hshows.standsOn

/-- Keys put out of order, one of them twice, and one deleted again. -/
def cursorCalls : List AppCall :=
  [.db (.put (.string [0x63]) (.string [0x33])), .db (.put (.string [0x61]) (.string [0x31])),
    .db (.put (.string [0x62]) (.string [0x32])), .db (.put (.string [0x61]) (.string [0x34])),
    .db (.delete (.string [0x62])), .db (.put (.string [0x61, 0x62]) (.string []))]

theorem behaves_as_cursor_cursorCalls :
    let s := Machine.run FakeApp.step (.new ⟨[], []⟩) cursorCalls
    (s.step .newIterator).1 = .ok (.iterator 0) ∧
      (s.step .newIterator).2.BehavesAsCursor 0 :=
  have hnew : ((Machine.run FakeApp.step (.new ⟨[], []⟩) cursorCalls).step .newIterator).1 =
      .ok (.iterator 0) := by
    decide +kernel
  ⟨hnew, fakeLevelDBIterator_behaves_as_cursor _ _ 0 hnew⟩

end RnLeveldb
