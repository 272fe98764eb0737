import RnLeveldb.Fake.App

/-!
# Use after close

On a device a closed iterator and a closed database throw whenever they are used. In `fake.ts`
a closed store throws except when it is closed once more; a closed iterator, whose position is
`undefined`, throws only when its entry is asked for. The other calls go through, and a `seek`
makes it usable again.
-/

namespace RnLeveldb

/-- The call ends with an exception. -/
def Throws (r : AppResult ℕ) : Prop := ∃ e, r = .error e

/-- The calls that ask for the entry. -/
def IteratorCall.Reads {δ : Type} : IteratorCall δ → Prop
  | .keyStr | .keyBuf | .valueStr | .valueBuf | .compareKey _ => True
  | .seekToFirst | .seekLast | .seek _ | .valid | .next | .prev | .close => False

/-- A call that does not ask for the entry returns. -/
lemma FakeLevelDBIterator.step_ok (h : Heap) (it : FakeLevelDBIterator) {m : IteratorCall Data}
    (hm : ¬ m.Reads) : ∃ v, (it.step h m).1 = .ok v := by
  cases m with
  | seekToFirst | seekLast | valid | next | prev | close => exact ⟨_, rfl⟩
  | seek d =>
    obtain ⟨r, -, hr⟩ := getIdx_le (it.kv.map h.key) (h.bytesOf d)
    rw [step, seek, hr]
    exact ⟨_, rfl⟩
  | keyStr | keyBuf | valueStr | valueBuf | compareKey => exact absurd trivial hm

/-- There is no entry at `undefined`. -/
lemma FakeLevelDBIterator.step_of_undefined (h : Heap) {it : FakeLevelDBIterator}
    (hpos : it.pos = .undefined) {m : IteratorCall Data} (hm : m.Reads) :
    it.step h m = (.error (.thrown .typeError), it) := by
  have hentry : it.pos.get it.kv = none := by
    rw [hpos]
    rfl
  have hof : ∀ {α : Type} (f : ℕ → Except FakeError α),
      it.ofEntry f = .error (.thrown .typeError) := by
    intro α f
    rw [ofEntry, hentry]
  cases m with
  | seekToFirst | seekLast | seek | valid | next | prev | close => exact absurd hm id
  | keyStr | keyBuf | valueStr | valueBuf => exact Prod.ext (hof _) rfl
  | compareKey d =>
    rw [step, compareKey, hof]
    rfl

namespace FakeApp

variable {s : FakeApp} {x : AppCall} {i : ℕ}

/-! ## Iterators -/

/-- A call on iterator `i` throws, and the iterator is not valid after the step. -/
def RefusesIterator (i : ℕ) (s : FakeApp) (x : AppCall) : Prop :=
  (∀ m, x = .iterator i m → Throws (s.step x).1) ∧
    ∀ it ∈ (s.step x).2.iterators[i]?, it.valid = false

/-- Iterator `i` is closed. -/
def ClosedIterator (i : ℕ) (s : FakeApp) : Prop :=
  ∃ it, s.iterators[i]? = some it ∧ it.pos = .undefined

lemma step_iterator {it : FakeLevelDBIterator} (hit : s.iterators[i]? = some it)
    (m : IteratorCall Data) : (s.step (.iterator i m)).1 = (it.step s.db.heap m).1 := by
  dsimp only [step, callIterator]
  rw [hit]

lemma not_valid_of_undefined {it : FakeLevelDBIterator} (hpos : it.pos = .undefined) :
    it.valid = false := by
  rw [FakeLevelDBIterator.valid, hpos]

lemma ClosedIterator.step (hs : s.ClosedIterator i) (hx : ∀ m, x = .iterator i m → m.Reads) :
    (s.step x).2.ClosedIterator i := by
  obtain ⟨it, hit, hpos⟩ := hs
  by_cases hself : ∃ m, x = .iterator i m
  · obtain ⟨m, rfl⟩ := hself
    refine ⟨_, iterators_step_self hit m, ?_⟩
    rw [FakeLevelDBIterator.step_of_undefined _ hpos (hx m rfl)]
    exact hpos
  · exact ⟨it, iterators_step_of_ne hit fun m hm => hself ⟨m, hm⟩, hpos⟩

/-- A closed iterator refuses exactly the calls that ask for its entry. -/
lemma ClosedIterator.refuses_iff (hs : s.ClosedIterator i) :
    RefusesIterator i s x ↔ ∀ m, x = .iterator i m → m.Reads := by
  constructor
  · intro hrefuse m hm
    obtain ⟨it, hit, -⟩ := hs
    by_contra hreads
    obtain ⟨v, hv⟩ := it.step_ok s.db.heap hreads
    obtain ⟨e, he⟩ := hrefuse.1 m hm
    rw [hm, step_iterator hit, hv] at he
    cases he
  · intro hx
    refine ⟨fun m hm => ?_, fun it' hit' => ?_⟩
    · obtain ⟨it, hit, hpos⟩ := hs
      rw [hm, step_iterator hit, FakeLevelDBIterator.step_of_undefined _ hpos (hx m hm)]
      exact ⟨_, rfl⟩
    · obtain ⟨it, hit, hpos⟩ := hs.step hx
      rw [Option.mem_def, hit] at hit'
      cases hit'
      exact not_valid_of_undefined hpos

/-! ## The store -/

/-- The calls of a store that must be open. -/
def NeedsOpen : AppCall → Prop
  | .db (.put _ _) | .db (.delete _) | .db (.getStr _) | .db (.getBuf _) | .db .close
  | .newIterator => True
  | .db (.newBuffer _) | .db .closed | .iterator _ _ => False

def RefusesStore (s : FakeApp) (x : AppCall) : Prop := NeedsOpen x → Throws (s.step x).1

lemma closed_step (hs : s.db.kv = none) (x : AppCall) : (s.step x).2.db.kv = none :=
  of_db_step (P := fun db => db.kv = none) hs (fun y => FakeLevelDB.step_kv_of_closed y hs) x

lemma throws_of_closed (hs : s.db.kv = none) {y : FakeCall} (hy : FakeLevelDB.IsData y) :
    Throws (s.step (.db y)).1 := by
  obtain ⟨e, he⟩ := FakeLevelDB.step_of_closed hs hy
  dsimp only [step]
  rw [he]
  exact ⟨_, rfl⟩

/-- A closed store refuses everything but `close`. -/
lemma closed_refuses_iff (hs : s.db.kv = none) : s.RefusesStore x ↔ x ≠ .db .close := by
  constructor
  · rintro hrefuse rfl
    obtain ⟨e, he⟩ := hrefuse trivial
    cases he
  · intro hx hneeds
    cases x with
    | db y =>
      cases y with
      | put | delete | getStr | getBuf => exact throws_of_closed hs trivial
      | close => exact absurd rfl hx
      | newBuffer | closed => exact absurd hneeds id
    | newIterator =>
      dsimp only [step, newIterator, FakeLevelDBIterator.new]
      rw [hs]
      exact ⟨_, rfl⟩
    | iterator => exact absurd hneeds id

/-! ## Runs after `close` -/

/-- **Which uses after `close` the fake refuses.** After an iterator has been closed, every call
on it throws and it never becomes valid again if and only if its entry is all it is asked for;
after the store has been closed, every call that needs it open throws if and only if `close` is
not among them. -/
theorem fake_refuses_after_close_iff (s : FakeApp) (ys : List AppCall) :
    (∀ i it, s.iterators[i]? = some it →
      (Machine.Along step (RefusesIterator i) (s.step (.iterator i .close)).2 ys ↔
        ∀ m, AppCall.iterator i m ∈ ys → m.Reads)) ∧
    (Machine.Along step RefusesStore (s.step (.db .close)).2 ys ↔ AppCall.db .close ∉ ys) := by
  constructor
  · intro i it hit
    have hclosed : (s.step (.iterator i .close)).2.ClosedIterator i :=
      ⟨_, iterators_step_self hit .close, rfl⟩
    rw [Machine.along_congr_of_inv (I := ClosedIterator i)
      (P := fun _ x => ∀ m, x = .iterator i m → m.Reads) (fun s x hs hx => hs.step hx)
      (fun s x hs => hs.refuses_iff) hclosed, Machine.along_iff_forall]
    constructor
    · intro h m hm
      exact h _ hm m rfl
    · rintro h x hx m rfl
      exact h m hx
  · rw [Machine.along_congr_of_inv (I := fun s => s.db.kv = none)
      (P := fun _ x => x ≠ .db .close) (fun s x hs _ => closed_step hs x)
      (fun s x hs => closed_refuses_iff hs) rfl, Machine.along_iff_forall]
    exact ⟨fun h hmem => h _ hmem rfl, fun h x hx heq => h (heq ▸ hx)⟩

/-- A store with an entry, and an iterator on it. -/
def closingApp : FakeApp :=
  Machine.run step (.new ⟨[], []⟩) [.db (.put (.string [0x6B]) (.string [0x76])), .newIterator]

/-- What is asked of `closingApp` after a `close`: entries of the iterator, and an access. -/
def laterCalls : List AppCall :=
  [.iterator 0 .keyStr, .db (.getStr (.string [0x6B])), .newIterator,
    .iterator 0 (.compareKey (.string [0x6B]))]

theorem closed_refuses_laterCalls :
    Machine.Along step (RefusesIterator 0) (closingApp.step (.iterator 0 .close)).2 laterCalls ∧
      Machine.Along step RefusesStore (closingApp.step (.db .close)).2 laterCalls := by
  have hit : closingApp.iterators[0]? = some ⟨[0], .undefined⟩ := by decide +kernel
  obtain ⟨hiterator, hstore⟩ := fake_refuses_after_close_iff closingApp laterCalls
  constructor
  · refine (hiterator 0 _ hit).2 fun m hm => ?_
    simp only [laterCalls, List.mem_cons, AppCall.iterator.injEq, true_and, reduceCtorEq,
      List.not_mem_nil, or_false, false_or] at hm
    obtain rfl | rfl := hm <;> trivial
  · refine hstore.2 ?_
    simp [laterCalls]

/-- A closed iterator can be sent to the first entry, where it is valid; and a closed store can
be closed again. -/
theorem closed_iterator_seeks :
    ¬ Machine.Along step (RefusesIterator 0) (closingApp.step (.iterator 0 .close)).2
        [.iterator 0 .seekToFirst] ∧
      ¬ Machine.Along step RefusesStore (closingApp.step (.db .close)).2 [.db .close] := by
  constructor
  · rintro ⟨⟨-, hvalid⟩, -⟩
    have hseek : ((closingApp.step (.iterator 0 .close)).2.step
        (.iterator 0 .seekToFirst)).2.iterators[0]? = some ⟨[0], .index 0⟩ := by decide +kernel
    exact absurd (hvalid _ hseek) (by decide)
  · rintro ⟨hthrows, -⟩
    obtain ⟨e, he⟩ := hthrows trivial
    cases he

end FakeApp

end RnLeveldb
