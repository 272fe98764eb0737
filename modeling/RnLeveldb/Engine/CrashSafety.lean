import RnLeveldb.Engine.Recovery

/-!
# After a crash

What `DBImpl::Write` has put into the logs is what `DBImpl::Recover` finds in them, as far as it
has reached the disk. A crash leaves a prefix of each log.
-/

namespace RnLeveldb

namespace Engine

open Versions

/-! ## The records of the logs -/

/-- A record of a log and the writers it is for. -/
structure Entry where
  writers : List Writer
  record : Bytes

def Entry.ops (e : Entry) : List BatchOp := opsOf e.writers

/-- The writers whose records are in the logs, the newest log first. -/
def writersOf (chain : List (List Entry)) : List Writer :=
  chain.reverse.flatten.flatMap Entry.writers

lemma writersOf_cons (entries : List Entry) (rest : List (List Entry)) :
    writersOf (entries :: rest) = writersOf rest ++ entries.flatMap Entry.writers := by
  rw [writersOf, writersOf, List.reverse_cons, List.flatten_append, List.flatten_singleton,
    List.flatMap_append]

lemma writersOf_append (entries : List Entry) (e : Entry) (rest : List (List Entry)) :
    writersOf ((entries ++ [e]) :: rest) = writersOf (entries :: rest) ++ e.writers := by
  rw [writersOf_cons, writersOf_cons, List.flatMap_append, List.flatMap_singleton,
    List.append_assoc]

lemma flatten_map_ops (entries : List Entry) :
    (entries.map Entry.ops).flatten = opsOf (entries.flatMap Entry.writers) := by
  induction entries with
  | nil => rfl
  | cons e entries ih =>
    rw [List.map_cons, List.flatten_cons, ih, List.flatMap_cons, opsOf_append, Entry.ops]

/-- The logs of some generations have these records, which are numbered without gaps. -/
inductive LogChain : List Generation → List (List Entry) → Prop
  | nil : LogChain [] []
  | cons {g : Generation} {gs : List Generation} {entries : List Entry} {rest : List (List Entry)}
    (hlog : Log.addRecords 0 (entries.map Entry.record) = (g.log, g.blockOffset))
    (hlogged : Logged ((opsOf (writersOf rest)).length + 1) (entries.map Entry.ops)
      (entries.map Entry.record))
    (hrest : LogChain gs rest) : LogChain (g :: gs) (entries :: rest)

lemma Logged.append {n : ℕ} {groups : List (List BatchOp)} {records : List Bytes}
    (h : Logged n groups records) {ops : List BatchOp} {b : WriteBatch}
    (hb : b.Holds (n + groups.flatten.length) ops) (hfits : ∀ op ∈ ops, FitsEntry op)
    (hshort : ops.length < 2 ^ 31) : Logged n (groups ++ [ops]) (records ++ [b.rep]) := by
  induction h with
  | nil n => exact .cons b hb hfits hshort (.nil _)
  | @cons n ops' groups records b' hb' hfits' hshort' hrest ih =>
    apply Logged.cons b' hb' hfits' hshort'
    apply ih
    rw [List.flatten_cons, List.length_append, ← Nat.add_assoc] at hb
    exact hb

/-- A record is added to the newest log. -/
lemma LogChain.append {g : Generation} {gs : List Generation} {entries : List Entry}
    {rest : List (List Entry)} (h : LogChain (g :: gs) (entries :: rest)) {b : WriteBatch}
    {ws : List Writer} (hb : b.Holds ((opsOf (writersOf (entries :: rest))).length + 1) (opsOf ws))
    (hfits : ∀ op ∈ opsOf ws, FitsEntry op) (hshort : (opsOf ws).length < 2 ^ 31)
    (mem : List Bytes) :
    LogChain (⟨g.log ++ (Log.addRecord g.blockOffset b.rep).1,
      (Log.addRecord g.blockOffset b.rep).2, mem⟩ :: gs) ((entries ++ [⟨ws, b.rep⟩]) :: rest) := by
  cases h with
  | cons hlog hlogged hrest =>
    refine .cons ?_ ?_ hrest
    · rw [List.map_append, Log.addRecords_append, hlog, List.map_singleton, Log.addRecords,
        Log.addRecords, List.append_nil]
    · rw [List.map_append, List.map_append]
      apply hlogged.append _ hfits hshort
      rw [flatten_map_ops]
      rw [writersOf_cons, opsOf_append, List.length_append] at hb
      rw [Nat.add_right_comm]
      exact hb

/-- What becomes of the records later: there are more of them, and newer logs. -/
inductive Grown : List (List Entry) → List (List Entry) → Prop
  | here (entries more : List Entry) (rest : List (List Entry)) :
    Grown (entries :: rest) ((entries ++ more) :: rest)
  | newer {earlier chain : List (List Entry)} (entries : List Entry) (h : Grown earlier chain) :
    Grown earlier (entries :: chain)

lemma Grown.refl (entries : List Entry) (rest : List (List Entry)) :
    Grown (entries :: rest) (entries :: rest) := by
  have hhere := Grown.here entries [] rest
  rw [List.append_nil] at hhere
  exact hhere

lemma Grown.log {earlier rest : List (List Entry)} {entries : List Entry}
    (h : Grown earlier (entries :: rest)) (e : Entry) :
    Grown earlier ((entries ++ [e]) :: rest) := by
  cases h with
  | here entries more rest =>
    rw [List.append_assoc]
    exact .here entries _ rest
  | newer _ h => exact .newer _ h

lemma Grown.length_le {earlier chain : List (List Entry)} (h : Grown earlier chain) :
    earlier.length ≤ chain.length := by
  induction h with
  | here => exact le_refl _
  | newer _ _ ih => exact Nat.le_succ_of_le ih

lemma LogChain.length_eq {gs : List Generation} {chain : List (List Entry)}
    (h : LogChain gs chain) :
    gs.length = chain.length := by
  induction h with
  | nil => rfl
  | cons _ _ _ ih => rw [List.length_cons, List.length_cons, ih]

/-! ## The invariant of the logs -/

/-- The writers of a group that will succeed, as its record is in the log. -/
def Phase.pending (writers : List Writer) : Phase → List Writer
  | .inserting _ _ => writers
  | _ => []

/-- The writers of a group whose record may be in the log. -/
def Phase.atWork (writers : List Writer) : Phase → List Writer
  | .logging => []
  | _ => writers

def DbState.pending (s : DbState) : List Writer :=
  s.group.elim [] fun g => g.phase.pending (s.queue.take g.writers)

def DbState.atWork (s : DbState) : List Writer :=
  s.group.elim [] fun g => g.phase.atWork (s.queue.take g.writers)

lemma DbState.pending_of_group {s : DbState} {g : Group} (h : s.group = some g) :
    s.pending = g.phase.pending (s.queue.take g.writers) := by
  rw [DbState.pending, h, Option.elim_some]

lemma DbState.atWork_of_group {s : DbState} {g : Group} (h : s.group = some g) :
    s.atWork = g.phase.atWork (s.queue.take g.writers) := by
  rw [DbState.atWork, h, Option.elim_some]

lemma DbState.pending_of_none {s : DbState} (h : s.group = none) : s.pending = [] := by
  rw [DbState.pending, h, Option.elim_none]

lemma DbState.atWork_of_none {s : DbState} (h : s.group = none) : s.atWork = [] := by
  rw [DbState.atWork, h, Option.elim_none]

/-- The records in the logs are those that were acknowledged, then those of the group in progress.
After a failed sync there may be more of them, but no more is written then. -/
structure LogInv (s : DbState) (chain : List (List Entry)) : Prop where
  logs : LogChain (s.active :: s.older) chain
  ops : ∃ lost, opsOf (writersOf chain) = s.acknowledged ++ opsOf s.pending ++ lost ∧
    (s.bgError = none → lost = [])
  last : s.bgError = none →
    s.lastSequence + (opsOf s.pending).length = (opsOf (writersOf chain)).length
  sublist : (writersOf chain).Sublist (s.results.map Prod.fst ++ s.atWork)
  failed : ∀ g ∈ s.group, (∃ f, g.phase = .failed f) ↔ s.bgError ≠ none

section

variable {submitted : List Writer} {s s' : DbState} {gens : List (List (Version Bytes Bytes))}
  {done : List BatchOp} {chain : List (List Entry)}

lemma logInv_new : LogInv .new [[]] where
  logs := .cons rfl (.nil _) .nil
  ops := ⟨[], rfl, fun _ => rfl⟩
  last := fun _ => rfl
  sublist := List.Sublist.refl _
  failed := by simp [DbState.new]

/-- A step that leaves the logs and the results alone. -/
lemma LogInv.regroup (h : LogInv s chain) (hlog : s'.active.log = s.active.log)
    (hoffset : s'.active.blockOffset = s.active.blockOffset) (holder : s'.older = s.older)
    (hresults : s'.results = s.results) (hlast : s'.lastSequence = s.lastSequence)
    (hbg : s'.bgError = s.bgError) (hpending : s'.pending = s.pending)
    (hwork : s'.atWork = s.atWork)
    (hfailed : ∀ g ∈ s'.group, (∃ f, g.phase = .failed f) ↔ s'.bgError ≠ none) :
    LogInv s' chain where
  logs := by
    cases h.logs with
    | cons hrecords hlogged hrest =>
      rw [holder]
      exact .cons (by rw [hrecords, hlog, hoffset]) hlogged hrest
  ops := by
    rw [hpending, hbg, DbState.acknowledged, hresults]
    exact h.ops
  last := by
    rw [hpending, hbg, hlast]
    exact h.last
  sublist := by
    rw [hwork, hresults]
    exact h.sublist
  failed := hfailed

lemma LogInv.submit (h : LogInv s chain) (hinv : Inv submitted s gens done) (w : Writer) :
    LogInv { s with queue := s.queue ++ [w] } chain := by
  have htake : ∀ g ∈ s.group, (s.queue ++ [w]).take g.writers = s.queue.take g.writers :=
    fun g hg => List.take_append_of_le_length (hinv.group g hg).writers
  apply h.regroup <;> try rfl
  · show (s.group.elim [] fun g => g.phase.pending ((s.queue ++ [w]).take g.writers)) = s.pending
    cases hg : s.group with
    | none => rw [DbState.pending_of_none hg, Option.elim_none]
    | some g => rw [DbState.pending_of_group hg, Option.elim_some, htake g hg]
  · show (s.group.elim [] fun g => g.phase.atWork ((s.queue ++ [w]).take g.writers)) = s.atWork
    cases hg : s.group with
    | none => rw [DbState.atWork_of_none hg, Option.elim_none]
    | some g => rw [DbState.atWork_of_group hg, Option.elim_some, htake g hg]
  · exact h.failed

lemma LogInv.switch (h : LogInv s chain) :
    LogInv { s with active := .new, older := s.active :: s.older } ([] :: chain) := by
  have hwriters : writersOf ([] :: chain) = writersOf chain := by
    rw [writersOf_cons, List.flatMap_nil, List.append_nil]
  refine ⟨.cons rfl (.nil _) h.logs, ?_, ?_, ?_, h.failed⟩
  · rw [hwriters]
    exact h.ops
  · rw [hwriters]
    exact h.last
  · rw [hwriters]
    exact h.sublist

/-- Writers leave the queue. -/
lemma LogInv.complete (h : LogInv s chain) (n count : ℕ) (status : Status)
    (hops : opsOf s.pending = if status = .ok then opsOf (s.queue.take n) else [])
    (hcount : s.bgError = none → count = (opsOf s.pending).length)
    (hwork : s.atWork.Sublist (s.queue.take n)) :
    LogInv { s.complete n status with lastSequence := s.lastSequence + count } chain := by
  obtain ⟨lost, hchain, hlost⟩ := h.ops
  refine ⟨h.logs, ⟨lost, ?_, hlost⟩, fun hbg => ?_, ?_, ?_⟩
  · show _ = (s.complete n status).acknowledged ++ opsOf [] ++ lost
    rw [hchain, DbState.acknowledged_complete, opsOf_nil, List.append_nil, hops]
  · rw [← h.last hbg, ← hcount hbg]
    rfl
  · have hresults : (s.complete n status).results.map Prod.fst =
        s.results.map Prod.fst ++ s.queue.take n := by
      simp [DbState.complete, Function.comp_def]
    show (writersOf chain).Sublist ((s.complete n status).results.map Prod.fst ++ [])
    rw [hresults, List.append_nil]
    exact h.sublist.trans ((List.Sublist.refl _).append hwork)
  · intro g hg
    cases hg

lemma LogInv.start (h : LogInv s chain) (hnone : s.group = none) {w : Writer} {rest : List Writer}
    (hqueue : s.queue = w :: rest) (room : Option Failure) :
    LogInv (s.start w rest room) chain := by
  have hpending := DbState.pending_of_none hnone
  have hidle := DbState.atWork_of_none hnone
  have hwork : s.atWork.Sublist (s.queue.take 1) := by
    rw [hidle]
    exact List.nil_sublist _
  have hzero : s.bgError = none → 0 = (opsOf s.pending).length := by
    rw [hpending]
    exact fun _ => rfl
  unfold DbState.start
  split
  · next f _ => exact h.complete 1 0 (.fail f) (by rw [hpending]; rfl) hzero hwork
  next hok =>
  split
  · next hbatch =>
    have hops : opsOf (s.queue.take 1) = [] := by
      rw [hqueue]
      simp [Writer.ops, hbatch]
    exact h.complete 1 0 .ok (by rw [hpending, hops]; rfl) hzero hwork
  · have hbg : s.bgError = none := (Option.or_eq_none_iff.mp hok).1
    apply h.regroup <;> try rfl
    · rw [hpending]
      rfl
    · rw [hidle]
      rfl
    · intro g hg
      cases hg
      simp [hbg]

/-- The record of a group is added to the log. Then the batch is inserted, or its sync has
failed. -/
lemma LogInv.append (h : LogInv s chain) (hinv : Inv submitted s gens done) {g : Group}
    (hgroup : s.group = some g) (hphase : g.phase = .logging) {phase : Phase}
    {bgError : Option Failure}
    (hnext : (∃ seq ops, phase = .inserting seq ops) ∧ bgError = none ∨
      (∃ f, phase = .failed f) ∧ bgError ≠ none) :
    ∃ entries rest e, chain = entries :: rest ∧
      LogInv
        { s with
          active := ⟨s.active.log ++ (Log.addRecord s.active.blockOffset g.batch.rep).1,
            (Log.addRecord s.active.blockOffset g.batch.rep).2, s.active.mem⟩
          group := some { g with phase := phase }
          bgError := bgError } ((entries ++ [e]) :: rest) := by
  have hg := hinv.group g hgroup
  have hbg : s.bgError = none := by
    by_contra hbg
    obtain ⟨f, hf⟩ := (h.failed g hgroup).mpr hbg
    rw [hphase] at hf
    cases hf
  have hpending : s.pending = [] := by
    rw [DbState.pending_of_group hgroup, hphase]
    rfl
  have hidle : s.atWork = [] := by rw [DbState.atWork_of_group hgroup, hphase, Phase.atWork]
  have hlast := h.last hbg
  have hsub := h.sublist
  obtain ⟨lost, hops, hlost⟩ := h.ops
  rw [hlost hbg, hpending, opsOf_nil, List.append_nil, List.append_nil] at hops
  rw [hpending, opsOf_nil, List.length_nil, Nat.add_zero] at hlast
  rw [hidle, List.append_nil] at hsub
  have hlogs := h.logs
  cases chain with
  | nil => cases hlogs
  | cons entries rest =>
    have hfits : ∀ op ∈ opsOf (s.queue.take g.writers), FitsEntry op := by
      intro op hop
      apply hinv.fits_queue
      rw [← opsOf_take_append_drop g.writers]
      exact List.mem_append_left _ hop
    have hholds := hg.holds
    rw [hlast] at hholds
    refine ⟨entries, rest, ⟨s.queue.take g.writers, g.batch.rep⟩, rfl, ?_⟩
    refine ⟨hlogs.append hholds hfits (lt_trans hg.short (by decide)) _, ?_, ?_, ?_, ?_⟩
    · rw [writersOf_append, opsOf_append, hops]
      rcases hnext with ⟨⟨seq, ops, rfl⟩, hbg'⟩ | ⟨⟨f, rfl⟩, hbg'⟩
      · refine ⟨[], ?_, fun _ => rfl⟩
        rw [List.append_nil]
        rfl
      · refine ⟨opsOf (s.queue.take g.writers), ?_, fun hnone => absurd hnone hbg'⟩
        show _ = s.acknowledged ++ opsOf [] ++ _
        rw [opsOf_nil, List.append_nil]
    · intro hbg'
      rw [writersOf_append, opsOf_append, List.length_append, ← hlast]
      rcases hnext with ⟨⟨seq, ops, rfl⟩, -⟩ | ⟨-, hne⟩
      · rfl
      · exact absurd hbg' hne
    · rw [writersOf_append]
      have hwork : phase.atWork (s.queue.take g.writers) = s.queue.take g.writers := by
        rcases hnext with ⟨⟨seq, ops, rfl⟩, -⟩ | ⟨⟨f, rfl⟩, -⟩ <;> rfl
      show List.Sublist _ (s.results.map Prod.fst ++ phase.atWork (s.queue.take g.writers))
      rw [hwork]
      exact hsub.append (List.Sublist.refl _)
    · intro g' hg'
      cases hg'
      rcases hnext with ⟨⟨seq, ops, rfl⟩, rfl⟩ | ⟨hfailed, hbg'⟩
      · simp
      · exact ⟨fun _ => hbg', fun _ => hfailed⟩

/-- What a step does to the logs, if no append fails. -/
lemma LogInv.step (h : LogInv s chain) (hinv : Inv submitted s gens done) {e : Event}
    (happend : ∀ f written blockOffset, e ≠ .logged (.failed f written blockOffset)) :
    ∃ chain', LogInv (s.step e) chain' ∧ ∀ earlier, Grown earlier chain → Grown earlier chain' := by
  have hstutter : ∃ chain', LogInv s chain' ∧
      ∀ earlier, Grown earlier chain → Grown earlier chain' := ⟨chain, h, fun _ => id⟩
  cases e with
  | submit w => exact ⟨chain, h.submit hinv w, fun _ => id⟩
  | switch =>
    unfold DbState.step
    dsimp only
    split
    · exact ⟨[] :: chain, h.switch, fun _ => .newer []⟩
    · exact hstutter
  | start room =>
    unfold DbState.step
    dsimp only
    split
    · next w rest hnone hqueue => exact ⟨chain, h.start hnone hqueue room, fun _ => id⟩
    · exact hstutter
  | logged outcome =>
    unfold DbState.step
    dsimp only
    split
    · next batch writers sync hgroup =>
      have hbg : s.bgError = none := by
        by_contra hbg
        obtain ⟨f, hf⟩ := (h.failed _ hgroup).mpr hbg
        cases hf
      cases outcome with
      | ok =>
        obtain ⟨entries, rest, e, rfl, hnext⟩ := h.append hinv hgroup rfl
          (Or.inl ⟨⟨batch.sequence, batch.iterate.1, rfl⟩, hbg⟩)
        exact ⟨_, hnext, fun _ hgrown => hgrown.log e⟩
      | failed f written blockOffset => exact absurd rfl (happend f written blockOffset)
      | syncFailed f =>
        unfold DbState.logged
        dsimp only
        split
        · obtain ⟨entries, rest, e, rfl, hnext⟩ := h.append hinv hgroup rfl
            (Or.inr ⟨⟨f, rfl⟩, (by simp : s.bgError.or (some f) ≠ none)⟩)
          exact ⟨_, hnext, fun _ hgrown => hgrown.log e⟩
        · exact hstutter
    · exact hstutter
  | insert =>
    unfold DbState.step
    dsimp only
    split
    · next batch writers sync seq op ops hgroup =>
      refine ⟨chain, ?_, fun _ => id⟩
      apply h.regroup <;> try rfl
      · rw [DbState.pending_of_group hgroup]
        rfl
      · rw [DbState.atWork_of_group hgroup]
        rfl
      · intro g hg
        cases hg
        have hfailed := h.failed _ hgroup
        simpa using hfailed
    · exact hstutter
  | finish =>
    unfold DbState.step
    dsimp only
    split
    · next batch writers sync seq hgroup =>
      have hiter := (hinv.group _ hgroup).iterate_eq hinv
      have hcount := (hinv.group _ hgroup).count_eq
      dsimp only at hiter hcount
      refine ⟨chain, h.complete writers batch.count _ ?_ (fun _ => ?_) ?_, fun _ => id⟩
      · rw [DbState.pending_of_group hgroup, hiter]
        rfl
      · rw [hcount, DbState.pending_of_group hgroup]
        rfl
      · rw [DbState.atWork_of_group hgroup]
        exact List.Sublist.refl _
    · next batch writers sync f hgroup =>
      refine ⟨chain, h.complete writers batch.count _ ?_ (fun hbg => ?_) ?_, fun _ => id⟩
      · rw [DbState.pending_of_group hgroup]
        rfl
      · exact absurd hbg ((h.failed _ hgroup).mp ⟨f, rfl⟩)
      · rw [DbState.atWork_of_group hgroup]
        exact List.Sublist.refl _
    · exact hstutter

/-- What a run does to the logs. -/
lemma logInv_run (h : LogInv s chain) (hinv : Inv submitted s gens done) {events : List Event}
    (hevents : ∀ w ∈ submittedIn events, w.WellFormed)
    (hmax : (opsOf (submitted ++ submittedIn events)).length ≤ kMaxSequenceNumber)
    (happend : ∀ f written blockOffset, .logged (.failed f written blockOffset) ∉ events) :
    ∃ chain', LogInv (s.run events) chain' ∧
      ∀ earlier, Grown earlier chain → Grown earlier chain' := by
  induction events generalizing submitted s gens done chain with
  | nil => exact ⟨chain, h, fun _ => id⟩
  | cons e events ih =>
    have hcons : submittedIn (e :: events) = e.submitted ++ submittedIn events := List.flatMap_cons
    rw [hcons] at hevents hmax
    rw [← List.append_assoc] at hmax
    have hshort : (opsOf submitted).length ≤ kMaxSequenceNumber := by
      rw [opsOf_append, opsOf_append, List.length_append, List.length_append] at hmax
      omega
    obtain ⟨chain', hnext, hgrown⟩ := h.step hinv (e := e) fun f written blockOffset he =>
      happend f written blockOffset (by rw [he]; exact List.mem_cons_self)
    obtain ⟨gens', done', hinv', -, -⟩ :=
      hinv.step e (fun w hw => hevents w (List.mem_append_left _ hw)) hshort
    obtain ⟨chain'', hlast, hgrown'⟩ := ih hnext hinv'
      (fun w hw => hevents w (List.mem_append_right _ hw)) hmax
      fun f written blockOffset he => happend f written blockOffset (List.mem_cons_of_mem _ he)
    exact ⟨chain'', hlast, fun earlier he => hgrown' earlier (hgrown earlier he)⟩

end

/-! ## Recovery -/

/-- More records make a longer log. -/
lemma length_addRecords_take_le (off : ℕ) (records : List Bytes) (n : ℕ) :
    (Log.addRecords off (records.take n)).1.length ≤ (Log.addRecords off records).1.length := by
  conv_rhs => rw [← List.take_append_drop n records, Log.addRecords_append]
  simp

/-- What is recovered of the logs. `files` is what is left of them, the newest first. Of each file
come the writers whose records are in it as a whole. -/
lemma LogChain.recover {o : RecoveryOptions} (hread : ∀ i, o.readFault i = none)
    (htable : ∀ t, o.tableFault t = none) {gs : List Generation} {chain : List (List Entry)}
    (h : LogChain gs chain) (hmax : (opsOf (writersOf chain)).length ≤ kMaxSequenceNumber)
    {files : List Bytes} (hfiles : List.Forall₂ (fun file g => file <+: g.log) files gs) :
    ∃ parts kept, Recovered (Recovery.new.recoverLogFiles o files.reverse) parts ∧
      opsOfParts parts = opsOf kept ∧
      (Recovery.new.recoverLogFiles o files.reverse).maxSequence ≤
        (opsOf (writersOf chain)).length ∧
      kept.Sublist (writersOf chain) ∧
      ∀ {gs₀ earlier files₀}, LogChain gs₀ earlier → Grown earlier chain → files₀ <:+ files →
        List.Forall₂ (fun g file => g.log <+: file) gs₀ files₀ → writersOf earlier <+: kept := by
  induction h generalizing files with
  | nil =>
    cases hfiles
    refine ⟨[], [], ⟨rfl, rfl, by simp [UpTo], by simp [opsOfParts]⟩, rfl, Nat.zero_le _,
      List.Sublist.refl _, ?_⟩
    intro gs₀ earlier files₀ _ hgrown
    cases hgrown
  | @cons g gs entries rest hlog hlogged hrest ih =>
    cases hfiles with
    | @cons file _ files _ hfile hfiles =>
      rw [writersOf_cons, opsOf_append, List.length_append] at hmax
      obtain ⟨parts, kept, hrec, hparts, hlast, hsub, hdurable⟩ := ih (by omega) hfiles
      have hall := flatten_map_ops entries
      have hprefix : file <+: (Log.addRecords 0 (entries.map Entry.record)).1 := by
        rw [hlog]
        exact hfile
      obtain ⟨m, hm, parts', hrec', hparts', hlast', hmaximal⟩ := hrec.recoverLogFile hread htable
        hlogged (by omega) (by rw [hall]; omega) hprefix
      rw [← List.map_take, flatten_map_ops] at hparts' hlast'
      have htake := congrArg List.length (opsOf_append ((entries.take m).flatMap Entry.writers)
        ((entries.drop m).flatMap Entry.writers))
      rw [← List.flatMap_append, List.take_append_drop, List.length_append] at htake
      rw [List.reverse_cons, recoverLogFiles_append hrec.status]
      refine ⟨parts', kept ++ (entries.take m).flatMap Entry.writers, hrec', ?_, ?_, ?_, ?_⟩
      · rw [hparts', hparts, opsOf_append]
      · rw [writersOf_cons, opsOf_append, List.length_append]
        omega
      · rw [writersOf_cons]
        exact hsub.append ((List.take_sublist m entries).flatMap Entry.writers)
      · intro gs₀ earlier files₀ hchain hgrown hsuffix hforall
        have hlen := hforall.length_eq
        have hlen' := hfiles.length_eq
        rw [hchain.length_eq] at hlen
        rw [hrest.length_eq] at hlen'
        cases hgrown with
        | newer _ hgrown =>
          have hle := hgrown.length_le
          rcases List.suffix_cons_iff.mp hsuffix with rfl | hsuffix
          · rw [List.length_cons] at hlen
            omega
          · exact (hdurable hchain hgrown hsuffix hforall).trans (List.prefix_append _ _)
        | here entries more rest =>
          have heq : files₀ = file :: files := by
            apply hsuffix.eq_of_length
            rw [← hlen, List.length_cons, List.length_cons, hlen']
          subst heq
          cases hchain with
          | @cons g₀ gs₀ _ _ hlog₀ hlogged₀ hrest₀ =>
            obtain ⟨hfile₀, hforall⟩ := List.forall₂_cons.mp hforall
            -- the older logs are all there
            have hkept : kept = writersOf rest := by
              apply hsub.eq_of_length_le
              cases rest with
              | nil => exact Nat.zero_le _
              | cons first rest =>
                exact (hdurable hrest₀ (.refl first rest) (List.suffix_refl _) hforall).length_le
            -- and so are the records that were in this one
            have hm : entries.length ≤ m := by
              by_contra hlt
              have hshort := hmaximal (by rw [List.length_map, List.length_append]; omega)
              have hfile := hfile₀.length_le
              have hle := length_addRecords_take_le 0 (entries.map Entry.record) (m + 1)
              rw [List.map_append, List.take_append_of_le_length (by rw [List.length_map]; omega)]
                at hshort
              rw [hlog₀] at hle
              dsimp only at hle
              omega
            rw [hkept, writersOf_cons, List.prefix_append_right_inj, List.take_append,
              List.take_of_length_le hm, List.flatMap_append]
            exact List.prefix_append _ _

/-- The logs of a state, the oldest first. -/
def DbState.logs (s : DbState) : List Bytes := ((s.active :: s.older).map Generation.log).reverse

/-- **Crash safety.** If a run is cut off anywhere and of each log a prefix is left, the database
can be opened again, and it has the writes of some of the writers, whole and in their order. What
was acknowledged at a point of the run is among them if the files still have what was in the logs
at that point. -/
theorem crash_recovery (o : RecoveryOptions) (hread : ∀ i, o.readFault i = none)
    (htable : ∀ t, o.tableFault t = none) (events later : List Event)
    (hwriters : ∀ w ∈ submittedIn (events ++ later), w.WellFormed)
    (hmax : (opsOf (submittedIn (events ++ later))).length ≤ kMaxSequenceNumber)
    (happend : ∀ f written blockOffset, .logged (.failed f written blockOffset) ∉ events ++ later)
    (files : List Bytes)
    (hfiles : List.Forall₂ (· <+: ·) files (DbState.new.run (events ++ later)).logs) :
    let s := DbState.new.run events
    let st := Recovery.new.recoverLogFiles o files
    st.status = .ok ∧ ∃ kept : List Writer, kept.Sublist (submittedIn (events ++ later)) ∧
      (∀ key value, key.length + 8 < 2 ^ 32 → (st.get key st.maxSequence = some (.ok value) ↔
        (applyBatch .empty (opsOf kept)).get key = some value)) ∧
      (List.Forall₂ (· <+: ·) s.logs (files.take s.logs.length) →
        s.acknowledged <+: opsOf kept) := by
  intro s st
  have hsplit : submittedIn (events ++ later) = submittedIn events ++ submittedIn later :=
    List.flatMap_append
  have hrun : DbState.new.run (events ++ later) = s.run later := List.foldl_append
  rw [hsplit] at hwriters hmax ⊢
  have hshort : (opsOf ([] ++ submittedIn events)).length ≤ kMaxSequenceNumber := by
    rw [opsOf_append, List.length_append] at hmax
    rw [List.nil_append]
    omega
  have hfirst := fun w hw => hwriters w (List.mem_append_left _ hw)
  have hsecond := fun w hw => hwriters w (List.mem_append_right _ hw)
  obtain ⟨gens, done, hinv, -, -⟩ := inv_run inv_new hfirst hshort
  obtain ⟨earlier, hlog, -⟩ := logInv_run logInv_new inv_new hfirst hshort
    fun f written off he => happend f written off (List.mem_append_left _ he)
  rw [List.nil_append] at hinv hshort
  obtain ⟨gens', done', hinv', -, -⟩ := inv_run hinv hsecond hmax
  obtain ⟨chain, hlog', hgrown⟩ := logInv_run hlog hinv hsecond hmax
    fun f written off he => happend f written off (List.mem_append_right _ he)
  have hsub : (writersOf chain).Sublist (submittedIn events ++ submittedIn later) := by
    rw [hinv'.fifo]
    refine hlog'.sublist.trans ((List.Sublist.refl _).append ?_)
    unfold DbState.atWork
    cases (DbState.run s later).group with
    | none => exact List.nil_sublist _
    | some g =>
      rw [Option.elim_some]
      cases g.phase with
      | logging => exact List.nil_sublist _
      | inserting seq ops => exact List.take_sublist _ _
      | failed f => exact List.take_sublist _ _
  have hlen : (opsOf (writersOf chain)).length ≤ kMaxSequenceNumber :=
    le_trans (hsub.flatMap Writer.ops).length_le hmax
  have hleft : List.Forall₂ (fun file g => file <+: g.log) files.reverse
      ((s.run later).active :: (s.run later).older) := by
    rw [hrun, ← List.forall₂_reverse_iff, DbState.logs, List.reverse_reverse] at hfiles
    exact List.forall₂_map_right_iff.mp hfiles
  obtain ⟨parts, kept, hrec, hparts, hlast, hkept, hdurable⟩ :=
    hlog'.logs.recover hread htable hlen hleft
  rw [List.reverse_reverse] at hrec hlast
  refine ⟨hrec.status, kept, hkept.trans hsub, fun key value hkey => ?_, fun hintact => ?_⟩
  · rw [← hparts]
    exact hrec.get_eq (le_trans hlast hlen) hkey value
  · have hthere : List.Forall₂ (fun g file => g.log <+: file) (s.active :: s.older)
        (files.take s.logs.length).reverse := by
      rw [← List.forall₂_reverse_iff] at hintact
      nth_rewrite 1 [DbState.logs] at hintact
      rw [List.reverse_reverse] at hintact
      exact List.forall₂_map_left_iff.mp hintact
    have hgrown' : Grown earlier chain := by
      cases hlog.logs
      exact hgrown _ (.refl _ _)
    have hprefix := hdurable hlog.logs hgrown'
      (List.reverse_suffix.mpr (List.take_prefix _ files)) hthere
    obtain ⟨lost, hops, -⟩ := hlog.ops
    obtain ⟨more, hmore⟩ := hprefix
    refine ⟨opsOf s.pending ++ lost ++ opsOf more, ?_⟩
    rw [← hmore, opsOf_append, hops, List.append_assoc, List.append_assoc, List.append_assoc]

/-- The record of the second write is torn. -/
theorem crash_recovery_torn_record :
    let o : RecoveryOptions := ⟨true, fun _ => false, fun _ => none, fun _ => none⟩
    let s := DbState.new.run
      [.submit ⟨0, some (WriteBatch.clear.put [0x61] [1]), true⟩, .start none, .logged .ok, .insert,
        .finish, .submit ⟨1, some (WriteBatch.clear.put [0x62] [2]), false⟩, .start none,
        .logged .ok]
    let st := Recovery.new.recoverLogFiles o (s.logs.map fun log => log.take 30)
    st.status = .ok ∧ ∃ kept, [.put [0x61] [1]] <+: opsOf kept ∧
      ∀ key value, key.length + 8 < 2 ^ 32 → (st.get key st.maxSequence = some (.ok value) ↔
        (applyBatch .empty (opsOf kept)).get key = some value) := by
  intro o s st
  have hack : (DbState.new.run [.submit ⟨0, some (WriteBatch.clear.put [0x61] [1]), true⟩,
      .start none, .logged .ok, .insert, .finish]).acknowledged = [.put [0x61] [1]] := by
    decide +kernel
  have hcrash := crash_recovery o (fun _ => rfl) (fun _ => rfl)
    [.submit ⟨0, some (WriteBatch.clear.put [0x61] [1]), true⟩, .start none, .logged .ok, .insert,
      .finish]
    [.submit ⟨1, some (WriteBatch.clear.put [0x62] [2]), false⟩, .start none, .logged .ok] ?_
    (by decide +kernel) (by simp) (s.logs.map fun log => log.take 30)
    (List.forall₂_map_left_iff.mpr (List.forall₂_same.mpr fun log _ => List.take_prefix 30 log))
  · obtain ⟨hok, kept, -, hread, hdurable⟩ := hcrash
    rw [hack] at hdurable
    exact ⟨hok, kept, hdurable (by decide +kernel), hread⟩
  · intro w hw
    simp only [submittedIn, Event.submitted, List.append_nil, List.flatMap_cons,
      List.flatMap_nil, List.nil_append, List.cons_append, List.mem_cons, List.not_mem_nil,
      or_false] at hw
    rcases hw with rfl | rfl
    · exact wellFormed_put (by decide) (by decide) 0 true
    · exact wellFormed_put (by decide) (by decide) 1 false

end Engine

end RnLeveldb
