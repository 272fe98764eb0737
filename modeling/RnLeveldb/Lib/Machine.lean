import Mathlib.Tactic

/-!
# Runs of a deterministic machine

A machine is a function `step : σ → ι → ο × σ` that answers an input and moves to the
next state. This file has the vocabulary in which whole runs are talked about:

* `run` is the state a list of inputs leads to and `trace` the answers given on the way;
* `Along P s is` says that every input of the run meets `P` in the state that receives it,
  which is how a condition on the steps of a run, and a property of them, are both stated;
* `Once E s is` says that some input of the run meets `E` in the state that receives it,
  which is how something that has happened during a run is stated;
* `inv_run`, `inv_run_of_along`, `along_of_inv`, `along_congr_of_inv`, `inv_trace` and
  `inv_past` are the induction rules.
-/

namespace Machine

variable {σ ι ο : Type*} (step : σ → ι → ο × σ)

/-- The state after the inputs `is`, received one by one from state `s`. -/
def run (s : σ) : List ι → σ
  | [] => s
  | i :: is => run (step s i).2 is

/-- Each input of a run with the answer it was given. -/
def trace (s : σ) : List ι → List (ι × ο)
  | [] => []
  | i :: is => (i, (step s i).1) :: trace (step s i).2 is

/-- Every input of the run meets `P` in the state that receives it. -/
def Along (P : σ → ι → Prop) (s : σ) : List ι → Prop
  | [] => True
  | i :: is => P s i ∧ Along P (step s i).2 is

/-- Some input of the run meets `E` in the state that receives it. -/
def Once (E : σ → ι → Prop) (s : σ) : List ι → Prop
  | [] => False
  | i :: is => E s i ∨ Once E (step s i).2 is

@[simp] lemma run_nil (s : σ) : run step s [] = s := rfl

@[simp] lemma run_cons (s : σ) (i : ι) (is : List ι) :
    run step s (i :: is) = run step (step s i).2 is := rfl

lemma run_append (s : σ) (is js : List ι) :
    run step s (is ++ js) = run step (run step s is) js := by
  induction is generalizing s with
  | nil => rfl
  | cons i is ih => exact ih (step s i).2

lemma run_snoc (s : σ) (is : List ι) (i : ι) :
    run step s (is ++ [i]) = (step (run step s is) i).2 := by
  rw [run_append, run_cons, run_nil]

@[simp] lemma along_nil (P : σ → ι → Prop) (s : σ) : Along step P s [] := trivial

@[simp] lemma along_cons (P : σ → ι → Prop) (s : σ) (i : ι) (is : List ι) :
    Along step P s (i :: is) ↔ P s i ∧ Along step P (step s i).2 is := Iff.rfl

lemma along_append (P : σ → ι → Prop) (s : σ) (is js : List ι) :
    Along step P s (is ++ js) ↔ Along step P s is ∧ Along step P (run step s is) js := by
  induction is generalizing s with
  | nil => simp
  | cons i is ih =>
    simp only [List.cons_append, along_cons, run_cons, ih, and_assoc]

@[simp] lemma once_nil (E : σ → ι → Prop) (s : σ) : ¬ Once step E s [] := id

@[simp] lemma once_cons (E : σ → ι → Prop) (s : σ) (i : ι) (is : List ι) :
    Once step E s (i :: is) ↔ E s i ∨ Once step E (step s i).2 is := Iff.rfl

lemma once_append (E : σ → ι → Prop) (s : σ) (is js : List ι) :
    Once step E s (is ++ js) ↔ Once step E s is ∨ Once step E (run step s is) js := by
  induction is generalizing s with
  | nil => simp
  | cons i is ih =>
    simp only [List.cons_append, once_cons, run_cons, ih, or_assoc]

lemma once_snoc (E : σ → ι → Prop) (s : σ) (is : List ι) (i : ι) :
    Once step E s (is ++ [i]) ↔ Once step E s is ∨ E (run step s is) i := by
  rw [once_append, once_cons, or_iff_left (once_nil step _ _)]

variable {step}

/-- **Invariant rule.** What every step preserves holds after every run. -/
theorem inv_run {I : σ → Prop} (hstep : ∀ s i, I s → I (step s i).2) {s : σ} (h0 : I s)
    (is : List ι) : I (run step s is) := by
  induction is generalizing s with
  | nil => exact h0
  | cons i is ih => exact ih (hstep s i h0)

/-- The same for what every step allowed by `P` preserves, and runs whose steps are all
allowed by `P`. -/
theorem inv_run_of_along {I : σ → Prop} {P : σ → ι → Prop}
    (hstep : ∀ s i, I s → P s i → I (step s i).2) {s : σ} {is : List ι}
    (h0 : I s) (hP : Along step P s is) : I (run step s is) := by
  induction is generalizing s with
  | nil => exact h0
  | cons i is ih => exact ih (hstep s i h0 hP.1) hP.2

/-- **Step rule.** A property that every allowed step has in a state of the invariant is
had by every step of an allowed run. -/
theorem along_of_inv {I : σ → Prop} {P Q : σ → ι → Prop}
    (hstep : ∀ s i, I s → P s i → I (step s i).2)
    (hQ : ∀ s i, I s → P s i → Q s i) {s : σ} {is : List ι}
    (h0 : I s) (hP : Along step P s is) : Along step Q s is := by
  induction is generalizing s with
  | nil => trivial
  | cons i is ih => exact ⟨hQ s i h0 hP.1, ih (hstep s i h0 hP.1) hP.2⟩

/-- Two conditions that agree on every step are met by the same runs. -/
theorem along_congr {P Q : σ → ι → Prop} (h : ∀ s i, P s i ↔ Q s i) (s : σ) (is : List ι) :
    Along step P s is ↔ Along step Q s is := by
  induction is generalizing s with
  | nil => exact Iff.rfl
  | cons i is ih => rw [along_cons, along_cons, h, ih]

/-- The same for conditions that agree in the states of an invariant, which the steps that meet
them preserve. -/
theorem along_congr_of_inv {I : σ → Prop} {P Q : σ → ι → Prop}
    (hstep : ∀ s i, I s → P s i → I (step s i).2) (h : ∀ s i, I s → (Q s i ↔ P s i)) {s : σ}
    (h0 : I s) (is : List ι) : Along step Q s is ↔ Along step P s is := by
  induction is generalizing s with
  | nil => exact Iff.rfl
  | cons i is ih =>
    rw [along_cons, along_cons, h s i h0]
    exact and_congr_right fun hP => ih (hstep s i h0 hP)

/-- A condition on the inputs alone is met by each of them. -/
theorem along_iff_forall (P : ι → Prop) (s : σ) (is : List ι) :
    Along step (fun _ i => P i) s is ↔ ∀ i ∈ is, P i := by
  induction is generalizing s with
  | nil => simp
  | cons i is ih => rw [along_cons, ih, List.forall_mem_cons]

/-- **Past rule.** An invariant of the whole run so far, proved from its last step. -/
theorem inv_past {I : List ι → Prop} {P : σ → ι → Prop} {s : σ} {is : List ι}
    (hP : Along step P s is) (h0 : I [])
    (hstep : ∀ is i, I is → P (run step s is) i → I (is ++ [i])) : I is := by
  induction is using List.reverseRecOn with
  | nil => exact h0
  | append_singleton is i ih =>
    rw [along_append] at hP
    exact hstep is i (ih hP.1) hP.2.1

/-- **History rule.** An invariant that relates the state to the answers given so far. -/
theorem inv_trace {I : List (ι × ο) → σ → Prop}
    (hstep : ∀ h s i, I h s → I (h ++ [(i, (step s i).1)]) (step s i).2) {s : σ}
    (h0 : I [] s) (is : List ι) : I (trace step s is) (run step s is) := by
  -- generalized over the history that precedes the run
  have key : ∀ (is : List ι) (h : List (ι × ο)) (s : σ), I h s →
      I (h ++ trace step s is) (run step s is) := by
    intro is
    induction is with
    | nil =>
      intro h s hs
      simpa [trace] using hs
    | cons i is ih =>
      intro h s hs
      have := ih _ _ (hstep h s i hs)
      simpa [trace, List.append_assoc] using this
  simpa using key is [] s h0

end Machine
