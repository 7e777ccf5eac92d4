import Mathlib
/-!
# Mealy — machines that read an input and answer

A program that loops over what it receives is its step function; `run` is the state a list of inputs leads to and
`outputs` the answers on the way.  `run_invariant` is the induction every safety result here is an instance of, and
`outputs_append` cuts a run at an input.
-/
namespace Mealy

variable {σ ι ο : Type} (step : σ → ι → σ × ο)

def run : σ → List ι → σ
  | s, [] => s
  | s, i :: is => run (step s i).1 is

def outputs : σ → List ι → List ο
  | _, [] => []
  | s, i :: is => (step s i).2 :: outputs (step s i).1 is

theorem run_append : ∀ (s : σ) (a b : List ι), run step s (a ++ b) = run step (run step s a) b
  | _, [], _ => rfl
  | s, i :: a, b => run_append (step s i).1 a b

theorem outputs_append : ∀ (s : σ) (a b : List ι),
    outputs step s (a ++ b) = outputs step s a ++ outputs step (run step s a) b
  | _, [], _ => rfl
  | s, i :: a, b => by
    rw [List.cons_append, outputs, outputs, outputs_append (step s i).1 a b]
    rfl

theorem run_concat (s : σ) (a : List ι) (i : ι) : run step s (a ++ [i]) = (step (run step s a) i).1 :=
  run_append step s a [i]

theorem outputs_concat (s : σ) (a : List ι) (i : ι) :
    outputs step s (a ++ [i]) = outputs step s a ++ [(step (run step s a) i).2] :=
  outputs_append step s a [i]

/-- **What every step keeps, every run keeps.** -/
theorem run_invariant {P : σ → Prop} : ∀ (is : List ι) {s : σ}, P s →
    (∀ s, ∀ i ∈ is, P s → P (step s i).1) → P (run step s is)
  | [], _, hs, _ => hs
  | i :: is, s, hs, hstep =>
    run_invariant is (hstep s i List.mem_cons_self hs) (fun t j hj => hstep t j (List.mem_cons_of_mem i hj))

/-- What holds at every cut of a list holds at its head and at every cut of its tail. -/
theorem forall_cut_cons {P : List ι → ι → Prop} (i : ι) (is : List ι) :
    (∀ front j back, i :: is = front ++ j :: back → P front j) ↔
      P [] i ∧ ∀ front j back, is = front ++ j :: back → P (i :: front) j := by
  constructor
  · intro hall
    refine ⟨hall [] i is rfl, ?_⟩
    rintro front j back rfl
    exact hall (i :: front) j back rfl
  · rintro ⟨hi, his⟩ front j back hcut
    cases front with
    | nil =>
      cases hcut
      exact hi
    | cons x front =>
      cases hcut
      exact his front j back rfl

/-- **What every step keeps under a condition on the state and the input, and keeps only then, a run keeps exactly
when the condition holds at each of its inputs.** -/
theorem run_iff {P : σ → Prop} {Q : σ → ι → Prop} (hstep : ∀ s i, P (step s i).1 ↔ P s ∧ Q s i) :
    ∀ (is : List ι) (s : σ), P (run step s is) ↔
      P s ∧ ∀ front i back, is = front ++ i :: back → Q (run step s front) i
  | [], s => by simp [run]
  | i :: is, s => by
    rw [run, run_iff hstep is, hstep, and_assoc, forall_cut_cons]
    rfl

/-- **What a step brings about under a condition, and never undoes, holds after a run exactly when it held before or
the condition held at one of the inputs.** -/
theorem run_exists {P : σ → Prop} {Q : σ → ι → Prop} (hstep : ∀ s i, P (step s i).1 ↔ P s ∨ Q s i)
    (is : List ι) (s : σ) : P (run step s is) ↔
      P s ∨ ∃ front i back, is = front ++ i :: back ∧ Q (run step s front) i := by
  have hnot : ∀ s i, ¬ P (step s i).1 ↔ ¬ P s ∧ ¬ Q s i := fun s i => by rw [hstep, not_or]
  have hrun := run_iff step (P := fun s => ¬ P s) (Q := fun s i => ¬ Q s i) hnot is s
  rw [← not_iff_not, hrun, not_or]
  simp only [not_exists, not_and]

/-- What holds at every cut of a list holds before its last element and at every cut of the rest. -/
theorem forall_cut_concat {P : List ι → ι → Prop} (is : List ι) (i : ι) :
    (∀ front j back, is ++ [i] = front ++ j :: back → P front j) ↔
      (∀ front j back, is = front ++ j :: back → P front j) ∧ P is i := by
  constructor
  · intro hall
    refine ⟨?_, hall is i [] rfl⟩
    rintro front j back rfl
    exact hall front j (back ++ [i]) (List.append_assoc front (j :: back) [i])
  · rintro ⟨his, hi⟩ front j back hcut
    cases back using List.reverseRecOn with
    | nil =>
      obtain ⟨rfl, hlast⟩ := List.append_inj' hcut rfl
      cases hlast
      exact hi
    | append_singleton back x =>
      have hcut' : is ++ [i] = (front ++ j :: back) ++ [x] := by
        rw [hcut, List.append_assoc]
        rfl
      exact his front j back (List.append_inj' hcut' rfl).1

/-- **Where one more input keeps what holds so far exactly under a condition, it holds along the whole of the inputs
exactly when the condition holds at each of them.** -/
theorem prefixes_iff {P : List ι → Prop} {Q : List ι → ι → Prop} (hnil : P [])
    (hstep : ∀ is i, P is → (P (is ++ [i]) ↔ Q is i)) (is : List ι) :
    (∀ front, front <+: is → P front) ↔ ∀ front i back, is = front ++ i :: back → Q front i := by
  induction is using List.reverseRecOn with
  | nil => simpa using hnil
  | append_singleton is i ih =>
    rw [forall_cut_concat, ← ih]
    constructor
    · intro hall
      have his : ∀ front, front <+: is → P front := fun front hfront => hall front (hfront.trans (List.prefix_append is [i]))
      exact ⟨his, (hstep is i (his is List.prefix_rfl)).1 (hall _ List.prefix_rfl)⟩
    · rintro ⟨his, hi⟩ front hfront
      rcases List.prefix_concat_iff.1 hfront with rfl | hfront
      · exact (hstep is i (his is List.prefix_rfl)).2 hi
      · exact his front hfront

/-! ## Two runs of one machine -/

section Related

variable {step} {onState : σ → σ} {onInput : ι → ι} {onOutput : ο → ο}

/-- Where the states are kept related, the outputs of the two runs agree exactly when they agree at each input. -/
theorem outputs_map_eq_iff : ∀ (is : List ι) (s : σ),
    (∀ s, ∀ i ∈ is, (step (onState s) (onInput i)).1 = onState (step s i).1) →
    ((outputs step (onState s) (is.map onInput)).map onOutput = outputs step s is ↔
      ∀ front i back, is = front ++ i :: back →
        onOutput (step (onState (run step s front)) (onInput i)).2 = (step (run step s front) i).2)
  | [], _, _ => by simp [outputs]
  | i :: is, s, h => by
    have ih := outputs_map_eq_iff is (step s i).1 (fun t j hj => h t j (List.mem_cons_of_mem i hj))
    rw [List.map_cons, outputs, outputs, h s i List.mem_cons_self, List.map_cons, List.cons.injEq, ih, forall_cut_cons]
    rfl

end Related

/-! ## Two machines -/

section Refines

variable {τ : Type} {step} {abstract : τ → ι → τ × ο} {concrete : τ → σ}

/-- **Where each abstract state determines the concrete one and every step keeps it so, the runs do.** -/
theorem run_refines (h : ∀ t i, step (concrete t) i = (concrete (abstract t i).1, (abstract t i).2)) :
    ∀ (is : List ι) (t : τ), run step (concrete t) is = concrete (run abstract t is)
  | [], _ => rfl
  | i :: is, t => by
    rw [run, run, h t i]
    exact run_refines h is _

/-- **And the two machines cannot be told apart by what they answer.** -/
theorem outputs_refines (h : ∀ t i, step (concrete t) i = (concrete (abstract t i).1, (abstract t i).2)) :
    ∀ (is : List ι) (t : τ), outputs step (concrete t) is = outputs abstract t is
  | [], _ => rfl
  | i :: is, t => by
    rw [outputs, outputs, h t i]
    exact congrArg _ (outputs_refines h is _)

end Refines

section Simulates

variable {τ κ : Type} {step} {abstract : τ → κ → τ × ο} {onState : σ → τ} {onInput : ι → κ}

/-- **Where every step, seen through a view of states and inputs, is a step of the abstract machine, runs are runs and
the answers are the same.** -/
theorem run_simulates : ∀ (is : List ι) (s : σ),
    (∀ s, ∀ i ∈ is, abstract (onState s) (onInput i) = (onState (step s i).1, (step s i).2)) →
    onState (run step s is) = run abstract (onState s) (is.map onInput) ∧
      outputs step s is = outputs abstract (onState s) (is.map onInput)
  | [], _, _ => ⟨rfl, rfl⟩
  | i :: is, s, h => by
    obtain ⟨hrun, houtputs⟩ := run_simulates is (step s i).1 (fun t j hj => h t j (List.mem_cons_of_mem i hj))
    have hi := h s i List.mem_cons_self
    rw [List.map_cons, run, run, outputs, outputs, hi]
    exact ⟨hrun, congrArg _ houtputs⟩

end Simulates

end Mealy
