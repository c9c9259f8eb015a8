/-!
# Runs of a step function

A run feeds a list of operations to a deterministic step function. The
conditional safety statements of the development read "in every run whose
steps all meet a condition, ...": `StepsMeet` is that hypothesis, the
condition being asked of the state *before* each step, and
`invariant_of_stepsMeet` is the induction behind every one of them.
-/

namespace Runs

open List

variable {σ ο : Type} (step : σ → ο → σ)

/-- The state after a list of operations. -/
def run (s : σ) (os : List ο) : σ := os.foldl step s

@[simp] theorem run_nil (s : σ) : run step s [] = s := rfl

@[simp] theorem run_cons (s : σ) (o : ο) (os : List ο) :
    run step s (o :: os) = run step (step s o) os := rfl

theorem run_append (s : σ) (os os' : List ο) :
    run step s (os ++ os') = run step (run step s os) os' :=
  foldl_append

/-- Every operation of the run meets `P` at the state it is applied to. -/
def StepsMeet (P : σ → ο → Prop) : σ → List ο → Prop
  | _, [] => True
  | s, o :: os => P s o ∧ StepsMeet P (step s o) os

instance decidableStepsMeet {P : σ → ο → Prop} [∀ s o, Decidable (P s o)] :
    ∀ s os, Decidable (StepsMeet step P s os)
  | _, [] => isTrue trivial
  | s, o :: os =>
    have : Decidable (StepsMeet step P (step s o) os) := decidableStepsMeet (step s o) os
    inferInstanceAs (Decidable (P s o ∧ StepsMeet step P (step s o) os))

variable {step} {P : σ → ο → Prop}

theorem StepsMeet.append :
    ∀ {s : σ} {os os' : List ο}, StepsMeet step P s (os ++ os') →
      StepsMeet step P s os ∧ StepsMeet step P (run step s os) os'
  | _, [], _, h => ⟨trivial, h⟩
  | _, _ :: _, _, ⟨ho, h⟩ => ⟨⟨ho, h.append.1⟩, h.append.2⟩

/-- A property of the operations alone may join the condition. -/
theorem StepsMeet.and_mem {Q : ο → Prop} :
    ∀ {s : σ} {os : List ο}, StepsMeet step P s os → (∀ o ∈ os, Q o) →
      StepsMeet step (fun s o => P s o ∧ Q o) s os
  | _, [], _, _ => trivial
  | _, _ :: _, ⟨ho, h⟩, hq =>
    ⟨⟨ho, hq _ mem_cons_self⟩, h.and_mem fun o ho => hq o (mem_cons_of_mem _ ho)⟩

variable {I : σ → Prop} {os : List ο} {s : σ}

/-- An invariant kept by every step that meets the condition holds at the
end of every run whose steps all meet it. -/
theorem invariant_of_stepsMeet (hstep : ∀ s o, I s → P s o → I (step s o)) (hs : I s)
    (hos : StepsMeet step P s os) : I (run step s os) := by
  induction os generalizing s with
  | nil => exact hs
  | cons o os ih => exact ih (hstep s o hs hos.1) hos.2

theorem invariant_of_forall {Q : ο → Prop} (hstep : ∀ s o, I s → Q o → I (step s o)) (hs : I s)
    (hos : ∀ o ∈ os, Q o) : I (run step s os) := by
  induction os generalizing s with
  | nil => exact hs
  | cons o os ih =>
    exact ih (hstep s o hs (hos o mem_cons_self)) fun o' ho' =>
      hos o' (mem_cons_of_mem _ ho')

/-- If a step keeps an invariant and meets `P` exactly when it meets `Q`, then a
run keeps the invariant at all times and meets `P` exactly when it meets `Q`. -/
theorem always_iff_stepsMeet (hstep : ∀ s o, I s → (P s o ∧ I (step s o) ↔ Q s o)) (hs : I s) :
    (StepsMeet step P s os ∧ ∀ done, done <+: os → I (run step s done)) ↔
      StepsMeet step Q s os := by
  induction os generalizing s with
  | nil =>
    refine ⟨fun _ => trivial, fun _ => ⟨trivial, fun done hdone => ?_⟩⟩
    rw [prefix_nil.mp hdone]
    exact hs
  | cons o os ih =>
    constructor
    · rintro ⟨⟨ho, hos⟩, halways⟩
      have hnext : I (step s o) := halways [o] ⟨os, rfl⟩
      refine ⟨(hstep s o hs).mp ⟨ho, hnext⟩, (ih hnext).mp ⟨hos, fun done hdone => ?_⟩⟩
      exact halways (o :: done) (prefix_cons_inj o |>.mpr hdone)
    · rintro ⟨ho, hos⟩
      obtain ⟨hp, hnext⟩ := (hstep s o hs).mpr ho
      obtain ⟨hrest, halways⟩ := (ih hnext).mpr hos
      refine ⟨⟨hp, hrest⟩, fun done hdone => ?_⟩
      obtain rfl | ⟨rest, rfl, hprefix⟩ := prefix_cons_iff.mp hdone
      · exact hs
      · exact halways rest hprefix

end Runs
