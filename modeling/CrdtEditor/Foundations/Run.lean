import Mathlib

/-!
# Foundations/Run — properties of every step of a run

A deterministic system is a step function `σ → ι → σ`; a run from `s` is the list of its inputs.
`Along step P s is` says that `P` holds of every state of the run together with the input taken
there, `Once step P s is` that it holds of some.  `Along.of_invariant` is the one induction: what
an invariant step yields, every run yields.
-/

section Run

variable {σ ι : Type*} (step : σ → ι → σ)

/-- `P` holds at every step of the run `is` from `s`. -/
def Along (P : σ → ι → Prop) : σ → List ι → Prop
  | _, [] => True
  | s, i :: is => P s i ∧ Along P (step s i) is

instance Along.decidable (P : σ → ι → Prop) [∀ s i, Decidable (P s i)] :
    ∀ (s : σ) (is : List ι), Decidable (Along step P s is)
  | _, [] => .isTrue trivial
  | s, i :: is =>
    haveI := Along.decidable P (step s i) is
    inferInstanceAs (Decidable (P s i ∧ Along step P (step s i) is))

/-- `P` holds at some step of the run `is` from `s`. -/
def Once (P : σ → ι → Prop) : σ → List ι → Prop
  | _, [] => False
  | s, i :: is => P s i ∨ Once P (step s i) is

instance Once.decidable (P : σ → ι → Prop) [∀ s i, Decidable (P s i)] :
    ∀ (s : σ) (is : List ι), Decidable (Once step P s is)
  | _, [] => .isFalse id
  | s, i :: is =>
    haveI := Once.decidable P (step s i) is
    inferInstanceAs (Decidable (P s i ∨ Once step P (step s i) is))

variable {step} {P Q : σ → ι → Prop} {Inv : σ → Prop}

/-- **A step that keeps `Inv` and yields `Q` makes every run yield `Q`.** -/
theorem Along.of_invariant (h : ∀ s i, Inv s → P s i → Q s i ∧ Inv (step s i)) :
    ∀ {s : σ} {is : List ι}, Inv s → Along step P s is → Along step Q s is
  | _, [], _, _ => trivial
  | s, i :: _, hs, ⟨hp, hrest⟩ => ⟨(h s i hs hp).1, of_invariant h (h s i hs hp).2 hrest⟩

/-- **A step that keeps `Inv`, whatever its input, and yields `Q` makes every run yield `Q`.** -/
theorem Along.of_step (h : ∀ s i, Inv s → Q s i ∧ Inv (step s i)) :
    ∀ {s : σ} {is : List ι}, Inv s → Along step Q s is
  | _, [], _ => trivial
  | s, i :: _, hs => ⟨(h s i hs).1, of_step h (h s i hs).2⟩

/-- The invariant at the end of the run. -/
theorem Along.invariant (h : ∀ s i, Inv s → P s i → Inv (step s i)) :
    ∀ {s : σ} {is : List ι}, Inv s → Along step P s is → Inv (is.foldl step s)
  | _, [], hs, _ => hs
  | s, i :: is, hs, ⟨hp, hrest⟩ => by
      rw [List.foldl_cons]
      exact invariant h (h s i hs hp) hrest

/-- **Two properties that agree while the invariant holds, and keep it, agree along every run.** -/
theorem Along.iff_of_invariant (hiff : ∀ s i, Inv s → (P s i ↔ Q s i))
    (h : ∀ s i, Inv s → Q s i → Inv (step s i)) :
    ∀ {s : σ} {is : List ι}, Inv s → (Along step P s is ↔ Along step Q s is)
  | _, [], _ => .rfl
  | s, i :: _, hs =>
    (and_congr_right fun hp =>
      iff_of_invariant hiff h (h s i hs ((hiff s i hs).1 hp))).trans (and_congr_left' (hiff s i hs))

/-- What every step leads to holds at the end. -/
theorem Along.last {R : σ → Prop} : ∀ {s : σ} {is : List ι}, is ≠ [] →
    Along step (fun s i => R (step s i)) s is → R (is.foldl step s)
  | _, [], hne, _ => absurd rfl hne
  | _, [_], _, h => h.1
  | _, _ :: i :: is, _, h => by
      rw [List.foldl_cons]
      exact Along.last (List.cons_ne_nil i is) h.2

theorem along_append : ∀ {s : σ} {is js : List ι},
    Along step P s (is ++ js) ↔ Along step P s is ∧ Along step P (is.foldl step s) js
  | _, [], _ => (true_and _).to_iff.symm
  | s, i :: is, js => by
      rw [List.cons_append, Along, Along, along_append, and_assoc, List.foldl_cons]

end Run
