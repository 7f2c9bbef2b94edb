import Mathlib

/-!
# Foundations/Exception — computations that may throw

The standard exceptions as a type, and what a loop in `Except` that never throws amounts to: `forM`
and `mapM` succeed when every turn does.

A call that mutates a state `σ` before it throws is an `Except (ε × σ) σ`.  `Ends P Q r` is the
postcondition of such a call: `P` of the state it returns, `Q` of the state it throws from; one rule
for each construct carries it through a handler.
-/

/-- A byte string (`std::string`), compared lexicographically on unsigned bytes. -/
abbrev Str := List UInt8

/-- The bytes of an ASCII literal. -/
def str (s : String) : Str := s.toList.map fun c => UInt8.ofNat c.toNat

/-- The standard exceptions, with the text they carry. -/
inductive Exn
  /-- `at` on a missing key or index, or a number that does not fit its type. -/
  | outOfRange (what : Str)
  | invalidArgument (what : Str)
  | runtimeError (what : Str)
  | lengthError (what : Str)
  /-- `std::get` on a variant that holds another alternative. -/
  | badVariantAccess
  /-- No exception of the program: `*` on an empty `std::optional`, which C++ leaves undefined. -/
  | emptyOptional
  /-- No exception of the program: a loop was given too little fuel. -/
  | outOfFuel
  deriving DecidableEq, Repr

namespace Except

variable {ε α β : Type}

/-- The state a mutating call leaves, returned or thrown along with the exception. -/
def state {ε σ : Type*} : Except (ε × σ) σ → σ
  | .ok s => s
  | .error e => e.2

theorem eq_ok_state {ε σ : Type*} : ∀ {r : Except (ε × σ) σ}, r.toBool = true → r = .ok r.state
  | .ok _, _ => rfl

/-- What returned returned at both steps. -/
theorem bind_eq_ok {r : Except ε α} {f : α → Except ε β} {b : β} :
    r >>= f = .ok b ↔ ∃ a, r = .ok a ∧ f a = .ok b := by
  cases r with
  | ok a => exact ⟨fun h => ⟨a, rfl, h⟩, fun ⟨_, ha, h⟩ => Except.ok.inj ha ▸ h⟩
  | error e => exact ⟨nofun, nofun⟩

/-- A loop whose turns all return returns. -/
theorem forM_eq_ok {f : α → Except ε Unit} : ∀ {l : List α}, (∀ a ∈ l, f a = .ok ()) →
    l.forM f = .ok ()
  | [], _ => rfl
  | a :: l, h => by
      change (f a >>= fun _ => l.forM f) = .ok ()
      rw [h a List.mem_cons_self]
      exact forM_eq_ok fun b hb => h b (List.mem_cons_of_mem a hb)

/-- A loop that returned returned at every turn. -/
theorem of_forM_eq_ok {f : α → Except ε Unit} : ∀ {l : List α}, l.forM f = .ok () →
    ∀ a ∈ l, f a = .ok ()
  | [], _, _, ha => absurd ha List.not_mem_nil
  | b :: l, h, a, ha => by
      change (f b >>= fun _ => l.forM f) = .ok () at h
      cases hb : f b with
      | error e => rw [hb] at h; cases h
      | ok u =>
        rw [hb] at h
        rcases List.mem_cons.mp ha with rfl | ha
        · exact hb
        · exact of_forM_eq_ok h a ha

/-- A loop that threw threw in one of its turns. -/
theorem of_forM_eq_error {f : α → Except ε Unit} {e : ε} : ∀ {l : List α}, l.forM f = .error e →
    ∃ a ∈ l, f a = .error e
  | [], h => by cases h
  | b :: l, h => by
      change (f b >>= fun _ => l.forM f) = .error e at h
      cases hb : f b with
      | error e' =>
        rw [hb] at h
        exact ⟨b, List.mem_cons_self, hb.trans h⟩
      | ok u =>
        rw [hb] at h
        obtain ⟨a, ha, hfa⟩ := of_forM_eq_error h
        exact ⟨a, List.mem_cons_of_mem b ha, hfa⟩

/-- Mapping a computation that returns `g a` at every `a` maps `g`. -/
theorem mapM_eq_ok {f : α → Except ε β} {g : α → β} : ∀ {l : List α},
    (∀ a ∈ l, f a = .ok (g a)) → l.mapM f = .ok (l.map g)
  | [], _ => rfl
  | a :: l, h => by
      rw [List.mapM_cons, h a List.mem_cons_self,
        mapM_eq_ok fun b hb => h b (List.mem_cons_of_mem a hb)]
      rfl

/-- The same for results listed beside the inputs. -/
theorem mapM_of_forall₂ {f : α → Except ε β} {l : List α} {r : List β}
    (h : List.Forall₂ (fun a b => f a = .ok b) l r) : l.mapM f = .ok r := by
  induction h with
  | nil => rfl
  | cons ha _ ih =>
    rw [List.mapM_cons, ha, ih]
    rfl

/-- What a loop of computations returned came from its inputs. -/
theorem mem_of_mapM_eq_ok {f : α → Except ε β} : ∀ {l : List α} {r : List β},
    l.mapM f = .ok r → ∀ b, b ∈ r ↔ ∃ a ∈ l, f a = .ok b
  | [], r, h, b => by
      obtain rfl : r = [] := (Except.ok.inj h).symm
      simp
  | a :: l, r, h, b => by
      rw [List.mapM_cons] at h
      cases ha : f a with
      | error e => simp [ha, bind, Except.bind] at h
      | ok x =>
        cases hl : l.mapM f with
        | error e => simp [ha, hl, bind, Except.bind] at h
        | ok xs =>
          simp only [ha, hl, bind, Except.bind, pure, Except.pure] at h
          obtain rfl := Except.ok.inj h
          rw [List.mem_cons, mem_of_mapM_eq_ok hl]
          simp [ha, eq_comm]

theorem toOption_eq_some {r : Except ε α} {a : α} : r.toOption = some a ↔ r = .ok a := by
  cases r <;> simp [Except.toOption]

/-- Mapping a computation that returns at every element returns the results. -/
theorem mapM_eq_ok_filterMap {f : α → Except ε β} : ∀ {l : List α}, (∀ a ∈ l, ∃ b, f a = .ok b) →
    l.mapM f = .ok (l.filterMap fun a => (f a).toOption)
  | [], _ => rfl
  | a :: l, h => by
      obtain ⟨b, hb⟩ := h a List.mem_cons_self
      rw [List.mapM_cons, hb, mapM_eq_ok_filterMap fun x hx => h x (List.mem_cons_of_mem a hx),
        List.filterMap_cons_some (b := b) (by rw [hb]; rfl)]
      rfl

/-- One computation that throws makes the loop throw. -/
theorem mapM_ne_ok {f : α → Except ε β} {a : α} {e : ε} : ∀ {l : List α}, a ∈ l →
    f a = .error e → ∀ r, l.mapM f ≠ .ok r
  | b :: l, hm, ha, r, h => by
      rw [List.mapM_cons] at h
      cases hb : f b with
      | error e' => simp [hb, bind, Except.bind] at h
      | ok x =>
        cases hl : l.mapM f with
        | error e' => simp [hb, hl, bind, Except.bind] at h
        | ok xs =>
          rcases List.mem_cons.mp hm with rfl | hm
          · rw [hb] at ha
            cases ha
          · exact mapM_ne_ok hm ha xs hl

/-- Mapping a computation with a left inverse can be undone. -/
theorem map_of_mapM_eq_ok {f : α → Except ε β} {g : β → α} : ∀ {l : List α} {r : List β},
    l.mapM f = .ok r → (∀ a ∈ l, ∀ b, f a = .ok b → g b = a) → r.map g = l
  | [], r, h, _ => by
      obtain rfl : r = [] := (Except.ok.inj h).symm
      rfl
  | a :: l, r, h, hg => by
      rw [List.mapM_cons] at h
      cases ha : f a with
      | error e => simp [ha, bind, Except.bind] at h
      | ok x =>
        cases hl : l.mapM f with
        | error e => simp [ha, hl, bind, Except.bind] at h
        | ok xs =>
          simp only [ha, hl, bind, Except.bind, pure, Except.pure] at h
          obtain rfl := Except.ok.inj h
          rw [List.map_cons, hg a List.mem_cons_self x ha,
            map_of_mapM_eq_ok hl fun c hc => hg c (List.mem_cons_of_mem a hc)]

/-! ## Calls that mutate a state -/

section Ends

variable {ε σ α : Type} {P P' Q Q' : σ → Prop}

/-- A thrown exception together with the state it leaves. -/
def leaving (s : σ) : Except ε α → Except (ε × σ) α
  | .ok a => .ok a
  | .error e => .error (e, s)

theorem leaving_eq_ok {s : σ} {r : Except ε α} {a : α} : leaving s r = .ok a ↔ r = .ok a := by
  cases r with
  | ok b => exact ⟨fun h => congrArg _ (Except.ok.inj h), fun h => congrArg _ (Except.ok.inj h)⟩
  | error e => exact ⟨nofun, nofun⟩

/-- `P` of the state returned, `Q` of the state thrown from. -/
def Ends (P Q : σ → Prop) : Except (ε × σ) σ → Prop
  | .ok s => P s
  | .error e => Q e.2

@[simp] theorem ends_ok {s : σ} : (Except.ok s : Except (ε × σ) σ).Ends P Q ↔ P s := Iff.rfl

@[simp] theorem ends_pure {s : σ} : (pure s : Except (ε × σ) σ).Ends P Q ↔ P s := Iff.rfl

@[simp] theorem ends_error {e : ε} {s : σ} :
    (Except.error (e, s) : Except (ε × σ) σ).Ends P Q ↔ Q s := Iff.rfl

@[simp] theorem ends_throw {e : ε} {s : σ} :
    (throw (e, s) : Except (ε × σ) σ).Ends P Q ↔ Q s := Iff.rfl

theorem Ends.imp {r : Except (ε × σ) σ} (h : r.Ends P Q) (hP : ∀ s, P s → P' s)
    (hQ : ∀ s, Q s → Q' s) : r.Ends P' Q' := by
  cases r with
  | ok s => exact hP s h
  | error e => exact hQ e.2 h

/-- Two postconditions of one call. -/
theorem Ends.and {r : Except (ε × σ) σ} (h : r.Ends P Q) (h' : r.Ends P' Q') :
    r.Ends (fun s => P s ∧ P' s) fun s => Q s ∧ Q' s := by
  cases r with
  | ok s => exact ⟨h, h'⟩
  | error e => exact ⟨h, h'⟩

/-- A postcondition of both endings is one of the state left. -/
theorem Ends.state {r : Except (ε × σ) σ} (h : r.Ends P P) : P r.state := by
  cases r with
  | ok s => exact h
  | error e => exact h

/-- The rule of sequencing. -/
theorem Ends.bind {r : Except (ε × σ) σ} {f : σ → Except (ε × σ) σ} (h : r.Ends P Q)
    (hf : ∀ s, P s → (f s).Ends P' Q) : (r >>= f).Ends P' Q := by
  cases r with
  | ok s => exact hf s h
  | error e => exact h

/-- Sequencing after a computation that leaves the state alone. -/
theorem ends_leaving_bind {s : σ} {r : Except ε α} {f : α → Except (ε × σ) σ}
    (hok : ∀ a, r = .ok a → (f a).Ends P Q) (herr : Q s) : (leaving s r >>= f).Ends P Q := by
  cases r with
  | ok a => exact hok a rfl
  | error e => exact herr

/-- The rule of the conditional. -/
theorem ends_ite {c : Prop} [Decidable c] {r r' : Except (ε × σ) σ} (hc : c → r.Ends P Q)
    (hn : ¬ c → r'.Ends P Q) : (if c then r else r').Ends P Q := by
  split
  case isTrue h => exact hc h
  case isFalse h => exact hn h

/-- **The rule of loops**: an invariant of every turn, indexed by what is left to do. -/
theorem ends_foldlM {β : Type} {f : σ → β → Except (ε × σ) σ} {I : List β → σ → Prop}
    (hf : ∀ b l s, I (b :: l) s → (f s b).Ends (I l) Q) : ∀ {l : List β} {s : σ}, I l s →
    (l.foldlM f s).Ends (I []) Q
  | [], _, h => h
  | b :: l, s, h => by
      rw [List.foldlM_cons]
      exact (hf b l s h).bind fun _ ht => ends_foldlM hf ht

end Ends

end Except
