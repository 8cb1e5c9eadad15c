import Maknae.Foundation.Guards
import Mathlib.Data.Nat.Cast.Basic
import Mathlib.Data.List.Basic

/-!
# Computations that can panic

Code that indexes, slices and adds fixed-width integers has three outcomes: a value, an error it
reports, or a panic. `Outcome` keeps the panic apart from the errors, so that "this never panics" is
a statement about the code and not a property of the model.

`Sat x Q` says that `x` does not panic and that its value, if it has one, satisfies `Q`. It composes
along the monad (`sat_bind`) and along loops (`sat_foldlM`, `sat_mapM`, `sat_forM`). `Silent x` says
that `x` reports no error.
-/

universe u v

/-- Why a computation has no value. -/
inductive Fault (ε : Type u)
  | error (e : ε)
  | panicked
deriving DecidableEq, Repr

/-- A computation that reports errors and can panic. -/
abbrev Outcome (ε : Type u) (α : Type v) := Except (Fault ε) α

namespace Outcome

open List

variable {ε : Type u} {α β : Type v}

/-- Report an error. -/
def fail (e : ε) : Outcome ε α := .error (.error e)

def panicked : Outcome ε α := .error .panicked

/-- The value as an unsigned integer of `w` bits. -/
def narrow (w n : ℕ) : Outcome ε ℕ := if n < 2 ^ w then .ok n else panicked

/-- The sum as an unsigned integer of `w` bits. -/
def checkedAdd (w a b : ℕ) : Outcome ε ℕ := narrow w (a + b)

/-- The product as an unsigned integer of `w` bits. -/
def checkedMul (w a b : ℕ) : Outcome ε ℕ := narrow w (a * b)

theorem narrow_eq_ok {w n m} : (narrow w n : Outcome ε ℕ) = .ok m ↔ n < 2 ^ w ∧ n = m := by
  rw [narrow]
  split_ifs with h
  · simp [h]
  · simp [h, panicked]

/-! ### No panic -/

/-- The computation does not panic, and its value satisfies `Q`. -/
def Sat (x : Outcome ε α) (Q : α → Prop) : Prop :=
  match x with
  | .ok a => Q a
  | .error (.error _) => True
  | .error .panicked => False

variable {x : Outcome ε α} {Q R : α → Prop}

variable {a : α} {f : α → Outcome ε β} {γ : Type*} {l : List γ}

@[simp] theorem sat_ok : Sat (.ok a : Outcome ε α) Q ↔ Q a := Iff.rfl

@[simp] theorem sat_pure : Sat (pure a : Outcome ε α) Q ↔ Q a := Iff.rfl

@[simp] theorem sat_fail {e} : Sat (fail e : Outcome ε α) Q := trivial

theorem Sat.mono (h : Sat x Q) (hQ : ∀ a, Q a → R a) : Sat x R := by
  rcases x with (e | _) | a
  · trivial
  · exact h
  · exact hQ a h

theorem Sat.of_ok (h : Sat x Q) (hx : x = .ok a) : Q a := by
  subst hx
  exact h

theorem Sat.ne_panicked (h : Sat x Q) : x ≠ panicked := by
  rintro rfl
  exact h

/-- What is known of the computation itself is known of its value. -/
theorem Sat.and_eq_ok (h : Sat x Q) : Sat x fun a ↦ x = .ok a ∧ Q a := by
  rcases x with (e | _) | a
  · trivial
  · exact h
  · exact ⟨rfl, h⟩

theorem sat_bind {Q : α → Prop} {R : β → Prop} (hx : Sat x Q) (hf : ∀ a, Q a → Sat (f a) R) :
    Sat (x >>= f) R := by
  rcases x with (e | _) | a
  · trivial
  · exact hx
  · exact hf a hx

theorem sat_narrow {w n} (h : n < 2 ^ w) : Sat (narrow w n : Outcome ε ℕ) (· = n) := by
  rw [narrow, if_pos h]
  exact sat_ok.mpr rfl

/-- What each step of a loop keeps, the loop keeps. The invariant may count the steps left. -/
theorem sat_foldlM {σ : Type v} {f : σ → γ → Outcome ε σ} (P : List γ → σ → Prop)
    (hstep : ∀ a l s, P (a :: l) s → Sat (f s a) (P l)) {s} (hs : P l s) :
    Sat (l.foldlM f s) (P []) := by
  induction l generalizing s with
  | nil => exact hs
  | cons a l ih =>
    exact sat_bind (hstep a l s hs) fun t ht ↦ ih ht

theorem sat_mapM {f : γ → Outcome ε β} {Q : γ → β → Prop} (h : ∀ a ∈ l, Sat (f a) (Q a)) :
    Sat (l.mapM f) (List.Forall₂ Q l) := by
  induction l with
  | nil => exact sat_pure.mpr .nil
  | cons a l ih =>
    rw [mapM_cons]
    refine sat_bind (h a mem_cons_self) fun b hb ↦ ?_
    refine sat_bind (ih fun c hc ↦ h c (mem_cons_of_mem a hc)) fun bs hbs ↦ ?_
    exact sat_pure.mpr (.cons hb hbs)

theorem sat_forM {f : γ → Outcome ε PUnit} (h : ∀ a ∈ l, Sat (f a) fun _ ↦ True) :
    Sat (l.forM f) fun _ ↦ True := by
  induction l with
  | nil => exact trivial
  | cons a l ih =>
    refine sat_bind (h a mem_cons_self) fun _ _ ↦ ?_
    exact ih fun b hb ↦ h b (mem_cons_of_mem a hb)

/-! ### No error -/

/-- The computation reports no error: it has a value or panics. -/
def Silent (x : Outcome ε α) : Prop := ∀ e, x ≠ fail e

theorem silent_pure (a : α) : Silent (pure a : Outcome ε α) := nofun

theorem silent_bind (hx : Silent x) (hf : ∀ a, Silent (f a)) :
    Silent (x >>= f) := by
  rcases x with (e | _) | a
  · exact absurd rfl (hx e)
  · exact nofun
  · exact hf a

theorem silent_narrow (w n : ℕ) : Silent (narrow w n : Outcome ε ℕ) := by
  rw [narrow]
  split_ifs
  · exact nofun
  · exact nofun

theorem silent_mapM {f : γ → Outcome ε β} (h : ∀ a, Silent (f a)) (l : List γ) :
    Silent (l.mapM f) := by
  induction l with
  | nil => exact silent_pure []
  | cons a l ih =>
    rw [mapM_cons]
    exact silent_bind (h a) fun b ↦ silent_bind ih fun bs ↦ silent_pure _

end Outcome
