import Mathlib.Init

/-!
# Jobs that can stop on the way

A job works on a state and ends with a value or stops with an error. What it did to the state
before it stopped stays done: nothing is rolled back. That is how code works on a disk.

`Triple P x Q E` is what such code is judged by. From a state with `P` the job ends with a value and
a state of which `Q` holds, **or it stops** with an error and a state of which `E` holds. Code in
sequence stops as its parts do, so `E` is the same all along (`Triple.bind`), and a job judged from
`P` may stop right away only where `P` implies `E`.
-/

universe u

variable {ε ε' σ α β γ : Type u}

/-- A job on states `σ` that can stop with `ε`. -/
def Job (ε σ α : Type u) := σ → Except ε α × σ

namespace Job

instance : Monad (Job ε σ) where
  pure a s := (.ok a, s)
  bind x f s :=
    match x s with
    | (.ok a, t) => f a t
    | (.error e, t) => (.error e, t)

/-- Stop. -/
def stop (e : ε) : Job ε σ α := fun s ↦ (.error e, s)

/-- The state. -/
def state : Job ε σ σ := fun s ↦ (.ok s, s)

/-- Change the state. -/
def change (f : σ → σ) : Job ε σ PUnit := fun s ↦ (.ok ⟨⟩, f s)

variable {a : α} {s t : σ} {x : Job ε σ α} {f : α → Job ε σ β} {e : ε}

theorem bind_of_ok (h : x s = (.ok a, t)) :
    (x >>= f) s = f a t := by
  show (match x s with | (.ok a, t) => f a t | (.error e, t) => (.error e, t)) = _
  rw [h]

theorem bind_of_error (h : x s = (.error e, t)) : (x >>= f) s = (.error e, t) := by
  show (match x s with | (.ok a, t) => f a t | (.error e, t) => (.error e, t)) = _
  rw [h]

/-- Two continuations that agree where the first part ends. -/
theorem bind_congr {g : α → Job ε σ β} (h : ∀ a t, x s = (.ok a, t) → f a t = g a t) :
    (x >>= f) s = (x >>= g) s := by
  match hx : x s with
  | (.ok a, t) => rw [bind_of_ok hx, bind_of_ok hx, h a t hx]
  | (.error e, t) => rw [bind_of_error hx, bind_of_error hx]

/-! ### Triples -/

/-- From `P`, the job ends with `Q` or stops with `E`. -/
def Triple (P : σ → Prop) (x : Job ε σ α) (Q : α → σ → Prop) (E : ε → σ → Prop) : Prop :=
  ∀ s, P s → match x s with
    | (.ok a, t) => Q a t
    | (.error e, t) => E e t

variable {P P' : σ → Prop} {Q Q' : α → σ → Prop} {E E' : ε → σ → Prop}

theorem Triple.of_ok (h : Triple P x Q E) (hs : P s) (hx : x s = (.ok a, t)) :
    Q a t := by
  have := h s hs
  rwa [hx] at this

theorem Triple.of_error (h : Triple P x Q E) (hs : P s) (hx : x s = (.error e, t)) :
    E e t := by
  have := h s hs
  rwa [hx] at this

/-- What holds however the job ends, holds of the state it ends in. -/
theorem Triple.final {A : σ → Prop} (h : Triple P x (fun _ ↦ A) fun _ ↦ A) {s} (hs : P s) :
    A (x s).2 := by
  rcases hrun : x s with ⟨e | a, t⟩
  · exact h.of_error hs hrun
  · exact h.of_ok hs hrun

theorem Triple.mono (h : Triple P x Q E) (hP : ∀ s, P' s → P s) (hQ : ∀ a s, Q a s → Q' a s)
    (hE : ∀ e s, E e s → E' e s) : Triple P' x Q' E' := by
  intro s hs
  rcases hrun : x s with ⟨e | a, t⟩
  · exact hE e t (h.of_error (hP s hs) hrun)
  · exact hQ a t (h.of_ok (hP s hs) hrun)

theorem Triple.of_imp (h : Triple P x Q E) (hP : ∀ s, P' s → P s) : Triple P' x Q E :=
  h.mono hP (fun _ _ hQ ↦ hQ) fun _ _ hE ↦ hE

/-- A fact that does not depend on the state can be taken out of the start. -/
theorem Triple.of_fact {p : Prop} (hp : ∀ s, P s → p) (h : p → Triple P x Q E) : Triple P x Q E :=
  fun s hs ↦ h (hp s hs) s hs

theorem triple_exists {ι : Sort*} {P : ι → σ → Prop} (h : ∀ i, Triple (P i) x Q E) :
    Triple (fun s ↦ ∃ i, P i s) x Q E := fun s ⟨i, hs⟩ ↦ h i s hs

theorem triple_pure (h : ∀ s, P s → Q a s) : Triple P (pure a : Job ε σ α) Q E := h

theorem triple_stop (h : ∀ s, P s → E e s) : Triple P (stop e : Job ε σ α) Q E := h

/-- Jobs in sequence: what the first ends with, the second starts from. -/
theorem Triple.bind {R : β → σ → Prop} (hx : Triple P x Q E) (hf : ∀ a, Triple (Q a) (f a) R E) :
    Triple P (x >>= f) R E := by
  intro s hs
  rcases hrun : x s with ⟨e | a, t⟩
  · rw [bind_of_error hrun]
    exact hx.of_error hs hrun
  · rw [bind_of_ok hrun]
    exact hf a t (hx.of_ok hs hrun)

/-- Jobs in sequence, the first of which ends with a fact on its value alone. -/
theorem Triple.bind_fact {p : α → Prop} {R : β → σ → Prop}
    (hx : Triple P x (fun a s ↦ p a ∧ Q a s) E) (hf : ∀ a, p a → Triple (Q a) (f a) R E) :
    Triple P (x >>= f) R E := hx.bind fun a s hs ↦ hf a hs.1 s hs.2

theorem triple_ite {c : Prop} [Decidable c] {y : Job ε σ α} (hx : c → Triple P x Q E)
    (hy : ¬c → Triple P y Q E) : Triple P (if c then x else y) Q E := by
  by_cases hc : c
  · rw [if_pos hc]
    exact hx hc
  · rw [if_neg hc]
    exact hy hc

theorem triple_state : Triple P (state : Job ε σ σ) (fun s t ↦ s = t ∧ P t) E :=
  fun _ hs ↦ ⟨rfl, hs⟩

theorem triple_change {f : σ → σ} {R : PUnit → σ → Prop} (h : ∀ s, P s → R ⟨⟩ (f s)) :
    Triple P (change f : Job ε σ PUnit) R E := h

/-- A loop, by what holds after a part of the list. -/
theorem triple_forM {f : γ → Job ε σ PUnit} {l : List γ} {P : List γ → σ → Prop}
    (h : ∀ before a after, l = before ++ a :: after →
      Triple (P before) (f a) (fun _ ↦ P (before ++ [a])) E) :
    Triple (P []) (l.forM f) (fun _ ↦ P l) E := by
  suffices hsuffix : ∀ before after, l = before ++ after →
      Triple (P before) (after.forM f) (fun _ ↦ P l) E from hsuffix [] l rfl
  intro before after
  induction after generalizing before with
  | nil =>
    rintro rfl
    exact triple_pure fun s hs ↦ by rwa [List.append_nil]
  | cons a after ih =>
    intro hl
    exact (h before a after hl).bind fun _ ↦ ih (before ++ [a]) (by simpa using hl)

/-! ### Halts -/

end Job

/-- Why a process did not come to its end: an error it reports, a panic, or none. A process that is
**unfinished** is one that was looked at while it was still going. -/
inductive Halt (ε : Type u)
  | error (e : ε)
  | panicked
  | unfinished
deriving DecidableEq, Repr

namespace Job

/-- Report an error. -/
def fail (e : ε) : Job (Halt ε) σ α := stop (.error e)

/-- Take an error as a value. A panic is not an error. -/
def attempt (x : Job (Halt ε) σ α) : Job (Halt ε) σ (Except ε α) := fun s ↦
  match x s with
  | (.ok a, t) => (.ok (.ok a), t)
  | (.error (.error e), t) => (.ok (.error e), t)
  | (.error .panicked, t) => (.error .panicked, t)
  | (.error .unfinished, t) => (.error .unfinished, t)

/-- Report an error as another one. -/
def mapError (f : ε → ε') (x : Job (Halt ε) σ α) : Job (Halt ε') σ α := fun s ↦
  match x s with
  | (.ok a, t) => (.ok a, t)
  | (.error (.error e), t) => (.error (.error (f e)), t)
  | (.error .panicked, t) => (.error .panicked, t)
  | (.error .unfinished, t) => (.error .unfinished, t)

/-- Take a panic as a value, and drop the rest. -/
def catchUnwind (x : Job (Halt ε) σ α) : Job (Halt ε) σ (ULift Bool) := fun s ↦
  match x s with
  | (.error .panicked, t) => (.ok ⟨true⟩, t)
  | (.error .unfinished, t) => (.error .unfinished, t)
  | (_, t) => (.ok ⟨false⟩, t)

/-- Report an error where the condition holds. -/
def refuseIf (c : Prop) [Decidable c] (e : ε) : Job (Halt ε) σ PUnit :=
  if c then fail e else pure ⟨⟩

variable {x : Job (Halt ε) σ α} {H : Halt ε → σ → Prop}

theorem Triple.attempt {R : Except ε α → σ → Prop} (h : Triple P x Q H)
    (hok : ∀ a s, Q a s → R (.ok a) s) (herror : ∀ e s, H (.error e) s → R (.error e) s) :
    Triple P x.attempt R H := by
  intro s hs
  rcases hrun : x s with ⟨(e | _ | _) | a, t⟩ <;> simp only [Job.attempt, hrun]
  · exact herror e t (h.of_error hs hrun)
  · exact h.of_error hs hrun
  · exact h.of_error hs hrun
  · exact hok a t (h.of_ok hs hrun)

theorem Triple.mapError {f : ε → ε'} {H' : Halt ε' → σ → Prop} (h : Triple P x Q H)
    (herror : ∀ e s, H (.error e) s → H' (.error (f e)) s)
    (hpanic : ∀ s, H .panicked s → H' .panicked s)
    (hunfinished : ∀ s, H .unfinished s → H' .unfinished s) :
    Triple P (x.mapError f) Q H' := by
  intro s hs
  rcases hrun : x s with ⟨(e | _ | _) | a, t⟩ <;> simp only [Job.mapError, hrun]
  · exact herror e t (h.of_error hs hrun)
  · exact hpanic t (h.of_error hs hrun)
  · exact hunfinished t (h.of_error hs hrun)
  · exact h.of_ok hs hrun

theorem Triple.catchUnwind {R : ULift Bool → σ → Prop} (h : Triple P x Q H)
    (hok : ∀ a s, Q a s → R ⟨false⟩ s) (herror : ∀ e s, H (.error e) s → R ⟨false⟩ s)
    (hpanic : ∀ s, H .panicked s → R ⟨true⟩ s) : Triple P x.catchUnwind R H := by
  intro s hs
  rcases hrun : x s with ⟨(e | _ | _) | a, t⟩ <;> simp only [Job.catchUnwind, hrun]
  · exact herror e t (h.of_error hs hrun)
  · exact hpanic t (h.of_error hs hrun)
  · exact h.of_error hs hrun
  · exact hok a t (h.of_ok hs hrun)

theorem triple_fail {e} (h : ∀ s, P s → H (.error e) s) :
    Triple P (fail e : Job (Halt ε) σ α) Q H := h

theorem triple_refuseIf {c : Prop} [Decidable c] {e} (h : c → ∀ s, P s → H (.error e) s) :
    Triple P (refuseIf c e) (fun _ s ↦ ¬c ∧ P s) H :=
  triple_ite (fun hc ↦ triple_fail (h hc)) fun hc ↦ triple_pure fun _ hs ↦ ⟨hc, hs⟩

end Job
