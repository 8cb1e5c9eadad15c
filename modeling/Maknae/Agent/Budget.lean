import Maknae.Proto.EgressFrame
import Mathlib.Algebra.Order.Floor.Div
import Mathlib.GroupTheory.GroupAction.Ring

/-!
# The context budget of a conversation

The user declares the window of the model. Before each prompt the loop projects how many tokens the
transcript will take and stops where that is more than the window leaves. The projection is from
what the provider reported so far, and never below the bytes at the default ratio.

Byte and token counts are words of 64 bits and the projection is computed in 128: natural numbers
here, with the two cuts back to 64 bits written out.
-/

namespace Maknae.Agent

open Option Proto

def defaultBytesPerToken : ℕ := 4
def preambleAllowanceTokens : ℕ := 1536

/-- A declared window that leaves more than the preamble for the prompt. -/
structure ContextBudget where
  contextTokens : ℕ
  outputTokens : Option ℕ
  contextTokens_le : contextTokens ≤ maxContextTokens
  outputTokens_ne : outputTokens ≠ some 0
  lt_contextTokens : preambleAllowanceTokens + outputTokens.getD 0 < contextTokens

namespace ContextBudget

def new (contextTokens : ℕ) (outputTokens : Option ℕ) : Except String ContextBudget :=
  if hmax : maxContextTokens < contextTokens then
    .error s!"context_tokens {contextTokens} is above the {maxContextTokens} ceiling"
  else if hzero : outputTokens = some 0 then .error "output_tokens must be at least 1"
  else if hlt : preambleAllowanceTokens + outputTokens.getD 0 < contextTokens then
    .ok ⟨contextTokens, outputTokens, not_lt.mp hmax, hzero, hlt⟩
  else
    .error ("context_tokens less output_tokens must exceed the " ++
      s!"{preambleAllowanceTokens}-token preamble allowance")

/-- What is left for the prompt. -/
def promptBudget (b : ContextBudget) : ℕ := b.contextTokens - b.outputTokens.getD 0

end ContextBudget

/-- What the user is told of a context that fills up. -/
structure Notice where
  percent : ℕ
  tokens : ℕ
  budget : ℕ
  estimated : Bool
deriving DecidableEq, Repr

/-- Whether the next prompt may go. -/
inductive Gate
  | send (notice : Option Notice)
  | stop
deriving DecidableEq, Repr

/-- The first and the last measurement: bytes sent, and the prompt tokens reported for them. -/
structure Meter where
  budget : ContextBudget
  first : Option (ℕ × ℕ)
  last : Option (ℕ × ℕ)
  warned80 : Bool
  warned95 : Bool

namespace Meter

def new (budget : ContextBudget) : Meter := ⟨budget, none, none, false, false⟩

/-- Take the measurement of a reply. -/
def record (m : Meter) (bytesSent : ℕ) (usage : Option Usage) : Meter :=
  match usage.filter fun u ↦ 0 < u.promptTokens with
  | none => m
  | some u =>
    let measured := (bytesSent, min u.promptTokens maxContextTokens)
    { m with first := m.first.or (some measured), last := some measured }

/-- Bytes per token, between one and the default. -/
def ratio (m : Meter) : ℕ :=
  match m.first, m.last with
  | some (bf, tf), some (bl, tl) =>
    if bf < bl ∧ tf < tl then max 1 (min ((bl - bf) / (tl - tf)) defaultBytesPerToken)
    else defaultBytesPerToken
  | _, _ => defaultBytesPerToken

/-- The tokens expected for a transcript, and whether that is an estimate. -/
def projected (m : Meter) (bytes : ℕ) : ℕ × Bool :=
  let floor := bytes ⌈/⌉ defaultBytesPerToken
  match m.last with
  | some (bl, tl) => (max (tl + (bytes - bl) ⌈/⌉ m.ratio) floor, false)
  | none => (preambleAllowanceTokens + floor, true)

/-- Stop past the budget, and give notice once at each mark. -/
def gate (m : Meter) (bytes : ℕ) : Gate × Meter :=
  let (projected, estimated) := m.projected bytes
  let budget := m.budget.promptBudget
  if budget < projected then (.stop, m)
  else
    let percent := projected * 100 / budget
    let notice := ⟨percent % 2 ^ 64, projected % 2 ^ 64, budget, estimated⟩
    if 95 ≤ percent ∧ !m.warned95 then
      (.send (some notice), { m with warned95 := true, warned80 := true })
    else if 80 ≤ percent ∧ !m.warned80 then (.send (some notice), { m with warned80 := true })
    else (.send none, m)

end Meter

/-! ### The same in machine words -/

/-- A sum, a product or a narrowed value of fewer than so many bits. -/
def fits (bits n : ℕ) : Option ℕ := if n < 2 ^ bits then some n else none

def subChecked (a b : ℕ) : Option ℕ := if b ≤ a then some (a - b) else none

def divChecked (a b : ℕ) : Option ℕ := if b = 0 then none else some (a / b)

def divCeilChecked (a b : ℕ) : Option ℕ := do
  let d ← divChecked a b
  if a % b = 0 then some d else fits 128 (d + 1)

namespace Meter

def ratioChecked (m : Meter) : Option ℕ :=
  match m.first, m.last with
  | some (bf, tf), some (bl, tl) =>
    if bf < bl ∧ tf < tl then do
      let observed ← divChecked (← subChecked bl bf) (← subChecked tl tf)
      return max 1 (min observed defaultBytesPerToken)
    else some defaultBytesPerToken
  | _, _ => some defaultBytesPerToken

def projectedChecked (m : Meter) (bytes : ℕ) : Option (ℕ × Bool) := do
  let floor ← divCeilChecked bytes defaultBytesPerToken
  match m.last with
  | some (bl, tl) =>
    let more ← divCeilChecked (bytes - bl) (← m.ratioChecked)
    return (max (← fits 128 (tl + more)) floor, false)
  | none => return (← fits 128 (preambleAllowanceTokens + floor), true)

/-- The gate with every operation checked: no value where one divides by zero, overflows or is cut
short. -/
def gateChecked (m : Meter) (bytes : ℕ) : Option (Gate × Meter) := do
  let (projected, estimated) ← m.projectedChecked bytes
  let budget ← subChecked m.budget.contextTokens (m.budget.outputTokens.getD 0)
  if budget < projected then return (.stop, m)
  else
    let percent ← divChecked (← fits 128 (projected * 100)) budget
    let notice := ⟨← fits 64 percent, ← fits 64 projected, budget, estimated⟩
    if 95 ≤ percent ∧ !m.warned95 then
      return (.send (some notice), { m with warned95 := true, warned80 := true })
    else if 80 ≤ percent ∧ !m.warned80 then
      return (.send (some notice), { m with warned80 := true })
    else return (.send none, m)

end Meter

/-! ### Runs of the meter -/

/-- A use of the meter. -/
inductive MeterCall
  | record (bytesSent : ℕ) (usage : Option Usage)
  | gate (bytes : ℕ)

def Gate.notices : Gate → List Notice
  | .send notice => notice.toList
  | .stop => []

namespace Meter

def call (m : Meter) : MeterCall → Meter
  | .record bytesSent usage => m.record bytesSent usage
  | .gate bytes => (m.gate bytes).2

def run (m : Meter) (calls : List MeterCall) : Meter := calls.foldl call m

/-- The notices that are given in a run. -/
def notices (m : Meter) : List MeterCall → List Notice
  | [] => []
  | .record bytesSent usage :: calls => (m.record bytesSent usage).notices calls
  | .gate bytes :: calls => (m.gate bytes).1.notices ++ (m.gate bytes).2.notices calls

variable {m : Meter} {n bytes : ℕ}

theorem promptBudget_pos (b : ContextBudget) : 0 < b.promptBudget := by
  have := b.lt_contextTokens
  rw [ContextBudget.promptBudget]
  omega

theorem promptBudget_le (b : ContextBudget) : b.promptBudget ≤ maxContextTokens :=
  (Nat.sub_le _ _).trans b.contextTokens_le

theorem ratio_pos (m : Meter) : 0 < m.ratio := by
  rw [ratio]
  split
  · split_ifs <;> simp [defaultBytesPerToken]
  · decide

theorem gate_eq_stop_iff :
    (m.gate bytes).1 = .stop ↔ m.budget.promptBudget < (m.projected bytes).1 := by
  rw [gate]
  dsimp only
  split_ifs <;> simp_all

/-- A projection is at least what the default ratio gives. -/
theorem ceilDiv_le_projected (m : Meter) (bytes : ℕ) :
    bytes ⌈/⌉ defaultBytesPerToken ≤ (m.projected bytes).1 := by
  rw [projected]
  split
  · exact le_max_right _ _
  · exact Nat.le_add_left _ _

/-- More bytes are projected to no fewer tokens, **whatever was recorded**. -/
theorem projected_mono (m : Meter) (h : n ≤ bytes) : (m.projected n).1 ≤ (m.projected bytes).1 := by
  have hceil : ∀ {a b d : ℕ}, 0 < d → a ≤ b → a ⌈/⌉ d ≤ b ⌈/⌉ d := fun hd hab ↦
    (gc_mul_ceilDiv hd).monotone_l hab
  have hfloor : n ⌈/⌉ defaultBytesPerToken ≤ bytes ⌈/⌉ defaultBytesPerToken := hceil (by decide) h
  rw [projected, projected]
  split
  · next bl tl _ =>
    exact max_le_max (Nat.add_le_add_left (hceil m.ratio_pos (Nat.sub_le_sub_right h bl)) tl) hfloor
  · exact Nat.add_le_add_left hfloor _

/-! ### Notices -/

/-- What a gate does to the flags, and when it gives a notice. -/
theorem gate_cases (m : Meter) (bytes : ℕ) :
    (m.gate bytes).1.notices = [] ∧ (m.gate bytes).2 = m ∨
      ∃ notice, (m.gate bytes).1.notices = [notice] ∧
        (95 ≤ notice.percent ∧ m.warned95 = false ∧
            (m.gate bytes).2 = { m with warned95 := true, warned80 := true } ∨
          80 ≤ notice.percent ∧ (95 ≤ notice.percent → m.warned95 = true) ∧ m.warned80 = false ∧
            (m.gate bytes).2 = { m with warned80 := true }) := by
  rw [gate]
  dsimp only
  split_ifs with hstop h95 h80
  · exact .inl ⟨rfl, rfl⟩
  all_goals
    have hpercent : (m.projected bytes).1 * 100 / m.budget.promptBudget % 2 ^ 64 =
        (m.projected bytes).1 * 100 / m.budget.promptBudget := by
      refine Nat.mod_eq_of_lt (lt_of_le_of_lt (Nat.div_le_of_le_mul ?_)
        (show 100 < 2 ^ 64 by decide))
      exact Nat.mul_le_mul_right 100 (not_lt.mp hstop)
  · exact .inr ⟨_, rfl, .inl ⟨h95.1.trans_eq hpercent.symm, by simpa using h95.2, rfl⟩⟩
  · refine .inr ⟨_, rfl, .inr ⟨h80.1.trans_eq hpercent.symm, fun h ↦ ?_, by simpa using h80.2, rfl⟩⟩
    by_contra hwarned
    exact h95 ⟨h.trans_eq hpercent, by simpa using hwarned⟩
  · exact .inl ⟨rfl, rfl⟩

/-- A meter that warned at 95 warned at 80. -/
def Warned (m : Meter) : Prop := m.warned95 = true → m.warned80 = true

/-- One notice below 95 and one from there on, in that order, and none that was given before. -/
theorem notices_spec (hm : m.Warned) (calls : List MeterCall) :
    (m.notices calls).Pairwise (fun a b ↦ a.percent < 95 ∧ 95 ≤ b.percent) ∧
      (∀ a ∈ m.notices calls, 80 ≤ a.percent ∧ (m.warned80 = true → 95 ≤ a.percent)) ∧
      (m.warned95 = true → m.notices calls = []) := by
  induction calls generalizing m with
  | nil => exact ⟨.nil, nofun, fun _ ↦ rfl⟩
  | cons c calls ih =>
    cases c with
    | record bytesSent usage =>
      have hflags : (m.record bytesSent usage).warned80 = m.warned80 ∧
          (m.record bytesSent usage).warned95 = m.warned95 := by
        rw [record]
        split <;> exact ⟨rfl, rfl⟩
      have hrest := ih (by rwa [Warned, hflags.1, hflags.2])
      rwa [hflags.1, hflags.2] at hrest
    | gate bytes =>
      rw [notices]
      rcases m.gate_cases bytes with ⟨hnone, hnext⟩ | ⟨notice, hone, hcase⟩
      · rw [hnone, hnext]
        exact ih hm
      rcases hcase with ⟨h95, hwarned, hnext⟩ | ⟨h80, hlow, hwarned, hnext⟩
      · -- A warning at 95 is the last one.
        obtain ⟨-, -, hnil⟩ := ih (m := { m with warned95 := true, warned80 := true }) fun _ ↦ rfl
        rw [hone, hnext, hnil rfl]
        simp [h95, hwarned, Nat.le_trans (show 80 ≤ 95 by decide) h95]
      · have h95 : m.warned95 = false := by
          by_contra hcontra
          exact absurd (hm (by simpa using hcontra)) (by simp [hwarned])
        obtain ⟨hpair, hfrom, -⟩ := ih (m := { m with warned80 := true }) fun _ ↦ rfl
        have hlt : notice.percent < 95 := not_le.mp fun h ↦ by simp [hlow h] at h95
        rw [hone, hnext, List.singleton_append]
        refine ⟨List.pairwise_cons.mpr ⟨fun b hb ↦ ⟨hlt, (hfrom b hb).2 rfl⟩, hpair⟩, ?_,
          by simp [h95]⟩
        simp only [hwarned, List.mem_cons, forall_eq_or_imp]
        exact ⟨⟨h80, nofun⟩, fun a ha ↦ ⟨(hfrom a ha).1, nofun⟩⟩

/-! ### Machine words -/

theorem fits_eq {bits} (h : n < 2 ^ bits) : fits bits n = some n := if_pos h

variable {a b : ℕ}

theorem subChecked_eq (h : b ≤ a) : subChecked a b = some (a - b) := if_pos h

theorem divChecked_eq (h : 0 < b) : divChecked a b = some (a / b) := if_neg h.ne'

theorem divCeilChecked_eq (ha : a < 2 ^ 64) (hb : 0 < b) :
    divCeilChecked a b = some (a ⌈/⌉ b) := by
  have hle : a / b ≤ a := Nat.div_le_self a b
  have hlt := Nat.mod_lt a hb
  have hceil : a ⌈/⌉ b = a / b + (a % b + b - 1) / b := by
    rw [Nat.ceilDiv_eq_add_pred_div, ← Nat.mul_add_div hb]
    congr 1
    have := Nat.div_add_mod a b
    omega
  rw [divCeilChecked, divChecked_eq hb, hceil]
  show (if a % b = 0 then some (a / b) else fits 128 (a / b + 1)) = _
  split_ifs with hmod
  · rw [hmod, Nat.zero_add, Nat.div_eq_of_lt (Nat.sub_one_lt hb.ne'), Nat.add_zero]
  · have hone : (a % b + b - 1) / b = 1 := Nat.div_eq_of_lt_le (by omega) (by omega)
    rw [fits_eq (by omega), hone]

/-- The ratio is computed without overflow. -/
theorem ratioChecked_eq (m : Meter) : m.ratioChecked = some m.ratio := by
  rw [ratioChecked, ratio]
  split
  · split_ifs with h
    · rw [subChecked_eq h.1.le, subChecked_eq h.2.le]
      show (divChecked _ _ >>= _) = _
      rw [divChecked_eq (Nat.sub_pos_of_lt h.2)]
      rfl
    · rfl
  · rfl

/-- Every measurement is within the largest window. -/
def Measured (m : Meter) : Prop := ∀ bl tl, m.last = some (bl, tl) → tl ≤ maxContextTokens

theorem Measured.record (h : m.Measured) (bytesSent : ℕ) (usage : Option Usage) :
    (m.record bytesSent usage).Measured := by
  rw [Meter.record]
  split
  · exact h
  · rintro bl tl heq
    cases heq
    exact min_le_right _ _

theorem ceilDiv_le_self (hb : 0 < b) : a ⌈/⌉ b ≤ a :=
  (ceilDiv_le_iff_le_mul hb).mpr (Nat.le_mul_of_pos_left a hb)

theorem projectedChecked_eq (h : m.Measured) (hbytes : bytes < 2 ^ 64) :
    m.projectedChecked bytes = some (m.projected bytes) ∧ (m.projected bytes).1 < 2 ^ 66 := by
  have hfloor : bytes ⌈/⌉ defaultBytesPerToken ≤ bytes := ceilDiv_le_self (by decide)
  rw [projectedChecked, projected, divCeilChecked_eq hbytes (by decide)]
  rcases hlast : m.last with - | ⟨bl, tl⟩
  · have hsum : preambleAllowanceTokens + bytes ⌈/⌉ defaultBytesPerToken < 2 ^ 66 := by
      rw [preambleAllowanceTokens]
      omega
    exact ⟨by simp [fits_eq (hsum.trans (show 2 ^ 66 < 2 ^ 128 by decide))], hsum⟩
  · have hmore : (bytes - bl) ⌈/⌉ m.ratio ≤ bytes - bl := ceilDiv_le_self m.ratio_pos
    have hsum : tl + (bytes - bl) ⌈/⌉ m.ratio < 2 ^ 66 := by
      have := h bl tl hlast
      rw [maxContextTokens] at this
      omega
    refine ⟨?_, max_lt hsum (by omega)⟩
    simp [ratioChecked_eq, divCeilChecked_eq (show bytes - bl < 2 ^ 64 by omega) m.ratio_pos,
      fits_eq (hsum.trans (show 2 ^ 66 < 2 ^ 128 by decide))]

/-- No operation of the gate divides by zero, overflows or is cut short. -/
theorem gateChecked_eq (h : m.Measured) (hbytes : bytes < 2 ^ 64) :
    m.gateChecked bytes = some (m.gate bytes) := by
  obtain ⟨hprojected, hlt⟩ := projectedChecked_eq h hbytes
  have hbudget := promptBudget_le m.budget
  rw [maxContextTokens] at hbudget
  have hsub : subChecked m.budget.contextTokens (m.budget.outputTokens.getD 0) =
      some m.budget.promptBudget :=
    subChecked_eq ((Nat.le_add_left _ _).trans m.budget.lt_contextTokens.le)
  rcases hp : m.projected bytes with ⟨p, estimated⟩
  simp only [gateChecked, gate, hprojected, hp, hsub, bind_eq_bind, bind_some]
  by_cases hstop : m.budget.promptBudget < p
  · rw [if_pos hstop, if_pos hstop]
    rfl
  · rw [if_neg hstop]
    have hle : p ≤ m.budget.promptBudget := not_lt.mp hstop
    have hpercent : p * 100 / m.budget.promptBudget ≤ 100 :=
      Nat.div_le_of_le_mul (Nat.mul_le_mul_right 100 hle)
    have hpercent64 : p * 100 / m.budget.promptBudget < 2 ^ 64 := hpercent.trans_lt (by decide)
    have hp64 : p < 2 ^ 64 := by omega
    simp only [fits_eq (show p * 100 < 2 ^ 128 by omega), fits_eq hpercent64, fits_eq hp64,
      divChecked_eq (promptBudget_pos m.budget), Nat.mod_eq_of_lt hpercent64, Nat.mod_eq_of_lt hp64,
      bind_some]
    split_ifs <;> rfl

theorem measured_run (h : m.Measured) (calls : List MeterCall) :
    (m.run calls).Measured ∧ (m.run calls).budget = m.budget := by
  induction calls generalizing m with
  | nil => exact ⟨h, rfl⟩
  | cons c calls ih =>
    cases c with
    | record bytesSent usage =>
      refine (ih (h.record bytesSent usage)).imp_right fun hrest ↦ hrest.trans ?_
      rw [Meter.record]
      split <;> rfl
    | gate bytes =>
      have hnext : (m.gate bytes).2.last = m.last ∧ (m.gate bytes).2.budget = m.budget := by
        rw [gate]
        dsimp only
        split_ifs <;> exact ⟨rfl, rfl⟩
      exact (ih fun bl tl hlast ↦ h bl tl (hnext.1 ▸ hlast)).imp_right fun hrest ↦
        hrest.trans hnext.2

/-- **The meter cannot be switched off**, whatever usage is reported: a transcript that is over the
budget at the default ratio is not sent, what stops a transcript stops every longer one, each notice
is given once and in order, and the arithmetic is exact on words of 64 bits. -/
theorem meter_stays_on (budget : ContextBudget) (calls : List MeterCall) :
    let m := (new budget).run calls
    (∀ bytes, budget.promptBudget < bytes ⌈/⌉ 4 → (m.gate bytes).1 = .stop) ∧
    (∀ n bytes, n ≤ bytes → (m.gate n).1 = .stop → (m.gate bytes).1 = .stop) ∧
    ((new budget).notices calls).Pairwise (fun a b ↦ a.percent < 95 ∧ 95 ≤ b.percent) ∧
    (∀ notice ∈ (new budget).notices calls, 80 ≤ notice.percent) ∧
    ∀ bytes < 2 ^ 64, m.gateChecked bytes = some (m.gate bytes) := by
  intro m
  obtain ⟨hmeasured, hbudget⟩ := measured_run (m := new budget) (fun _ _ h ↦ nomatch h) calls
  obtain ⟨hpair, hfrom, -⟩ := notices_spec (m := new budget) (fun h ↦ nomatch h) calls
  refine ⟨fun bytes hover ↦ ?_, fun n bytes hle hstop ↦ ?_, hpair, fun a ha ↦ (hfrom a ha).1,
    fun bytes hbytes ↦ gateChecked_eq hmeasured hbytes⟩
  · rw [gate_eq_stop_iff, hbudget]
    exact hover.trans_le (m.ceilDiv_le_projected bytes)
  · rw [gate_eq_stop_iff] at hstop ⊢
    exact hstop.trans_le (m.projected_mono hle)

/-- A provider that reports one token for everything. -/
def oneToken : Option Usage := some ⟨1, none⟩

def smallBudget : ContextBudget := ⟨2000, none, by decide, nofun, by decide⟩

theorem meter_stays_on_oneToken :
    let m := (new smallBudget).run [.gate 1000, .record 1000 oneToken, .record 7000 oneToken]
    (m.gate 8000).1 = .send (some ⟨100, 2000, 2000, false⟩) ∧ (m.gate 8001).1 = .stop ∧
      m.gateChecked (2 ^ 64 - 1) = some (m.gate (2 ^ 64 - 1)) := by
  obtain ⟨hover, -, -, -, hexact⟩ := meter_stays_on smallBudget
    [.gate 1000, .record 1000 oneToken, .record 7000 oneToken]
  exact ⟨by decide, hover 8001 (by decide), hexact _ (by decide)⟩

end Meter

end Maknae.Agent
