import Maknae.Authz.Permit
import Maknae.Kernel.Classification

/-!
# The classification ceiling and the composition of the decision point

The daemon decides every request with two operands: the baseline, which holds the grants, and the
ceiling of the deployment in its classification system. `decideCeiling` makes a demand on content
only; a satisfied demand is an absence and never a permit, so that the ceiling can refuse what the
baseline permits and cannot permit what it does not.

The baseline is arbitrary here: it may answer anything, panic, or answer a batch with the wrong
number of verdicts.
-/

namespace Maknae.Kernel

open Authz hiding Decided
open List Security

/-! ### The operand -/

/-- The action classes that carry no content. -/
def controlPlaneClasses : List String := ["liveness", "admin", "kernel"]

def isControlPlane (action : String) : Bool :=
  controlPlaneClasses.any fun c ↦ inClass action c

/-- The booted ceiling in the booted system. -/
structure CeilingAuthorizer where
  /-- The level of the declared ceiling. Its other fields are not read. -/
  classification : Level
  policy : ClassificationPolicy

def decideCeiling (ceiling : CeilingAuthorizer) (action : String) (label : Label) : Verdict :=
  if isControlPlane action then .notApplicable none
  else
    match resolveLevel systems ceiling.policy label with
    | .error reason => .deny reason
    | .ok level =>
      match ceiling.policy.dominates ceiling.classification level with
      | some true => .notApplicable none
      | some false =>
        let (marked, declared) := (level.name, ceiling.classification.name)
        .deny s!"ceiling: content marked {marked} exceeds the declared ceiling {declared}"
      | none =>
        let own := ceiling.policy.name
        .deny s!"ceiling: the declared ceiling is not a level of the {own} system"

namespace CeilingAuthorizer

def decide (ceiling : CeilingAuthorizer) (req : Request) : Verdict :=
  decideCeiling ceiling req.action (labelOf req)

def operand (ceiling : CeilingAuthorizer) : CitedAuthorizer where
  decideCited req := some ⟨ceiling.decide req, none, none⟩
  decideCitedAll reqs := some (reqs.map fun req ↦ ⟨ceiling.decide req, none, none⟩)

end CeilingAuthorizer

/-- The decision point: the baseline first, then the ceiling. -/
structure Composition where
  baseline : CitedAuthorizer
  ceiling : CeilingAuthorizer

namespace Composition

def operands (c : Composition) : List CitedAuthorizer := [c.baseline, c.ceiling.operand]

def decideCited (c : Composition) (req : Request) : Decided := composeDecideCited c.operands req

def decideCitedAll (c : Composition) (reqs : List Request) : List Decided :=
  composeDecideCitedAll c.operands reqs

end Composition

/-! ### What the ceiling refuses -/

theorem isControlPlane_iff {action} :
    isControlPlane action = true ↔ ∃ c ∈ controlPlaneClasses, InSegment c action := by
  simp only [isControlPlane, any_eq_true, inClass_iff]

/-- The label is malformed, of no level of the system, or of a level the ceiling does not reach. -/
inductive Exceeds (ceiling : CeilingAuthorizer) : Label → Prop
  | malformed : Exceeds ceiling .notAString
  | foreign {raw : String} (h : ceiling.policy.levelOf raw = none) : Exceeds ceiling (.marking raw)
  | above {raw : String} {level : Level} (h : ceiling.policy.levelOf raw = some level)
      (hlevel : ceiling.policy.dominates ceiling.classification level ≠ some true) :
      Exceeds ceiling (.marking raw)

/-- In a system of the build a level above the ceiling's is one the ceiling does not reach. -/
theorem exceeds_of_rank_lt {ceiling} (hpolicy : ceiling.policy ∈ systems)
    {raw} {level} (h : ceiling.policy.levelOf raw = some level)
    (hrank : ceiling.classification.rank < level.rank) : Exceeds ceiling (.marking raw) :=
  .above h fun hdominates ↦ absurd (rank_le_of_dominates hpolicy hdominates) (Nat.not_le.mpr hrank)

/-- The ceiling abstains or refuses. -/
theorem decideCeiling_cases (ceiling : CeilingAuthorizer) (action : String) (label : Label) :
    decideCeiling ceiling action label = .notApplicable none ∨
      ∃ reason, decideCeiling ceiling action label = .deny reason := by
  unfold decideCeiling
  split_ifs
  · exact .inl rfl
  · split
    · exact .inr ⟨_, rfl⟩
    · split
      · exact .inl rfl
      · exact .inr ⟨_, rfl⟩
      · exact .inr ⟨_, rfl⟩

/-- Content whose label exceeds the ceiling is refused. -/
theorem exists_deny_of_exceeds {ceiling action label}
    (hcontent : isControlPlane action = false) (h : Exceeds ceiling label) :
    ∃ reason, decideCeiling ceiling action label = .deny reason := by
  simp only [decideCeiling, hcontent, Bool.false_eq_true, if_false]
  cases h with
  | malformed => exact ⟨_, rfl⟩
  | foreign h =>
    obtain ⟨reason, hresolve⟩ := @exists_error_of_levelOf_eq_none systems _ _ h
    rw [hresolve]
    exact ⟨_, rfl⟩
  | above h hlevel =>
    simp only [resolveLevel, h]
    split
    · next hdominates => exact absurd hdominates hlevel
    · exact ⟨_, rfl⟩
    · exact ⟨_, rfl⟩

/-! ### The composition -/

/-- The answer is a permit under obligations that agree. -/
def PermitsConsistently (d : Decided) : Prop :=
  d.verdict.IsPermit ∧ Consistent d.verdict.obligations

theorem not_permitsConsistently_failed :
    ¬PermitsConsistently ⟨.indeterminate, none, none⟩ := fun h ↦ h.1

/-- The fold of an answer and the ceiling's permits exactly when the answer does and the ceiling
abstains. -/
theorem foldCited_isPermit_iff (d : Decided) (ceiling : CeilingAuthorizer) (req : Request) :
    (foldCited [d, ⟨ceiling.decide req, none, none⟩]).verdict.IsPermit ↔
      PermitsConsistently d ∧ ceiling.decide req = .notApplicable none := by
  show (combine [d.verdict, ceiling.decide req]).IsPermit ↔ _
  rw [combine_isPermit_iff]
  rcases decideCeiling_cases ceiling req.action (labelOf req) with habstains | ⟨reason, hdenies⟩
  · rw [show ceiling.decide req = .notApplicable none from habstains]
    constructor
    · rintro ⟨-, ⟨v, hv, hpermit⟩, hconsistent⟩
      rcases mem_pair.mp hv with rfl | rfl
      · refine ⟨⟨hpermit, hconsistent.mono fun o ho ↦ ?_⟩, rfl⟩
        exact mem_append_left _ ho
      · exact hpermit.elim
    · rintro ⟨⟨hpermit, hconsistent⟩, -⟩
      refine ⟨fun v hv ↦ ?_, ⟨d.verdict, mem_cons_self, hpermit⟩, hconsistent.mono fun o ho ↦ ?_⟩
      · rcases mem_pair.mp hv with rfl | rfl
        · cases hverdict : d.verdict with
          | permit _ | notApplicable _ => trivial
          | deny _ => exact (hverdict ▸ hpermit : Verdict.IsPermit (.deny _)).elim
          | indeterminate => exact (hverdict ▸ hpermit : Verdict.IsPermit .indeterminate).elim
        · trivial
      · simpa [Verdict.obligations] using ho
  · rw [show ceiling.decide req = .deny reason from hdenies]
    constructor
    · rintro ⟨hallows, -⟩
      exact (hallows _ (mem_cons_of_mem _ (mem_singleton_self _))).elim
    · rintro ⟨-, habstains⟩
      cases habstains

namespace Composition

variable (c : Composition)

theorem decideCited_isPermit_iff (req : Request) :
    (c.decideCited req).verdict.IsPermit ↔
      (∃ d, c.baseline.decideCited req = some d ∧ PermitsConsistently d) ∧
        c.ceiling.decide req = .notApplicable none := by
  show (foldCited [guardedDecideCited c.baseline req,
    ⟨c.ceiling.decide req, none, none⟩]).verdict.IsPermit ↔ _
  rw [foldCited_isPermit_iff, guardedDecideCited]
  refine and_congr_left fun _ ↦ ?_
  cases hanswer : c.baseline.decideCited req with
  | none =>
    exact ⟨fun h ↦ absurd h not_permitsConsistently_failed, fun ⟨d, hd, _⟩ ↦ nomatch hd⟩
  | some d =>
    exact ⟨fun h ↦ ⟨d, rfl, h⟩, fun ⟨d', hd', h⟩ ↦ Option.some.inj hd' ▸ h⟩

/-- The answer of the guarded baseline to one request of a batch. -/
theorem permits_guarded_iff {reqs i} (hi : i < reqs.length) {d}
    (hd : (guardedDecideCitedAll c.baseline.toAuthorizer reqs)[i]? = some d) :
    PermitsConsistently d ↔ ∃ all, c.baseline.decideCitedAll reqs = some all ∧
      all.length = reqs.length ∧ ∃ d', all[i]? = some d' ∧ PermitsConsistently d' := by
  have hfailed : (reqs.map fun _ ↦ (⟨.indeterminate, none, none⟩ : Decided))[i]? =
      some ⟨.indeterminate, none, none⟩ := by
    rw [getElem?_map, getElem?_eq_getElem hi]
    rfl
  unfold guardedDecideCitedAll at hd
  cases hanswer : c.baseline.decideCitedAll reqs with
  | none =>
    rw [hanswer] at hd
    cases hfailed.symm.trans hd
    exact ⟨fun h ↦ absurd h not_permitsConsistently_failed, fun ⟨all, hall, _⟩ ↦ nomatch hall⟩
  | some all =>
    rw [hanswer] at hd
    dsimp only at hd
    split_ifs at hd with hlength
    · refine ⟨fun h ↦ ⟨all, rfl, hlength, d, hd, h⟩, ?_⟩
      rintro ⟨all', hall, -, d', hd', h⟩
      cases hall
      cases hd.symm.trans hd'
      exact h
    · cases hfailed.symm.trans hd
      refine ⟨fun h ↦ absurd h not_permitsConsistently_failed, ?_⟩
      rintro ⟨all', hall, hlength', -⟩
      cases hall
      exact absurd hlength' hlength

theorem decideCitedAll_isPermit_iff {reqs : List Request} {i : ℕ} {req : Request}
    (hreq : reqs[i]? = some req) :
    ∃ d, (c.decideCitedAll reqs)[i]? = some d ∧ (d.verdict.IsPermit ↔
      (∃ all, c.baseline.decideCitedAll reqs = some all ∧ all.length = reqs.length ∧
        ∃ d', all[i]? = some d' ∧ PermitsConsistently d') ∧
      c.ceiling.decide req = .notApplicable none) := by
  obtain ⟨hi, -⟩ := List.getElem?_eq_some_iff.mp hreq
  refine ⟨_, getElem?_composeDecideCitedAll c.operands hi, ?_⟩
  obtain ⟨d, hd⟩ : ∃ d, (guardedDecideCitedAll c.baseline.toAuthorizer reqs)[i]? = some d :=
    ⟨_, List.getElem?_eq_getElem ((length_guardedDecideCitedAll _ _).symm ▸ hi)⟩
  have hceiling : (guardedDecideCitedAll c.ceiling.operand.toAuthorizer reqs)[i]? =
      some ⟨c.ceiling.decide req, none, none⟩ := by
    unfold guardedDecideCitedAll
    simp [CeilingAuthorizer.operand, hreq]
  have hanswers : (c.operands.filterMap fun a ↦ (guardedDecideCitedAll a.toAuthorizer reqs)[i]?) =
      [d, ⟨c.ceiling.decide req, none, none⟩] := by
    simp [operands, hd, hceiling]
  rw [hanswers, foldCited_isPermit_iff, permits_guarded_iff c hi hd]

/-- **The mandatory ceiling cannot be waived.** One request and a batch are permitted exactly when
the baseline answers with a permit whose obligations agree and the ceiling abstains. The ceiling
never permits; content whose label exceeds it is never permitted, on either path; and only an action
of a listed class is not content. -/
theorem ceiling_cannot_be_waived :
    (∀ req, (c.decideCited req).verdict.IsPermit ↔
      (∃ d, c.baseline.decideCited req = some d ∧ PermitsConsistently d) ∧
        c.ceiling.decide req = .notApplicable none) ∧
    (∀ (reqs : List Request) (i : ℕ) (req : Request), reqs[i]? = some req →
      ∃ d, (c.decideCitedAll reqs)[i]? = some d ∧ (d.verdict.IsPermit ↔
        (∃ all, c.baseline.decideCitedAll reqs = some all ∧ all.length = reqs.length ∧
          ∃ d', all[i]? = some d' ∧ PermitsConsistently d') ∧
        c.ceiling.decide req = .notApplicable none)) ∧
    (∀ req, ¬(c.ceiling.decide req).IsPermit) ∧
    (∀ req, isControlPlane req.action = false → Exceeds c.ceiling (labelOf req) →
      ¬(c.decideCited req).verdict.IsPermit ∧
      ∀ (reqs : List Request) (i : ℕ), reqs[i]? = some req →
        ∀ d, (c.decideCitedAll reqs)[i]? = some d → ¬d.verdict.IsPermit) ∧
    (c.ceiling.policy ∈ systems → ∀ raw level, c.ceiling.policy.levelOf raw = some level →
      c.ceiling.classification.rank < level.rank → Exceeds c.ceiling (.marking raw)) ∧
    ∀ action, isControlPlane action = true ↔ ∃ class' ∈ controlPlaneClasses,
      action = class' ∨ ∃ rest, action = class' ++ "." ++ rest := by
  refine ⟨c.decideCited_isPermit_iff, fun _ _ _ ↦ c.decideCitedAll_isPermit_iff, fun req ↦ ?_,
    fun req hcontent hexceeds ↦ ?_, fun hpolicy _ _ ↦ exceeds_of_rank_lt hpolicy,
    fun _ ↦ isControlPlane_iff⟩
  · rcases decideCeiling_cases c.ceiling req.action (labelOf req) with h | ⟨reason, h⟩
    · rw [CeilingAuthorizer.decide, h]
      exact id
    · rw [CeilingAuthorizer.decide, h]
      exact id
  · obtain ⟨reason, hdenies⟩ := exists_deny_of_exceeds hcontent hexceeds
    have hnot : c.ceiling.decide req ≠ .notApplicable none := by
      rw [CeilingAuthorizer.decide, hdenies]
      exact nofun
    refine ⟨fun h ↦ hnot ((c.decideCited_isPermit_iff req).mp h).2, fun reqs i hreq d hd h ↦ ?_⟩
    obtain ⟨d', hd', hiff⟩ := c.decideCitedAll_isPermit_iff hreq
    cases hd.symm.trans hd'
    exact hnot (hiff.mp h).2

end Composition

/-- A baseline that permits everything under a `CONFIDENTIAL` ceiling. -/
def permissiveComposition : Composition where
  baseline :=
    { decideCited _ := some ⟨.permit [], none, none⟩
      decideCitedAll reqs := some (reqs.map fun _ ↦ ⟨.permit [], none, none⟩) }
  ceiling := ⟨ladderLevel "US" usLevels 1, basicPolicy⟩

def markedRead (marking : String) : Request :=
  ⟨∅, .ofList [(resourceClassification, .str marking)] compare, "fs.read", ∅⟩

/-- Marked content above the ceiling is refused, content at it is served. -/
theorem ceiling_cannot_be_waived_secret :
    ¬(permissiveComposition.decideCited (markedRead "SECRET//NOFORN")).verdict.IsPermit ∧
      (permissiveComposition.decideCited (markedRead "confidential")).verdict.IsPermit := by
  obtain ⟨hsingle, -, -, hrefuses, hrank, -⟩ := permissiveComposition.ceiling_cannot_be_waived
  refine ⟨(hrefuses _ (by decide +kernel) ?_).1, (hsingle _).mpr ⟨⟨_, rfl, trivial, ?_⟩, ?_⟩⟩
  · rw [show labelOf (markedRead "SECRET//NOFORN") = .marking "SECRET//NOFORN" by decide +kernel]
    exact hrank mem_cons_self _ (ladderLevel "US" usLevels 2) (by decide +kernel) (by decide)
  · exact nofun
  · decide +kernel

end Maknae.Kernel
