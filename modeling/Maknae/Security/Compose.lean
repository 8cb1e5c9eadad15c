import Maknae.Foundation.Guards
import Maknae.Security.Request

/-!
# Verdicts, their composition, and the panic boundary

An authorizer answers with one of four verdicts. `combine` folds the verdicts of several operands:
a refusal or a failed evaluation always wins, then a permit with the union of all obligations, then
an absence. `finalize` collapses what is left to a decision, and only a definite permit stays one.

An authorizer may be code the kernel does not control. `guardedDecideCitedAll` calls it behind a
panic boundary: a panic, or an answer that is not one per request, is a failed evaluation for all of
them.

`combine_isPermit_iff` says when the fold permits: no operand refuses or fails, some operand
permits, and the obligations of all permits agree on their parameters.
-/

namespace Maknae.Security

open List

/-! ### Obligations -/

structure Obligation where
  id : String
  params : Attributes
deriving DecidableEq

/-- Two obligations share an identifier and differ in parameters. -/
inductive ObligationConflict
  | obligationConflict

/-- One obligation joins those kept so far. -/
def keepObligation (out : List Obligation) (o : Obligation) :
    Except ObligationConflict (List Obligation) :=
  if out.any fun e ↦ e.id == o.id && e.params == o.params then .ok out
  else if out.any fun e ↦ e.id == o.id && e.params != o.params then .error .obligationConflict
  else .ok (out ++ [o])

/-- Union of two obligation lists, refused when two of them conflict. -/
def mergeObligations (a b : List Obligation) : Except ObligationConflict (List Obligation) :=
  (a ++ b).foldlM keepObligation []

/-! ### Verdicts -/

inductive Verdict
  | permit (obligations : List Obligation)
  | deny (reason : String)
  | notApplicable (note : Option String)
  | indeterminate
deriving DecidableEq

/-- The verdict is a definite permit. -/
def Verdict.IsPermit : Verdict → Prop
  | permit _ => True
  | _ => False

instance : (v : Verdict) → Decidable v.IsPermit
  | .permit _ => .isTrue trivial
  | .deny _ => .isFalse id
  | .notApplicable _ => .isFalse id
  | .indeterminate => .isFalse id

inductive Decision
  | permit (obligations : List Obligation)
  | deny (reason : String)

/-- Anything that is not a definite permit is a refusal. -/
def finalize : Verdict → Decision
  | .permit obligations => .permit obligations
  | .deny reason => .deny reason
  | .notApplicable note => .deny (note.getD "no applicable authorizer (fail-closed)")
  | .indeterminate => .deny "indeterminate (fail-closed)"

/-- The reason of the first refusal. -/
def firstDeny (verdicts : List Verdict) : Option String :=
  verdicts.findSome? fun
    | .deny reason => some reason
    | _ => none

/-- The note of the first annotated absence. -/
def firstNote (verdicts : List Verdict) : Option String :=
  verdicts.findSome? fun
    | .notApplicable note => note
    | _ => none

/-- One verdict joins the permits met so far. -/
def joinPermit (acc : Bool × List Obligation) :
    Verdict → Except ObligationConflict (Bool × List Obligation)
  | .permit obligations => do return (true, ← mergeObligations acc.2 obligations)
  | _ => return acc

/-- Union of the obligations of all permits, with whether there was one. -/
def unionPermits (verdicts : List Verdict) : Except ObligationConflict (Bool × List Obligation) :=
  verdicts.foldlM joinPermit (false, [])

/-- Fold the verdicts of several operands. -/
def combine (verdicts : List Verdict) : Verdict :=
  match firstDeny verdicts with
  | some reason => .deny reason
  | none =>
    if verdicts.any (· == .indeterminate) then .deny "indeterminate operand blocks (fail-closed)"
    else
      match unionPermits verdicts with
      | .error _ => .deny "conflicting obligations (fail-closed)"
      | .ok (true, acc) => .permit acc
      | .ok (false, _) => .notApplicable (firstNote verdicts)

/-- A single operand that is permitted by the fold permitted on its own. -/
theorem isPermit_of_finalize_combine {v obligations}
    (h : finalize (combine [v]) = .permit obligations) : v.IsPermit := by
  cases v with
  | permit _ => trivial
  | deny reason | notApplicable note | indeterminate => exact nomatch h

/-! ### When the fold permits -/

/-- Obligations of the same identifier have the same parameters. -/
def Consistent (obligations : List Obligation) : Prop :=
  ∀ a ∈ obligations, ∀ b ∈ obligations, a.id = b.id → a.params = b.params

namespace Consistent

variable {l l' : List Obligation}

theorem mono (h : Consistent l) (hsub : ∀ o ∈ l', o ∈ l) : Consistent l' :=
  fun a ha b hb hid ↦ h a (hsub a ha) b (hsub b hb) hid

theorem congr (h : ∀ o, o ∈ l ↔ o ∈ l') : Consistent l ↔ Consistent l' :=
  ⟨fun hl ↦ hl.mono fun o ho ↦ (h o).mpr ho, fun hl ↦ hl.mono fun o ho ↦ (h o).mp ho⟩

end Consistent

/-- What is kept are the obligations met so far, as long as they agree. -/
def Keeps (l : List Obligation) (r : Except ObligationConflict (List Obligation)) : Prop :=
  match r with
  | .ok out => Consistent l ∧ ∀ o, o ∈ out ↔ o ∈ l
  | .error _ => ¬Consistent l

theorem keeps_keepObligation {out} (h : Consistent out) (o : Obligation) :
    Keeps (out ++ [o]) (keepObligation out o) := by
  unfold keepObligation
  split_ifs with hsame hdiffers
  · obtain ⟨e, he, hboth⟩ := any_eq_true.mp hsame
    rw [Bool.and_eq_true, beq_iff_eq, beq_iff_eq] at hboth
    obtain rfl : e = o := by
      cases e
      cases o
      exact congrArg₂ Obligation.mk hboth.1 hboth.2
    have hmem : ∀ x, x ∈ out ↔ x ∈ out ++ [e] := fun x ↦ by
      rw [mem_append, mem_singleton]
      exact ⟨.inl, fun hx ↦ hx.elim id fun heq ↦ heq ▸ he⟩
    exact ⟨(Consistent.congr hmem).mp h, hmem⟩
  · obtain ⟨e, he, hboth⟩ := any_eq_true.mp hdiffers
    rw [Bool.and_eq_true, beq_iff_eq, bne_iff_ne] at hboth
    exact fun hall ↦ hboth.2 (hall e (mem_append_left _ he) o
      (mem_append_right _ (mem_singleton_self o)) hboth.1)
  · refine ⟨fun a ha b hb hid ↦ ?_, fun x ↦ Iff.rfl⟩
    -- a kept obligation of the new identifier would have been met by one of the two tests
    have hfresh : ∀ e ∈ out, e.id ≠ o.id := fun e he heq ↦ by
      by_cases hparams : e.params = o.params
      · exact hsame (any_eq_true.mpr ⟨e, he, by simp [heq, hparams]⟩)
      · exact hdiffers (any_eq_true.mpr ⟨e, he, by simp [heq, hparams]⟩)
    rcases mem_append.mp ha with ha | ha <;> rcases mem_append.mp hb with hb | hb
    · exact h a ha b hb hid
    · exact absurd (hid.trans (congrArg Obligation.id (mem_singleton.mp hb))) (hfresh a ha)
    · exact absurd (hid.symm.trans (congrArg Obligation.id (mem_singleton.mp ha))) (hfresh b hb)
    · rw [mem_singleton.mp ha, mem_singleton.mp hb]

theorem keeps_foldlM_keepObligation {out l} (h : Consistent out) :
    Keeps (out ++ l) (l.foldlM keepObligation out) := by
  induction l generalizing out with
  | nil =>
    rw [append_nil]
    exact ⟨h, fun _ ↦ Iff.rfl⟩
  | cons o l ih =>
    rw [foldlM_cons]
    have hstep := keeps_keepObligation h o
    cases hkept : keepObligation out o with
    | error e =>
      rw [hkept] at hstep
      exact fun hall ↦ hstep (hall.mono fun x hx ↦ by
        rw [mem_append, mem_singleton] at hx
        exact hx.elim (mem_append_left _) fun heq ↦
          mem_append_right _ (heq ▸ mem_cons_self))
    | ok kept =>
      rw [hkept] at hstep
      have hmem : ∀ x, x ∈ kept ++ l ↔ x ∈ out ++ o :: l := fun x ↦ by
        rw [append_cons, mem_append, hstep.2 x, ← mem_append]
      have hrest := ih ((Consistent.congr hstep.2).mpr hstep.1)
      rw [Except.ok_bind]
      cases hfold : l.foldlM keepObligation kept with
      | error e =>
        rw [hfold] at hrest
        exact fun hall ↦ hrest ((Consistent.congr hmem).mpr hall)
      | ok out' =>
        rw [hfold] at hrest
        exact ⟨(Consistent.congr hmem).mp hrest.1, fun x ↦ (hrest.2 x).trans (hmem x)⟩

/-- A union succeeds exactly on obligations that agree, and keeps all of them. -/
theorem keeps_mergeObligations (a b : List Obligation) : Keeps (a ++ b) (mergeObligations a b) := by
  have hnil : Consistent [] := nofun
  exact keeps_foldlM_keepObligation hnil

namespace Verdict

/-- The obligations a verdict permits under. -/
def obligations : Verdict → List Obligation
  | permit obligations => obligations
  | _ => []

/-- The verdict neither refuses nor fails. -/
def Allows : Verdict → Prop
  | permit _ | notApplicable _ => True
  | deny _ | indeterminate => False

end Verdict

/-- The union of the permits of a list that has one or has none. -/
def Unites (any : Bool) (l : List Obligation)
    (r : Except ObligationConflict (Bool × List Obligation)) : Prop :=
  match r with
  | .ok out => out.1 = any ∧ Consistent l ∧ ∀ o, o ∈ out.2 ↔ o ∈ l
  | .error _ => ¬Consistent l

theorem unites_foldlM_joinPermit {verdicts : List Verdict} {acc : Bool × List Obligation}
    (h : Consistent acc.2) :
    Unites (acc.1 || verdicts.any fun v ↦ decide v.IsPermit)
      (acc.2 ++ verdicts.flatMap Verdict.obligations) (verdicts.foldlM joinPermit acc) := by
  induction verdicts generalizing acc with
  | nil =>
    rw [any_nil, Bool.or_false, flatMap_nil, append_nil]
    exact ⟨rfl, h, fun _ ↦ Iff.rfl⟩
  | cons v verdicts ih =>
    cases v with
    | permit obligations =>
      show Unites _ (acc.2 ++ (obligations ++ _))
        ((mergeObligations acc.2 obligations >>= fun out ↦ pure (true, out)) >>= _)
      rw [← append_assoc]
      have hmerge := keeps_mergeObligations acc.2 obligations
      cases hkept : mergeObligations acc.2 obligations with
      | error e =>
        rw [hkept] at hmerge
        exact fun hall ↦ hmerge (hall.mono fun x hx ↦ mem_append_left _ hx)
      | ok kept =>
        rw [hkept] at hmerge
        have hmem : ∀ x, x ∈ kept ++ verdicts.flatMap Verdict.obligations ↔
            x ∈ acc.2 ++ obligations ++ verdicts.flatMap Verdict.obligations := fun x ↦ by
          rw [mem_append, hmerge.2 x, ← mem_append]
        have hkeeps : Consistent (true, kept).2 := (Consistent.congr hmerge.2).mpr hmerge.1
        have hrest := ih hkeeps
        show Unites _ _ (verdicts.foldlM joinPermit (true, kept))
        cases hfold : verdicts.foldlM joinPermit (true, kept) with
        | error e =>
          rw [hfold] at hrest
          exact fun hall ↦ hrest ((Consistent.congr hmem).mpr hall)
        | ok out =>
          rw [hfold] at hrest
          refine ⟨?_, (Consistent.congr hmem).mp hrest.2.1, fun x ↦ (hrest.2.2 x).trans (hmem x)⟩
          exact hrest.1.trans (Bool.or_true _).symm
    | deny reason | notApplicable note | indeterminate => exact ih h

/-- **When the fold permits.** -/
theorem combine_isPermit_iff {verdicts : List Verdict} :
    (combine verdicts).IsPermit ↔
      (∀ v ∈ verdicts, v.Allows) ∧ (∃ v ∈ verdicts, v.IsPermit) ∧
        Consistent (verdicts.flatMap Verdict.obligations) := by
  have hunion : Unites (verdicts.any fun v ↦ decide v.IsPermit)
      (verdicts.flatMap Verdict.obligations) (unionPermits verdicts) :=
    @unites_foldlM_joinPermit verdicts (false, []) nofun
  unfold combine
  cases hdeny : firstDeny verdicts with
  | some reason =>
    obtain ⟨v, hv, hreason⟩ := exists_of_findSome?_eq_some hdeny
    refine ⟨False.elim, fun h ↦ ?_⟩
    have hallows := h.1 v hv
    cases v with
    | deny _ => exact hallows
    | permit _ | notApplicable _ | indeterminate => cases hreason
  | none =>
    have hnever : ∀ v ∈ verdicts, ∀ reason, v ≠ .deny reason := by
      rintro v hv reason rfl
      exact absurd (findSome?_eq_none_iff.mp hdeny _ hv) (by simp)
    split_ifs with hfailed
    · obtain ⟨v, hv, heq⟩ := any_eq_true.mp hfailed
      obtain rfl := eq_of_beq heq
      exact ⟨False.elim, fun h ↦ h.1 _ hv⟩
    · have hallows : ∀ v ∈ verdicts, v.Allows := by
        intro v hv
        cases v with
        | permit _ | notApplicable _ => trivial
        | deny reason => exact absurd rfl (hnever _ hv reason)
        | indeterminate => exact absurd hv fun hv ↦ hfailed (any_eq_true.mpr ⟨_, hv, rfl⟩)
      have hany : (∃ v ∈ verdicts, v.IsPermit) ↔
          (verdicts.any fun v ↦ decide v.IsPermit) = true := by
        simp
      rw [and_iff_right hallows, hany]
      cases hkept : unionPermits verdicts with
      | error e =>
        rw [hkept] at hunion
        exact ⟨False.elim, fun h ↦ hunion h.2⟩
      | ok out =>
        obtain ⟨any, obligations⟩ := out
        rw [hkept] at hunion
        obtain ⟨rfl, hconsistent, -⟩ := hunion
        rw [and_iff_left hconsistent]
        cases hpermits : verdicts.any fun v ↦ decide v.IsPermit with
        | true => exact ⟨fun _ ↦ rfl, fun _ ↦ trivial⟩
        | false => exact ⟨False.elim, nofun⟩

/-! ### The seam -/

/-- The policy rule a decision was made on. -/
structure RuleCitation where
  node : UInt64
  key : String
  policySection : String

/-- A verdict, the role it was decided on, and the rule that decided it. -/
structure Decided where
  verdict : Verdict
  role : Option String
  rule : Option RuleCitation

/-- A policy decision point, asked about a batch; `none` when it panics. -/
structure Authorizer where
  decideCitedAll : List Request → Option (List Decided)

/-- The panic boundary: a panic, or an answer whose length is not one per request, fails the
evaluation of every request. -/
def guardedDecideCitedAll (a : Authorizer) (reqs : List Request) : List Decided :=
  let failed := reqs.map fun _ ↦ (⟨.indeterminate, none, none⟩ : Decided)
  match a.decideCitedAll reqs with
  | some all => if all.length = reqs.length then all else failed
  | none => failed

/-- A policy decision point that is also asked about one request; `none` when it panics. -/
structure CitedAuthorizer extends Authorizer where
  decideCited : Request → Option Decided

/-- The panic boundary for one request. -/
def guardedDecideCited (a : CitedAuthorizer) (req : Request) : Decided :=
  (a.decideCited req).getD ⟨.indeterminate, none, none⟩

/-- The fold of the operands' answers: the first role reported, and the rule of the first operand
that decided like the fold. -/
def foldCited (decided : List Decided) : Decided :=
  let verdict := combine (decided.map Decided.verdict)
  { verdict
    role := decided.findSome? Decided.role
    rule := (decided.find? fun d ↦ d.rule.isSome && d.verdict == verdict).bind Decided.rule }

def composeDecideCited (operands : List CitedAuthorizer) (req : Request) : Decided :=
  foldCited (operands.map fun a ↦ guardedDecideCited a req)

/-- The fold for each request of a batch. Behind the boundary every operand answers each of them. -/
def composeDecideCitedAll (operands : List CitedAuthorizer) (reqs : List Request) : List Decided :=
  let answers := operands.map fun a ↦ guardedDecideCitedAll a.toAuthorizer reqs
  (range reqs.length).map fun i ↦ foldCited (answers.filterMap fun a ↦ a[i]?)

theorem length_guardedDecideCitedAll (a : Authorizer) (reqs : List Request) :
    (guardedDecideCitedAll a reqs).length = reqs.length := by
  unfold guardedDecideCitedAll
  split
  · split_ifs with hlength
    · exact hlength
    · exact length_map _
  · exact length_map _

/-- The answer of a batch to one of its requests. -/
theorem getElem?_composeDecideCitedAll (operands : List CitedAuthorizer) {reqs}
    {i} (hi : i < reqs.length) :
    (composeDecideCitedAll operands reqs)[i]? = some (foldCited (operands.filterMap fun a ↦
      (guardedDecideCitedAll a.toAuthorizer reqs)[i]?)) := by
  rw [composeDecideCitedAll, getElem?_map, getElem?_range hi, Option.map_some, filterMap_map]
  rfl

end Maknae.Security
