import Maknae.Security.Compose
import Mathlib.Data.List.Nodup

/-!
# The laws of the composition

What a fold of verdicts comes to, up to its texts, depends on three things: whether an operand
refuses or fails, whether one permits, and whether the obligations of all permits agree. None of
them depends on the order of the operands, and each can be read off the folds of the parts. The laws
of `combine` follow from that and not from its loops (`combine_kind_congr`).

The merge of obligations is the part that carries an order. `nodup_of_combine` and
`mem_obligations_of_combine` say what is left of it in a permit: each obligation once, and no other.

A batch is folded request by request, but answered operand by operand. Behind the panic boundary
each operand has one answer per request, so the two orders come to the same (`batch_composition`).
-/

namespace Maknae.Security

open Except List

/-- A verdict without its texts and obligations. -/
inductive VerdictKind
  | permit
  | deny
  | notApplicable
  | indeterminate

namespace Verdict

def kind : Verdict → VerdictKind
  | permit _ => .permit
  | deny _ => .deny
  | notApplicable _ => .notApplicable
  | indeterminate => .indeterminate

theorem isPermit_iff_kind {v : Verdict} : v.IsPermit ↔ v.kind = .permit := by
  cases v <;> simp [IsPermit, kind]

theorem not_allows_iff_kind {v : Verdict} :
    ¬v.Allows ↔ v.kind = .deny ∨ v.kind = .indeterminate := by
  cases v <;> simp [Allows, kind]

/-- Only a permit carries obligations. -/
theorem isPermit_of_mem_obligations {v : Verdict} {o : Obligation} (h : o ∈ v.obligations) :
    v.IsPermit := by
  cases v with
  | permit _ => trivial
  | deny _ | notApplicable _ | indeterminate => exact nomatch h

end Verdict

/-! ### What the fold depends on -/

section Kind

variable {verdicts verdicts' : List Verdict}

/-- The obligations of all permits. -/
def allObligations (verdicts : List Verdict) : List Obligation :=
  verdicts.flatMap Verdict.obligations

theorem mem_allObligations {o} :
    o ∈ allObligations verdicts ↔ ∃ v ∈ verdicts, o ∈ v.obligations := mem_flatMap

theorem unites_unionPermits (verdicts : List Verdict) :
    Unites (verdicts.any fun v ↦ decide v.IsPermit) (allObligations verdicts)
      (unionPermits verdicts) :=
  @unites_foldlM_joinPermit verdicts (false, []) nofun

/-- Past the first two rules, the fold is decided by the union. -/
theorem combine_of_allows (h : ∀ v ∈ verdicts, v.Allows) :
    combine verdicts = match unionPermits verdicts with
      | .error _ => .deny "conflicting obligations (fail-closed)"
      | .ok (true, acc) => .permit acc
      | .ok (false, _) => .notApplicable (firstNote verdicts) := by
  have hdeny : firstDeny verdicts = none := findSome?_eq_none_iff.mpr fun v hv ↦ by
    have := h v hv
    cases v <;> first | rfl | exact this.elim
  have hfailed : ¬verdicts.any (· == .indeterminate) := fun hany ↦ by
    obtain ⟨v, hv, heq⟩ := any_eq_true.mp hany
    exact (eq_of_beq heq ▸ h v hv : Verdict.indeterminate.Allows)
  rw [combine, hdeny]
  exact if_neg hfailed

/-- An operand that refuses or fails makes the fold refuse. -/
theorem combine_kind_of_not_allows {v} (hv : v ∈ verdicts) (h : ¬v.Allows) :
    (combine verdicts).kind = .deny := by
  unfold combine
  cases hdeny : firstDeny verdicts with
  | some reason => rfl
  | none =>
    have hfailed : verdicts.any (· == .indeterminate) := by
      refine any_eq_true.mpr ⟨v, hv, ?_⟩
      cases v with
      | indeterminate => rfl
      | deny reason => exact absurd (findSome?_eq_none_iff.mp hdeny _ hv) (by simp)
      | permit _ | notApplicable _ => exact absurd trivial h
    rw [if_pos hfailed]
    rfl

/-- **What the fold refuses**: a refusal or a failure, or obligations that do not agree. -/
theorem combine_kind_eq_deny_iff :
    (combine verdicts).kind = .deny ↔
      (∃ v ∈ verdicts, ¬v.Allows) ∨ ¬Consistent (allObligations verdicts) := by
  by_cases hallows : ∀ v ∈ verdicts, v.Allows
  · have hnone : ¬∃ v ∈ verdicts, ¬v.Allows := fun ⟨v, hv, h⟩ ↦ h (hallows v hv)
    rw [or_iff_right hnone, combine_of_allows hallows]
    have hunion := unites_unionPermits verdicts
    cases hkept : unionPermits verdicts with
    | error e =>
      rw [hkept] at hunion
      exact ⟨fun _ ↦ hunion, fun _ ↦ rfl⟩
    | ok out =>
      rw [hkept] at hunion
      obtain ⟨any, obligations⟩ := out
      refine ⟨fun h ↦ ?_, fun h ↦ absurd hunion.2.1 h⟩
      cases any <;> exact nomatch h
  · push Not at hallows
    obtain ⟨v, hv, h⟩ := hallows
    exact ⟨fun _ ↦ .inl ⟨v, hv, h⟩, fun _ ↦ combine_kind_of_not_allows hv h⟩

theorem combine_kind_eq_permit_iff :
    (combine verdicts).kind = .permit ↔
      (∀ v ∈ verdicts, v.Allows) ∧ (∃ v ∈ verdicts, v.IsPermit) ∧
        Consistent (allObligations verdicts) :=
  Verdict.isPermit_iff_kind.symm.trans combine_isPermit_iff

/-- A fold never fails. -/
theorem combine_kind_ne_indeterminate (verdicts : List Verdict) :
    (combine verdicts).kind ≠ .indeterminate := by
  by_cases hallows : ∀ v ∈ verdicts, v.Allows
  · rw [combine_of_allows hallows]
    rcases unionPermits verdicts with e | ⟨_ | _, acc⟩ <;> exact nofun
  · push Not at hallows
    obtain ⟨v, hv, h⟩ := hallows
    rw [combine_kind_of_not_allows hv h]
    exact nofun

/-- **The fold depends on three things only.** -/
theorem combine_kind_congr
    (hallows : (∀ v ∈ verdicts, v.Allows) ↔ ∀ v ∈ verdicts', v.Allows)
    (hpermit : (∃ v ∈ verdicts, v.IsPermit) ↔ ∃ v ∈ verdicts', v.IsPermit)
    (hagree : Consistent (allObligations verdicts) ↔ Consistent (allObligations verdicts')) :
    (combine verdicts).kind = (combine verdicts').kind := by
  have hdeny : (combine verdicts).kind = .deny ↔ (combine verdicts').kind = .deny := by
    rw [combine_kind_eq_deny_iff, combine_kind_eq_deny_iff, hagree]
    refine or_congr_left ?_
    simpa only [not_forall, exists_prop] using not_congr hallows
  have hpermit' : (combine verdicts).kind = .permit ↔ (combine verdicts').kind = .permit := by
    rw [combine_kind_eq_permit_iff, combine_kind_eq_permit_iff, hallows, hpermit, hagree]
  have hfails := combine_kind_ne_indeterminate verdicts
  have hfails' := combine_kind_ne_indeterminate verdicts'
  -- What is neither a refusal, a permit nor a failure is an absence.
  generalize (combine verdicts).kind = k at *
  generalize (combine verdicts').kind = k' at *
  cases k <;> cases k' <;> simp_all

theorem combine_kind_of_mem_iff (h : ∀ v, v ∈ verdicts ↔ v ∈ verdicts') :
    (combine verdicts).kind = (combine verdicts').kind := by
  refine combine_kind_congr (by simp only [h]) (by simp only [h]) (Consistent.congr fun o ↦ ?_)
  simp only [mem_allObligations, h]

end Kind

/-! ### The obligations of a permit -/

theorem nodup_keepObligation {out out' o} (hout : out.Nodup)
    (h : keepObligation out o = .ok out') : out'.Nodup := by
  unfold keepObligation at h
  split_ifs at h with hsame
  · exact ok.inj h ▸ hout
  · cases h
    have hfresh : o ∉ out := fun ho ↦ hsame (any_eq_true.mpr ⟨o, ho, by simp⟩)
    exact hout.append (nodup_singleton o) (disjoint_singleton.mpr hfresh)

theorem nodup_mergeObligations {a b out} (h : mergeObligations a b = .ok out) :
    out.Nodup :=
  foldlM_invariant (P := List.Nodup) (fun _ _ _ hs h ↦ nodup_keepObligation hs h)
    nodup_nil h

variable {verdicts : List Verdict} {obligations : List Obligation}

theorem nodup_unionPermits {any out}
    (h : unionPermits verdicts = .ok (any, out)) : out.Nodup := by
  refine foldlM_invariant (P := fun acc : Bool × List Obligation ↦ acc.2.Nodup)
    (fun acc v acc' hacc hstep ↦ ?_) nodup_nil h
  cases v with
  | permit obligations =>
    obtain ⟨merged, hmerged, rfl⟩ := bind_pure_eq_ok.mp hstep
    exact nodup_mergeObligations hmerged
  | deny _ | notApplicable _ | indeterminate => exact pure_eq_ok.mp hstep ▸ hacc

/-- A permit is the union of the permits. -/
theorem unionPermits_of_combine (h : combine verdicts = .permit obligations) :
    unionPermits verdicts = .ok (true, obligations) := by
  have hpermit : (combine verdicts).kind = .permit := by rw [h]; rfl
  rw [combine_of_allows (combine_kind_eq_permit_iff.mp hpermit).1] at h
  rcases hkept : unionPermits verdicts with e | ⟨_ | _, acc⟩ <;> rw [hkept] at h
  · exact nomatch h
  · exact nomatch h
  · rw [Verdict.permit.inj h]

theorem nodup_of_combine (h : combine verdicts = .permit obligations) : obligations.Nodup :=
  nodup_unionPermits (unionPermits_of_combine h)

theorem mem_obligations_of_combine (h : combine verdicts = .permit obligations) (o : Obligation) :
    o ∈ obligations ↔ o ∈ allObligations verdicts := by
  have hunion := unites_unionPermits verdicts
  rw [unionPermits_of_combine h] at hunion
  exact hunion.2.2 o

/-! ### Folding folds -/

theorem combine_allows_iff :
    (combine verdicts).Allows ↔
      (∀ v ∈ verdicts, v.Allows) ∧ Consistent (allObligations verdicts) := by
  have hdeny := @combine_kind_eq_deny_iff verdicts
  rw [← not_iff_not, Verdict.not_allows_iff_kind,
    or_iff_left (combine_kind_ne_indeterminate verdicts), hdeny, not_and_or]
  push Not
  rfl

/-- A fold that allows has the obligations of its operands. -/
theorem mem_obligations_combine (h : (combine verdicts).Allows) (o : Obligation) :
    o ∈ (combine verdicts).obligations ↔ o ∈ allObligations verdicts := by
  cases hfold : combine verdicts with
  | permit obligations => exact mem_obligations_of_combine hfold o
  | deny _ | indeterminate =>
    rw [hfold] at h
    exact h.elim
  | notApplicable note =>
    refine ⟨fun ho ↦ (nomatch ho), fun ho ↦ ?_⟩
    -- An operand with an obligation permits, and then the fold would.
    obtain ⟨v, hv, ho⟩ := mem_allObligations.mp ho
    obtain ⟨hallows, hagree⟩ := combine_allows_iff.mp h
    have hpermit := combine_kind_eq_permit_iff.mpr
      ⟨hallows, ⟨v, hv, Verdict.isPermit_of_mem_obligations ho⟩, hagree⟩
    rw [hfold] at hpermit
    exact nomatch hpermit

theorem combine_isPermit_iff_of_allows (h : (combine verdicts).Allows) :
    (combine verdicts).IsPermit ↔ ∃ v ∈ verdicts, v.IsPermit := by
  obtain ⟨hallows, hagree⟩ := combine_allows_iff.mp h
  rw [combine_isPermit_iff]
  exact ⟨fun hp ↦ hp.2.1, fun hp ↦ ⟨hallows, hp, hagree⟩⟩

/-- **Folding the folds of two parts** is like folding the whole. -/
theorem combine_kind_pair (a b : List Verdict) :
    (combine [combine a, combine b]).kind = (combine (a ++ b)).kind := by
  by_cases hboth : (combine a).Allows ∧ (combine b).Allows
  · obtain ⟨ha, hb⟩ := hboth
    refine combine_kind_congr ?_ ?_ (Consistent.congr fun o ↦ ?_)
    · refine iff_of_true (by simp [ha, hb]) fun v hv ↦ ?_
      rcases mem_append.mp hv with hv | hv
      · exact (combine_allows_iff.mp ha).1 v hv
      · exact (combine_allows_iff.mp hb).1 v hv
    · simp only [mem_cons, not_mem_nil, or_false, exists_eq_left,
        combine_isPermit_iff_of_allows ha, combine_isPermit_iff_of_allows hb, mem_append,
        or_and_right, exists_or]
    · simp only [mem_allObligations, mem_cons, not_mem_nil, or_false, exists_eq_left,
        mem_obligations_combine ha, mem_obligations_combine hb, mem_append,
        or_and_right, exists_or]
  · -- A part that refuses makes both sides refuse.
    have hpart : (combine [combine a, combine b]).kind = .deny := by
      rcases not_and_or.mp hboth with h | h
      · exact combine_kind_of_not_allows mem_cons_self h
      · exact combine_kind_of_not_allows (mem_cons_of_mem _ mem_cons_self) h
    rw [hpart, eq_comm, combine_kind_eq_deny_iff]
    by_contra hnone
    push Not at hnone
    refine hboth ⟨combine_allows_iff.mpr ⟨fun v hv ↦ hnone.1 v (mem_append_left _ hv), ?_⟩,
      combine_allows_iff.mpr ⟨fun v hv ↦ hnone.1 v (mem_append_right _ hv), ?_⟩⟩
    · exact hnone.2.mono fun o ho ↦ by
        obtain ⟨v, hv, ho⟩ := mem_allObligations.mp ho
        exact mem_allObligations.mpr ⟨v, mem_append_left _ hv, ho⟩
    · exact hnone.2.mono fun o ho ↦ by
        obtain ⟨v, hv, ho⟩ := mem_allObligations.mp ho
        exact mem_allObligations.mpr ⟨v, mem_append_right _ hv, ho⟩

/-- One more operand never lifts a refusal. -/
theorem combine_kind_insert {a b} (v : Verdict)
    (h : (combine (a ++ b)).kind = .deny) : (combine (a ++ v :: b)).kind = .deny := by
  have hmem : ∀ w, w ∈ a ++ b → w ∈ a ++ v :: b := fun w hw ↦ by
    rw [mem_append, mem_cons]
    exact (mem_append.mp hw).imp_right .inr
  rw [combine_kind_eq_deny_iff] at h ⊢
  rcases h with ⟨w, hw, hrefuses⟩ | hconflict
  · exact .inl ⟨w, hmem w hw, hrefuses⟩
  · refine .inr fun hagree ↦ hconflict (hagree.mono fun o ho ↦ ?_)
    obtain ⟨w, hw, ho⟩ := mem_allObligations.mp ho
    exact mem_allObligations.mpr ⟨w, hmem w hw, ho⟩

/-- **The laws of the composition.** What a fold comes to does not depend on the order of the
operands, and folds of parts fold like the whole. One more operand never turns a refusal into a
permit, and one that refuses or fails always gives a refusal. A permit carries every obligation of
the permitting operands, each once, and obligations that conflict anywhere give a refusal. -/
theorem combine_laws :
    (∀ l l' : List Verdict, l.Perm l' → (combine l).kind = (combine l').kind) ∧
    (∀ a b, (combine [combine a, combine b]).kind = (combine (a ++ b)).kind) ∧
    (∀ a b v, (combine (a ++ b)).kind = .deny → (combine (a ++ v :: b)).kind ≠ .permit) ∧
    (∀ a b v, v.kind = .deny ∨ v.kind = .indeterminate →
      (combine (a ++ v :: b)).kind = .deny) ∧
    (∀ l obligations, combine l = .permit obligations →
      obligations.Nodup ∧ ∀ o, o ∈ obligations ↔ ∃ v ∈ l, o ∈ v.obligations) ∧
    (∀ l, (∃ v ∈ l, ∃ w ∈ l, ∃ o ∈ v.obligations, ∃ o' ∈ w.obligations,
      o.id = o'.id ∧ o.params ≠ o'.params) → (combine l).kind = .deny) ∧
    ∀ l, (combine l).kind ≠ .indeterminate := by
  refine ⟨fun l l' hperm ↦ combine_kind_of_mem_iff fun v ↦ hperm.mem_iff, combine_kind_pair,
    fun a b v h ↦ ?_, fun a b v h ↦ ?_, fun l obligations h ↦ ?_, ?_,
    combine_kind_ne_indeterminate⟩
  · rw [combine_kind_insert v h]
    exact nofun
  · exact combine_kind_of_not_allows (mem_append_right _ mem_cons_self)
      (Verdict.not_allows_iff_kind.mpr h)
  · exact ⟨nodup_of_combine h, fun o ↦ (mem_obligations_of_combine h o).trans mem_allObligations⟩
  · rintro l ⟨v, hv, w, hw, o, ho, o', ho', hid, hparams⟩
    refine combine_kind_eq_deny_iff.mpr (.inr fun hagree ↦ hparams ?_)
    exact hagree o (mem_allObligations.mpr ⟨v, hv, ho⟩) o' (mem_allObligations.mpr ⟨w, hw, ho'⟩) hid

/-- An obligation to log, and a fold with a failing operand beside it. -/
theorem combine_laws_indeterminate :
    (combine [.permit [⟨"log", ∅⟩], .indeterminate, .notApplicable none]).kind = .deny :=
  combine_laws.2.2.2.1 [.permit [⟨"log", ∅⟩]] [.notApplicable none] .indeterminate (.inr rfl)

/-! ### Batches -/

/-- An operand that panics on a batch, or does not answer each of its requests. -/
def FailsBatch (a : Authorizer) (reqs : List Request) : Prop :=
  ∀ all, a.decideCitedAll reqs = some all → all.length ≠ reqs.length

theorem guardedDecideCitedAll_of_failsBatch {a reqs}
    (h : FailsBatch a reqs) :
    guardedDecideCitedAll a reqs = reqs.map fun _ ↦ ⟨.indeterminate, none, none⟩ := by
  unfold guardedDecideCitedAll
  split
  · next all hall => rw [if_neg (h all hall)]
  · rfl

/-- The rule of a fold is the rule of an operand that decided like it. -/
theorem exists_of_rule_foldCited {decided rule}
    (h : (foldCited decided).rule = some rule) :
    ∃ d ∈ decided, d.rule = some rule ∧ d.verdict = (foldCited decided).verdict := by
  obtain ⟨d, hfind, hrule⟩ := Option.bind_eq_some_iff.mp h
  have hlike := find?_some hfind
  rw [Bool.and_eq_true, beq_iff_eq] at hlike
  exact ⟨d, mem_of_find?_eq_some hfind, hrule, hlike.2⟩

section Batch

variable {operands : List CitedAuthorizer} {reqs : List Request}

theorem length_composeDecideCitedAll :
    (composeDecideCitedAll operands reqs).length = reqs.length := by
  rw [composeDecideCitedAll, length_map, length_range]

/-- An operand that fails on a batch makes the fold refuse all of it. -/
theorem kind_of_failsBatch {a} (ha : a ∈ operands)
    (h : FailsBatch a.toAuthorizer reqs) {d}
    (hd : d ∈ composeDecideCitedAll operands reqs) : d.verdict.kind = .deny := by
  obtain ⟨i, hi⟩ := mem_iff_getElem?.mp hd
  have hlt : i < reqs.length := by
    rw [← @length_composeDecideCitedAll operands reqs]
    exact (List.getElem?_eq_some_iff.mp hi).1
  rw [getElem?_composeDecideCitedAll operands hlt] at hi
  cases hi
  have hfailed : (guardedDecideCitedAll a.toAuthorizer reqs)[i]? =
      some ⟨.indeterminate, none, none⟩ := by
    rw [guardedDecideCitedAll_of_failsBatch h, getElem?_map, getElem?_eq_getElem hlt]
    rfl
  have hmem : ⟨.indeterminate, none, none⟩ ∈ operands.filterMap
      fun a ↦ (guardedDecideCitedAll a.toAuthorizer reqs)[i]? :=
    mem_filterMap.mpr ⟨a, ha, hfailed⟩
  exact combine_kind_of_not_allows (mem_map_of_mem hmem) id

/-- **A batch is decided as its requests are.** Operands that answer alike are folded alike. One
that fails on the batch makes all of it refused. A rule is cited, for one request or in a batch,
only from an operand that decided like the fold. -/
theorem batch_composition (operands : List CitedAuthorizer) (reqs : List Request) :
    ((∀ a ∈ operands, guardedDecideCitedAll a.toAuthorizer reqs = reqs.map (guardedDecideCited a)) →
      composeDecideCitedAll operands reqs = reqs.map (composeDecideCited operands)) ∧
    ((∃ a ∈ operands, FailsBatch a.toAuthorizer reqs) →
      (composeDecideCitedAll operands reqs).length = reqs.length ∧
        ∀ d ∈ composeDecideCitedAll operands reqs, d.verdict.kind = .deny) ∧
    (∀ req rule, (composeDecideCited operands req).rule = some rule →
      ∃ a ∈ operands, (guardedDecideCited a req).rule = some rule ∧
        (guardedDecideCited a req).verdict = (composeDecideCited operands req).verdict) ∧
    ∀ (i : ℕ) (d : Decided) rule, (composeDecideCitedAll operands reqs)[i]? = some d →
      d.rule = some rule → ∃ a ∈ operands, ∃ own : Decided,
        (guardedDecideCitedAll a.toAuthorizer reqs)[i]? = some own ∧
          own.rule = some rule ∧ own.verdict = d.verdict := by
  refine ⟨fun halike ↦ ?_, fun ⟨a, ha, hfails⟩ ↦ ⟨length_composeDecideCitedAll, fun d hd ↦
    kind_of_failsBatch ha hfails hd⟩, fun req rule hrule ↦ ?_, fun i d rule hd hrule ↦ ?_⟩
  · refine List.ext_getElem? fun i ↦ ?_
    by_cases hi : i < reqs.length
    · rw [getElem?_composeDecideCitedAll operands hi, List.getElem?_map,
        List.getElem?_eq_getElem hi]
      -- the column of the answers to this request
      have hcolumn : operands.filterMap (fun a ↦ (guardedDecideCitedAll a.toAuthorizer reqs)[i]?) =
          operands.map fun a ↦ guardedDecideCited a reqs[i] := by
        rw [← List.filterMap_eq_map]
        refine List.filterMap_congr fun a ha ↦ ?_
        rw [halike a ha, List.getElem?_map, List.getElem?_eq_getElem hi]
        rfl
      rw [hcolumn]
      rfl
    · rw [List.getElem?_eq_none (length_composeDecideCitedAll.trans_le (not_lt.mp hi)),
        List.getElem?_eq_none ((List.length_map _).trans_le (not_lt.mp hi))]
  · obtain ⟨own, hown, hcited, hlike⟩ := exists_of_rule_foldCited hrule
    obtain ⟨a, ha, rfl⟩ := List.mem_map.mp hown
    exact ⟨a, ha, hcited, hlike⟩
  · have hi : i < reqs.length :=
      length_composeDecideCitedAll ▸ (List.getElem?_eq_some_iff.mp hd).1
    rw [getElem?_composeDecideCitedAll operands hi] at hd
    cases hd
    obtain ⟨own, hown, hcited, hlike⟩ := exists_of_rule_foldCited hrule
    obtain ⟨a, ha, hanswer⟩ := List.mem_filterMap.mp hown
    exact ⟨a, ha, own, hanswer, hcited, hlike⟩

end Batch

/-- An operand that permits what it is asked and cites a rule for it. -/
def permitting : CitedAuthorizer where
  decideCitedAll reqs := some (reqs.map fun _ ↦ ⟨.permit [], none, some ⟨1, "r", "grants"⟩⟩)
  decideCited _ := some ⟨.permit [], none, some ⟨1, "r", "grants"⟩⟩

/-- The same operand, when it panics on every batch. -/
def panickingOnBatches : CitedAuthorizer := { permitting with decideCitedAll := fun _ ↦ none }

/-- Two requests: decided in a batch as one by one, and refused where one operand fails. -/
theorem batch_composition_permitting :
    let req : Request := ⟨∅, ∅, "fs.read", ∅⟩
    composeDecideCitedAll [permitting] [req, req] =
        [req, req].map (composeDecideCited [permitting]) ∧
      (∀ d ∈ composeDecideCitedAll [permitting, panickingOnBatches] [req, req],
        d.verdict.kind = .deny) ∧
      ∃ a ∈ [permitting], (guardedDecideCited a req).rule = some ⟨1, "r", "grants"⟩ ∧
        (guardedDecideCited a req).verdict = (composeDecideCited [permitting] req).verdict := by
  intro req
  have hfails : FailsBatch panickingOnBatches.toAuthorizer [req, req] := fun all h ↦ nomatch h
  refine ⟨(batch_composition [permitting] [req, req]).1 ?_,
    ((batch_composition [permitting, panickingOnBatches] [req, req]).2.1 ⟨_, by simp, hfails⟩).2,
    (batch_composition [permitting] []).2.2.1 req _ rfl⟩
  intro a ha
  rw [mem_singleton.mp ha]
  rfl

end Maknae.Security
