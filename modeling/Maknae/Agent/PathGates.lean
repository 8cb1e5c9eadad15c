import Maknae.Agent.Route
import Maknae.Kernel.MutationExchange
import Mathlib.Data.List.TFAE

/-!
# One language of paths

A path the model names is judged four times on its way to a decision: by the router of the loop, by
the kernel before it prepares a mutation, by the exchange on every report, and by the policy. The
four scanners are written apart. Each is shown to accept the canonical texts, up to the bound on
their length that the policy does not have, so they agree (`gates_agree`); and a canonical text has
no second spelling, so what one of them lets through is the same object to all.
-/

namespace Maknae.Agent

open Authz (canonicalViolation canonicalViolation_eq_none_iff)
open Config (byteLength)
open Kernel List
open Text

variable {p q : String} {home : Option String}

/-! ### The kernel -/

theorem pregateSegments_eq_ok_iff {segs} :
    pregateSegments segs = .ok () ↔ ∀ seg ∈ segs, IsEntryName seg := by
  induction segs with
  | nil => simp [pregateSegments]
  | cons seg segs ih =>
    rw [pregateSegments, forall_mem_cons, IsEntryName]
    split_ifs with hempty hdot
    · simp [hempty]
    · simp only [false_iff]
      exact fun h ↦ hdot.elim h.1.2.1 h.1.2.2
    · simp [hempty, not_or.mp hdot, ih]

/-- A slash at the end leaves an empty piece. -/
theorem empty_mem_split_of_getLast? (h : p.toList.getLast? = some '/') : "" ∈ split '/' p := by
  obtain ⟨init, hinit⟩ := getLast?_eq_some_iff.mp h
  have hp : p = String.ofList init ++ String.singleton '/' ++ "" := by
    apply String.toList_inj.mp
    simp [hinit]
  rw [hp, split_append_sep]
  exact mem_append_right _ (by decide)

theorem lexicalPregate_eq_ok_iff (hnul : '\x00' ∉ p.toList) :
    lexicalPregate p = .ok () ↔ IsCanonical p := by
  unfold lexicalPregate
  constructor
  · intro h
    split_ifs at h with habs hroot hlast
    · exact ⟨by simpa using habs, hnul, .inl hroot⟩
    · exact ⟨by simpa using habs, hnul, .inr (pregateSegments_eq_ok_iff.mp h)⟩
  · intro h
    rw [if_neg (by simp [h.absolute])]
    by_cases hroot : p = "/"
    · rw [if_pos hroot]
    · have hentries := h.entries.resolve_left hroot
      have hlast : p.toList.getLast? ≠ some '/' := by
        intro hlast
        -- Below the root the slash at the end is not the one at the start.
        rw [eq_slash_append_drop h.absolute, String.toList_append] at hlast
        have hne : (drop 1 p).toList ≠ [] := fun hnil ↦
          hroot (by rw [eq_slash_append_drop h.absolute, String.toList_eq_nil_iff.mp hnil]; rfl)
        rw [getLast?_append_of_ne_nil _ hne] at hlast
        exact (hentries "" (empty_mem_split_of_getLast? hlast)).1 rfl
      rw [if_neg hroot, if_neg hlast, pregateSegments_eq_ok_iff.mpr hentries]

theorem checked_eq_ok_iff :
    checked p = .ok () ↔ p.utf8ByteSize ≤ maxMutationPathBytes ∧ IsCanonical p := by
  unfold checked
  split_ifs with h
  · refine iff_of_false (by simp) fun ⟨hlen, hcanon⟩ ↦ ?_
    exact h.elim (by omega) hcanon.no_nul
  · obtain ⟨hlen, hnul⟩ := not_or.mp h
    rw [lexicalPregate_eq_ok_iff hnul]
    exact ⟨fun hcanon ↦ ⟨by omega, hcanon⟩, And.right⟩

/-! ### The router -/

theorem byteLength_eq : byteLength p = p.utf8ByteSize := by
  simp [byteLength, utf8Bytes]

/-- The router judges what the home is put into, and returns that. -/
theorem checkedPath_eq_ok_iff (hexpand : expandHome q home = .ok p) (r : String) :
    checkedPath q home = .ok r ↔
      r = p ∧ p.utf8ByteSize ≤ maxMutationPathBytes ∧ IsCanonical p := by
  unfold checkedPath
  by_cases hq : q = ""
  · obtain rfl : p = "" := by
      rw [hq] at hexpand
      exact (Except.ok.inj hexpand).symm
    rw [if_pos hq]
    exact iff_of_false (by simp) fun h ↦ absurd h.2.2.absolute (by decide)
  · rw [if_neg hq, hexpand]
    show (if _ then _ else _) = _ ↔ _
    constructor
    · intro h
      split_ifs at h with hshape habs hroot hany
      all_goals
        obtain ⟨hlen, hnul⟩ := not_or.mp hshape
        cases h
        rw [byteLength_eq] at hlen
        refine ⟨rfl, by omega, by simpa using habs, hnul, ?_⟩
      · exact .inl hroot
      · exact .inr (by simpa [IsEntryName, and_assoc] using hany)
    · rintro ⟨rfl, hlen, hcanon⟩
      have hany : r = "/" ∨ ¬∃ seg ∈ split '/' (drop 1 r), seg = "" ∨ seg = "." ∨ seg = ".." := by
        refine hcanon.entries.imp_right fun h ↦ ?_
        simp_all [IsEntryName]
      rw [if_neg (by simp [hcanon.no_nul, byteLength_eq, hlen]), if_neg (by simp [hcanon.absolute])]
      rcases hany with hroot | hany
      · rw [if_pos hroot]
      · rw [if_neg hany, ite_self]

/-! ### All gates -/

/-- The gates agree on `p`, which the router makes of `q`: it returns no other path, and it takes
this one when the others do. -/
def GatesAgree (home : Option String) (q p : String) : Prop :=
  (∀ r, checkedPath q home = .ok r → r = p) ∧
    [checkedPath q home = .ok p, checked p = .ok (), canonicalPath p = .ok (),
      canonicalViolation p = none].TFAE

/-- **All path gates accept the same paths**, whether the home was put into them or not, and no two
paths they accept have the same components. -/
theorem gates_agree (home : Option String) :
    (∀ q, startsWithChar '~' q = false → q.utf8ByteSize ≤ maxMutationPathBytes →
      GatesAgree home q q) ∧
    (∀ q p, startsWithChar '~' q = true → expandHome q home = .ok p →
      p.utf8ByteSize ≤ maxMutationPathBytes → GatesAgree home q p) ∧
    ∀ p p', canonicalViolation p = none → canonicalViolation p' = none →
      components p = components p' → p = p' := by
  have hagree : ∀ q p, expandHome q home = .ok p → p.utf8ByteSize ≤ maxMutationPathBytes →
      GatesAgree home q p := by
    intro q p hexpand hlen
    refine ⟨fun r hr ↦ ((checkedPath_eq_ok_iff hexpand r).mp hr).1, ?_⟩
    rw [checkedPath_eq_ok_iff hexpand, checked_eq_ok_iff, canonicalPath_eq_ok_iff,
      canonicalViolation_eq_none_iff]
    simp only [hlen]
    exact tfae_of_forall (IsCanonical p) _ (by simp)
  refine ⟨fun q hhome ↦ hagree q q (by simp [expandHome, hhome]), fun q p _ ↦ hagree q p, ?_⟩
  intro p p' hp hp' h
  exact (canonicalViolation_eq_none_iff.mp hp).eq_of_components
    (canonicalViolation_eq_none_iff.mp hp') h

theorem gates_agree_home :
    GatesAgree (some "/home/u") "~/a" "/home/u/a" ∧
    checkedPath "~/a" (some "/home/u") = .ok "/home/u/a" ∧
    GatesAgree none "/a//b" "/a//b" ∧ checked "/a//b" = .error "empty segment" :=
  ⟨(gates_agree (some "/home/u")).2.1 _ _ (by decide) (by decide) (by decide), by decide,
    (gates_agree none).1 _ (by decide) (by decide), by decide⟩

end Maknae.Agent
