import Mathlib.Data.List.Basic
import Mathlib.Data.List.Infix

/-!
# Lexical normalization below an anchor

A path handed to an anchored verb is collapsed before anything is opened: `.` is dropped, a `..`
takes back the name before it, and a `..` that has none to take back is refused. What is left is
walked component by component from the anchor.

What a path is for is the location it leads to from a directory (`location`), with no regard to what
is there: a `..` goes up, and at the top it stays. Normalization keeps the location, below any
anchor (`location_append`), and which paths it takes is a matter of counting
(`foldlM_collapse_isSome`).
-/

namespace Maknae.Io

open List Option

inductive Component (ν : Type)
  | windowsPrefix (name : ν)
  | rootDir
  | curDir
  | parentDir
  | normal (name : ν)
deriving DecidableEq, Repr

/-- A path as the sequence of its components. -/
abbrev Components (ν : Type) := List (Component ν)

/-- The path leaves the anchor. The payload is the path as it was given. -/
structure EscapesAnchor (ν : Type) where
  path : Components ν
deriving DecidableEq, Repr

variable {ν : Type}

/-- One component on the stack of names; none where it would leave the anchor. -/
def collapse (out : List ν) : Component ν → Option (List ν)
  | .curDir => some out
  | .normal p => some (out ++ [p])
  | .parentDir => if out = [] then none else some out.dropLast
  | .rootDir | .windowsPrefix _ => none

def normalize (rel : Components ν) : Except (EscapesAnchor ν) (Components ν) :=
  match rel.foldlM collapse [] with
  | some out => .ok (out.map .normal)
  | none => .error ⟨rel⟩

/-! ### What a path means -/

def Component.isAbsolute : Component ν → Bool
  | .windowsPrefix _ | .rootDir => true
  | _ => false

def Component.isNormal : Component ν → Bool
  | .normal _ => true
  | _ => false

def Component.isParent : Component ν → Bool
  | .parentDir => true
  | _ => false

def Component.isCurDir : Component ν → Bool
  | .curDir => true
  | _ => false

/-- Where one component leads from a directory. -/
def follow (dir : List ν) : Component ν → List ν
  | .curDir => dir
  | .normal p => dir ++ [p]
  | .parentDir => dir.dropLast
  | .rootDir | .windowsPrefix _ => []

/-- Where a path leads from a directory. -/
def location (dir : List ν) (path : Components ν) : List ν := path.foldl follow dir

/-- Nothing in the path is absolute, and no start of it goes up more often than down. -/
def StaysBelow (rel : Components ν) : Prop :=
  (∀ c ∈ rel, c.isAbsolute = false) ∧
    ∀ start, start <+: rel → start.countP Component.isParent ≤ start.countP Component.isNormal

/-- A path after another one. An absolute one replaces it, and a `.` counts only at the start. -/
def join (a b : Components ν) : Components ν :=
  if b.any Component.isAbsolute ∨ a = [] then b else a ++ b.filter (!·.isCurDir)

/-! ### Normalization -/

variable {out names : List ν} {rel a b : Components ν}

/-- A start of a longer path is nothing, or its first component and a start of the rest. -/
theorem forall_start_cons {P : Components ν → Prop} {c : Component ν} :
    (∀ start, start <+: c :: rel → P start) ↔ P [] ∧ ∀ start, start <+: rel → P (c :: start) := by
  simp only [prefix_cons_iff, or_imp, forall_and, forall_eq, exists_imp, and_imp]
  exact and_congr_right fun _ ↦ ⟨fun h start ↦ h _ start rfl, fun h _ start hc ↦ hc ▸ h start⟩

/-- **Which paths are taken**, with the names on the stack to start from. -/
theorem foldlM_collapse_isSome : (∃ names, rel.foldlM collapse out = some names) ↔
    (∀ c ∈ rel, c.isAbsolute = false) ∧ ∀ start, start <+: rel →
      start.countP Component.isParent ≤ out.length + start.countP Component.isNormal := by
  induction rel generalizing out with
  | nil => simp
  | cons c rel ih =>
    rw [forall_mem_cons, forall_start_cons]
    simp only [countP_cons]
    cases c with
    | windowsPrefix _ | rootDir => simp [collapse, Component.isAbsolute]
    | curDir =>
      show (∃ names, foldlM collapse out rel = some names) ↔
        (false = false ∧ _) ∧ _ ∧ ∀ start, _ → _ + 0 ≤ _ + (_ + 0)
      simp [ih]
    | normal p =>
      show (∃ names, foldlM collapse (out ++ [p]) rel = some names) ↔
        (false = false ∧ _) ∧ _ ∧ ∀ start, _ → _ + 0 ≤ _ + (_ + 1)
      simp [ih, Nat.add_assoc, Nat.add_comm 1]
    | parentDir =>
      show (∃ names, (if out = [] then none else some out.dropLast).bind _ = some names) ↔
        (false = false ∧ _) ∧ _ ∧ ∀ start, _ → _ + 1 ≤ _ + (_ + 0)
      by_cases hout : out = []
      · -- Nothing to take back: the shortest start that goes up is this one.
        simpa [hout] using fun _ ↦ ⟨[], nil_prefix, by simp⟩
      · have hpos := length_pos_iff.mpr hout
        rw [if_neg hout, bind_some, ih, length_dropLast]
        refine and_congr (by simp) ⟨fun h ↦ ⟨Nat.zero_le _, fun start hstart ↦ ?_⟩,
          fun h start hstart ↦ ?_⟩
        · have := h start hstart
          omega
        · have := h.2 start hstart
          omega

/-- **Normalization keeps the location**, and it is one below the directory. -/
theorem location_append (h : rel.foldlM collapse out = some names) (dir : List ν) :
    location (dir ++ out) rel = dir ++ names := by
  induction rel generalizing out with
  | nil =>
    cases h
    rfl
  | cons c rel ih =>
    obtain ⟨next, hstep, h⟩ := bind_eq_some_iff.mp h
    have hfollow : follow (dir ++ out) c = dir ++ next := by
      cases c with
      | curDir => simpa [collapse, follow] using hstep
      | normal p =>
        cases hstep
        exact append_assoc ..
      | parentDir =>
        simp only [collapse] at hstep
        split_ifs at hstep with hout
        cases hstep
        exact dropLast_append_of_ne_nil hout
      | rootDir | windowsPrefix _ => cases hstep
    show (rel.foldl follow (follow (dir ++ out) c)) = _
    rw [hfollow]
    exact ih h

theorem foldlM_collapse_normal : (names.map .normal).foldlM collapse out = some (out ++ names) := by
  induction names generalizing out with
  | nil => simp
  | cons n names ih =>
    show foldlM collapse (out ++ [n]) _ = _
    rw [ih, append_assoc]
    rfl

theorem foldlM_collapse_filter :
    (b.filter (!·.isCurDir)).foldlM collapse out = b.foldlM collapse out := by
  induction b generalizing out with
  | nil => rfl
  | cons c b ih =>
    cases c with
    | curDir => exact ih
    | windowsPrefix _ | rootDir | parentDir | normal _ =>
      rw [filter_cons_of_pos rfl, foldlM_cons, foldlM_cons]
      simp only [ih]

/-- What follows is collapsed onto the names that are left. -/
theorem foldlM_collapse_join (h : a.foldlM collapse [] = some names)
    (hb : b.any Component.isAbsolute = false) :
    (join a b).foldlM collapse [] = b.foldlM collapse names := by
  unfold join
  split_ifs with hjoin
  · obtain rfl : a = [] := hjoin.resolve_left (by simp [hb])
    cases h
    rfl
  · rw [foldlM_append, h]
    exact foldlM_collapse_filter

theorem normalize_eq_ok_iff : normalize rel = .ok a ↔
    ∃ names, rel.foldlM collapse [] = some names ∧ a = names.map .normal := by
  unfold normalize
  cases rel.foldlM collapse [] <;> simp [eq_comm]

theorem toOption_normalize :
    (normalize rel).toOption = (rel.foldlM collapse []).map (map .normal) := by
  unfold normalize
  cases rel.foldlM collapse [] <;> rfl

/-- **Normalization never leaves its anchor.** A path is taken when no start of it goes up more
often than down. What is returned has only names, leads where the path leads, which is below every
directory it is walked from, and stands for the path in front of every other one. -/
theorem normalize_below_anchor (rel : Components ν) :
    ((∃ out, normalize rel = .ok out) ↔ StaysBelow rel) ∧
    ∀ out, normalize rel = .ok out →
      (∀ c ∈ out, c.isNormal) ∧
      (∀ dir, location dir out = location dir rel ∧ dir <+: location dir rel) ∧
      ∀ b, (∀ c ∈ b, c.isAbsolute = false) →
        (normalize (join rel b)).toOption = (normalize (join out b)).toOption := by
  constructor
  · simp only [normalize_eq_ok_iff, exists_comm.trans (exists_congr fun _ ↦ exists_and_left),
      exists_eq, and_true, foldlM_collapse_isSome, length_nil, Nat.zero_add, StaysBelow]
  · rintro _ hout
    obtain ⟨names, hnames, rfl⟩ := normalize_eq_ok_iff.mp hout
    have hself : (names.map Component.normal).foldlM collapse [] = some names :=
      foldlM_collapse_normal
    refine ⟨fun c hc ↦ ?_, fun dir ↦ ?_, fun b hb ↦ ?_⟩
    · obtain ⟨n, -, rfl⟩ := mem_map.mp hc
      rfl
    · have hrel := location_append hnames dir
      have hown := location_append hself dir
      rw [append_nil] at hrel hown
      exact ⟨hown.trans hrel.symm, hrel ▸ prefix_append ..⟩
    · have hb' : b.any Component.isAbsolute = false := by simpa using hb
      rw [toOption_normalize, toOption_normalize, foldlM_collapse_join hnames hb',
        foldlM_collapse_join hself hb']

theorem normalize_below_anchor_sibling :
    normalize [.normal "config.d", .parentDir, .normal "maknae.yaml"] =
      .ok [.normal "maknae.yaml"] ∧
    location ["etc"] [.normal "maknae.yaml"] =
      location ["etc"] [.normal "config.d", .parentDir, .normal "maknae.yaml"] :=
  ⟨by decide, (((normalize_below_anchor _).2 _ (by decide)).2.1 ["etc"]).1⟩

end Maknae.Io
