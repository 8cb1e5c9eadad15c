import Mathlib.Data.Vector.Defs
import Maknae.Foundation.OrderedList
import Maknae.StateGraph.Kernel

/-!
# The identity layer and carried containment

The identity layer of the state graph lists the subjects a bindings file declares. A contained
subject is listed under the role `adversary`, with one of the names that claim it; the other names
that claim a contained uid are `aliases`. `claims` reads all of them back.

A name under `adversary` that no longer resolves must not release the uid it last stood for.
`carryForward` adds every such claim of the persisted layer to the layer the file declares. The two
encodings of a claim are asymmetric, so the law of this module is `claims_withClaims`: claims that
are written are the claims that are read, **provided** every contained subject's own name is claimed
for it and no claim is spelled like a bare uid. `getElem?_claims_carryForward` follows, and from it
everything about repeated reloads.
-/

namespace Maknae.StateGraph

open List hiding Vector

/-- One subject a bindings file declares. -/
structure SubjectEntry where
  uid : UInt32
  name : String
  role : String
deriving DecidableEq, Repr

/-- Names with the uid each stands for. -/
abbrev Claims := Std.ExtTreeMap String UInt32 compare

/-- The subjects a bindings file declares, and the names of contained uids. -/
structure IdentityLayer where
  source : String
  label : String
  bindingsSha256 : Option (Vector UInt8 32)
  subjects : List SubjectEntry
  /-- Adversary names, with the contained uid each last resolved to, other than the name a contained
  subject carries itself. -/
  aliases : Claims
deriving DecidableEq

namespace IdentityLayer

/-- Record the name a contained subject carries. A bare uid claims nothing. -/
def claimOwn (out : Claims) (s : SubjectEntry) : Claims :=
  if s.role = adversary ∧ s.name ≠ subjectKey s.uid then out.insertIfNew s.name s.uid else out

/-- Every `adversary:` name with the uid it last resolved to. -/
def claims (layer : IdentityLayer) : Claims := layer.subjects.foldl claimOwn layer.aliases

/-- The layer holding exactly `claims`. -/
def withClaims (layer : IdentityLayer) (claims : Claims) : IdentityLayer :=
  { layer with
    aliases := claims.filter fun n u ↦
      !layer.subjects.any fun s ↦ s.uid == u && s.role == adversary && s.name == n }

/-- The uid is contained in the layer. -/
def Contains (layer : IdentityLayer) (uid : UInt32) : Prop :=
  ∃ s ∈ layer.subjects, s.uid = uid ∧ s.role = adversary

end IdentityLayer

/-- A claim that was carried forward, and the entries it replaced. -/
structure Carried where
  uid : UInt32
  name : String
  overrides : List SubjectEntry

/-- Contain a uid under a name, unless it is contained already; the other entries for it are
replaced and returned. -/
def containUid (subjects : List SubjectEntry) (name : String) (uid : UInt32) :
    List SubjectEntry × List SubjectEntry :=
  if subjects.any fun e ↦ e.uid == uid && e.role == adversary then (subjects, [])
  else
    (subjects.filter (fun e ↦ e.uid != uid) ++ [⟨uid, name, adversary⟩],
      subjects.filter fun e ↦ e.uid == uid)

/-- The loop over the carried claims. -/
def carryClaims (subjects : List SubjectEntry) :
    List (String × UInt32) → List SubjectEntry × List Carried
  | [] => (subjects, [])
  | (name, uid) :: rest =>
    let (subjects, overrides) := containUid subjects name uid
    let (subjects, carried) := carryClaims subjects rest
    (subjects, ⟨uid, name, overrides⟩ :: carried)

/-- The persisted claims of unresolved names, in name order. -/
def carriedClaims (unresolvedAdversaries : List String) (persisted : IdentityLayer) :
    List (String × UInt32) :=
  persisted.claims.toList.filter fun c ↦ unresolvedAdversaries.contains c.1

/-- The layer of the file plus every persisted claim of an unresolved adversary name. -/
def carryForward (file : IdentityLayer) (unresolvedAdversaries : List String)
    (persisted : IdentityLayer) : IdentityLayer × List Carried :=
  let carrying := carriedClaims unresolvedAdversaries persisted
  let (subjects, carried) := carryClaims file.subjects carrying
  let out := { file with subjects := sortByKey (fun e ↦ e.uid.toNat) subjects }
  (out.withClaims (file.claims.insertMany carrying), carried)

/-! ### Written claims are read back -/

namespace IdentityLayer

/-- The subject carries the name and is contained under it. -/
def OwnName (s : SubjectEntry) (n : String) : Prop :=
  s.role = adversary ∧ s.name ≠ subjectKey s.uid ∧ s.name = n

instance (s : SubjectEntry) (n : String) : Decidable (OwnName s n) :=
  inferInstanceAs (Decidable (_ ∧ _ ∧ _))

/-- A name is claimed as an alias or, failing that, for the first subject that carries it. -/
theorem getElem?_foldl_claimOwn (subjects : List SubjectEntry) (out : Claims) (n : String) :
    (subjects.foldl claimOwn out)[n]? =
      out[n]?.or ((subjects.find? fun s ↦ OwnName s n).map SubjectEntry.uid) := by
  induction subjects generalizing out with
  | nil => simp
  | cons s subjects ih =>
    rw [foldl_cons, ih, find?_cons, claimOwn]
    by_cases hown : OwnName s n
    · obtain ⟨hrole, hkey, rfl⟩ := hown
      have hs : OwnName s s.name := ⟨hrole, hkey, rfl⟩
      simp only [hrole, hkey, ne_eq, not_false_eq_true, and_self, if_true, hs,
        Std.ExtTreeMap.getElem?_insertIfNew]
      cases hn : out[s.name]? with
      | none =>
        have hmem : s.name ∉ out := by
          rw [Std.ExtTreeMap.mem_iff_isSome_getElem?, hn]
          simp
        simp [hmem]
      | some u =>
        have hmem : s.name ∈ out := by
          rw [Std.ExtTreeMap.mem_iff_isSome_getElem?, hn]
          simp
        simp [hmem]
    · simp only [hown, decide_false]
      split_ifs with hclaims
      · have hne : s.name ≠ n := fun h ↦ hown ⟨hclaims.1, hclaims.2, h⟩
        rw [Std.ExtTreeMap.getElem?_insertIfNew, if_neg (by simp [hne])]
      · rfl

theorem getElem?_claims (layer : IdentityLayer) (n : String) :
    layer.claims[n]? =
      layer.aliases[n]?.or ((layer.subjects.find? fun s ↦ OwnName s n).map SubjectEntry.uid) :=
  getElem?_foldl_claimOwn _ _ _

/-- **Written claims are read back**, when every contained subject's own name is claimed for it and
no claim is spelled like the uid it is for. -/
theorem claims_withClaims {layer : IdentityLayer} {claims : Claims}
    (hown : ∀ s ∈ layer.subjects, ∀ n, OwnName s n → claims[n]? = some s.uid)
    (hkey : ∀ n u, claims[n]? = some u → n ≠ subjectKey u) :
    (layer.withClaims claims).claims = claims := by
  refine Std.ExtTreeMap.ext_getElem? fun n ↦ ?_
  rw [getElem?_claims, withClaims, Std.ExtTreeMap.getElem?_filter']
  cases hfind : layer.subjects.find? fun s ↦ OwnName s n with
  | none =>
    cases hn : claims[n]? with
    | none => rfl
    | some u =>
      -- A subject that hid the claim would have been found.
      have hnone : (layer.subjects.any fun s ↦
          s.uid == u && s.role == adversary && s.name == n) = false := by
        rw [any_eq_false]
        rintro s hs hsame
        simp only [Bool.and_eq_true, beq_iff_eq] at hsame
        obtain ⟨⟨rfl, hrole⟩, rfl⟩ := hsame
        exact absurd (find?_eq_none.mp hfind s hs) (by
          simpa using ⟨hrole, hkey s.name s.uid hn, rfl⟩)
      simp [hnone]
  | some s =>
    have hs : OwnName s n := by simpa using find?_some hfind
    rw [hown s (mem_of_find?_eq_some hfind) n hs]
    cases hfilter : Option.filter _ (some s.uid) with
    | none => rfl
    | some u =>
      obtain ⟨heq, -⟩ := Option.filter_eq_some_iff.mp hfilter
      rw [← heq]
      rfl

end IdentityLayer

/-! ### The loop over the carried claims -/

section CarryClaims

variable {subjects : List SubjectEntry} {name : String} {uid : UInt32}

variable {s : SubjectEntry} {u : UInt32}

theorem mem_containUid (h : s ∈ (containUid subjects name uid).1) :
    s ∈ subjects ∨ s = ⟨uid, name, adversary⟩ := by
  unfold containUid at h
  split_ifs at h
  · exact .inl h
  · rcases mem_append.mp h with hs | hs
    · exact .inl (mem_of_mem_filter hs)
    · exact .inr (mem_singleton.mp hs)

/-- Containing a uid contains it and releases nothing. -/
theorem exists_mem_containUid :
    (∃ s ∈ (containUid subjects name uid).1, s.uid = u ∧ s.role = adversary) ↔
      (∃ s ∈ subjects, s.uid = u ∧ s.role = adversary) ∨ uid = u := by
  unfold containUid
  split_ifs with hany
  · obtain ⟨e, he, hcontained⟩ := any_eq_true.mp hany
    obtain ⟨huid, hrole⟩ : e.uid = uid ∧ e.role = adversary := by simpa using hcontained
    refine ⟨.inl, ?_⟩
    rintro (h | rfl)
    · exact h
    · exact ⟨e, he, huid, hrole⟩
  · constructor
    · rintro ⟨s, hs, rfl, hrole⟩
      rcases mem_append.mp hs with hs | hs
      · exact .inl ⟨s, mem_of_mem_filter hs, rfl, hrole⟩
      · obtain rfl := mem_singleton.mp hs
        exact .inr rfl
    · rintro (⟨s, hs, rfl, hrole⟩ | rfl)
      · -- The entry survives, since its uid is contained and the carried one is not.
        have hne : s.uid ≠ uid := by
          rintro rfl
          exact hany (any_eq_true.mpr ⟨s, hs, by simp [hrole]⟩)
        exact ⟨s, mem_append_left _ (mem_filter.mpr ⟨hs, by simpa using hne⟩), rfl, hrole⟩
      · exact ⟨_, mem_append_right _ (mem_singleton_self _), rfl, rfl⟩

/-- The entries of another uid stay as they are. -/
theorem filter_containUid (h : uid ≠ u) :
    (containUid subjects name uid).1.filter (fun e ↦ e.uid == u) =
      subjects.filter fun e ↦ e.uid == u := by
  unfold containUid
  split_ifs
  · rfl
  · have hdrop : ∀ e : SubjectEntry, ((e.uid == u) && (e.uid != uid)) = (e.uid == u) := by
      intro e
      rw [Bool.and_eq_left_iff_imp]
      intro hu
      rw [eq_of_beq hu]
      simpa using h.symm
    simp [hdrop, h]

/-- Containing a uid lists it once, if every uid was. -/
theorem pairwise_containUid (h : subjects.Pairwise fun s t ↦ s.uid ≠ t.uid) :
    (containUid subjects name uid).1.Pairwise fun s t ↦ s.uid ≠ t.uid := by
  unfold containUid
  split_ifs
  · exact h
  · refine pairwise_append.mpr ⟨h.filter _, pairwise_singleton _ _, fun s hs t ht ↦ ?_⟩
    obtain rfl := mem_singleton.mp ht
    simpa using (mem_filter.mp hs).2

variable {carrying : List (String × UInt32)}

theorem pairwise_carryClaims (h : subjects.Pairwise fun s t ↦ s.uid ≠ t.uid) :
    (carryClaims subjects carrying).1.Pairwise fun s t ↦ s.uid ≠ t.uid := by
  induction carrying generalizing subjects with
  | nil => exact h
  | cons c rest ih => exact ih (pairwise_containUid h)

/-- Every entry after the loop was there before, or contains a carried uid under its name. -/
theorem mem_carryClaims (h : s ∈ (carryClaims subjects carrying).1) :
    s ∈ subjects ∨ ∃ c ∈ carrying, s = ⟨c.2, c.1, adversary⟩ := by
  induction carrying generalizing subjects with
  | nil => exact .inl h
  | cons c rest ih =>
    rcases ih h with hs | ⟨d, hd, hs⟩
    · rcases mem_containUid hs with hs | hs
      · exact .inl hs
      · exact .inr ⟨c, mem_cons_self, hs⟩
    · exact .inr ⟨d, mem_cons_of_mem c hd, hs⟩

/-- The loop contains the carried uids and releases nothing. -/
theorem exists_mem_carryClaims :
    (∃ s ∈ (carryClaims subjects carrying).1, s.uid = u ∧ s.role = adversary) ↔
      (∃ s ∈ subjects, s.uid = u ∧ s.role = adversary) ∨ ∃ c ∈ carrying, c.2 = u := by
  induction carrying generalizing subjects with
  | nil => simp [carryClaims]
  | cons c rest ih =>
    show (∃ s ∈ (carryClaims (containUid subjects c.1 c.2).1 rest).1, _) ↔ _
    rw [ih, exists_mem_containUid, exists_mem_cons_iff, or_assoc]

/-- The entries of a uid that is not carried stay as they are. -/
theorem filter_carryClaims (h : ∀ c ∈ carrying, c.2 ≠ u) :
    (carryClaims subjects carrying).1.filter (fun e ↦ e.uid == u) =
      subjects.filter fun e ↦ e.uid == u := by
  induction carrying generalizing subjects with
  | nil => rfl
  | cons c rest ih =>
    obtain ⟨hc, hrest⟩ := forall_mem_cons.mp h
    exact (ih hrest).trans (filter_containUid hc)

end CarryClaims

/-! ### Carrying forward -/

/-- A layer a bindings file declares, with the adversary names it could not resolve. -/
structure Declared (file : IdentityLayer) (unresolved : List String) : Prop where
  /-- A contained subject's own name is claimed for it. -/
  own_claimed : ∀ s ∈ file.subjects, ∀ n, IdentityLayer.OwnName s n → file.claims[n]? = some s.uid
  /-- No claim is spelled like a bare uid. -/
  claim_ne_key : ∀ n u, file.claims[n]? = some u → n ≠ subjectKey u
  /-- A name that did not resolve claims nothing. -/
  unresolved_unclaimed : ∀ n ∈ unresolved, file.claims[n]? = none
  /-- No unresolved name is spelled like a bare uid. -/
  unresolved_ne_key : ∀ n ∈ unresolved, ∀ u, n ≠ subjectKey u

variable {file persisted : IdentityLayer} {unresolved : List String}

theorem mem_carriedClaims {c : String × UInt32} :
    c ∈ carriedClaims unresolved persisted ↔
      persisted.claims[c.1]? = some c.2 ∧ c.1 ∈ unresolved := by
  rw [carriedClaims, ← Std.ExtTreeMap.mem_toList_iff_getElem?_eq_some]
  simp

/-- The claims of the file, overwritten by those that are carried. -/
theorem getElem?_insertMany_carriedClaims (claims : Claims) (n : String) :
    (claims.insertMany (carriedClaims unresolved persisted))[n]? =
      if n ∈ unresolved then persisted.claims[n]?.or claims[n]? else claims[n]? := by
  by_cases hcarried : ∃ u, (n, u) ∈ carriedClaims unresolved persisted
  · obtain ⟨u, hu⟩ := hcarried
    obtain ⟨hclaim, hn⟩ := mem_carriedClaims.mp hu
    have hdistinct : (carriedClaims unresolved persisted).Pairwise
        fun a b ↦ ¬compare a.1 b.1 = .eq :=
      Std.ExtTreeMap.distinct_keys_toList.filter _
    rw [Std.ExtTreeMap.getElem?_insertMany_list_of_mem Std.ReflCmp.compare_self hdistinct hu,
      if_pos hn, hclaim, Option.some_or]
  · have hnot : ((carriedClaims unresolved persisted).map Prod.fst).contains n = false := by
      rw [← Bool.not_eq_true, contains_iff_mem, mem_map]
      rintro ⟨⟨m, u⟩, hmem, rfl⟩
      exact hcarried ⟨u, hmem⟩
    rw [Std.ExtTreeMap.getElem?_insertMany_list_of_contains_eq_false hnot]
    split_ifs with hn
    · cases hclaim : persisted.claims[n]? with
      | none => rfl
      | some u => exact absurd ⟨u, mem_carriedClaims.mpr ⟨hclaim, hn⟩⟩ hcarried
    · rfl

theorem mem_subjects_carryForward {s} :
    s ∈ (carryForward file unresolved persisted).1.subjects ↔
      s ∈ (carryClaims file.subjects (carriedClaims unresolved persisted)).1 :=
  mem_sortByKey

/-- **The claims after carrying forward**: an unresolved name keeps its persisted claim, every other
name has the file's. -/
theorem getElem?_claims_carryForward (h : Declared file unresolved) (n : String) :
    (carryForward file unresolved persisted).1.claims[n]? =
      if n ∈ unresolved then persisted.claims[n]? else file.claims[n]? := by
  have hread : (carryForward file unresolved persisted).1.claims =
      file.claims.insertMany (carriedClaims unresolved persisted) := by
    refine IdentityLayer.claims_withClaims ?_ ?_
    · intro s hs m hm
      rw [getElem?_insertMany_carriedClaims]
      rcases mem_carryClaims (mem_subjects_carryForward.mp hs) with hfile | ⟨c, hc, rfl⟩
      · have hclaim := h.own_claimed s hfile m hm
        have hm' : m ∉ unresolved := fun hmem ↦ by
          rw [h.unresolved_unclaimed m hmem] at hclaim
          cases hclaim
        rw [if_neg hm', hclaim]
      · obtain ⟨hclaim, hmem⟩ := mem_carriedClaims.mp hc
        obtain rfl := hm.2.2
        rw [if_pos hmem, hclaim, Option.some_or]
    · intro m u hm
      rw [getElem?_insertMany_carriedClaims] at hm
      split_ifs at hm with hmem
      · exact h.unresolved_ne_key m hmem u
      · exact h.claim_ne_key m u hm
  rw [hread, getElem?_insertMany_carriedClaims]
  split_ifs with hn
  · rw [h.unresolved_unclaimed n hn, Option.or_none]
  · rfl

/-- What is carried forward depends on the persisted claims of the unresolved names only. -/
theorem carryForward_congr {persisted'}
    (h : ∀ n ∈ unresolved, persisted.claims[n]? = persisted'.claims[n]?) :
    carryForward file unresolved persisted = carryForward file unresolved persisted' := by
  have hcarried : carriedClaims unresolved persisted = carriedClaims unresolved persisted' := by
    unfold carriedClaims
    rw [← Std.ExtTreeMap.toList_filter (f := fun n _ ↦ unresolved.contains n),
      ← Std.ExtTreeMap.toList_filter (f := fun n _ ↦ unresolved.contains n)]
    congr 1
    refine Std.ExtTreeMap.ext_getElem? fun n ↦ ?_
    rw [Std.ExtTreeMap.getElem?_filter', Std.ExtTreeMap.getElem?_filter']
    by_cases hn : n ∈ unresolved
    · rw [h n hn]
    · simp [hn]
  rw [carryForward, carryForward, hcarried]

/-- The contained uids: those of the file and those that are carried. -/
theorem contains_carryForward {u} :
    (carryForward file unresolved persisted).1.Contains u ↔
      file.Contains u ∨ ∃ n ∈ unresolved, persisted.claims[n]? = some u := by
  unfold IdentityLayer.Contains
  simp only [mem_subjects_carryForward]
  rw [exists_mem_carryClaims]
  refine or_congr_right ⟨?_, ?_⟩
  · rintro ⟨⟨n, v⟩, hc, rfl⟩
    obtain ⟨hclaim, hn⟩ := mem_carriedClaims.mp hc
    exact ⟨n, hn, hclaim⟩
  · rintro ⟨n, hn, hclaim⟩
    exact ⟨(n, u), mem_carriedClaims.mpr ⟨hclaim, hn⟩, rfl⟩

/-- Carrying forward lists every uid once, if the file does. -/
theorem pairwise_carryForward (h : file.subjects.Pairwise fun s t ↦ s.uid ≠ t.uid) :
    (carryForward file unresolved persisted).1.subjects.Pairwise fun s t ↦ s.uid ≠ t.uid :=
  ((sortByKey_perm _ _).pairwise_iff fun hne ↦ hne.symm).mpr (pairwise_carryClaims h)

/-- The entries of a uid that is not carried are the file's. -/
theorem filter_carryForward_perm {u}
    (h : ∀ n ∈ unresolved, persisted.claims[n]? ≠ some u) :
    ((carryForward file unresolved persisted).1.subjects.filter fun e ↦ e.uid == u).Perm
      (file.subjects.filter fun e ↦ e.uid == u) := by
  have hcarried : ∀ c ∈ carriedClaims unresolved persisted, c.2 ≠ u := by
    rintro ⟨n, v⟩ hc rfl
    obtain ⟨hclaim, hn⟩ := mem_carriedClaims.mp hc
    exact h n hn hclaim
  exact ((sortByKey_perm (fun e : SubjectEntry ↦ e.uid.toNat) _).filter _).trans
    (.of_eq (filter_carryClaims hcarried))

end Maknae.StateGraph
