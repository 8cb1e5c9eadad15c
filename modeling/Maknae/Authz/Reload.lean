import Maknae.Authz.Binding
import Maknae.StateGraph.LayersRoundTrip

/-!
# Containment over reloads

A reload declares a layer from the bindings it loads and carries onto it every persisted containment
whose name no longer resolves. `compileIdentity` is the check a compile makes on the persisted layer
before it trusts it: it carries that layer onto the declaration of the load at hand and compares.

The two are consistent since carrying is idempotent on its own result: what it keeps of a persisted
layer are the claims of unresolved names, and those are kept as they are. The same law makes a
containment last for as long as its name stays unresolved, through any run of reloads
(`getElem?_claims_foldl_nextLayer`).
-/

namespace Maknae.Authz

open List hiding Vector
open StateGraph

/-- One reload: what was loaded, and where it is recorded. -/
structure Load where
  source : PolicySource
  label : String
  bindingsSha256 : Option (Vector UInt8 32)

namespace Load

/-- The layer the load declares. -/
def file (load : Load) : IdentityLayer := load.source.identityLayer load.label load.bindingsSha256

/-- The names under `adversary` the load could not resolve. -/
def unresolved (load : Load) : List String := load.source.unresolvedAdversaries

end Load

/-- The layer a reload persists. -/
def nextLayer (persisted : IdentityLayer) (load : Load) : IdentityLayer :=
  (carryForward load.file load.unresolved persisted).1

/-- The check of a compile on the persisted layer, with the containments the layer carries. -/
def compileIdentity (stored : IdentityLayer) (source : PolicySource)
    (bindingsSha256 : Option (Vector UInt8 32)) : Except String (List Carried) :=
  let (declared, carried) := carryForward (source.identityLayer stored.label bindingsSha256)
    source.unresolvedAdversaries stored
  if stored ≠ declared then
    .error s!"the persisted identity layer differs from the one {declared.source} declares"
  else .ok carried

variable (load : Load) (persisted : IdentityLayer)

theorem declared_file : Declared load.file load.unresolved :=
  load.source.declared_identityLayer load.label load.bindingsSha256

variable {n : String} {loads : List Load}

/-- A reload keeps the claim of every name it could not resolve. -/
theorem getElem?_claims_nextLayer (h : n ∈ load.unresolved) :
    (nextLayer persisted load).claims[n]? = persisted.claims[n]? := by
  rw [nextLayer, getElem?_claims_carryForward (declared_file load), if_pos h]

/-- With no claims to carry the layer is the declared one, as at the first load. -/
theorem nextLayer_of_claims_eq_empty (h : persisted.claims = ∅) :
    nextLayer persisted load = load.file := by
  have hcarried : carriedClaims load.unresolved persisted = [] := by
    rw [carriedClaims, h]
    rfl
  have hsorted : sortByKey (fun e ↦ e.uid.toNat) load.file.subjects = load.file.subjects :=
    sortByKey_eq_of_perm (List.Perm.refl _) (load.source.ordered_identityLayer _ _)
  have hclaims : load.file.claims = load.source.resolved.adversaryNames :=
    load.source.claims_identityLayer _ _
  rw [nextLayer, carryForward, hcarried]
  simp only [carryClaims, hsorted, hclaims]
  rfl

/-- A claim lasts while its name stays unresolved. -/
theorem getElem?_claims_foldl_nextLayer (h : ∀ load ∈ loads, n ∈ load.unresolved) :
    (loads.foldl nextLayer persisted).claims[n]? = persisted.claims[n]? := by
  induction loads generalizing persisted with
  | nil => rfl
  | cons load loads ih =>
    rw [foldl_cons, ih _ fun l hl ↦ h l (mem_cons_of_mem load hl),
      getElem?_claims_nextLayer load persisted (h load mem_cons_self)]

/-- A claimed uid is contained after every run of reloads that leave its name unresolved. -/
theorem contains_foldl_nextLayer {u} (hclaim : persisted.claims[n]? = some u)
    (hne : loads ≠ []) (h : ∀ load ∈ loads, n ∈ load.unresolved) :
    (loads.foldl nextLayer persisted).Contains u := by
  obtain ⟨init, last, rfl⟩ := eq_nil_or_concat loads |>.resolve_left hne
  rw [concat_eq_append, foldl_append]
  have hlast : n ∈ last.unresolved := h last (by simp)
  have hinit : ∀ load ∈ init, n ∈ load.unresolved := fun l hl ↦ h l (by simp [hl])
  refine contains_carryForward.mpr (.inr ⟨n, hlast, ?_⟩)
  rw [getElem?_claims_foldl_nextLayer persisted hinit, hclaim]

theorem nextLayer_nextLayer :
    nextLayer (nextLayer persisted load) load = nextLayer persisted load :=
  congrArg Prod.fst (carryForward_congr fun _ hn ↦ getElem?_claims_nextLayer load persisted hn)

/-- The check of a compile passes on the layer the same load persisted. -/
theorem compileIdentity_nextLayer :
    ∃ carried, compileIdentity (nextLayer persisted load) load.source load.bindingsSha256 =
      .ok carried := by
  refine ⟨(carryForward load.file load.unresolved (nextLayer persisted load)).2, ?_⟩
  have hsame := nextLayer_nextLayer load persisted
  exact if_neg (not_not_intro hsame.symm)

/-- The graph of the layer a reload persists holds that layer. -/
theorem extract_build_nextLayer {baseline sync compiled vocabularySha256 revision initiator g}
    (hread : Readable (nextLayer persisted load) baseline sync)
    (h : Identity.build (nextLayer persisted load) baseline sync compiled vocabularySha256 revision
      initiator = .ok g) :
    Identity.extract g =
      .ok ⟨nextLayer persisted load, some vocabularySha256, [], baseline, sync⟩ := by
  have hsorted : sortByKey (fun s ↦ s.uid.toNat) (nextLayer persisted load).subjects =
      (nextLayer persisted load).subjects := sortByKey_sortByKey _ _
  rw [extract_build hread h, hsorted]

/-- The entry of a bound uid that is not carried stays as the file has it. -/
theorem filter_subjects_nextLayer {s} (hs : s ∈ load.file.subjects)
    (hcarried : ∀ n ∈ load.unresolved, persisted.claims[n]? ≠ some s.uid) :
    ((nextLayer persisted load).subjects.filter fun e ↦ e.uid == s.uid) = [s] := by
  have hdistinct := load.source.pairwise_identityLayer load.label load.bindingsSha256
  have hfile : (load.file.subjects.filter fun e ↦ e.uid == s.uid) = [s] :=
    filter_key_eq_singleton hdistinct hs
  exact perm_singleton.mp (hfile ▸ filter_carryForward_perm hcarried)

/-- **Containment survives reloads.** The unresolved names claim nothing in the declared layer. What
a reload contains is what the file contains and what the persisted layer claims for an unresolved
name; such claims are kept, through any further reloads that leave the name unresolved. Entries of
other uids stay, and the layer passes the check of a compile. -/
theorem containment_survives_reload :
    (∀ n ∈ load.unresolved, load.file.claims[n]? = none) ∧
    (∀ u, (nextLayer persisted load).Contains u ↔
      load.file.Contains u ∨ ∃ n ∈ load.unresolved, persisted.claims[n]? = some u) ∧
    (∀ n ∈ load.unresolved, (nextLayer persisted load).claims[n]? = persisted.claims[n]?) ∧
    (∀ n ∈ load.unresolved, ∀ loads : List Load, (∀ later ∈ loads, n ∈ later.unresolved) →
      (loads.foldl nextLayer (nextLayer persisted load)).claims[n]? = persisted.claims[n]? ∧
      ∀ u, persisted.claims[n]? = some u →
        (loads.foldl nextLayer (nextLayer persisted load)).Contains u) ∧
    (∀ s ∈ load.file.subjects, s.role ≠ adversary →
      (∀ n ∈ load.unresolved, persisted.claims[n]? ≠ some s.uid) →
      ((nextLayer persisted load).subjects.filter fun e ↦ e.uid == s.uid) = [s]) ∧
    (carryForward load.file load.unresolved (nextLayer persisted load)).1 =
      nextLayer persisted load ∧
    ∃ carried, compileIdentity (nextLayer persisted load) load.source load.bindingsSha256 =
      .ok carried := by
  refine ⟨(declared_file load).unresolved_unclaimed, fun u ↦ contains_carryForward,
    fun n hn ↦ getElem?_claims_nextLayer load persisted hn, fun n hn loads hloads ↦ ?_,
    fun s hs _ hcarried ↦ filter_subjects_nextLayer load persisted hs hcarried,
    nextLayer_nextLayer load persisted, compileIdentity_nextLayer load persisted⟩
  have hall : ∀ later ∈ load :: loads, n ∈ later.unresolved := by
    simpa using ⟨hn, hloads⟩
  exact ⟨getElem?_claims_foldl_nextLayer persisted hall,
    fun u hu ↦ contains_foldl_nextLayer persisted hu (List.cons_ne_nil _ _) hall⟩

end Maknae.Authz
