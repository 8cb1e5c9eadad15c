import Maknae.Proto.EgressFrame
import Maknae.Vault.Wrap

/-!
# The choice of a provider

A prompt names a provider, a model and the place of the user's own key. The kernel admits the choice
against the set of authorized providers and composes the path of the key from the name of the
account behind the connection: the user chooses what is below that name, never the name.

`admitChoice_eq_ok` says what an admitted choice is. Everything later about key paths reads it.
-/

namespace Maknae.Kernel

open Config Except Proto Vault

structure ProviderAuthority where
  set : ProviderSet
  userPrefix : String

def providerAuthority (set : ProviderSet) (bounds : Option EgressBounds) :
    Option ProviderAuthority :=
  match bounds with
  | some b => if set = [] then none else some ⟨set, b.userPrefix⟩
  | none => none

/-- A choice that was admitted. The request to the policy reads the name of its provider and its
model only. -/
structure AdmittedProviderChoice where
  provider : AuthorizedProvider
  model : String
  keyVaultPath : String
  keyField : String
  sealedKey : SealedKey
deriving DecidableEq

inductive ChoiceRefusal
  | noChoice
  | noProviders
  | unknownProvider
  | modelNotListed
  | unsafeUsername
  | malformedSubpath
  | malformedField
deriving DecidableEq, Repr

/-- An account name that can be a segment of a key path. -/
def usableUsername (u : String) : Bool :=
  (userpassUsernameIsAcceptable u).toOption.isSome && (kvFragmentIsAcceptable u).toOption.isSome

def admitChoice (set : ProviderSet) (choice : Option ProviderChoice) (username : Option String)
    (userPrefix : String) : Except ChoiceRefusal AdmittedProviderChoice := do
  let choice ← choice.elim (.error .noChoice) .ok
  .refuseIf (set = []) .noProviders
  let provider ← (set.get choice.provider).elim (.error .unknownProvider) .ok
  .refuseIf (choice.model ∉ provider.models) .modelNotListed
  let username ← (username.filter usableUsername).elim (.error .unsafeUsername) .ok
  (keySubpathIsAcceptable choice.keySubpath).mapError fun _ ↦ .malformedSubpath
  .refuseIf (¬keyFieldIsAcceptable choice.keyField) .malformedField
  let keyVaultPath ← (userKeyPath userPrefix username choice.keySubpath).mapError fun _ ↦
    .malformedSubpath
  return ⟨provider, choice.model, keyVaultPath, choice.keyField, choice.sealedKey⟩

/-- The choice of a prompt, under the authority in force: none is an empty set. -/
def admitUnder (authority : Option ProviderAuthority) (choice : Option ProviderChoice)
    (username : Option String) : Except ChoiceRefusal AdmittedProviderChoice :=
  match authority with
  | some a => admitChoice a.set choice username a.userPrefix
  | none => admitChoice [] choice username ""

/-! ### What is admitted -/

theorem elim_error_eq_ok {ε α : Type*} {o : Option α} {e} {a} :
    (o.elim (.error e) .ok : Except ε α) = .ok a ↔ o = some a := by
  cases o <;> simp

/-- What was admitted: a choice of one user, for a listed model of an authorized provider. -/
structure AdmittedFor (set : ProviderSet) (choice : ProviderChoice) (u userPrefix : String)
    (a : AdmittedProviderChoice) : Prop where
  provider_mem : a.provider ∈ set
  model_mem : a.model ∈ a.provider.models
  usable : usableUsername u
  path : userKeyPath userPrefix u choice.keySubpath = .ok a.keyVaultPath
  field : keyFieldIsAcceptable a.keyField
  keyField_eq : a.keyField = choice.keyField
  sealedKey_eq : a.sealedKey = choice.sealedKey

theorem admitChoice_eq_ok {set choice username userPrefix a}
    (h : admitChoice set choice username userPrefix = .ok a) :
    ∃ c u, choice = some c ∧ username = some u ∧ AdmittedFor set c u userPrefix a := by
  obtain ⟨c, hc, _, -, provider, hprovider, h⟩ := bind₃_eq_ok.mp h
  obtain ⟨_, hmodel, u, hu, _, -, h⟩ := bind₃_eq_ok.mp h
  obtain ⟨_, hfield, path, hpath, ⟨⟩⟩ := bind₂_eq_ok.mp h
  obtain ⟨husername, husable⟩ := Option.filter_eq_some_iff.mp (elim_error_eq_ok.mp hu)
  rw [refuseIf_eq_ok, not_not] at hmodel hfield
  exact ⟨c, u, elim_error_eq_ok.mp hc, husername,
    List.mem_of_find?_eq_some (elim_error_eq_ok.mp hprovider), hmodel, husable,
    mapError_eq_ok_iff.mp hpath, hfield, rfl, rfl⟩

theorem usableUsername_iff {u} :
    usableUsername u ↔
      userpassUsernameIsAcceptable u = .ok () ∧ kvFragmentIsAcceptable u = .ok () := by
  have hok : ∀ x : Except String Unit, x.toOption.isSome ↔ x = .ok () := by
    intro x
    cases x <;> simp [Except.toOption]
  rw [usableUsername, Bool.and_eq_true, hok, hok]

/-- A usable name is short and is one segment. -/
theorem segment_of_usableUsername {u} (h : usableUsername u) :
    byteLength u ≤ maxUsernameBytes ∧ '/' ∉ u.toList ∧ KeySegments u := by
  obtain ⟨huser, hfragment⟩ := usableUsername_iff.mp h
  obtain ⟨_, -, _, hlength, _, -, hrest⟩ := bind₃_eq_ok.mp huser
  obtain ⟨_, hbytes, -⟩ := bind_eq_ok.mp hrest
  rw [refuseIf_eq_ok] at hlength hbytes
  refine ⟨not_lt.mp hlength, fun hslash ↦ ?_, (kvFragmentIsAcceptable_eq_ok.mp hfragment).2⟩
  rw [not_not, List.all_eq_true] at hbytes
  have hmem : (47 : UInt8) ∈ utf8Bytes u := by
    rw [utf8Bytes_eq_flatMap]
    exact List.mem_flatMap.mpr ⟨'/', hslash, by decide⟩
  exact absurd (hbytes 47 hmem) (by decide)

end Maknae.Kernel
