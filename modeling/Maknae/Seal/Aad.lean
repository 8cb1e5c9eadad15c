import Maknae.Config.KeyPaths

/-!
# Sealed keys and their associated data

A user's wrapping token is sealed to the egress daemon, bound to five values: the conversation, the
provider, the model, the path the token must have been created at, and the field of the key. The
associated data is a fixed tag and the five values, each behind its length in two bytes. The lengths
fit since every value is checked first, and so the data tells the values apart (`SealAad.new_inj`).

The box itself is a library. A `SealBox` is what it answers, and `SealBox.Ideal` is the assumption
made of it where one is needed: only what was sealed opens, and a blob was sealed only one way.
-/

namespace Maknae.Seal

open Except List

open Config (byteLength)

/-- Why a key is not sealed or not opened. -/
inductive SealError
  | fipsUnavailable
  | plaintextLength
  | aadField
  | blobLength
  | version
  | ephemeralKey
  | publicKey
  | privateKey
  | openFailed
  | crypto
deriving DecidableEq, Repr

def aadDomain : String := "maknae-seal-aad-v1"
def maxAadFieldBytes : ℕ := 1024

/-- What a sealed key is bound to. -/
structure SealContext where
  conversation : String
  provider : String
  model : String
  expectedPath : String
  keyField : String

/-- The associated data of a seal. -/
structure SealAad where
  bytes : List UInt8
deriving DecidableEq, Repr

/-- A field is not empty, and its length fits two bytes. -/
def aadFieldOk (field : List UInt8) : Bool := 1 ≤ field.length && field.length ≤ maxAadFieldBytes

/-- A length as two bytes, highest first, cut to their width. -/
def sizeBytes (n : ℕ) : List UInt8 := (leBytes 2 (n % 2 ^ 16)).reverse

/-- A field behind its length. -/
def sizedField (field : String) : List UInt8 := sizeBytes (byteLength field) ++ utf8Bytes field

/-- The tag, and the fields behind their lengths. -/
def encode (fields : List String) : List UInt8 := utf8Bytes aadDomain ++ fields.flatMap sizedField

/-- The values in the order they are encoded in. -/
def SealContext.fields (ctx : SealContext) : List String :=
  [ctx.conversation, ctx.provider, ctx.model, ctx.expectedPath, ctx.keyField]

/-- The associated data of a context, if every field is in bounds. -/
def SealAad.new (ctx : SealContext) : Except SealError SealAad :=
  if ctx.fields.all fun f ↦ aadFieldOk (utf8Bytes f) then .ok ⟨encode ctx.fields⟩
  else .error .aadField

/-! ### The box -/

def domain : String := "maknae-seal-v1"
def headerLen : ℕ := 110
def tagLen : ℕ := 16
def maxPlaintextLen : ℕ := 1024
def minSealedLen : ℕ := headerLen + 1 + tagLen
def maxSealedLen : ℕ := headerLen + maxPlaintextLen + tagLen

/-- What the box answers under one pair of keys. What `δ` draws is the randomness of one seal. -/
structure SealBox (δ : Type) where
  assertFipsModule : Except SealError Unit
  sealWith : δ → List UInt8 → List UInt8 → List UInt8 → Except SealError (List UInt8)
  openWith : List UInt8 → List UInt8 → List UInt8 → Except SealError (List UInt8)

/-- Only what was sealed opens, and a blob was sealed for one domain, one associated data and one
plaintext. -/
structure SealBox.Ideal {δ : Type} (box : SealBox δ) : Prop where
  exists_sealWith : ∀ {dom aad blob plain}, box.openWith dom aad blob = .ok plain →
    ∃ draw, box.sealWith draw dom aad plain = .ok blob
  binds : ∀ {draw draw' dom dom' aad aad' plain plain' blob},
    box.sealWith draw dom aad plain = .ok blob → box.sealWith draw' dom' aad' plain' = .ok blob →
    dom = dom' ∧ aad = aad' ∧ plain = plain'

variable {δ : Type}

def checkPlaintextLen (n : ℕ) : Except SealError Unit :=
  if 1 ≤ n ∧ n ≤ maxPlaintextLen then .ok () else .error .plaintextLength

def checkBlobLen (n : ℕ) : Except SealError Unit :=
  if minSealedLen ≤ n ∧ n ≤ maxSealedLen then .ok () else .error .blobLength

/-- Seal a plaintext of a length the box takes. -/
def sealKey (box : SealBox δ) (draw : δ) (aad : SealAad) (plaintext : List UInt8) :
    Except SealError (List UInt8) := do
  box.assertFipsModule
  checkPlaintextLen plaintext.length
  box.sealWith draw (utf8Bytes domain) aad.bytes plaintext

/-- Open a blob of a length the box writes. -/
def openKey (box : SealBox δ) (aad : SealAad) (blob : List UInt8) :
    Except SealError (List UInt8) := do
  box.assertFipsModule
  checkBlobLen blob.length
  box.openWith (utf8Bytes domain) aad.bytes blob

/-! ### What the associated data tells -/

theorem length_sizeBytes (n : ℕ) : (sizeBytes n).length = 2 := by simp [sizeBytes]

theorem sizeBytes_inj {m n} (hm : m < 2 ^ 16) (hn : n < 2 ^ 16)
    (h : sizeBytes m = sizeBytes n) : m = n := by
  have hbytes : leBytes 2 (m % 2 ^ 16) = leBytes 2 (n % 2 ^ 16) := reverse_injective h
  rw [Nat.mod_eq_of_lt hm, Nat.mod_eq_of_lt hn] at hbytes
  rw [← ofLeBytes_leBytes (w := 2) hm, hbytes, ofLeBytes_leBytes hn]

/-- A field can be told from what follows, as long as its length fits the two bytes. -/
theorem prefixFree_sizedField :
    PrefixFree fun f : {f : String // byteLength f < 2 ^ 16} ↦ sizedField f.1 :=
  prefixFree_sized (c := fun f : {f : String // byteLength f < 2 ^ 16} ↦ utf8Bytes f.1)
    (fun _ _ h ↦ Subtype.ext (utf8Bytes_injective h)) length_sizeBytes
    fun a b ↦ sizeBytes_inj a.2 b.2

/-- As many fields in one order are told apart. -/
theorem flatMap_sizedField_inj {l l' : List String} (hl : ∀ f ∈ l, byteLength f < 2 ^ 16)
    (hl' : ∀ f ∈ l', byteLength f < 2 ^ 16) (hlength : l.length = l'.length)
    (h : l.flatMap sizedField = l'.flatMap sizedField) : l = l' := by
  induction l generalizing l' with
  | nil => exact (length_eq_zero_iff.mp hlength.symm).symm
  | cons f l ih =>
    cases l' with
    | nil => exact absurd hlength (by simp)
    | cons g l' =>
      rw [forall_mem_cons] at hl hl'
      obtain ⟨hfield, hrest⟩ := prefixFree_sizedField (a := ⟨f, hl.1⟩) (b := ⟨g, hl'.1⟩) _ _ h
      rw [Subtype.mk.inj hfield, ih hl.2 hl'.2 (Nat.succ.inj hlength) hrest]

theorem SealAad.new_eq_ok {ctx aad} :
    SealAad.new ctx = .ok aad ↔
      (∀ f ∈ ctx.fields, aadFieldOk (utf8Bytes f)) ∧ aad = ⟨encode ctx.fields⟩ := by
  unfold SealAad.new
  split_ifs with h
  · rw [all_eq_true] at h
    exact ⟨fun heq ↦ ⟨h, (ok.inj heq).symm⟩, fun heq ↦ congrArg _ heq.2.symm⟩
  · rw [all_eq_true] at h
    exact ⟨fun heq ↦ (nomatch heq), fun heq ↦ absurd heq.1 h⟩

theorem SealContext.fields_injective : Function.Injective SealContext.fields := by
  rintro ⟨⟩ ⟨⟩ h
  simpa [SealContext.fields] using h

/-- **The associated data is of one context.** -/
theorem SealAad.new_inj {ctx ctx' : SealContext} {aad : SealAad} (h : SealAad.new ctx = .ok aad)
    (h' : SealAad.new ctx' = .ok aad) : ctx = ctx' := by
  have hfits : ∀ {l : List String}, (∀ f ∈ l, aadFieldOk (utf8Bytes f)) →
      ∀ f ∈ l, byteLength f < 2 ^ 16 := by
    intro l hl f hf
    have hok : 1 ≤ byteLength f ∧ byteLength f ≤ maxAadFieldBytes := by
      simpa [aadFieldOk, byteLength] using hl f hf
    exact hok.2.trans_lt (by decide)
  obtain ⟨hok, rfl⟩ := SealAad.new_eq_ok.mp h
  obtain ⟨hok', heq⟩ := SealAad.new_eq_ok.mp h'
  have hfields := append_cancel_left (SealAad.mk.inj heq)
  exact SealContext.fields_injective (flatMap_sizedField_inj (hfits hok) (hfits hok') rfl hfields)

/-- **A sealed blob opens only under the associated data it was sealed under**, to what was sealed.
-/
theorem SealBox.Ideal.eq_of_openKey {box : SealBox δ} (hbox : box.Ideal) {draw}
    {aad aad'} {plain plain' blob} (hseal : sealKey box draw aad plain = .ok blob)
    (hopen : openKey box aad' blob = .ok plain') : aad = aad' ∧ plain = plain' := by
  obtain ⟨_, -, _, -, hseal⟩ := bind₂_eq_ok.mp hseal
  obtain ⟨_, -, _, -, hopen⟩ := bind₂_eq_ok.mp hopen
  obtain ⟨draw', hseal'⟩ := hbox.exists_sealWith hopen
  obtain ⟨-, haad, hplain⟩ := hbox.binds hseal hseal'
  exact ⟨congrArg SealAad.mk haad, hplain⟩

end Maknae.Seal
