import Maknae.StateGraph.Layers

/-!
# The sealed store file

The encoded graph is sealed under a fresh data key, and the data key under the wrapping key of the
deployment. The file starts with a header that names the algorithms, and both ciphertexts are bound
to the bytes before them.

The cipher, the hash and the random bytes are the provider's and stand outside this development: a
`Crypto` is what the provider computes, and `Crypto.Lawful` the one law the store needs of it, that
what was sealed opens again. `openFile_sealFile` is that law for whole files.
-/

namespace Maknae.State

open List hiding Vector
open Except StateGraph

/-! ### The provider -/

/-- Why the provider did not open a ciphertext. -/
inductive OpenFault
  | aeadOpen
  | refused

/-- What the cryptographic provider computes. -/
structure Crypto where
  sha256 : List UInt8 → Digest
  /-- The provider takes these bytes as a key. -/
  admits : List UInt8 → Bool
  /-- Ciphertext and tag under a key, a nonce and additional data. -/
  sealInPlace : (key nonce aad plain : List UInt8) → List UInt8 × List UInt8
  /-- The plaintext of a ciphertext with its tag. -/
  openInPlace : (key nonce aad sealed : List UInt8) → Except OpenFault (List UInt8)

def keyLen : ℕ := 32
def tagLen : ℕ := 16
def nonceLen : ℕ := 12

/-- What was sealed has the length of the plaintext and a tag, and opens again. -/
structure Crypto.Lawful (crypto : Crypto) : Prop where
  length_cipher : ∀ key nonce aad plain,
    (crypto.sealInPlace key nonce aad plain).1.length = plain.length
  length_tag : ∀ key nonce aad plain, (crypto.sealInPlace key nonce aad plain).2.length = tagLen
  open_seal : ∀ key nonce aad plain, crypto.openInPlace key nonce aad
    ((crypto.sealInPlace key nonce aad plain).1 ++ (crypto.sealInPlace key nonce aad plain).2) =
      .ok plain

/-- A provider that hides nothing and keeps its laws. It tells keys apart by their first bytes. -/
def Crypto.plain : Crypto where
  sha256 bytes := ⟨((bytes ++ replicate 32 0).take 32).toArray, by simp⟩
  admits _ := true
  sealInPlace key _ _ plain := (plain, (key ++ replicate tagLen 0).take tagLen)
  openInPlace key _ _ sealed :=
    let (plain, tag) := sealed.splitAt (sealed.length - tagLen)
    if tag = (key ++ replicate tagLen 0).take tagLen then .ok plain else .error .aeadOpen

theorem Crypto.plain_lawful : Crypto.plain.Lawful where
  length_cipher _ _ _ _ := rfl
  length_tag _ _ _ _ := by simp [Crypto.plain]
  open_seal _ _ _ plain := by simp [Crypto.plain]

/-- What the provider answered to the requests for random bytes of one seal, and to the two seals;
`none` where it refused. -/
structure Draws where
  dek : Option (Vector UInt8 32)
  wrapNonce : Option (Vector UInt8 12)
  payloadNonce : Option (Vector UInt8 12)

/-! ### The file -/

inductive EnvelopeError
  | truncated
  | badMagic
  | unsupportedVersion (version : UInt16)
  | unknownAead (id : UInt16)
  | unknownWrap (id : UInt16)
  | nonZeroReserved
  | unwrap
  | decrypt
  | crypto
deriving DecidableEq, Repr

def envelopeMagic : List UInt8 := [77, 75, 78, 69]
def envelopeVersion : UInt16 := 1
def aeadAes256Gcm : UInt16 := 1
def wrapAes256Gcm : UInt16 := 1

/-- The first bytes of every file. -/
def opening : List UInt8 :=
  envelopeMagic ++ leBytes 2 envelopeVersion.toNat ++ leBytes 2 aeadAes256Gcm.toNat ++
    leBytes 2 wrapAes256Gcm.toNat ++ [0, 0]

def openingLen : ℕ := 12
def wrapNonceAt : ℕ := openingLen
def wrappedDekAt : ℕ := wrapNonceAt + nonceLen
def wrapTagAt : ℕ := wrappedDekAt + keyLen
def payloadNonceAt : ℕ := wrapTagAt + tagLen
def envelopeHeaderLen : ℕ := payloadNonceAt + nonceLen

/-- An answer of the provider. -/
def granted {α : Type} : Option α → Except EnvelopeError α
  | some a => .ok a
  | none => .error .crypto

/-- The provider takes the key. -/
def admitKey (crypto : Crypto) (key : List UInt8) : Except EnvelopeError Unit :=
  if crypto.admits key then .ok () else .error .crypto

/-- Seal a plaintext under a wrapping key. -/
def sealFile (crypto : Crypto) (draws : Draws) (plain kek : List UInt8) :
    Except EnvelopeError (List UInt8) := do
  let dek ← granted draws.dek
  admitKey crypto kek
  let wrapNonce ← granted draws.wrapNonce
  let wrapped := crypto.sealInPlace kek wrapNonce.toList opening dek.toList
  let head := opening ++ wrapNonce.toList ++ wrapped.1 ++ wrapped.2
  admitKey crypto dek.toList
  let payloadNonce ← granted draws.payloadNonce
  let body := crypto.sealInPlace dek.toList payloadNonce.toList head plain
  return head ++ payloadNonce.toList ++ body.1 ++ body.2

/-- The bytes from `start` up to `stop`. -/
def between (file : List UInt8) (start stop : ℕ) : List UInt8 := (file.take stop).drop start

/-- The 16-bit field at a place. -/
def fieldAt (file : List UInt8) (at' : ℕ) : UInt16 :=
  UInt16.ofNat (ofLeBytes (between file at' (at' + 2)))

/-- Refuse a file that does not start as this version writes it. -/
def checkOpening (file : List UInt8) : Except EnvelopeError Unit :=
  if file.length < envelopeHeaderLen + tagLen then .error .truncated
  else if file.take 4 ≠ envelopeMagic then .error .badMagic
  else if fieldAt file 4 ≠ envelopeVersion then .error (.unsupportedVersion (fieldAt file 4))
  else if fieldAt file 6 ≠ aeadAes256Gcm then .error (.unknownAead (fieldAt file 6))
  else if fieldAt file 8 ≠ wrapAes256Gcm then .error (.unknownWrap (fieldAt file 8))
  else if fieldAt file 10 ≠ 0 then .error .nonZeroReserved
  else .ok ()

/-- Report what the provider did not open. -/
def opened (fault : EnvelopeError) :
    Except OpenFault (List UInt8) → Except EnvelopeError (List UInt8)
  | .ok plain => .ok plain
  | .error .aeadOpen => .error fault
  | .error .refused => .error .crypto

/-- The plaintext of a sealed file. -/
def openFile (crypto : Crypto) (file kek : List UInt8) : Except EnvelopeError (List UInt8) := do
  checkOpening file
  admitKey crypto kek
  let dek ← opened .unwrap (crypto.openInPlace kek
    (between file wrapNonceAt (wrapNonceAt + nonceLen)) (file.take openingLen)
    (between file wrappedDekAt payloadNonceAt))
  if dek.length ≠ keyLen then .error .crypto
  else do
    admitKey crypto dek
    opened .decrypt (crypto.openInPlace dek
      (between file payloadNonceAt (payloadNonceAt + nonceLen)) (file.take payloadNonceAt)
      (file.drop envelopeHeaderLen))

/-! ### What was sealed opens again -/

theorem between_append {a b c start stop} (hstart : a.length = start)
    (hstop : start + b.length = stop) : between (a ++ (b ++ c)) start stop = b := by
  subst hstart hstop
  rw [between, ← append_assoc, ← length_append, take_left, drop_left]

theorem checkOpening_append {rest}
    (h : envelopeHeaderLen + tagLen ≤ (opening ++ rest).length) :
    checkOpening (opening ++ rest) = .ok () := by
  rw [checkOpening, if_neg (Nat.not_lt.mpr h)]
  rfl

/-- **A sealed file opens to the plaintext** it was sealed from. -/
theorem openFile_sealFile {crypto} (hcrypto : crypto.Lawful) {draws}
    {plain kek file} (h : sealFile crypto draws plain kek = .ok file) :
    openFile crypto file kek = .ok plain := by
  obtain ⟨dek, -, ⟨⟩, hkek, wrapNonce, -, h⟩ := bind₃_eq_ok.mp h
  obtain ⟨⟨⟩, hdek, payloadNonce, -, h⟩ := bind₂_eq_ok.mp h
  have hfile := pure_eq_ok.mp h
  have hunwrap := hcrypto.open_seal kek wrapNonce.toList opening dek.toList
  have hcipher := hcrypto.length_cipher kek wrapNonce.toList opening dek.toList
  have htag := hcrypto.length_tag kek wrapNonce.toList opening dek.toList
  generalize crypto.sealInPlace kek wrapNonce.toList opening dek.toList = wrapped at *
  have hhead : (opening ++ wrapNonce.toList ++ wrapped.1 ++ wrapped.2).length = payloadNonceAt := by
    simp only [length_append, hcipher, htag, Vector.length_toList]
    rfl
  generalize hheadEq : opening ++ wrapNonce.toList ++ wrapped.1 ++ wrapped.2 = head at *
  have hdecrypt := hcrypto.open_seal dek.toList payloadNonce.toList head plain
  have hbodyTag := hcrypto.length_tag dek.toList payloadNonce.toList head plain
  generalize crypto.sealInPlace dek.toList payloadNonce.toList head plain = body at *
  -- the four parts of the file that the reader cuts out
  have hopening : file = opening ++ (wrapNonce.toList ++ (wrapped.1 ++ wrapped.2 ++
      (payloadNonce.toList ++ body.1 ++ body.2))) := by
    rw [← hfile, ← hheadEq]
    simp only [append_assoc]
  have hnonce : between file wrapNonceAt (wrapNonceAt + nonceLen) = wrapNonce.toList := by
    rw [hopening]
    exact between_append rfl (by rw [Vector.length_toList]; rfl)
  have hwrapped : between file wrappedDekAt payloadNonceAt = wrapped.1 ++ wrapped.2 := by
    rw [hopening, ← append_assoc]
    refine between_append ?_ ?_
    · rw [length_append, Vector.length_toList]
      rfl
    · rw [length_append, hcipher, htag, Vector.length_toList]
      rfl
  have hpayloadNonce : between file payloadNonceAt (payloadNonceAt + nonceLen) =
      payloadNonce.toList := by
    rw [← hfile, append_assoc, append_assoc]
    exact between_append hhead (by rw [Vector.length_toList]; rfl)
  have hbody : file.drop envelopeHeaderLen = body.1 ++ body.2 := by
    rw [← hfile, append_assoc]
    refine drop_left' ?_
    rw [length_append, hhead, Vector.length_toList]
    rfl
  have htakeOpening : file.take openingLen = opening := by
    rw [hopening]
    exact take_left' rfl
  have htakeHead : file.take payloadNonceAt = head := by
    rw [← hfile, append_assoc, append_assoc]
    exact take_left' hhead
  have hlength : envelopeHeaderLen + tagLen ≤ file.length := by
    rw [← hfile]
    simp only [length_append, Vector.length_toList, envelopeHeaderLen, nonceLen]
    omega
  have hcheck : checkOpening file = .ok () := by
    rw [hopening] at hlength ⊢
    exact checkOpening_append hlength
  rw [openFile, hcheck, ok_bind, hkek, ok_bind, hnonce, htakeOpening, hwrapped, hunwrap,
    opened, ok_bind, if_neg (by simp [keyLen]), hdek, ok_bind, hpayloadNonce,
    htakeHead,
    hbody, hdecrypt, opened]

end Maknae.State
