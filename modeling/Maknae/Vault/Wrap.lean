import Maknae.Audit.Record
import Maknae.Config.Providers

/-!
# Wrapped secrets

Vault hands out a secret as a wrapping token: a token that can be looked up for the path it was
created at and for its lifetime, and unwrapped once. What the egress daemon expects of a token is
fixed before it has one (`WrapExpectation`), and it unwraps a token only after a lookup that agrees.

The path of a secret is `<mount>/data/<path>`. Neither part has a `data` segment, so both can be
told from the whole (`kvDataPath_inj`).

The two calls to Vault, and the reading of JSON, are left free. An `HonestVault` is one whose two
answers about a token are about the same path.
-/

namespace Maknae.Vault

open Audit (Json)
open Config Except Text
open Kernel (isWhitespace)

/-- What a token does not have as expected. -/
inductive WrapMismatch
  | notWrapped
  | creationPath
  | creationTtl (ttlSecs maxSecs : ℕ)
  | invalid
deriving DecidableEq, Repr

/-- The errors of the modelled calls. The two calls to Vault also answer with the last three. -/
inductive VaultError
  | invalidKeyVaultPath (why : String)
  | invalidSecret (what why : String)
  | invalidWrapTtl (why : String)
  | kvField (field why : String)
  | wrapMismatch (mismatch : WrapMismatch)
  | vaultBody (op why : String)
  | vaultStatus (op : String) (status : ℕ) (hint : String)
  | vaultTransport (op detail : String)
deriving DecidableEq, Repr

structure Duration where
  secs : ℕ
  subsecNanos : ℕ

def maxWrapTtlSecs : ℕ := 300
def userKeyWrapTtl : Duration := ⟨60, 0⟩
def maxKvDataPathBytes : ℕ := 1024
def maxTokenBytes : ℕ := 1024
def maxUsernameBytes : ℕ := 32
def kvDataSegment : String := "/data/"

/-! ### Usernames -/

def userpassUsernameIsAcceptable (name : String) : Except String Unit := do
  .refuseIf (name = "") "is empty"
  let n := maxUsernameBytes
  .refuseIf (n < byteLength name) s!"exceeds {n} bytes"
  .refuseIf ((utf8Bytes name).any isAsciiUppercase)
    "has an upper-case letter; userpass stores usernames lower-cased"
  .refuseIf (¬(utf8Bytes name).all fun b ↦
      isAsciiLowercase b || isAsciiDigit b || b == 46 || b == 95 || b == 45)
    "has a character outside [a-z0-9._-]"
  let word := fun b : UInt8 ↦ isAsciiAlphanumeric b || b == 95
  .refuseIf (¬((utf8Bytes name).head?.all word ∧ (utf8Bytes name).getLast?.all word))
    "must start and end with [a-z0-9_]"

/-! ### Tokens -/

def tokenIsAcceptable (s : String) : Except String Unit :=
  if ¬(1 ≤ byteLength s ∧ byteLength s ≤ maxTokenBytes) then .error "must be 1..=1024 bytes"
  else if ¬(utf8Bytes s).all safeTokenByte then .error "has a character outside [A-Za-z0-9._-]"
  else .ok ()

/-- A token that the Vault takes for a wrapped answer. -/
structure WrappingToken where
  secret : String

def WrappingToken.new (secret : String) : Except VaultError WrappingToken := do
  (tokenIsAcceptable secret).mapError (.invalidSecret "wrapping token")
  return ⟨secret⟩

/-- The token in what was unsealed. -/
def WrappingToken.fromOpened (bytes : List UInt8) : Except VaultError WrappingToken :=
  match ofUtf8Bytes bytes with
  | some s => WrappingToken.new s
  | none => .error (.invalidSecret "wrapping token" "not UTF-8")

/-! ### What is expected of a token -/

/-- One part of a path: the mount or the path below it. -/
def kvPathPart (key value : String) : Except VaultError Unit := do
  (kvFragmentIsAcceptable value).mapError fun why ↦ .invalidKeyVaultPath s!"{key} {why}"
  -- The alphabet is that of `vaultPathIsSafe`, written once more in this crate.
  .refuseIf (¬vaultPathIsSafe value)
    (.invalidKeyVaultPath s!"{key} has a character outside [A-Za-z0-9._/-]")

/-- The path at which a secret is read. -/
def kvDataPath (kvMount secretPath : String) : Except VaultError String := do
  let n := maxKvDataPathBytes
  .refuseIf (n < byteLength kvMount + byteLength kvDataSegment + byteLength secretPath)
    (.invalidKeyVaultPath s!"the full path exceeds {n} bytes")
  kvPathPart "kv_mount" kvMount
  kvPathPart "secret path" secretPath
  return kvMount ++ kvDataSegment ++ secretPath

/-- A lifetime as the Vault takes it. -/
def wrapTtlValue (ttl : Duration) : Except VaultError String := do
  .refuseIf (ttl.subsecNanos ≠ 0) (.invalidWrapTtl "must be whole seconds")
  .refuseIf (¬(1 ≤ ttl.secs ∧ ttl.secs ≤ maxWrapTtlSecs)) (.invalidWrapTtl "must be 1s..=300s")
  let secs := ttl.secs
  return s!"{secs}s"

def kvFieldIsAcceptable (field : String) : Bool :=
  field ≠ "" && byteLength field ≤ maxKeyFieldBytes && !field.toList.any isWhitespace

/-- The longest run of characters from the start that fits in the bytes left. -/
def takeBytes : ℕ → List Char → List Char
  | _, [] => []
  | room, c :: rest => if c.utf8Size ≤ room then c :: takeBytes (room - c.utf8Size) rest else []

/-- As much of a field as an error repeats. -/
def fieldEcho (field : String) : String := String.ofList (takeBytes maxKeyFieldBytes field.toList)

/-- What a token must have been created for. -/
structure WrapExpectation where
  creationPath : String
  field : String
  maxTtl : Duration

def WrapExpectation.new (kvMount secretPath field : String) (maxTtl : Duration) :
    Except VaultError WrapExpectation := do
  let creationPath ← kvDataPath kvMount secretPath
  .refuseIf (¬kvFieldIsAcceptable field)
    (.kvField (fieldEcho field) "malformed: empty, whitespace, or over 64 bytes")
  let _ ← wrapTtlValue maxTtl
  return ⟨creationPath, field, maxTtl⟩

/-! ### The unwrap -/

/-- What the Vault knows of a token before it is used. -/
structure WrapLookup where
  creationPath : String
  creationTtl : Duration
  creationTime : String

def checkTtl (ttlSecs : ℕ) (max : Duration) : Except VaultError Unit :=
  if 1 ≤ ttlSecs ∧ ttlSecs ≤ max.secs then .ok ()
  else .error (.wrapMismatch (.creationTtl ttlSecs max.secs))

/-- The token was created at the path, and not for too long. -/
def checkLookup (lookup : WrapLookup) (expect : WrapExpectation) : Except VaultError Unit := do
  .refuseIf (lookup.creationPath ≠ expect.creationPath) (.wrapMismatch .creationPath)
  checkTtl lookup.creationTtl.secs expect.maxTtl

/-- The reading of a body: its members in their order, and the text of a refusal. -/
structure JsonReader (ν : Type) where
  read : List UInt8 → Option (Json ν)
  refusal : List UInt8 → String → String

variable {ν : Type}

/-- The value of the field, below as many `data` objects as are left. `none` is a body that is
refused, for its shape or for a key that is there twice. -/
def selectLevel (field : String) : ℕ → Json ν → Option (Option String)
  | left, .object members =>
    match members.filter fun m ↦ m.1 == (if left = 0 then field else "data") with
    | [] => some none
    | [(_, value)] =>
      match left, value with
      | 0, .string s => some (some s)
      | 0, _ => none
      | left + 1, value => selectLevel field left value
    | _ => none
  | _, _ => none

def leafDepth : ℕ := 2

/-- The field of a secret, from the body it came in. -/
def selectKvField (json : JsonReader ν) (body : List UInt8) (field : String) :
    Except VaultError String :=
  match (json.read body).bind (selectLevel field leafDepth) with
  | none => .error (.vaultBody "unwrap" (json.refusal body field))
  | some none => .error (.kvField field "absent")
  | some (some s) => .ok s

/-- The answers of Vault to the two calls about a token. -/
structure UnwrapOps where
  lookup : WrappingToken → Except VaultError WrapLookup
  unwrapBody : WrappingToken → Except VaultError (List UInt8)

/-- Use a token only after a look at what it is for. -/
def unwrapChecked (json : JsonReader ν) (ops : UnwrapOps) (token : WrappingToken)
    (expect : WrapExpectation) : Except VaultError String := do
  let lookup ← ops.lookup token
  checkLookup lookup expect
  let body ← ops.unwrapBody token
  selectKvField json body expect.field

/-- Each token was created at one path. A lookup names it, and an unwrap gives a body that was
stored there. -/
structure HonestVault (ops : UnwrapOps) (stored : String → List UInt8 → Prop) : Prop where
  stored_of_unwrap : ∀ {token lookup body}, ops.lookup token = .ok lookup →
    ops.unwrapBody token = .ok body → stored lookup.creationPath body

/-! ### What is accepted -/

theorem kvPathPart_eq_ok {key value} :
    kvPathPart key value = .ok () ↔
      kvFragmentIsAcceptable value = .ok () ∧ vaultPathIsSafe value := by
  constructor
  · intro h
    obtain ⟨_, hfragment, h⟩ := bind_eq_ok.mp h
    rw [refuseIf_eq_ok, not_not] at h
    exact ⟨mapError_eq_ok_iff.mp hfragment, h⟩
  · rintro ⟨hfragment, hsafe⟩
    refine bind_eq_ok.mpr ⟨(), mapError_eq_ok_iff.mpr hfragment, ?_⟩
    rw [refuseIf_eq_ok, not_not]
    exact hsafe

theorem kvDataPath_eq_ok {kvMount secretPath path} :
    kvDataPath kvMount secretPath = .ok path ↔
      byteLength kvMount + byteLength kvDataSegment + byteLength secretPath ≤ maxKvDataPathBytes ∧
      (kvFragmentIsAcceptable kvMount = .ok () ∧ vaultPathIsSafe kvMount) ∧
      (kvFragmentIsAcceptable secretPath = .ok () ∧ vaultPathIsSafe secretPath) ∧
      kvMount ++ kvDataSegment ++ secretPath = path := by
  constructor
  · intro h
    obtain ⟨_, hlength, _, hmount, _, hpath, h⟩ := bind₃_eq_ok.mp h
    rw [refuseIf_eq_ok] at hlength
    exact ⟨not_lt.mp hlength, kvPathPart_eq_ok.mp hmount, kvPathPart_eq_ok.mp hpath,
      pure_eq_ok.mp h⟩
  · rintro ⟨hlength, hmount, hpath, heq⟩
    exact bind_eq_ok.mpr ⟨⟨⟩, refuseIf_eq_ok.mpr (not_lt.mpr hlength),
      bind_eq_ok.mpr ⟨(), kvPathPart_eq_ok.mpr hmount,
        bind_eq_ok.mpr ⟨(), kvPathPart_eq_ok.mpr hpath, pure_eq_ok.mpr heq⟩⟩⟩

theorem split_dataSegment (kvMount secretPath : String) :
    split '/' (kvMount ++ kvDataSegment ++ secretPath) =
      split '/' kvMount ++ "data" :: split '/' secretPath := by
  have hjoin : kvMount ++ kvDataSegment ++ secretPath =
      kvMount ++ "/" ++ ("data" ++ "/" ++ secretPath) := by
    simp only [String.append_assoc]
    rfl
  rw [hjoin, split_append_slash, split_append_slash]
  rfl

/-- **A data path is of one mount and one path.** -/
theorem kvDataPath_inj {m m' p p' path} (h : kvDataPath m p = .ok path)
    (h' : kvDataPath m' p' = .ok path) : m = m' ∧ p = p' := by
  obtain ⟨-, hmount, hpath, heq⟩ := kvDataPath_eq_ok.mp h
  obtain ⟨-, -, -, heq'⟩ := kvDataPath_eq_ok.mp h'
  have hsplit := congrArg (split '/') (heq.trans heq'.symm)
  rw [split_dataSegment, split_dataSegment] at hsplit
  -- Neither part has a `data` segment, so there is one place where the whole can be cut.
  have hdata : ∀ {s}, kvFragmentIsAcceptable s = .ok () → "data" ∉ split '/' s := fun hs hmem ↦
    ((kvFragmentIsAcceptable_eq_ok.mp hs).2 "data" hmem).ne_data rfl
  obtain ⟨hm, -, hp⟩ :=
    (List.append_cons_inj_of_notMem (hdata hmount.1) (hdata hpath.1)).mp hsplit
  exact ⟨split_injective '/' hm, split_injective '/' hp⟩

theorem WrapExpectation.new_eq_ok {kvMount secretPath field maxTtl expect}
    (h : WrapExpectation.new kvMount secretPath field maxTtl = .ok expect) :
    kvDataPath kvMount secretPath = .ok expect.creationPath ∧ expect.field = field ∧
      expect.maxTtl = maxTtl := by
  obtain ⟨path, hpath, _, -, _, -, ⟨⟩⟩ := bind₃_eq_ok.mp h
  exact ⟨hpath, rfl, rfl⟩

/-- **What is unwrapped is the expected field of a body stored at the expected path.** -/
theorem HonestVault.stored_of_unwrapChecked {ops} {stored : String → List UInt8 → Prop}
    (hvault : HonestVault ops stored) {json : JsonReader ν} {token}
    {expect} {key} (h : unwrapChecked json ops token expect = .ok key) :
    ∃ body, stored expect.creationPath body ∧ selectKvField json body expect.field = .ok key := by
  obtain ⟨lookup, hlookup, _, hcheck, body, hbody, h⟩ := bind₃_eq_ok.mp h
  obtain ⟨_, hpath, -⟩ := bind_eq_ok.mp hcheck
  rw [refuseIf_eq_ok, not_not] at hpath
  exact ⟨body, hpath ▸ hvault.stored_of_unwrap hlookup hbody, h⟩

end Maknae.Vault
