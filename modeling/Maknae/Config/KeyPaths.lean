import Maknae.Config.Error
import Maknae.Config.Value
import Maknae.Foundation.ByteScan
import Maknae.Foundation.Text
import Maknae.Kernel.Classification

/-!
# The paths of user keys

A user's provider key is a secret below `<user_prefix>/<username>/`. The prefix comes from the
bounds file of the egress daemon, the username from the account of the peer, and the rest from the
user. All three are held to the rules of a path fragment: no empty, `.`, `..` or `data` segment.

The rules are one loop over the segments, written twice in the source with different further checks
(`checkSegments`). What is accepted is known by its segments alone (`KeySegments`), and since
cutting at `/` distributes over the join, so is what is composed from accepted parts
(`keySegments_userKeyPath`).
-/

namespace Maknae.Config

open Bool Except List Text
open Kernel (isWhitespace)

/-! ### Bytes -/

def isAsciiDigit (b : UInt8) : Bool := 48 ≤ b && b ≤ 57
def isAsciiUppercase (b : UInt8) : Bool := 65 ≤ b && b ≤ 90
def isAsciiLowercase (b : UInt8) : Bool := 97 ≤ b && b ≤ 122
def isAsciiAlphanumeric (b : UInt8) : Bool :=
  isAsciiDigit b || isAsciiUppercase b || isAsciiLowercase b
def isAsciiGraphic (b : UInt8) : Bool := 33 ≤ b && b ≤ 126

/-- A letter, a digit, `.`, `_` or `-`. -/
def safeTokenByte (b : UInt8) : Bool := isAsciiAlphanumeric b || b == 46 || b == 95 || b == 45

/-- One of these or `/`. -/
def safePathByte (b : UInt8) : Bool :=
  isAsciiAlphanumeric b || b == 46 || b == 95 || b == 47 || b == 45

/-- The length of a text in bytes. -/
def byteLength (s : String) : ℕ := (utf8Bytes s).length

/-! ### Fragments -/

/-- What is wrong with an empty segment, by its place. -/
def emptySegment (i last : ℕ) : String :=
  if i = 0 then "must not start with '/'"
  else if i = last then "must not end with '/'"
  else "has an empty interior path segment"

/-- The segments of a path, none of them empty, under a further check. -/
def checkSegments (check : String → Except String Unit) (s : String) : Except String Unit :=
  let segs := split '/' s
  segs.zipIdx.forM fun (seg, i) ↦
    if seg = "" then .error (emptySegment i (segs.length - 1)) else check seg

def kvFragmentIsAcceptable (s : String) : Except String Unit :=
  if s = "" then .error "is empty"
  else if s.toList.any isWhitespace then .error "contains whitespace"
  else
    checkSegments (fun seg ↦
      if seg = "." ∨ seg = ".." then .error "has a '.' or '..' segment"
      else if seg = "data" then
        .error ("contains a 'data' segment — the mount and the KV v2 'data/' segment " ++
          "are no longer written in configuration (#308); write the path as " ++
          "your Vault CLI shows it")
      else .ok ()) s

/-- A text in the alphabet of a path. -/
def vaultPathIsSafe (s : String) : Bool := s ≠ "" && (utf8Bytes s).all safePathByte

/-- The path is below the prefix, at a segment's boundary. -/
def pathIsWithinPrefix (path pre : String) : Bool :=
  if pre = "" ∨ path = "" then false
  else
    let p := if pre.toList.getLast? = some '/' then String.ofList pre.toList.dropLast else pre
    match stripPrefix p path with
    | some rest => startsWithChar '/' rest && 1 < byteLength rest
    | none => false

def maxUserPrefixBytes : ℕ := 256
def maxKeySubpathBytes : ℕ := 256

def keySubpathIsAcceptable (s : String) : Except String Unit :=
  if s = "" then .error "is empty"
  else if maxKeySubpathBytes < byteLength s then
    let n := maxKeySubpathBytes
    .error s!"exceeds {n} bytes"
  else
    checkSegments (fun seg ↦
      if ¬(utf8Bytes seg).all safeTokenByte then .error "has a character outside [A-Za-z0-9._-]"
      else if seg = "." ∨ seg = ".." then .error "has a '.' or '..' segment"
      else if seg = "data" then .error "has a 'data' segment"
      else .ok ()) s

def userKeyPath (userPrefix username subpath : String) : Except String String := do
  let n := maxUserPrefixBytes
  .refuseIf (n < byteLength userPrefix) s!"the user prefix exceeds {n} bytes"
  (kvFragmentIsAcceptable userPrefix).mapError fun why ↦ s!"the user prefix {why}"
  .refuseIf (¬vaultPathIsSafe userPrefix)
    "the user prefix has a character outside [A-Za-z0-9._/-]"
  .refuseIf ('/' ∈ username.toList) "the username is not one path segment"
  .refuseIf (username = "data") "the username 'data' is not a usable Vault path segment"
  (kvFragmentIsAcceptable username).mapError fun why ↦ s!"the username {why}"
  .refuseIf (¬(utf8Bytes username).all safeTokenByte)
    "the username has a character outside [A-Za-z0-9._-]"
  (keySubpathIsAcceptable subpath).mapError fun why ↦ s!"the key subpath {why}"
  return userPrefix ++ "/" ++ username ++ "/" ++ subpath

/-! ### The bounds file -/

def egressBoundsFile : String := "egress-bounds.yaml"
def defaultCallTimeoutMs : ℕ := 120000
def egressDeadlineMsMax : ℕ := 600000
def vaultCallsMs : ℕ := 60000
def deadlineMarginMs : ℕ := 100000
def callTimeoutMsMax : ℕ := egressDeadlineMsMax - vaultCallsMs - deadlineMarginMs

structure EgressBounds where
  kvMount : String
  userPrefix : String
  vaultAddr : String
  callTimeoutMs : ℕ
deriving DecidableEq, Repr

def rejectUnknownKeys (part : String) (m : List (String × Value)) (allowed : List String) :
    Except ConfigError Unit :=
  m.forM fun (key, _) ↦ if key ∈ allowed then .ok () else .error (.unknownKey part key)

/-- The value of a key. -/
def get (m : List (String × Value)) (key : String) : Option Value :=
  (m.find? (·.1 == key)).map Prod.snd

/-- A path fragment the bounds file must have. -/
def requiredFragment (m : List (String × Value)) (name : String) : Except ConfigError String :=
  match get m name with
  | some (.str v) => do
    let n := maxUserPrefixBytes
    .refuseIf (n < byteLength v) (.invalidEgressBounds s!"'{name}' exceeds {n} bytes")
    (kvFragmentIsAcceptable v).mapError fun why ↦ .invalidEgressBounds s!"'{name}' {why}"
    .refuseIf (¬vaultPathIsSafe v)
      (.invalidEgressBounds s!"'{name}' has a character outside [A-Za-z0-9._/-]")
    return v
  | _ => .error (.invalidEgressBounds s!"'{name}' is required and must be a string")

def callTimeoutOf (m : List (String × Value)) : Except ConfigError ℕ :=
  match get m "call_timeout_ms" with
  | none => .ok defaultCallTimeoutMs
  | some (.int n) =>
    if 1000 ≤ n ∧ n ≤ callTimeoutMsMax then .ok n.toNat
    else
      let stop := callTimeoutMsMax
      .error (.invalidEgressBounds s!"'call_timeout_ms' {n} out of range 1000..={stop}")
  | some _ => .error (.invalidEgressBounds "'call_timeout_ms' must be an integer (milliseconds)")

def vaultAddrOf (m : List (String × Value)) : Except ConfigError String :=
  match get m "vault" with
  | none => .error (.invalidEgressBounds "'vault' is required (addr)")
  | some (.map vm) => do
    rejectUnknownKeys (egressBoundsFile ++ "/vault") vm ["addr"]
    match get vm "addr" with
    | some (.str addr) =>
      if addr = "" ∨ addr.toList.any isWhitespace then
        .error (.invalidEgressBounds "'vault.addr' must be a non-empty URL without whitespace")
      else if maxUserPrefixBytes < byteLength addr then
        let n := maxUserPrefixBytes
        .error (.invalidEgressBounds s!"'vault.addr' exceeds {n} bytes")
      else .ok addr
    | _ => .error (.invalidEgressBounds "'vault.addr' is required and must be a string")
  | some _ => .error (.invalidEgressBounds "'vault' must be a mapping")

def boundsFromDocument : Value → Except ConfigError EgressBounds
  | .map m => do
    rejectUnknownKeys egressBoundsFile m ["user_prefix", "kv_mount", "vault", "call_timeout_ms"]
    let kvMount ← requiredFragment m "kv_mount"
    let userPrefix ← requiredFragment m "user_prefix"
    let vaultAddr ← vaultAddrOf m
    let callTimeoutMs ← callTimeoutOf m
    return ⟨kvMount, userPrefix, vaultAddr, callTimeoutMs⟩
  | _ => .error (.invalidEgressBounds "expected a mapping at the top level")

/-! ### What is accepted -/

/-- A segment a key path may have. -/
structure KeySegment (seg : String) : Prop where
  ne_empty : seg ≠ ""
  ne_dot : seg ≠ "."
  ne_dotdot : seg ≠ ".."
  ne_data : seg ≠ "data"

/-- All segments are such. -/
def KeySegments (s : String) : Prop := ∀ seg ∈ split '/' s, KeySegment seg

variable {s : String} {b : UInt8} {userPrefix username subpath path : String}

theorem checkSegments_eq_ok {check : String → Except String Unit} :
    checkSegments check s = .ok () ↔ ∀ seg ∈ split '/' s, seg ≠ "" ∧ check seg = .ok () := by
  have hone : ∀ seg i last, (if seg = "" then .error (emptySegment i last) else check seg) =
      (.ok () : Except String Unit) ↔ seg ≠ "" ∧ check seg = .ok () := by
    intro seg i last
    split_ifs with h <;> simp [h]
  unfold checkSegments
  rw [forM_eq_ok]
  constructor
  · intro h seg hseg
    obtain ⟨i, hi⟩ := mem_iff_getElem?.mp hseg
    exact (hone seg i _).mp (h (seg, i) (mem_zipIdx_iff_getElem?.mpr hi))
  · rintro h ⟨seg, i⟩ hmem
    exact (hone seg i _).mpr (h seg (mem_of_getElem? (mem_zipIdx_iff_getElem?.mp hmem)))

theorem kvFragmentIsAcceptable_eq_ok :
    kvFragmentIsAcceptable s = .ok () ↔ ¬s.toList.any isWhitespace ∧ KeySegments s := by
  have hempty : s = "" → ¬KeySegments s := by
    rintro rfl h
    exact (h "" (by decide)).ne_empty rfl
  unfold kvFragmentIsAcceptable
  split_ifs with he hw
  · simp [hempty he]
  · simp [hw]
  · rw [checkSegments_eq_ok]
    refine ⟨fun h ↦ ⟨hw, fun seg hseg ↦ ?_⟩, fun h seg hseg ↦ ?_⟩
    · obtain ⟨hne, hcheck⟩ := h seg hseg
      split_ifs at hcheck with h1 h2
      exact ⟨hne, fun h ↦ h1 (.inl h), fun h ↦ h1 (.inr h), h2⟩
    · obtain ⟨h0, h1, h2, h3⟩ := h.2 seg hseg
      exact ⟨h0, by simp [h1, h2, h3]⟩

theorem keySubpathIsAcceptable_eq_ok (h : keySubpathIsAcceptable s = .ok ()) :
    byteLength s ≤ maxKeySubpathBytes ∧ KeySegments s ∧
      ∀ seg ∈ split '/' s, (utf8Bytes seg).all safeTokenByte := by
  unfold keySubpathIsAcceptable at h
  split_ifs at h with he hlen
  rw [checkSegments_eq_ok] at h
  have hseg : ∀ seg ∈ split '/' s, KeySegment seg ∧ (utf8Bytes seg).all safeTokenByte := by
    intro seg hseg
    obtain ⟨hne, hcheck⟩ := h seg hseg
    split_ifs at hcheck with h1 h2 h3
    exact ⟨⟨hne, fun h ↦ h2 (.inl h), fun h ↦ h2 (.inr h), h3⟩, h1⟩
  exact ⟨not_lt.mp hlen, fun seg hs ↦ (hseg seg hs).1, fun seg hs ↦ (hseg seg hs).2⟩

theorem split_append_slash (a b : String) :
    split '/' (a ++ "/" ++ b) = split '/' a ++ split '/' b :=
  split_append_sep '/' a b

theorem byteLength_append (a b : String) : byteLength (a ++ b) = byteLength a + byteLength b := by
  rw [byteLength, utf8Bytes_append, length_append]
  rfl

theorem byteLength_pos (h : s ≠ "") : 1 ≤ byteLength s := by
  refine Nat.one_le_iff_ne_zero.mpr fun hzero ↦ h (utf8Bytes_injective ?_)
  rw [length_eq_zero_iff.mp hzero]
  rfl

/-- A text of printable ASCII has no whitespace. -/
theorem not_isWhitespace_of_bytes (h : ∀ b ∈ utf8Bytes s, 33 ≤ b.toNat ∧ b.toNat < 127) :
    ¬s.toList.any isWhitespace := by
  intro hspace
  obtain ⟨c, hc, hwhite⟩ := any_eq_true.mp hspace
  obtain ⟨b, hb, hbc⟩ := exists_byte_of_mem (fun b hb ↦ (h b hb).2.trans (by decide)) hc
  have hbounds := h b hb
  simp only [isWhitespace, or_eq_true, and_eq_true, decide_eq_true_eq, beq_iff_eq] at hwhite
  omega

theorem printable_of_safePathByte (h : safePathByte b) :
    33 ≤ b.toNat ∧ b.toNat < 127 := by
  simp only [safePathByte, isAsciiAlphanumeric, isAsciiDigit, isAsciiUppercase, isAsciiLowercase,
    or_eq_true, and_eq_true, decide_eq_true_eq, beq_iff_eq, UInt8.le_iff_toNat_le,
    ← UInt8.toNat_inj, UInt8.reduceToNat] at h
  omega

theorem safePathByte_of_safeTokenByte (h : safeTokenByte b) : safePathByte b := by
  simp only [safeTokenByte, safePathByte, or_eq_true] at h ⊢
  tauto

/-- Where every segment is of safe bytes, so is the path. -/
theorem safePathByte_of_segments (h : ∀ seg ∈ split '/' s, (utf8Bytes seg).all safeTokenByte) :
    (utf8Bytes s).all safePathByte := by
  rw [all_eq_true]
  intro b hb
  rw [utf8Bytes_eq_flatMap] at hb
  obtain ⟨c, hc, hb⟩ := mem_flatMap.mp hb
  by_cases hslash : c = '/'
  · subst hslash
    exact mem_singleton.mp (show b ∈ [(47 : UInt8)] from hb) ▸ by decide
  · obtain ⟨seg, hseg, hcseg⟩ := exists_mem_split_of_mem hc hslash
    refine safePathByte_of_safeTokenByte (all_eq_true.mp (h seg hseg) b ?_)
    rw [utf8Bytes_eq_flatMap]
    exact mem_flatMap.mpr ⟨c, hcseg, hb⟩

/-- A fragment in the alphabet is acceptable by its segments alone. -/
theorem kvFragmentIsAcceptable_of_safe (hsafe : vaultPathIsSafe s) (hseg : KeySegments s) :
    kvFragmentIsAcceptable s = .ok () := by
  rw [vaultPathIsSafe, and_eq_true, all_eq_true] at hsafe
  exact kvFragmentIsAcceptable_eq_ok.mpr
    ⟨not_isWhitespace_of_bytes fun b hb ↦ printable_of_safePathByte (hsafe.2 b hb), hseg⟩

/-! ### Below a prefix -/

theorem KeySegments.empty_not_mem (h : KeySegments s) : "" ∉ split '/' s :=
  fun hmem ↦ (h "" hmem).ne_empty rfl

/-- **What is below a prefix without empty segments is the prefix and a path after it.** -/
theorem pathIsWithinPrefix_iff {path pre} (hpre : "" ∉ split '/' pre) :
    pathIsWithinPrefix path pre ↔ ∃ rest, rest ≠ "" ∧ path = pre ++ "/" ++ rest := by
  have hne : pre ≠ "" := by
    rintro rfl
    exact hpre (by decide)
  -- The prefix does not end in a slash: there would be an empty segment after it.
  have hlast : pre.toList.getLast? ≠ some '/' := by
    intro hlast
    obtain ⟨front, hfront⟩ := getLast?_eq_some_iff.mp hlast
    refine hpre ?_
    have hpre' : pre = String.ofList front ++ "/" ++ "" := by
      apply String.toList_inj.mp
      simpa using hfront
    rw [hpre', split_append_slash]
    exact mem_append_right _ (by decide)
  have hone : ∀ {rest : String}, (startsWithChar '/' rest && decide (1 < byteLength rest)) = true ↔
      ∃ tail, tail ≠ "" ∧ rest = "/" ++ tail := by
    intro rest
    rw [and_eq_true, decide_eq_true_eq]
    constructor
    · rintro ⟨hslash, hlong⟩
      refine ⟨drop 1 rest, ?_, eq_slash_append_drop hslash⟩
      intro hempty
      rw [eq_slash_append_drop hslash, hempty] at hlong
      exact absurd hlong (by decide)
    · rintro ⟨tail, htail, rfl⟩
      refine ⟨by simp [startsWithChar], ?_⟩
      have hpos := byteLength_pos htail
      rw [byteLength_append, show byteLength "/" = 1 from by decide]
      omega
  unfold pathIsWithinPrefix
  split_ifs with hempty
  · have hpath : path = "" := hempty.resolve_left hne
    refine iff_of_false (by simp) ?_
    rintro ⟨rest, hrest, heq⟩
    have hlist := congrArg String.toList (hpath.symm.trans heq)
    simp at hlist
  · dsimp only
    constructor
    · intro h
      split at h
      · next rest hstrip =>
        obtain ⟨tail, htail, rfl⟩ := hone.mp h
        exact ⟨tail, htail, by rw [stripPrefix_eq_some.mp hstrip, String.append_assoc]⟩
      · cases h
    · rintro ⟨tail, htail, rfl⟩
      have hstrip : stripPrefix pre (pre ++ "/" ++ tail) = some ("/" ++ tail) :=
        stripPrefix_eq_some.mpr String.append_assoc
      rw [hstrip]
      exact hone.mpr ⟨tail, htail, rfl⟩

/-- A composed path has the segments of its parts. -/
theorem keySegments_append {a b} (ha : KeySegments a) (hb : KeySegments b) :
    KeySegments (a ++ "/" ++ b) := by
  intro seg hseg
  rw [split_append_slash, mem_append] at hseg
  exact hseg.elim (ha seg) (hb seg)

section

variable (h : userKeyPath userPrefix username subpath = .ok path)

include h

/-- What a composed key path was composed from. -/
theorem userKeyPath_eq_ok :
    path = userPrefix ++ "/" ++ username ++ "/" ++ subpath ∧
      kvFragmentIsAcceptable userPrefix = .ok () ∧ vaultPathIsSafe userPrefix ∧
      byteLength userPrefix ≤ maxUserPrefixBytes ∧ '/' ∉ username.toList ∧
      kvFragmentIsAcceptable username = .ok () ∧ (utf8Bytes username).all safeTokenByte ∧
      keySubpathIsAcceptable subpath = .ok () := by
  obtain ⟨_, hlen, _, hbegins, _, hsafe, h⟩ := bind₃_eq_ok.mp h
  obtain ⟨_, hslash, _, -, _, huser, h⟩ := bind₃_eq_ok.mp h
  obtain ⟨_, htoken, _, hsub, h⟩ := bind₂_eq_ok.mp h
  rw [refuseIf_eq_ok] at hlen hsafe hslash htoken
  exact ⟨(pure_eq_ok.mp h).symm, mapError_eq_ok_iff.mp hbegins, not_not.mp hsafe,
    not_lt.mp hlen, hslash, mapError_eq_ok_iff.mp huser, not_not.mp htoken,
    mapError_eq_ok_iff.mp hsub⟩

theorem keySegments_userKeyPath : KeySegments path := by
  obtain ⟨rfl, hbegins, -, -, -, huser, -, hsub⟩ := userKeyPath_eq_ok h
  exact keySegments_append (keySegments_append (kvFragmentIsAcceptable_eq_ok.mp hbegins).2
    (kvFragmentIsAcceptable_eq_ok.mp huser).2) (keySubpathIsAcceptable_eq_ok hsub).2.1

/-- A composed key path is in the alphabet of a path. -/
theorem vaultPathIsSafe_userKeyPath : vaultPathIsSafe path := by
  obtain ⟨rfl, -, hbegins, -, -, -, huser, hsub⟩ := userKeyPath_eq_ok h
  have hsubpath := safePathByte_of_segments (keySubpathIsAcceptable_eq_ok hsub).2.2
  rw [vaultPathIsSafe, and_eq_true, all_eq_true] at hbegins
  rw [all_eq_true] at huser hsubpath
  have hslash : ∀ b ∈ utf8Bytes "/", safePathByte b := all_eq_true.mp (by decide)
  rw [vaultPathIsSafe, and_eq_true, all_eq_true]
  refine ⟨by simp, fun b hb ↦ ?_⟩
  simp only [utf8Bytes_append, mem_append] at hb
  rcases hb with (((hb | hb) | hb) | hb) | hb
  · exact hbegins.2 b hb
  · exact hslash b hb
  · exact safePathByte_of_safeTokenByte (huser b hb)
  · exact hslash b hb
  · exact hsubpath b hb

end

/-- **A key path belongs to one user and one subpath.** -/
theorem userKeyPath_inj {userPrefix u v p q path}
    (hu : userKeyPath userPrefix u p = .ok path) (hv : userKeyPath userPrefix v q = .ok path) :
    u = v ∧ p = q := by
  have hsplit : ∀ {u p}, userKeyPath userPrefix u p = .ok path →
      split '/' path = split '/' userPrefix ++ u :: split '/' p := by
    intro u p h
    obtain ⟨rfl, -, -, -, hslash, -⟩ := userKeyPath_eq_ok h
    rw [split_append_slash, split_append_slash, split_eq_singleton hslash, append_assoc,
      singleton_append]
  have hpieces := append_cancel_left ((hsplit hu).symm.trans (hsplit hv))
  exact ⟨(cons.inj hpieces).1, split_injective '/' (cons.inj hpieces).2⟩

/-! ### Bounds that were read -/

/-- What the bounds file promises of a fragment. -/
structure BoundsFragment (s : String) : Prop where
  acceptable : kvFragmentIsAcceptable s = .ok ()
  safe : vaultPathIsSafe s
  short : byteLength s ≤ maxUserPrefixBytes

theorem boundsFragment_of_requiredFragment {m : List (String × Value)} {name s}
    (h : requiredFragment m name = .ok s) : BoundsFragment s := by
  unfold requiredFragment at h
  split at h
  · obtain ⟨_, hlength, _, hfragment, _, hsafe, ⟨⟩⟩ := bind₃_eq_ok.mp h
    rw [refuseIf_eq_ok] at hlength hsafe
    exact ⟨mapError_eq_ok_iff.mp hfragment, not_not.mp hsafe, not_lt.mp hlength⟩
  · exact nomatch h

theorem boundsFragments_of_boundsFromDocument {doc b}
    (h : boundsFromDocument doc = .ok b) :
    BoundsFragment b.kvMount ∧ BoundsFragment b.userPrefix := by
  cases doc with
  | map m =>
    obtain ⟨_, -, mount, hmount, pre, hpre, h⟩ := bind₃_eq_ok.mp h
    obtain ⟨_, -, _, -, ⟨⟩⟩ := bind₂_eq_ok.mp h
    exact ⟨boundsFragment_of_requiredFragment hmount, boundsFragment_of_requiredFragment hpre⟩
  | null | bool | int | float | str | seq => exact nomatch h

end Maknae.Config
