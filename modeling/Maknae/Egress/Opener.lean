import Maknae.Egress.Handle

/-!
# Opening a user's key

The daemon opens the sealed key of a frame to a wrapping token, and unwraps the token to the key. It
asks Vault where the token was created before it unwraps it, and it has the answer it expects from
the request alone.

A user chooses the sealed key and what is below their own name. What keeps them from the keys of
others is four encodings that each tell their parts apart: the key path, the data path, the
associated data, and the test of a prefix. `user_key_isolation` puts them together, for a box that
opens only what was sealed and a Vault that is honest about its tokens.
-/

namespace Maknae.Egress

open Config Except Kernel List Proto Seal Text Vault

inductive OpenFailure
  | request
  | sealMismatch
  | token
  | wrongPath
  | ttl
  | invalid
  | field
  | vault
deriving DecidableEq, Repr

def vaultFailure : VaultError → OpenFailure
  | .wrapMismatch .creationPath => .wrongPath
  | .wrapMismatch (.creationTtl _ _) => .ttl
  | .wrapMismatch .invalid => .invalid
  | .kvField _ _ => .field
  | _ => .vault

variable {δ ν : Type}

def unsealToken (box : SealBox δ) (blob : List UInt8) (req : OpenRequest) :
    Except OpenFailure (WrappingToken × WrapExpectation) := do
  let expect ← (WrapExpectation.new req.kvMount req.keyVaultPath req.keyField
    userKeyWrapTtl).mapError fun _ ↦ .request
  let aad ← (SealAad.new (sealContext expect req)).mapError fun _ ↦ .sealMismatch
  let opened ← (openKey box aad blob).mapError fun _ ↦ .sealMismatch
  let token ← (WrappingToken.fromOpened opened).mapError fun _ ↦ .token
  return (token, expect)

def openWith (json : JsonReader ν) (box : SealBox δ) (vault : UnwrapOps) (blob : List UInt8)
    (req : OpenRequest) : Except OpenFailure String := do
  let (token, expect) ← unsealToken box blob req
  (unwrapChecked json vault token expect).mapError vaultFailure

/-! ### What an opened key went through -/

variable {key : String} {vault : UnwrapOps} {json : JsonReader ν} {box : SealBox δ}
  {req : OpenRequest}

theorem openWith_eq_ok {blob} (h : openWith json box vault blob req = .ok key) :
    ∃ expect aad opened token,
      WrapExpectation.new req.kvMount req.keyVaultPath req.keyField userKeyWrapTtl = .ok expect ∧
      SealAad.new (sealContext expect req) = .ok aad ∧ openKey box aad blob = .ok opened ∧
      unwrapChecked json vault token expect = .ok key := by
  obtain ⟨⟨token, expect⟩, hunseal, h⟩ := bind_eq_ok.mp h
  obtain ⟨_, hexpect, aad, haad, opened, hopened, hunseal⟩ := bind₃_eq_ok.mp hunseal
  obtain ⟨_, -, ⟨⟩⟩ := bind_pure_eq_ok.mp hunseal
  exact ⟨_, aad, opened, _, mapError_eq_ok_iff.mp hexpect, mapError_eq_ok_iff.mp haad,
    mapError_eq_ok_iff.mp hopened, mapError_eq_ok_iff.mp h⟩

/-- **A sealed key opens only for the five values it was sealed for.** -/
theorem sealContext_of_openWith (hbox : box.Ideal) {draw} {ctx} {aad}
    {plain blob} (haad : SealAad.new ctx = .ok aad)
    (hseal : sealKey box draw aad plain = .ok blob)
    (h : openWith json box vault blob req = .ok key) :
    ctx.conversation = req.conversation ∧ ctx.provider = req.provider ∧ ctx.model = req.model ∧
      kvDataPath req.kvMount req.keyVaultPath = .ok ctx.expectedPath ∧
      ctx.keyField = req.keyField := by
  obtain ⟨expect, aad', opened, token, hexpect, haad', hopened, -⟩ := openWith_eq_ok h
  obtain ⟨rfl, -⟩ := hbox.eq_of_openKey hseal hopened
  obtain rfl := SealAad.new_inj haad haad'
  obtain ⟨hpath, hfield, -⟩ := WrapExpectation.new_eq_ok hexpect
  exact ⟨rfl, rfl, rfl, hpath, hfield⟩

/-! ### Where a user's keys are -/

/-- The path in Vault below which a user's keys are stored. -/
def userRoot (bounds : EgressBounds) (u : String) : String :=
  bounds.kvMount ++ kvDataSegment ++ (bounds.userPrefix ++ "/" ++ u)

theorem split_userRoot (bounds : EgressBounds) {u} (hu : '/' ∉ u.toList) :
    split '/' (userRoot bounds u) =
      split '/' bounds.kvMount ++ "data" :: (split '/' bounds.userPrefix ++ [u]) := by
  rw [userRoot, split_dataSegment, split_append_slash, split_eq_singleton hu]

/-- **The path of a user's key is below that user's root and no other's.** -/
theorem within_userRoot_iff {bounds} (hmount : BoundsFragment bounds.kvMount)
    (hpre : BoundsFragment bounds.userPrefix) {u v subpath path}
    (hpath : userKeyPath bounds.userPrefix u subpath = .ok path) (hv : usableUsername v) :
    pathIsWithinPrefix (bounds.kvMount ++ kvDataSegment ++ path) (userRoot bounds v) ↔ v = u := by
  obtain ⟨-, hslash, hsegments⟩ := segment_of_usableUsername hv
  obtain ⟨rfl, -, -, -, huslash, -, -, hsub⟩ := userKeyPath_eq_ok hpath
  have hroot : "" ∉ split '/' (userRoot bounds v) := by
    have hmount' := (kvFragmentIsAcceptable_eq_ok.mp hmount.acceptable).2.empty_not_mem
    have hpre' := (kvFragmentIsAcceptable_eq_ok.mp hpre.acceptable).2.empty_not_mem
    have hv' := hsegments.empty_not_mem
    rw [split_eq_singleton hslash] at hv'
    rw [split_userRoot bounds hslash]
    simp [hmount', hpre', hv']
  rw [pathIsWithinPrefix_iff hroot]
  constructor
  · rintro ⟨rest, -, heq⟩
    have hsplit := congrArg (split '/') heq
    rw [split_append_slash, split_userRoot bounds hslash, split_dataSegment, split_append_slash,
      split_append_slash, split_eq_singleton huslash] at hsplit
    simp only [append_assoc, cons_append] at hsplit
    have htail := (cons.inj (append_cancel_left hsplit)).2
    exact (cons.inj (append_cancel_left htail)).1.symm
  · rintro rfl
    refine ⟨subpath, ?_, by simp only [userRoot, String.append_assoc]⟩
    rintro rfl
    exact absurd hsub (by decide)

/-- The key path of a user is strictly below the prefix and the user's name. -/
theorem within_user_dir {userPrefix u subpath path}
    (hpath : userKeyPath userPrefix u subpath = .ok path) :
    pathIsWithinPrefix path (userPrefix ++ "/" ++ u) := by
  obtain ⟨heq, hpre, -, -, -, huser, -, hsub⟩ := userKeyPath_eq_ok hpath
  rw [pathIsWithinPrefix_iff (keySegments_append (kvFragmentIsAcceptable_eq_ok.mp hpre).2
    (kvFragmentIsAcceptable_eq_ok.mp huser).2).empty_not_mem]
  refine ⟨subpath, ?_, heq⟩
  rintro rfl
  exact absurd hsub (by decide)

/-! ### Isolation -/

/-- **The keys of users are kept apart**, under every mount and prefix the bounds file can have.

1. The key path of an admitted choice is strictly below the prefix and the user's name, with no
empty, `.`, `..` or `data` segment, and is of one user and one subpath. 2. A data path is of one
mount and one path, so requests of different users expect their tokens to be created at different
paths. 3. The associated data is of one conversation, provider, model, expected path and field.

Hence a sealed key opens only for the five values it was sealed for, and the key a user's request
opens is one stored below that user's root and no other user's. -/
theorem user_key_isolation {doc : Value} {bounds : EgressBounds}
    (hbounds : boundsFromDocument doc = .ok bounds) :
    (∀ {set c u a}, admitChoice set (some c) (some u) bounds.userPrefix = .ok a →
      pathIsWithinPrefix a.keyVaultPath (bounds.userPrefix ++ "/" ++ u) ∧
      KeySegments a.keyVaultPath ∧
      ∀ {set' c' u' a'}, admitChoice set' (some c') (some u') bounds.userPrefix = .ok a' →
        (a.keyVaultPath = a'.keyVaultPath → u = u' ∧ c.keySubpath = c'.keySubpath) ∧
        ∀ {expect expect'},
          WrapExpectation.new bounds.kvMount a.keyVaultPath a.keyField userKeyWrapTtl = .ok expect →
          WrapExpectation.new bounds.kvMount a'.keyVaultPath a'.keyField userKeyWrapTtl =
            .ok expect' →
          u ≠ u' → expect.creationPath ≠ expect'.creationPath) ∧
    (∀ {m m' s s' path}, kvDataPath m s = .ok path → kvDataPath m' s' = .ok path →
      m = m' ∧ s = s') ∧
    (∀ {ctx ctx' aad}, SealAad.new ctx = .ok aad → SealAad.new ctx' = .ok aad → ctx = ctx') ∧
    ∀ {δ ν : Type} {json : JsonReader ν} {box : SealBox δ} {vault : UnwrapOps}
      {stored : String → List UInt8 → Prop}, box.Ideal → HonestVault vault stored →
      (∀ {draw ctx aad plain blob req key}, SealAad.new ctx = .ok aad →
        sealKey box draw aad plain = .ok blob → openWith json box vault blob req = .ok key →
        ctx.conversation = req.conversation ∧ ctx.provider = req.provider ∧
        ctx.model = req.model ∧ kvDataPath req.kvMount req.keyVaultPath = .ok ctx.expectedPath ∧
        ctx.keyField = req.keyField) ∧
      ∀ {set c u a p deadline req key},
        admitChoice set (some c) (some u) bounds.userPrefix = .ok a →
        openRequest (promptFrame a p deadline) bounds = .ok req →
        openWith json box vault a.sealedKey.bytes req = .ok key →
        ∃ path body, stored path body ∧ selectKvField json body c.keyField = .ok key ∧
          ∀ v, usableUsername v → (pathIsWithinPrefix path (userRoot bounds v) ↔ v = u) := by
  obtain ⟨hmount, hpre⟩ := boundsFragments_of_boundsFromDocument hbounds
  have hfor : ∀ {set c u a}, admitChoice set (some c) (some u) bounds.userPrefix = .ok a →
      AdmittedFor set c u bounds.userPrefix a := by
    intro set c u a h
    obtain ⟨_, _, hc, hu, hfor⟩ := admitChoice_eq_ok h
    rwa [← Option.some.inj hc, ← Option.some.inj hu] at hfor
  refine ⟨fun {set c u a} h ↦ ⟨within_user_dir (hfor h).path,
    keySegments_userKeyPath (hfor h).path, fun {set' c' u' a'} h' ↦ ?_⟩, kvDataPath_inj,
    SealAad.new_inj, fun hbox hvault ↦ ⟨fun haad hseal hopen ↦
      sealContext_of_openWith hbox haad hseal hopen, ?_⟩⟩
  · have hinj : a.keyVaultPath = a'.keyVaultPath → u = u' ∧ c.keySubpath = c'.keySubpath :=
      fun heq ↦ userKeyPath_inj (hfor h).path (heq ▸ (hfor h').path)
    refine ⟨hinj, fun hexpect hexpect' hne heq ↦ hne (hinj ?_).1⟩
    have hpath := (WrapExpectation.new_eq_ok hexpect).1
    rw [heq] at hpath
    exact (kvDataPath_inj hpath (WrapExpectation.new_eq_ok hexpect').1).2
  · intro set c u a p deadline req key h hreq hopen
    obtain ⟨expect, _, _, _, hexpect, -, -, hunwrap⟩ := openWith_eq_ok hopen
    obtain ⟨body, hstored, hkey⟩ := hvault.stored_of_unwrapChecked hunwrap
    obtain ⟨hpath, hfield, -⟩ := WrapExpectation.new_eq_ok hexpect
    -- The request names the mount of the bounds, and the path and field of the admitted choice.
    obtain ⟨hreqMount, hreqPath, hreqField⟩ : req.kvMount = bounds.kvMount ∧
        req.keyVaultPath = a.keyVaultPath ∧ req.keyField = a.keyField := by
      unfold openRequest at hreq
      split at hreq
      · split_ifs at hreq
        cases hreq
        exact ⟨rfl, rfl, rfl⟩
      · exact nomatch hreq
    obtain ⟨-, -, -, hcreation⟩ := Vault.kvDataPath_eq_ok.mp hpath
    refine ⟨expect.creationPath, body, hstored, ?_, fun v hv ↦ ?_⟩
    · rwa [hfield, hreqField, (hfor h).keyField_eq] at hkey
    · rw [← hcreation, hreqMount, hreqPath]
      exact within_userRoot_iff hmount hpre (hfor h).path hv

/-! ### One key -/

/-- A code for a list of bytes that can be told from what follows. -/
def plainCode (l : List UInt8) : List UInt8 := l.flatMap (fun b ↦ [1, b]) ++ [0]

theorem prefixFree_plainCode : PrefixFree plainCode :=
  prefixFree_many (c := fun b : UInt8 ↦ [1, b])
    (fun _ _ _ _ h ↦ ⟨(cons.inj (cons.inj h).2).1, (cons.inj (cons.inj h).2).2⟩)
    fun b ↦ ⟨1, [b], rfl, by decide⟩

/-- An ideal box that hides nothing: a blob is the domain, the associated data and the plaintext. -/
def plainBox : SealBox Unit where
  assertFipsModule := .ok ()
  sealWith _ dom aad plain := .ok (plainCode dom ++ plainCode aad ++ plain)
  openWith dom aad blob :=
    if (plainCode dom ++ plainCode aad).isPrefixOf blob then
      .ok (blob.drop (plainCode dom ++ plainCode aad).length)
    else .error .openFailed

theorem plainBox_ideal : plainBox.Ideal where
  exists_sealWith := by
    intro dom aad blob plain h
    simp only [plainBox] at h
    split_ifs at h with hbegins
    obtain ⟨rest, rfl⟩ := isPrefixOf_iff_prefix.mp hbegins
    rw [drop_left] at h
    exact ⟨(), congrArg (plainBox.sealWith () dom aad) (ok.inj h).symm⟩
  binds := by
    intro _ _ dom dom' aad aad' plain plain' blob h h'
    have heq := (ok.inj h).trans (ok.inj h').symm
    simp only [append_assoc] at heq
    obtain ⟨hdom, heq⟩ := prefixFree_plainCode _ _ heq
    obtain ⟨haad, hplain⟩ := prefixFree_plainCode _ _ heq
    exact ⟨hdom, haad, hplain⟩

def aliceContext : SealContext :=
  ⟨"conv1", "openai", "gpt-5.6-luna", "maknae-kv/data/maknae/users/alice/openai/personal",
    "api_key"⟩

def aliceBlob : List UInt8 :=
  plainCode (utf8Bytes domain) ++ plainCode (encode aliceContext.fields) ++ utf8Bytes "hvs.WRAP"

def aliceKey : SealedKey := ⟨aliceBlob, by decide +kernel⟩

def aliceOpen : OpenRequest :=
  ⟨"conv1", "openai", "gpt-5.6-luna", "maknae-kv", "maknae/users/alice/openai/personal", "api_key"⟩

/-- Alice's secret, as the Vault stores it. -/
def aliceBody : List UInt8 :=
  utf8Bytes "\x7b\"data\":\x7b\"data\":\x7b\"api_key\":\"sk-alice\"\x7d\x7d\x7d"

/-- A Vault with one token, for alice's secret. -/
def aliceVault : UnwrapOps where
  lookup _ := .ok ⟨aliceContext.expectedPath, ⟨60, 0⟩, "2026-10-01T00:00:00Z"⟩
  unwrapBody _ := .ok aliceBody

def aliceStored (path : String) (body : List UInt8) : Prop :=
  path = aliceContext.expectedPath ∧ body = aliceBody

theorem aliceVault_honest : HonestVault aliceVault aliceStored where
  stored_of_unwrap h hbody :=
    ⟨congrArg WrapLookup.creationPath (ok.inj h).symm, (ok.inj hbody).symm⟩

/-- A reader that knows this text. -/
def aliceJson : JsonReader Unit where
  read body := if body = aliceBody then some (.object [("data", .object [("data",
    .object [("api_key", .string "sk-alice")])])]) else none
  refusal _ _ := ""

/-- Alice's key opens for alice, from a path that is not below bob's root, and bob's request for the
same subpath expects another path. -/
theorem user_key_isolation_alice :
    openWith aliceJson plainBox aliceVault aliceKey.bytes aliceOpen = .ok "sk-alice" ∧
      kvDataPath aliceOpen.kvMount aliceOpen.keyVaultPath = .ok aliceContext.expectedPath ∧
      (∃ path body, aliceStored path body ∧ selectKvField aliceJson body "api_key" =
        .ok "sk-alice" ∧ ¬pathIsWithinPrefix path (userRoot aliceEgressBounds "bob")) ∧
      "maknae/users/alice/openai/personal" ≠ "maknae/users/bob/openai/personal" := by
  have hchosen : ∀ u path, u = "alice" ∧ path = "maknae/users/alice/openai/personal" ∨
      u = "bob" ∧ path = "maknae/users/bob/openai/personal" →
      admitChoice aliceProviderSet (some ⟨"openai", "gpt-5.6-luna", "openai/personal", "api_key",
        aliceKey⟩) (some u) aliceEgressBounds.userPrefix =
        .ok { aliceChoice aliceKey with keyVaultPath := path } := by
    rintro u path (⟨rfl, rfl⟩ | ⟨rfl, rfl⟩) <;> decide +kernel
  have hopen : openWith aliceJson plainBox aliceVault aliceKey.bytes aliceOpen =
      .ok "sk-alice" := by
    decide +kernel
  have hreq : openRequest (promptFrame (aliceChoice aliceKey) (alicePrompt aliceKey) ⟨280, 0⟩)
      aliceEgressBounds = .ok aliceOpen := by
    decide +kernel
  obtain ⟨hpaths, -, -, hkeys⟩ := user_key_isolation boundsFromDocument_alice
  obtain ⟨hsealed, hstored⟩ := @hkeys Unit Unit aliceJson _ _ _ plainBox_ideal aliceVault_honest
  obtain ⟨-, -, hother⟩ := hpaths (hchosen "alice" _ (.inl ⟨rfl, rfl⟩))
  obtain ⟨path, body, hbody, hkey, hroot⟩ :=
    hstored (hchosen "alice" _ (.inl ⟨rfl, rfl⟩)) hreq hopen
  refine ⟨hopen, ?_, ⟨path, body, hbody, hkey, ?_⟩, fun heq ↦ ?_⟩
  · have haad : SealAad.new aliceContext = .ok ⟨encode aliceContext.fields⟩ := by decide +kernel
    have hseal : sealKey plainBox () ⟨encode aliceContext.fields⟩ (utf8Bytes "hvs.WRAP") =
        .ok aliceKey.bytes := by decide +kernel
    exact (hsealed haad hseal hopen).2.2.2.1
  · rw [hroot "bob" (by decide +kernel)]
    decide
  · exact absurd ((hother (hchosen "bob" _ (.inr ⟨rfl, rfl⟩))).1 heq).1 (by decide)

end Maknae.Egress
