import Maknae.Kernel.EgressRequest
import Maknae.Seal.Aad

/-!
# The decision of the egress daemon

The daemon checks every frame once more before it acts on it, with predicates of its own. Its second
check is meant to name a bug of the kernel and nothing else, and that is what is proved here: a
frame built for an admitted prompt passes, under the bounds the kernel read too, unless the daemon's
call timeout does not fit the deadline on the frame (`admitted_prompt_passes_decide`).

The two sides spell the same demands differently. The kernel asks for a listed model and a composed
path, the daemon for texts that are not empty and a path below the prefix. The lemmas here go field
by field from one spelling to the other.
-/

namespace Maknae.Egress

open Config Kernel List Proto Seal Vault

inductive Refusal
  | keyPathOutsideBounds
  | keyPathMalformed
  | malformedFrame
  | callTimeoutExceedsDeadline
  | nonTextBlock
  | noTextToSend
  | transcriptShape
deriving DecidableEq, Repr

structure OpenRequest where
  conversation : String
  provider : String
  model : String
  kvMount : String
  keyVaultPath : String
  keyField : String
deriving DecidableEq, Repr

structure Admitted where
  req : EgressFrameRequest
  openReq : OpenRequest

def destinationPrefix : String := "provider:"

def openRequest (req : EgressFrameRequest) (bounds : EgressBounds) : Except Refusal OpenRequest :=
  match Text.stripPrefix destinationPrefix req.destination with
  | some provider =>
    if providerNameIsAcceptable provider then
      .ok ⟨req.conversation, provider, req.model, bounds.kvMount, req.keyVaultPath, req.keyField⟩
    else .error .malformedFrame
  | none => .error .malformedFrame

/-- What the daemon needs for one call, with two calls to Vault and a margin. -/
def neededMs (bounds : EgressBounds) : ℕ := bounds.callTimeoutMs + vaultCallsMs + deadlineMarginMs

/-- A turn the preamble alone would answer. -/
def blankTurn : Turn → Bool
  | .user content | .tool _ content => content.all ContentBlock.blank
  | .assistant _ _ _ => false

/-- The transcript begins with the user. -/
def beginsWithUser : List Turn → Bool
  | .user _ :: _ => true
  | _ => false

def decide (req : EgressFrameRequest) (bounds : EgressBounds) : Except Refusal Admitted := do
  .refuseIf (¬egressFrameRequestIsAcceptable req) .malformedFrame
  .refuseIf (req.deadlineMs.any fun ms ↦ ms < neededMs bounds) .callTimeoutExceedsDeadline
  (kvFragmentIsAcceptable req.keyVaultPath).mapError fun _ ↦ .keyPathMalformed
  .refuseIf (req.keyField.toList.any isWhitespace ∨ maxKeyFieldBytes < byteLength req.keyField)
    .malformedFrame
  .refuseIf (req.reasoningEffort.any fun e ↦ !reasoningEffortIsAcceptable e) .malformedFrame
  .refuseIf (¬pathIsWithinPrefix req.keyVaultPath bounds.userPrefix) .keyPathOutsideBounds
  .refuseIf (req.turns.any fun t ↦ t.content.any fun b ↦ !b.isText) .nonTextBlock
  .refuseIf (¬beginsWithUser req.turns) .transcriptShape
  .refuseIf (req.turns.any blankTurn) .noTextToSend
  let openReq ← openRequest req bounds
  return ⟨req, openReq⟩

/-- The context the daemon's seal is bound to: the five values, by the expectation. -/
def sealContext (expect : WrapExpectation) (req : OpenRequest) : SealContext :=
  ⟨req.conversation, req.provider, req.model, expect.creationPath, expect.field⟩

/-- A frame with none of the other faults is decided by its deadline. -/
theorem decide_eq_of_checks {req bounds o}
    (hshape : egressFrameRequestIsAcceptable req)
    (hfragment : kvFragmentIsAcceptable req.keyVaultPath = .ok ())
    (hfield : ¬(req.keyField.toList.any isWhitespace ∨ maxKeyFieldBytes < byteLength req.keyField))
    (heffort : ¬req.reasoningEffort.any fun e ↦ !reasoningEffortIsAcceptable e)
    (hwithin : pathIsWithinPrefix req.keyVaultPath bounds.userPrefix)
    (htext : ¬req.turns.any fun t ↦ t.content.any fun b ↦ !b.isText)
    (huser : beginsWithUser req.turns) (hblank : ¬req.turns.any blankTurn)
    (hopen : openRequest req bounds = .ok o) :
    decide req bounds =
      if req.deadlineMs.any fun ms ↦ ms < neededMs bounds then .error .callTimeoutExceedsDeadline
      else .ok ⟨req, o⟩ := by
  have hpass : ∀ {c : Prop} [Decidable c] {e : Refusal} {α : Type} {f : PUnit → Except Refusal α},
      ¬c → (Except.refuseIf c e >>= f) = f ⟨⟩ := by
    intro c _ e α f hc
    rw [Except.refuseIf, if_neg hc]
    rfl
  unfold decide
  rw [hpass (not_not.mpr hshape)]
  split_ifs with hdeadline
  · rw [Except.refuseIf, if_pos hdeadline]
    rfl
  · have hpath : (kvFragmentIsAcceptable req.keyVaultPath).mapError
        (fun _ ↦ Refusal.keyPathMalformed) = .ok () := Except.mapError_eq_ok_iff.mpr hfragment
    rw [hpass hdeadline, hpath, hpass hfield, hpass heffort, hpass (not_not.mpr hwithin),
      hpass htext, hpass (not_not.mpr huser), hpass hblank, hopen]
    rfl

/-! ### From the kernel's demands to the daemon's -/

theorem shortText_iff {bound} {p : UInt8 → Bool} {s} :
    shortText bound p s ↔ s ≠ "" ∧ byteLength s ≤ bound ∧ ∀ b ∈ utf8Bytes s, p b := by
  simp [shortText, and_assoc]

theorem printable_of_isAsciiGraphic {b} (h : isAsciiGraphic b) :
    33 ≤ b.toNat ∧ b.toNat < 127 := by
  simp only [isAsciiGraphic, Bool.and_eq_true, decide_eq_true_eq, UInt8.le_iff_toNat_le,
    UInt8.reduceToNat] at h
  omega

/-- The bytes of a short printable field are no whitespace. -/
theorem not_isWhitespace_of_keyField {field} (h : keyFieldIsAcceptable field) :
    ¬field.toList.any isWhitespace :=
  not_isWhitespace_of_bytes fun b hb ↦
    printable_of_isAsciiGraphic ((shortText_iff.mp h).2.2 b hb)

theorem kvFieldIsAcceptable_of_keyField {field} (h : keyFieldIsAcceptable field) :
    kvFieldIsAcceptable field := by
  obtain ⟨hne, hlength, -⟩ := shortText_iff.mp h
  simp only [kvFieldIsAcceptable, Bool.and_eq_true, decide_eq_true_eq, Bool.not_eq_true']
  exact ⟨⟨hne, hlength⟩, Bool.not_eq_true _ ▸ not_isWhitespace_of_keyField h⟩

/-- What the kernel leaves of a prompt: the checks of its transcript, and the choice of one user
against providers and bounds that were read. -/
structure KernelAdmitted (addrs : AddrParser) (bounds : EgressBounds) (a : AdmittedProviderChoice)
    (p : Prompt) : Prop where
  mount : BoundsFragment bounds.kvMount
  pre : BoundsFragment bounds.userPrefix
  pregate : promptPregate p = .ok ()
  provider : a.provider.Acceptable addrs
  choice : ∃ set c u, AdmittedFor set c u bounds.userPrefix a

section Admitted

variable {addrs : AddrParser} {bounds : EgressBounds} {a : AdmittedProviderChoice} {p : Prompt}

theorem KernelAdmitted.of_admitUnder {part set doc username}
    (hset : providersFromSection addrs part = .ok set)
    (hbounds : boundsFromDocument doc = .ok bounds) (hpregate : promptPregate p = .ok ())
    (h : admitUnder (providerAuthority set (some bounds)) p.choice username = .ok a) :
    KernelAdmitted addrs bounds a p := by
  obtain ⟨hmount, hpre⟩ := boundsFragments_of_boundsFromDocument hbounds
  have hchosen : admitChoice set p.choice username bounds.userPrefix = .ok a := by
    by_cases hempty : set = []
    · rw [providerAuthority, if_pos hempty] at h
      -- With no provider nothing is admitted, under any prefix.
      obtain ⟨_, _, -, -, hfor⟩ := admitChoice_eq_ok h
      exact absurd hfor.provider_mem not_mem_nil
    · rwa [providerAuthority, if_neg hempty] at h
  obtain ⟨c, u, -, -, hfor⟩ := admitChoice_eq_ok hchosen
  exact ⟨hmount, hpre, hpregate, of_mem_providersFromSection hset _ hfor.provider_mem,
    set, c, u, hfor⟩

namespace KernelAdmitted

variable (h : KernelAdmitted addrs bounds a p)

include h

theorem path_ne_empty : a.keyVaultPath ≠ "" := by
  obtain ⟨_, _, _, hfor⟩ := h.choice
  rintro hempty
  have hsafe := vaultPathIsSafe_userKeyPath hfor.path
  rw [hempty] at hsafe
  exact absurd hsafe (by decide)

/-- **The composed path is below the prefix.** -/
theorem path_within : pathIsWithinPrefix a.keyVaultPath bounds.userPrefix := by
  obtain ⟨_, c, u, hfor⟩ := h.choice
  obtain ⟨hpath, hbegins, -⟩ := userKeyPath_eq_ok hfor.path
  rw [pathIsWithinPrefix_iff (kvFragmentIsAcceptable_eq_ok.mp hbegins).2.empty_not_mem]
  refine ⟨u ++ "/" ++ c.keySubpath, by simp, ?_⟩
  simpa only [String.append_assoc] using hpath

theorem model_acceptable : modelIsAcceptable a.model := by
  obtain ⟨_, _, _, hfor⟩ := h.choice
  exact h.provider.models _ hfor.model_mem

theorem field_acceptable : keyFieldIsAcceptable a.keyField := by
  obtain ⟨_, _, _, hfor⟩ := h.choice
  exact hfor.field

theorem frame_acceptable (deadline : Vault.Duration) :
    egressFrameRequestIsAcceptable (promptFrame a p deadline) := by
  obtain ⟨htokens, hconversation, hturns⟩ := promptPregate_eq_ok h.pregate
  obtain ⟨⟨content, rest, hfirst⟩, hshape, -⟩ := admittedTurns_eq_ok_iff.mp hturns
  have hendpoint : a.provider.endpoint ≠ "" := by
    intro hempty
    have hok := h.provider.endpoint
    rw [hempty] at hok
    exact absurd hok (by simp [endpointIsAcceptable, Text.stripPrefix])
  have hmodel := (shortText_iff.mp h.model_acceptable).1
  have hfield := (shortText_iff.mp h.field_acceptable).1
  have heffort : ∀ e ∈ a.provider.reasoningEffort, e ≠ "" := by
    intro e he
    have hok := h.provider.reasoningEffort e he
    simp only [reasoningEffortIsAcceptable, Bool.and_eq_true, decide_eq_true_eq] at hok
    exact hok.1.1
  refine egressFrameRequestIsAcceptable_iff.mpr ⟨hconversation, ?_, hendpoint, hmodel,
    h.path_ne_empty, hfield, heffort, htokens, ?_, ?_, hshape⟩
  · show "provider:" ++ a.provider.name ≠ ""
    simp
  · show p.outputTokens.map _ = none ∨ p.outputTokens.isSome
    cases p.outputTokens with
    | none => exact .inl rfl
    | some n => exact .inr rfl
  · show p.turns ≠ []
    rw [hfirst]
    exact cons_ne_nil _ _

theorem openRequest_eq_ok (deadline : Vault.Duration) :
    openRequest (promptFrame a p deadline) bounds =
      .ok ⟨p.conversation, a.provider.name, a.model, bounds.kvMount, a.keyVaultPath,
        a.keyField⟩ := by
  have hstrip : Text.stripPrefix destinationPrefix (promptFrame a p deadline).destination =
      some a.provider.name := Text.stripPrefix_eq_some.mpr rfl
  unfold openRequest
  rw [hstrip]
  exact if_pos h.provider.name

/-- **What the daemon decides of a frame of the kernel** is by the deadline alone. -/
theorem decide_eq (deadline : Vault.Duration) :
    decide (promptFrame a p deadline) bounds =
      if deadlineMillis deadline < neededMs bounds then .error .callTimeoutExceedsDeadline
      else .ok ⟨promptFrame a p deadline, p.conversation, a.provider.name, a.model, bounds.kvMount,
        a.keyVaultPath, a.keyField⟩ := by
  obtain ⟨-, -, hturns⟩ := promptPregate_eq_ok h.pregate
  obtain ⟨⟨content, rest, hfirst⟩, -, hadmitted⟩ := admittedTurns_eq_ok_iff.mp hturns
  obtain ⟨set, c, u, hfor⟩ := h.choice
  have hfragment : kvFragmentIsAcceptable a.keyVaultPath = .ok () :=
    kvFragmentIsAcceptable_of_safe (vaultPathIsSafe_userKeyPath hfor.path)
      (keySegments_userKeyPath hfor.path)
  have hfield : ¬(a.keyField.toList.any isWhitespace ∨ maxKeyFieldBytes < byteLength a.keyField) :=
    not_or.mpr ⟨not_isWhitespace_of_keyField hfor.field,
      not_lt.mpr (shortText_iff.mp hfor.field).2.1⟩
  have heffort : ¬(a.provider.reasoningEffort.any fun e ↦ !reasoningEffortIsAcceptable e) := by
    rw [Option.any_eq_true]
    rintro ⟨e, he, hbad⟩
    rw [h.provider.reasoningEffort e he] at hbad
    exact nomatch hbad
  have htext : ¬(p.turns.any fun t ↦ t.content.any fun b ↦ !b.isText) := by
    rw [any_eq_true]
    rintro ⟨t, ht, hany⟩
    obtain ⟨b, hb, hbad⟩ := any_eq_true.mp hany
    rw [(hadmitted t ht).isText b hb] at hbad
    exact nomatch hbad
  have huser : beginsWithUser p.turns := by
    rw [hfirst]
    rfl
  have hblank : ¬p.turns.any blankTurn := by
    rw [any_eq_true]
    rintro ⟨t, ht, hbad⟩
    have hone := hadmitted t ht
    cases t with
    | user content => exact TextBlocks.not_blank hone hbad
    | assistant content toolCalls reasoning => exact nomatch hbad
    | tool callId content => exact TextBlocks.not_blank hone hbad
  rw [decide_eq_of_checks (h.frame_acceptable deadline) hfragment hfield heffort h.path_within
    htext huser hblank (h.openRequest_eq_ok deadline)]
  simp [promptFrame, frameOf]

/-- The lengths of the parts leave room for the whole. -/
theorem kvDataPath_eq_ok :
    kvDataPath bounds.kvMount a.keyVaultPath =
      .ok (bounds.kvMount ++ kvDataSegment ++ a.keyVaultPath) := by
  obtain ⟨_, c, u, hfor⟩ := h.choice
  obtain ⟨hpath, -, -, hbegins, -, -, -, hsub⟩ := userKeyPath_eq_ok hfor.path
  have hmount : byteLength bounds.kvMount ≤ 256 := h.mount.short
  have hbegins' : byteLength bounds.userPrefix ≤ 256 := hbegins
  have huser : byteLength u ≤ 32 := (segment_of_usableUsername hfor.usable).1
  have hsubpath : byteLength c.keySubpath ≤ 256 := (keySubpathIsAcceptable_eq_ok hsub).1
  refine Vault.kvDataPath_eq_ok.mpr ⟨?_, ⟨h.mount.acceptable, h.mount.safe⟩, ⟨?_, ?_⟩, rfl⟩
  · have hslash : byteLength "/" = 1 := by decide
    have hdata : byteLength kvDataSegment = 6 := by decide
    have hmax : maxKvDataPathBytes = 1024 := rfl
    rw [hpath]
    simp only [byteLength_append]
    omega
  · exact kvFragmentIsAcceptable_of_safe (vaultPathIsSafe_userKeyPath hfor.path)
      (keySegments_userKeyPath hfor.path)
  · exact vaultPathIsSafe_userKeyPath hfor.path

/-- **The wrap expectation of a frame of the kernel is well formed.** -/
theorem wrapExpectation_eq_ok :
    WrapExpectation.new bounds.kvMount a.keyVaultPath a.keyField userKeyWrapTtl =
      .ok ⟨bounds.kvMount ++ kvDataSegment ++ a.keyVaultPath, a.keyField, userKeyWrapTtl⟩ := by
  have hfield : Except.refuseIf (¬kvFieldIsAcceptable a.keyField) (VaultError.kvField
      (fieldEcho a.keyField) "malformed: empty, whitespace, or over 64 bytes") = .ok ⟨⟩ :=
    Except.refuseIf_eq_ok.mpr (not_not.mpr (kvFieldIsAcceptable_of_keyField h.field_acceptable))
  have httl : wrapTtlValue userKeyWrapTtl = .ok "60s" := by decide
  rw [WrapExpectation.new, h.kvDataPath_eq_ok, hfield]
  rfl

/-- **So is its associated data**: each of the five values is there and short. -/
theorem exists_sealAad :
    ∃ aad, SealAad.new ⟨p.conversation, a.provider.name, a.model,
      bounds.kvMount ++ kvDataSegment ++ a.keyVaultPath, a.keyField⟩ = .ok aad := by
  have hshort : ∀ {bound : ℕ} {q : UInt8 → Bool} {s : String}, bound ≤ maxAadFieldBytes →
      shortText bound q s → aadFieldOk (utf8Bytes s) := by
    intro bound q s hbound hs
    obtain ⟨hne, hlength, -⟩ := shortText_iff.mp hs
    have hpos := byteLength_pos hne
    rw [aadFieldOk, Bool.and_eq_true, decide_eq_true_eq, decide_eq_true_eq]
    exact ⟨hpos, hlength.trans hbound⟩
  obtain ⟨-, hconversation, -⟩ := promptPregate_eq_ok h.pregate
  have hpath : aadFieldOk (utf8Bytes (bounds.kvMount ++ kvDataSegment ++ a.keyVaultPath)) := by
    obtain ⟨hlength, -⟩ := Vault.kvDataPath_eq_ok.mp h.kvDataPath_eq_ok
    have hdata : byteLength kvDataSegment = 6 := by decide
    have hmax : maxKvDataPathBytes = maxAadFieldBytes := rfl
    rw [aadFieldOk, Bool.and_eq_true, decide_eq_true_eq, decide_eq_true_eq]
    show 1 ≤ byteLength _ ∧ byteLength _ ≤ maxAadFieldBytes
    rw [byteLength_append, byteLength_append]
    omega
  refine ⟨_, SealAad.new_eq_ok.mpr ⟨?_, rfl⟩⟩
  simp only [SealContext.fields, forall_mem_cons]
  exact ⟨hshort (by decide) hconversation, hshort (by decide) h.provider.name,
    hshort (by decide) h.model_acceptable, hpath, hshort (by decide) h.field_acceptable,
    fun _ hmem ↦ absurd hmem not_mem_nil⟩

end KernelAdmitted

end Admitted

/-- **What the kernel admits, the egress daemon admits**, under the bounds both read: the frame of
an admitted prompt is refused only where the call timeout does not fit its deadline. The request to
open its key always has a well-formed expectation and well-formed associated data. -/
theorem admitted_prompt_passes_decide {addrs : AddrParser} {part : Option Value} {set : ProviderSet}
    {doc : Value} {bounds : EgressBounds} {p : Prompt} {username : Option String}
    {a : AdmittedProviderChoice} (hset : providersFromSection addrs part = .ok set)
    (hbounds : boundsFromDocument doc = .ok bounds) (hpregate : promptPregate p = .ok ())
    (hchosen : admitUnder (providerAuthority set (some bounds)) p.choice username = .ok a)
    (deadline : Vault.Duration) :
    ∃ o, openRequest (promptFrame a p deadline) bounds = .ok o ∧
      decide (promptFrame a p deadline) bounds =
        (if deadlineMillis deadline < neededMs bounds then .error .callTimeoutExceedsDeadline
        else .ok ⟨promptFrame a p deadline, o⟩) ∧
      ∃ expect aad, WrapExpectation.new o.kvMount o.keyVaultPath o.keyField userKeyWrapTtl =
        .ok expect ∧ SealAad.new (sealContext expect o) = .ok aad := by
  have h := KernelAdmitted.of_admitUnder hset hbounds hpregate hchosen
  obtain ⟨aad, haad⟩ := h.exists_sealAad
  exact ⟨_, h.openRequest_eq_ok deadline, h.decide_eq deadline, _, aad, h.wrapExpectation_eq_ok,
    haad⟩

/-! ### One prompt -/

def aliceProviders : Value :=
  .seq [.map [("name", .str "openai"), ("endpoint", .str "https://api.example.test/v1"),
    ("models", .seq [.str "gpt-5.6-luna"])]]

def aliceBounds : Value :=
  .map [("kv_mount", .str "maknae-kv"), ("user_prefix", .str "maknae/users"),
    ("vault", .map [("addr", .str "https://vault.example:8200")])]

def alicePrompt (key : SealedKey) : Prompt where
  conversation := "conv1"
  turns := [.user [.text "hello"]]
  outputTokens := none
  choice := some ⟨"openai", "gpt-5.6-luna", "openai/personal", "api_key", key⟩

def aliceProviderSet : ProviderSet :=
  [⟨"openai", "https://api.example.test/v1", ["gpt-5.6-luna"], none, none⟩]

def aliceEgressBounds : EgressBounds :=
  ⟨"maknae-kv", "maknae/users", "https://vault.example:8200", 120000⟩

def aliceChoice (key : SealedKey) : AdmittedProviderChoice :=
  ⟨⟨"openai", "https://api.example.test/v1", ["gpt-5.6-luna"], none, none⟩, "gpt-5.6-luna",
    "maknae/users/alice/openai/personal", "api_key", key⟩

/-- No text is an address. -/
def noAddrs : AddrParser := ⟨fun _ ↦ none, fun _ ↦ none⟩

def blankKey : SealedKey := ⟨replicate 127 0, by rw [length_replicate]; decide⟩

theorem providersFromSection_alice :
    providersFromSection noAddrs (some aliceProviders) = .ok aliceProviderSet := by
  decide +kernel

theorem boundsFromDocument_alice : boundsFromDocument aliceBounds = .ok aliceEgressBounds := by
  decide +kernel

theorem promptPregate_alice (key : SealedKey) : promptPregate (alicePrompt key) = .ok () := by
  show promptPregate ⟨"conv1", [.user [.text "hello"]], none, _⟩ = .ok ()
  rfl

theorem admitted_prompt_passes_decide_alice :
    ∃ o, openRequest (promptFrame (aliceChoice blankKey) (alicePrompt blankKey) ⟨280, 0⟩)
        aliceEgressBounds = .ok o ∧
      decide (promptFrame (aliceChoice blankKey) (alicePrompt blankKey) ⟨280, 0⟩)
        aliceEgressBounds =
        .ok ⟨promptFrame (aliceChoice blankKey) (alicePrompt blankKey) ⟨280, 0⟩, o⟩ := by
  obtain ⟨o, hopen, hdecide, -⟩ := admitted_prompt_passes_decide providersFromSection_alice
    boundsFromDocument_alice (promptPregate_alice blankKey)
    (show admitUnder _ (alicePrompt blankKey).choice (some "alice") = .ok (aliceChoice blankKey) by
      decide +kernel) ⟨280, 0⟩
  exact ⟨o, hopen, hdecide.trans (if_neg (by decide))⟩

end Maknae.Egress
