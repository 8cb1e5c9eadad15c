import Maknae.Config.KeyPaths

/-!
# The authorized providers

The providers section lists the endpoints and models the kernel may send to. An entry of a set that
is taken has passed a check on each of its fields (`of_mem_providersFromSection`).

The parsers of IP addresses are not part of the source. An `AddrParser` is what they answer: whether
a text is an address, and then whether it is a loopback one.
-/

namespace Maknae.Config

open Except List Text
open Kernel (isWhitespace)

def providersSection : String := "providers"
def providerKeys : List String :=
  ["name", "endpoint", "models", "reasoning_effort", "output_tokens_field"]
def outputTokensFields : List String := ["max_completion_tokens", "max_tokens"]
def maxKeyFieldBytes : ℕ := 64
def maxProviderNameBytes : ℕ := 32
def maxReasoningEffortBytes : ℕ := 16
def maxProviders : ℕ := 32
def maxModelsPerProvider : ℕ := 32
def maxModelBytes : ℕ := 128
/-- Keys that an operator might put a secret under. -/
def plaintextKeyKeys : List String :=
  ["key", "api_key", "apikey", "token", "secret", "secret_key", "bearer"]

/-- A provider that prompts may go to. -/
structure AuthorizedProvider where
  name : String
  endpoint : String
  models : List String
  reasoningEffort : Option String
  outputTokensField : Option String
deriving DecidableEq, Repr

abbrev ProviderSet := List AuthorizedProvider

/-- The provider of a name. -/
def ProviderSet.get (set : ProviderSet) (name : String) : Option AuthorizedProvider :=
  set.find? (·.name == name)

/-! ### The checks on the fields -/

/-- A text of some bytes, up to a bound, of one class. -/
def shortText (bound : ℕ) (p : UInt8 → Bool) (s : String) : Bool :=
  s ≠ "" && byteLength s ≤ bound && (utf8Bytes s).all p

def providerNameIsAcceptable (s : String) : Bool := shortText maxProviderNameBytes safeTokenByte s
def modelIsAcceptable (s : String) : Bool := shortText maxModelBytes isAsciiGraphic s
def keyFieldIsAcceptable (s : String) : Bool := shortText maxKeyFieldBytes isAsciiGraphic s
def reasoningEffortIsAcceptable (s : String) : Bool :=
  s ≠ "" && byteLength s ≤ maxReasoningEffortBytes &&
    s.toList.all fun c ↦ 97 ≤ c.toNat && c.toNat ≤ 122

/-- The parsers of IP addresses: `none` for a text that is none, else whether it is a loopback. -/
structure AddrParser where
  v4 : String → Option Bool
  v6 : String → Option Bool

/-- The texts before and after the first occurrence of a character. -/
def splitOnce (c : Char) (s : String) : Option (String × String) :=
  match s.toList.idxOf? c with
  | some i => some (String.ofList (s.toList.take i), Text.drop (i + 1) s)
  | none => none

def isAsciiAlphanumericChar (c : Char) : Bool :=
  (48 ≤ c.toNat && c.toNat ≤ 57) || (65 ≤ c.toNat && c.toNat ≤ 90) ||
    (97 ≤ c.toNat && c.toNat ≤ 122)

/-- The host and port of an authority without brackets: whether the host is a loopback. -/
def plainHost (addrs : AddrParser) (authority : String) : Option (Bool × Option String) := do
  let (h, port) :=
    match splitOnce ':' authority with
    | some (h, p) => (h, some p)
    | none => (authority, none)
  let ok := h ≠ "" && h.toList.all (fun c ↦ isAsciiAlphanumericChar c || c == '.' || c == '-') &&
    !(h.toList.head?.any ['-', '.'].contains) && !(h.toList.getLast?.any ['-', '.'].contains) &&
    !(decide (['.', '.'] <:+: h.toList))
  if ok then
    let loopback ←
      (if (utf8Bytes h).all (fun b ↦ isAsciiDigit b || b == 46) then addrs.v4 h
      else some (h == "localhost"))
    return (loopback, port)
  else none

/-- The same for an authority that starts with a bracket. -/
def bracketHost (addrs : AddrParser) (v6 : String) : Option (Bool × Option String) := do
  let (h, rest) ← splitOnce ']' v6
  let loopback ← addrs.v6 h
  match stripPrefix ":" rest with
  | some p => return (loopback, some p)
  | none => if rest = "" then return (loopback, none) else none

/-- A port in decimal without leading zeros. -/
def portIsAcceptable (p : String) : Bool :=
  p ≠ "" && (utf8Bytes p).all isAsciiDigit && !startsWithChar '0' p &&
    p.toNat?.any (fun n ↦ decide (n < 65536))

/-- The checks on an authority. -/
def judged (addrs : AddrParser) (secure : Bool) (authority : String) : Bool :=
  if '@' ∈ authority.toList then false
  else
    match (match stripPrefix "[" authority with
      | some v6 => bracketHost addrs v6
      | none => plainHost addrs authority) with
    | none => false
    | some (loopback, port) => port.all portIsAcceptable && (secure || loopback)

/-- A URL the egress may connect to: one without blanks, behind `https`, or behind `http` on the
host itself. -/
def endpointIsAcceptable (addrs : AddrParser) (url : String) : Bool :=
  if url.toList.any isWhitespace then false
  else
    let scheme :=
      match stripPrefix "https://" url with
      | some r => some (true, r)
      | none => (stripPrefix "http://" url).map fun r ↦ (false, r)
    match scheme with
    | none => false
    | some (secure, rest) => judged addrs secure ((split '/' rest).headD "")

/-! ### The section -/

/-- The text in lower case, for ASCII letters. -/
def toAsciiLowercase (s : String) : String := String.ofList (s.toList.map Char.toLower)

mutual

/-- Refuse an entry that has a key for a secret. -/
def refusePlaintextKeys : Value → Except ConfigError Unit
  | .map m =>
    match m.find? fun e ↦ plaintextKeyKeys.contains (toAsciiLowercase e.1) with
    | some (k, _) => .error (.providerPlaintextKey k)
    | none => .ok ()
  | .seq items => refusePlaintextItems items
  | _ => .ok ()

def refusePlaintextItems : List Value → Except ConfigError Unit
  | [] => .ok ()
  | v :: rest => do
    refusePlaintextKeys v
    refusePlaintextItems rest

end

/-- A text that must be there. -/
def requiredStr (m : List (String × Value)) (place key : String) : Except ConfigError String :=
  match get m key with
  | none => .error (.invalidProvider s!"{place}: missing '{key}'")
  | some (.str s) => .ok s
  | some _ => .error (.invalidProvider s!"{place}.{key} must be a string")

/-- Add a model that is not listed yet. -/
def addModel (place : String) (models : List String) : Value → Except ConfigError (List String)
  | .str model => do
    let n := maxModelBytes
    .refuseIf (¬modelIsAcceptable model) (.invalidProvider
      s!"{place}.models entries must be 1 to {n} printable ASCII characters with no whitespace")
    .refuseIf (model ∈ models)
      (.invalidProvider s!"{place}.models lists '{model}' more than once")
    return models ++ [model]
  | _ => .error (.invalidProvider s!"{place}.models entries must be strings")

/-- The models of an entry: some, and not too many. -/
def modelsOf (m : List (String × Value)) (place : String) : Except ConfigError (List String) :=
  let n := maxModelsPerProvider
  let shape : ConfigError :=
    .invalidProvider s!"{place}.models must be a list of 1 to {n} model identifiers"
  match get m "models" with
  | some (.seq items) =>
    if items = [] ∨ n < items.length then .error shape else items.foldlM (addModel place) []
  | _ => .error shape

/-- An optional text field of an entry. -/
def optionalStr (m : List (String × Value)) (key : String) (accept : String → Bool)
    (message : String) : Except ConfigError (Option String) :=
  match get m key with
  | none => .ok none
  | some (.str s) => if accept s then .ok (some s) else .error (.invalidProvider message)
  | some _ => .error (.invalidProvider message)

/-- Read one entry of the section. -/
def providerEntry (addrs : AddrParser) (i : ℕ) : Value → Except ConfigError AuthorizedProvider
  | .map m => do
    let place := s!"providers[{i}]"
    rejectUnknownKeys providersSection m providerKeys
    let name ← requiredStr m place "name"
    let nameBound := maxProviderNameBytes
    .refuseIf (¬providerNameIsAcceptable name) (.invalidProvider (s!"{place}.name must be 1 to " ++
      s!"{nameBound} bytes of ASCII letters, digits, '-', '_' and '.' " ++
      "(it is written into every egress audit record)"))
    let endpoint ← requiredStr m place "endpoint"
    .refuseIf (¬endpointIsAcceptable addrs endpoint)
      (.invalidProvider (s!"{place}.endpoint must " ++
      "be an https:// URL (http:// is permitted to loopback only)"))
    let models ← modelsOf m place
    let effortBound := maxReasoningEffortBytes
    let reasoningEffort ← optionalStr m "reasoning_effort" reasoningEffortIsAcceptable
      s!"{place}.reasoning_effort must be 1 to {effortBound} lowercase ASCII letters"
    let outputTokensField ← optionalStr m "output_tokens_field" outputTokensFields.contains
      s!"{place}.output_tokens_field must be max_completion_tokens or max_tokens"
    return ⟨name, endpoint, models, reasoningEffort, outputTokensField⟩
  | _ => .error (.invalidProvider s!"providers[{i}] must be a map")

/-- Add an entry with a name of its own. -/
def addProvider (addrs : AddrParser) (set : ProviderSet) (item : Value × ℕ) :
    Except ConfigError ProviderSet := do
  let i := item.2
  let provider ← providerEntry addrs i item.1
  let name := provider.name
  .refuseIf (set.any (·.name == name))
    (.invalidProvider s!"providers[{i}].name '{name}' is listed more than once")
  return set ++ [provider]

/-- Read the section. Without it there are no providers. -/
def providersFromSection (addrs : AddrParser) : Option Value → Except ConfigError ProviderSet
  | none => .ok []
  | some part => do
    refusePlaintextKeys part
    match part with
    | .seq items =>
      let n := maxProviders
      .refuseIf (n < items.length) (.invalidProvider s!"providers may list at most {n} entries")
      items.zipIdx.foldlM (addProvider addrs) []
    | _ => .error (.invalidProvider "providers must be a sequence of provider entries")

/-! ### What is taken -/

/-- What the checks on the fields of an entry leave. -/
structure AuthorizedProvider.Acceptable (addrs : AddrParser) (p : AuthorizedProvider) : Prop where
  name : providerNameIsAcceptable p.name
  endpoint : endpointIsAcceptable addrs p.endpoint
  models : ∀ model ∈ p.models, modelIsAcceptable model
  reasoningEffort : ∀ e ∈ p.reasoningEffort, reasoningEffortIsAcceptable e
  outputTokensField : ∀ f ∈ p.outputTokensField, f ∈ outputTokensFields

variable {m : List (String × Value)} {addrs : AddrParser}

theorem acceptable_of_optionalStr {key message} {accept : String → Bool}
    {v} (h : optionalStr m key accept message = .ok v) :
    ∀ s ∈ v, accept s := by
  unfold optionalStr at h
  split at h
  · cases h
    exact fun s hs ↦ nomatch hs
  · split_ifs at h with haccept
    cases h
    intro s hs
    obtain rfl := Option.mem_some_iff.mp hs
    exact haccept
  · cases h

theorem acceptable_of_modelsOf {place models}
    (h : modelsOf m place = .ok models) : ∀ model ∈ models, modelIsAcceptable model := by
  have hstep : ∀ (l : List String) (v : Value) (l' : List String),
      (∀ model ∈ l, modelIsAcceptable model) → addModel place l v = .ok l' →
      ∀ model ∈ l', modelIsAcceptable model := by
    intro l v l' hl hadd
    cases v with
    | str s =>
      obtain ⟨_, hok, _, -, ⟨⟩⟩ := bind₂_eq_ok.mp hadd
      rw [refuseIf_eq_ok, not_not] at hok
      exact forall_mem_concat.mpr ⟨hl, hok⟩
    | null | bool | int | float | seq | map => exact nomatch hadd
  unfold modelsOf at h
  dsimp only at h
  split at h
  · split_ifs at h
    exact foldlM_invariant hstep (fun _ hm ↦ absurd hm not_mem_nil) h
  · cases h

theorem acceptable_of_providerEntry {i v p}
    (h : providerEntry addrs i v = .ok p) : p.Acceptable addrs := by
  cases v with
  | map m =>
    obtain ⟨_, -, name, -, _, hname, h⟩ := bind₃_eq_ok.mp h
    obtain ⟨endpoint, -, _, hendpoint, models, hmodels, h⟩ := bind₃_eq_ok.mp h
    obtain ⟨effort, heffort, field, hfield, ⟨⟩⟩ := bind₂_eq_ok.mp h
    rw [refuseIf_eq_ok, not_not] at hname hendpoint
    exact ⟨hname, hendpoint, acceptable_of_modelsOf hmodels, acceptable_of_optionalStr heffort,
      fun f hf ↦ by simpa using acceptable_of_optionalStr hfield f hf⟩
  | null | bool | int | float | str | seq => exact nomatch h

/-- **A provider of a set that was taken has passed the checks.** -/
theorem of_mem_providersFromSection {part set}
    (h : providersFromSection addrs part = .ok set) : ∀ p ∈ set, p.Acceptable addrs := by
  have hstep : ∀ (l : ProviderSet) (item : Value × ℕ) (l' : ProviderSet),
      (∀ p ∈ l, p.Acceptable addrs) → addProvider addrs l item = .ok l' →
      ∀ p ∈ l', p.Acceptable addrs := by
    intro l item l' hl hadd
    obtain ⟨p, hp, _, -, ⟨⟩⟩ := bind₂_eq_ok.mp hadd
    exact forall_mem_concat.mpr ⟨hl, acceptable_of_providerEntry hp⟩
  cases part with
  | none =>
    cases h
    exact nofun
  | some v =>
    obtain ⟨_, -, h⟩ := bind_eq_ok.mp h
    cases v with
    | seq items =>
      obtain ⟨_, -, h⟩ := bind_eq_ok.mp h
      exact foldlM_invariant hstep (fun _ hm ↦ absurd hm not_mem_nil) h
    | null | bool | int | float | str | map => exact nomatch h

end Maknae.Config
