import Maknae.Kernel.Baseline
import Maknae.StateGraph.LayersRoundTrip
import Mathlib.Data.Set.Function

/-!
# Accepting a baseline

What the files say beyond the accepted baseline is shown with a hash, and it is accepted by naming
the hash. The accepted baseline and the files may have changed in between, so what is accepted is
decided by the set that is pending then.

The hash is of the accepted baseline, by its own hash, and of what was proposed, with the cause if
the files were refused. How a change applies and which sections it changes are not hashed: `pending`
has computed them from what is, so they come out the same (`decideAccept_shown`).

No function to 32 bytes is injective. What is assumed of the hash is that it tells apart the texts
that were hashed for the two sets (`hashedTexts`), two for each.
-/

namespace Maknae.Kernel

open Config List StateGraph

inductive AcceptRefusal
  | nothingPending
  | stale
  | invalid
  | malformed
deriving DecidableEq, Repr

structure AcceptPlan where
  proposed : BaselineSections
  apply : Apply
  sections : List String
deriving DecidableEq

/-- A name for a change set has the form of a hash. -/
def wellFormedHash (named : String) : Bool :=
  (utf8Bytes named).length = 64 && (utf8Bytes named).all fun b ↦
    (48 ≤ b && b ≤ 57) || (97 ≤ b && b ≤ 102)

def decideAccept (current : Option PendingSet) (named : String) : Except AcceptRefusal AcceptPlan :=
  if !wellFormedHash named then .error .malformed
  else
    match current with
    | none => .error .nothingPending
    | some p =>
      if named ≠ p.hash then .error .stale
      else
        match p.state with
        | .invalid _ _ => .error .invalid
        | .valid proposed apply sections => .ok ⟨proposed, apply, sections⟩

/-- An accepted set is pending and valid. -/
theorem decideAccept_eq_ok {current named plan}
    (h : decideAccept current named = .ok plan) :
    ∃ p, current = some p ∧ named = p.hash ∧
      p.state = .valid plan.proposed plan.apply plan.sections := by
  unfold decideAccept at h
  split_ifs at h with hformed
  cases current with
  | none => cases h
  | some p =>
    dsimp only at h
    split_ifs at h with hhash
    refine ⟨p, rfl, not_not.mp hhash, ?_⟩
    split at h
    · cases h
    · next hstate =>
      cases h
      exact hstate

/-! ### What is hashed -/

/-- The validity of a set, by its cause, and what it proposes. -/
def PendingState.content : PendingState → Option String × Option BaselineSections
  | .valid proposed _ _ => (none, some proposed)
  | .invalid cause proposed => (some cause, proposed)

/-- A member of the document of a change set. -/
inductive DocMember
  | text (s : String)
  | sections (s : BaselineSections)

def DocMember.value : DocMember → Value
  | .text s => .str s
  | .sections s => sectionsValue s

theorem ordered_sectionsValue (s : BaselineSections) : (sectionsValue s).Ordered :=
  ordered_treeValue .str s

theorem sectionsValue_injective : Function.Injective sectionsValue :=
  treeValue_injective fun _ _ ↦ Value.str.inj

theorem DocMember.ordered_value (m : DocMember) : m.value.Ordered := by
  cases m with
  | text s => exact .str s
  | sections s => exact ordered_sectionsValue s

theorem DocMember.value_injective : Function.Injective DocMember.value := by
  intro a b h
  cases a with
  | text s =>
    cases b with
    | text t => exact congrArg _ (Value.str.inj h)
    | sections t => cases h
  | sections s =>
    cases b with
    | text t => cases h
    | sections t => exact congrArg _ (sectionsValue_injective h)

section Hash

variable {sha256 : List UInt8 → Digest}

/-- The members of the document of a change set, in the order of their keys. -/
def docMembers (accepted : String) (content : Option String × Option BaselineSections) :
    List (String × DocMember) :=
  ("accepted", .text accepted) :: ((content.1.map fun c ↦ ("invalid", .text c)).toList ++
    ((content.2.map fun p ↦ ("proposed", .sections p)).toList ++ [("source", .text rootFile)]))

theorem pairwise_docMembers (accepted : String)
    (content : Option String × Option BaselineSections) :
    (docMembers accepted content).Pairwise fun a b ↦ a.1 < b.1 := by
  have hkeys : ["accepted", "invalid", "proposed", "source"].Pairwise (· < ·) := by decide
  have hsub : ((docMembers accepted content).map Prod.fst).Sublist
      ["accepted", "invalid", "proposed", "source"] := by
    obtain ⟨cause, proposed⟩ := content
    cases cause <;> cases proposed <;> simp [docMembers]
  exact pairwise_map.mp (hkeys.sublist hsub)

theorem ordered_docValue (accepted : String) (content : Option String × Option BaselineSections) :
    (Value.map ((docMembers accepted content).map fun p ↦ (p.1, p.2.value))).Ordered :=
  .map (pairwise_map.mpr (pairwise_docMembers _ _))
    (forall_mem_map.mpr fun p _ ↦ p.2.ordered_value)

theorem docMembers_inj {a a'} {c c' : Option String × Option BaselineSections}
    (h : docMembers a c = docMembers a' c') : a = a' ∧ c = c' := by
  obtain ⟨cause, proposed⟩ := c
  obtain ⟨cause', proposed'⟩ := c'
  cases cause <;> cases proposed <;> cases cause' <;> cases proposed' <;>
    simp_all [docMembers]

/-- The document of a change set. -/
def docText (sha256 : List UInt8 → Digest) (accepted : BaselineSections) (state : PendingState) :
    String :=
  canonicalJson (.map ((docMembers (hex (acceptedDigest sha256 accepted)) state.content).map
    fun p ↦ (p.1, p.2.value)))

/-- The hash of a change set is that of its document, however the members were listed. -/
theorem changeSetHash_eq (accepted : BaselineSections) (state : PendingState) :
    changeSetHash sha256 accepted state =
      hex (sha256 (utf8Bytes (docText sha256 accepted state))) := by
  have hordered : ((docMembers (hex (acceptedDigest sha256 accepted)) state.content).map
      fun p ↦ (p.1, p.2.value)).Pairwise fun a b ↦ a.1 < b.1 :=
    pairwise_map.mpr (pairwise_docMembers _ _)
  unfold changeSetHash docText
  cases state with
  | valid proposed apply sections =>
    dsimp only
    rw [canonicalJson_map_of_perm ?_ hordered]
    exact .cons _ (.swap _ _ _)
  | invalid cause proposed =>
    cases proposed with
    | none =>
      dsimp only
      rw [canonicalJson_map_of_perm ?_ hordered]
      exact .cons _ (.swap _ _ _)
    | some proposed =>
      dsimp only
      rw [canonicalJson_map_of_perm ?_ hordered]
      exact .cons _ ((List.Perm.swap _ _ _).trans (.cons _ (.swap _ _ _)))

/-- The texts that are hashed for a change set. -/
def hashedTexts (sha256 : List UInt8 → Digest) (accepted : BaselineSections)
    (state : PendingState) : List (List UInt8) :=
  [utf8Bytes (canonicalJson (sectionsValue accepted)), utf8Bytes (docText sha256 accepted state)]

theorem hex_injective : Function.Injective hex := fun d d' h ↦
  Option.some.inj ((unhex_hex d).symm.trans ((congrArg unhex h).trans (unhex_hex d')))

/-- **A hash names one change set**: what was accepted, and what is proposed over it. -/
theorem content_eq_of_changeSetHash {a b s t}
    (hhash : Set.InjOn sha256 {x | x ∈ hashedTexts sha256 a s ∨ x ∈ hashedTexts sha256 b t})
    (h : changeSetHash sha256 a s = changeSetHash sha256 b t) : a = b ∧ s.content = t.content := by
  rw [changeSetHash_eq, changeSetHash_eq] at h
  have hdoc := hhash (.inl (by simp [hashedTexts])) (.inr (by simp [hashedTexts])) (hex_injective h)
  have hmembers := Value.map.inj ((ordered_docValue _ _).eq_of_canonicalJson (ordered_docValue _ _)
    (utf8Bytes_injective hdoc))
  have hpair : Function.Injective fun p : String × DocMember ↦ (p.1, p.2.value) := fun p q hpq ↦
    Prod.ext (Prod.mk.inj hpq).1 (DocMember.value_injective (Prod.mk.inj hpq).2)
  obtain ⟨haccepted, hcontent⟩ := docMembers_inj (hpair.list_map hmembers)
  have htexts := hhash (.inl (by simp [hashedTexts])) (.inr (by simp [hashedTexts]))
    (hex_injective haccepted)
  have hvalue := (ordered_sectionsValue a).eq_of_canonicalJson (ordered_sectionsValue b)
    (utf8Bytes_injective htexts)
  exact ⟨sectionsValue_injective hvalue, hcontent⟩

end Hash

/-! ### What was shown is what is accepted -/

section Pending

variable {sha256 : List UInt8 → Digest} {parseJson : String → Option Value}

/-- What is pending, with what was computed for it. -/
theorem pending_eq_some {accepted} {file : Except InvalidFile BaselineSections}
    {p} (h : pending sha256 parseJson accepted file = some p) :
    p.hash = changeSetHash sha256 accepted p.state ∧
      ∀ proposed, p.state.content = (none, some proposed) →
        p.state = .valid proposed (applyOf parseJson accepted proposed)
          (changedSections accepted proposed) := by
  cases file with
  | ok f =>
    rw [pending] at h
    split_ifs at h
    cases h
    refine ⟨rfl, fun proposed hcontent ↦ ?_⟩
    obtain rfl : f = proposed := by simpa [PendingState.content] using hcontent
    rfl
  | error invalid =>
    cases h
    exact ⟨rfl, fun proposed hcontent ↦ nomatch (Prod.mk.inj hcontent).1⟩

/-- The plan for a hash that was shown is the set that was shown with it. -/
theorem decideAccept_shown {a b} {file file' : Except InvalidFile BaselineSections}
    {shown current} {plan}
    (hshown : pending sha256 parseJson a file = some shown)
    (hcurrent : pending sha256 parseJson b file' = some current)
    (hhash : Set.InjOn sha256
      {x | x ∈ hashedTexts sha256 a shown.state ∨ x ∈ hashedTexts sha256 b current.state})
    (h : decideAccept (some current) shown.hash = .ok plan) :
    shown.state = .valid plan.proposed plan.apply plan.sections := by
  obtain ⟨p, hp, hname, hstate⟩ := decideAccept_eq_ok h
  cases hp
  obtain ⟨hshownHash, hshownState⟩ := pending_eq_some hshown
  obtain ⟨hcurrentHash, hcurrentState⟩ := pending_eq_some hcurrent
  obtain ⟨rfl, hcontent⟩ := content_eq_of_changeSetHash hhash
    (hshownHash.symm.trans (hname.trans hcurrentHash))
  have hproposed : current.state.content = (none, some plan.proposed) := by
    rw [hstate, PendingState.content]
  rw [hshownState _ (hcontent.trans hproposed), ← hcurrentState _ hproposed, hstate]

end Pending

/-- **Accepting binds what was shown.** A hash names one accepted baseline with one change over it.
So the plan for a hash that was shown for an earlier set has what that set proposed, how it applies
and the sections it changes, whatever the files and the accepted baseline are when it is accepted.
-/
theorem accept_binds_shown (sha256 : List UInt8 → Digest) (parseJson : String → Option Value) :
    (∀ (a b : BaselineSections) (s t : PendingState),
      Set.InjOn sha256 {x | x ∈ hashedTexts sha256 a s ∨ x ∈ hashedTexts sha256 b t} →
      changeSetHash sha256 a s = changeSetHash sha256 b t → a = b ∧ s.content = t.content) ∧
    ∀ (a b : BaselineSections) (file file' : Except InvalidFile BaselineSections)
      (shown : PendingSet) (plan : AcceptPlan), pending sha256 parseJson a file = some shown →
      decideAccept (pending sha256 parseJson b file') shown.hash = .ok plan →
      (∀ current, pending sha256 parseJson b file' = some current → Set.InjOn sha256
        {x | x ∈ hashedTexts sha256 a shown.state ∨ x ∈ hashedTexts sha256 b current.state}) →
      shown.state = .valid plan.proposed plan.apply plan.sections := by
  refine ⟨fun a b s t ↦ content_eq_of_changeSetHash,
    fun a b file file' shown plan hshown h hhash ↦ ?_⟩
  obtain ⟨current, hcurrent, -⟩ := decideAccept_eq_ok h
  rw [hcurrent] at h
  exact decideAccept_shown hshown hcurrent (hhash current hcurrent) h

/-! ### One section that changed -/

def acceptedCore : BaselineSections := .ofList [("core", "1")] compare

def proposedCore : BaselineSections := .ofList [("core", "2")] compare

/-- The set with this change. -/
def shownCore : PendingSet :=
  let state : PendingState := .valid proposedCore .restart ["core"]
  ⟨rootFile, changeSetHash State.Crypto.plain.sha256 acceptedCore state, state⟩

theorem injOn_shownCore : Set.InjOn State.Crypto.plain.sha256
    {x | x ∈ hashedTexts State.Crypto.plain.sha256 acceptedCore shownCore.state ∨
      x ∈ hashedTexts State.Crypto.plain.sha256 acceptedCore shownCore.state} := by
  have hne : State.Crypto.plain.sha256 (utf8Bytes (canonicalJson (sectionsValue acceptedCore))) ≠
      State.Crypto.plain.sha256
        (utf8Bytes (docText State.Crypto.plain.sha256 acceptedCore shownCore.state)) := by
    decide +kernel
  intro x hx y hy h
  rw [Set.mem_ofPred_eq, or_self, hashedTexts, mem_pair] at hx hy
  rcases hx with rfl | rfl <;> rcases hy with rfl | rfl
  · rfl
  · exact absurd h hne
  · exact absurd h.symm hne
  · rfl

theorem accept_binds_shown_core :
    pending State.Crypto.plain.sha256 (fun _ ↦ none) acceptedCore (.ok proposedCore) =
        some shownCore ∧
      ∃ plan, decideAccept (some shownCore) shownCore.hash = .ok plan ∧
        shownCore.state = .valid plan.proposed plan.apply plan.sections := by
  have hpending : pending State.Crypto.plain.sha256 (fun _ ↦ none) acceptedCore (.ok proposedCore) =
      some shownCore := by
    decide +kernel
  have haccept : decideAccept (some shownCore) shownCore.hash =
      .ok ⟨proposedCore, .restart, ["core"]⟩ := by
    decide +kernel
  refine ⟨hpending, _, haccept, ?_⟩
  refine (accept_binds_shown State.Crypto.plain.sha256 fun _ ↦ none).2 acceptedCore acceptedCore
    (.ok proposedCore) (.ok proposedCore) shownCore _ hpending (hpending ▸ haccept)
    fun current hcurrent ↦ ?_
  cases hpending.symm.trans hcurrent
  exact injOn_shownCore

end Maknae.Kernel
