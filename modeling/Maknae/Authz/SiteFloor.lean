import Maknae.Authz.Permit

/-!
# The site deny floor

A subject with its own permission set no longer consults the site's allow list, but it still stands
on the site's deny list. This module says that nothing above the lists displaces that: whatever the
subject's own lists, its role and its grants are, a request whose path a site deny entry matches is
**not permitted**, and a recursive deletion is not permitted when the entry matches anything below
the root.

* `SiteDenies` - a site deny entry of the operation's capability matches.
* `evaluateScope_not_allow` - then the policy does not answer with an allow.
* `evaluateScope_homeUnbound` - a home-anchored entry of the capability anywhere in the consulted
  lists, with no valid home, decides before any entry is matched.
* `siteDeny_floor` - both, at the level of the decision.
-/

namespace Maknae.Config

open Text

variable {home : Option OsPath}

/-- The home is checked where it is used, so checking it first changes no answer. -/
@[simp] theorem PathGlob.base_validHome (g : PathGlob) : g.base (validHome home) = g.base home := by
  simp [PathGlob.base]

@[simp] theorem Pattern.matchesReq_validHome (p : Pattern) (req : Request) :
    p.matchesReq req (validHome home) = p.matchesReq req home := by
  unfold Pattern.matchesReq
  rcases p.globFor req with - | ⟨g, path⟩
  · rfl
  · simp [PathGlob.matchesPath]

namespace AuthzPolicy

variable {policy : AuthzPolicy} {subject : Option SubjectPermissions}

/-- The site's deny list is consulted for every subject. -/
theorem exists_siteDeny_mem (policy : AuthzPolicy) (subject : Option SubjectPermissions) :
    ∃ l ∈ (policy.lists subject).1, l.patterns = policy.deny := by
  cases subject with
  | none | some s => exact ⟨⟨policy.deny, policy.denySources⟩, List.mem_cons_self, rfl⟩

/-- A site deny entry that matches a path is not overruled by any allow entry. -/
theorem evaluate3Floored_not_allow {p} (hp : p ∈ policy.deny) {req}
    (hmatch : p.matchesReq req home = .ok true) (source : String) :
    policy.evaluate3Floored subject req home ≠ .ok (.allowMatch source) := by
  intro hallow
  obtain ⟨-, hdeny, -⟩ := evaluateLists_allow_iff.mp ⟨source, hallow⟩
  obtain ⟨l, hl, hpatterns⟩ := policy.exists_siteDeny_mem subject
  have hrefuses := hdeny l hl p (hpatterns ▸ hp)
  rw [Pattern.matchesReq_validHome, hmatch] at hrefuses
  exact absurd hrefuses (by simp)

end AuthzPolicy

/-- A walk over lists that need a home there is not answers nothing else. -/
theorem evaluateLists_eq_error {wants : Pattern → Bool}
    {denies allows : Pattern → Except HomeUnbound Bool} {deny}
    {allow l} (hl : l ∈ deny ++ [allow]) {p} (hp : p ∈ l.patterns)
    (hwants : wants p = true) :
    evaluateLists wants denies allows none deny allow = .error .homeUnbound := by
  have hunbound : unboundHome none deny allow wants = true := by
    by_contra hbound
    have := isSome_of_unboundHome_eq_false (Bool.not_eq_true _ ▸ hbound) hl hp hwants
    exact absurd this (by simp)
  rw [evaluateLists, hunbound, if_pos rfl]

end Maknae.Config

namespace Maknae.Authz

open Config hiding Request
open Security Text

/-! ### What the site denies -/

/-- The entry matches what the operation touches: the path itself, as a read or as a write, and for
a recursive deletion anything below it. -/
def DeniesOperation (p : Pattern) (operation : FsOperation) (path : String)
    (home : Option OsPath) : Prop :=
  match operation with
  | .read => p.matchesReq (.read (.ofString path)) home = .ok true
  | .writeExisting | .writeCreate | .deleteEntry | .mkdir =>
    p.matchesReq (.write (.ofString path)) home = .ok true
  | .deleteTree => ∃ below, components path <+: components below ∧
    p.matchesReq (.write (.ofString below)) home = .ok true

/-- Some entry of the site's own deny list matches what the operation touches. -/
def SiteDenies (policy : AuthzPolicy) (operation : FsOperation) (path : String)
    (home : Option OsPath) : Prop :=
  ∃ p ∈ policy.deny, DeniesOperation p operation path home

/-- The entry is of the scope's capability and anchored at the home. -/
def FsScope.wantsHome : FsScope → Pattern → Bool
  | .read, .read g => g.isHome
  | .write, .write g => g.isHome
  | .writeSubtree, .write g => g.isHome
  | _, _ => false

variable {lp : LoadedPolicy} {req : Request}

variable {subject : Option SubjectPermissions} {policy : AuthzPolicy} {scope : FsScope}
  {home : Option OsPath} {path : String}

/-- At the scope of its operation, a path the site denies is not allowed to any subject. -/
theorem evaluateScope_not_allow {operation action path}
    (hscope : operationScope action operation = some scope)
    (hdenies : SiteDenies policy operation path home) (source : String) :
    evaluateScope policy subject scope (.ofString path) home ≠ .ok (.allowMatch source) := by
  obtain ⟨p, hp, hmatch⟩ := hdenies
  cases operation with
  | deleteTree =>
    simp only [operationScope, Option.ite_none_right_eq_some, Option.some.injEq] at hscope
    obtain ⟨-, rfl⟩ := hscope
    intro hallow
    obtain ⟨below, hbelow, hmatch⟩ := hmatch
    -- An allowed subtree allows the very write the entry denies.
    obtain ⟨s, hs⟩ := AuthzPolicy.evaluate3Floored_of_evaluateWriteSubtree hbelow ⟨source, hallow⟩
    exact AuthzPolicy.evaluate3Floored_not_allow hp hmatch s hs
  | read | writeExisting | writeCreate | deleteEntry | mkdir =>
    simp only [operationScope, Option.ite_none_right_eq_some, Option.some.injEq] at hscope
    obtain ⟨-, rfl⟩ := hscope
    exact AuthzPolicy.evaluate3Floored_not_allow hp hmatch source

/-- A canonical path is one a subtree can be authorized at. -/
theorem refusesRoot_eq_false (h : IsCanonical path) :
    AuthzPolicy.refusesRoot path = false := by
  have hnul : path.toList.contains '\x00' = false := by simpa using h.no_nul
  rw [AuthzPolicy.refusesRoot, h.absolute, hnul]
  rcases h.entries with hroot | hentries
  · simp [hroot]
  · have hany : ((split '/' (drop 1 path)).any fun c ↦ c == "" || c == "." || c == "..") =
      false := by
      simpa [IsEntryName, and_assoc] using hentries
    simp [hany]

/-- Without a valid home, a home-anchored entry of the scope's capability decides wherever it
stands. -/
theorem evaluateScope_homeUnbound (hcanon : IsCanonical path) (hhome : validHome home = none)
    {l} (hl : l ∈ (policy.lists subject).1 ++ [(policy.lists subject).2])
    {p} (hp : p ∈ l.patterns) (hwants : scope.wantsHome p = true) :
    evaluateScope policy subject scope (.ofString path) home = .error .homeUnbound := by
  cases scope with
  | read | write =>
    show evaluateLists _ _ _ (validHome home) _ _ = _
    rw [hhome]
    refine evaluateLists_eq_error hl hp ?_
    cases p with
    | read g => exact hwants
    | write g => exact hwants
  | writeSubtree =>
    simp only [evaluateScope, AuthzPolicy.evaluateWriteSubtreeFloored, OsPath.toStr_ofString,
      refusesRoot_eq_false hcanon, hhome]
    refine evaluateLists_eq_error hl hp ?_
    cases p with
    | read g | write g => exact hwants

/-! ### The floor under the decision -/

/-- The only permits of the filesystem class are the policy's allows. -/
theorem FsAllowed.of_isPermit {principal} (hclass : classOf req.action = some .fs)
    (h : (decideLoadedCited lp principal req).verdict.IsPermit) :
    ∃ entry, FsAllowed lp req entry := by
  obtain ⟨uid, -, huid⟩ := isPermit_iff_exists_uid.mp h
  rcases decideUid_isPermit_iff.mp huid with hkernel | ⟨role, -, -, -, hreach⟩
  · rw [hkernel.1] at hclass
    exact absurd hclass (by decide)
  · rcases hreach with hl | ⟨-, hw⟩ | ⟨-, -, ha, -⟩ | ⟨-, hp⟩ | ⟨-, hfs⟩
    · rw [classOf_eq_liveness_iff.mpr hl] at hclass
      exact absurd hclass (by decide)
    · rw [hw] at hclass
      exact absurd hclass (by decide)
    · rw [classOf_eq_admin_iff.mpr ha] at hclass
      exact absurd hclass (by decide)
    · rw [hp.action_eq] at hclass
      exact absurd hclass (by decide)
    · exact ⟨_, hfs⟩

/-- **The site deny floor.** A filesystem request is not permitted when a site deny entry matches
what its operation touches, for every subject, role and grant. And on a canonical path, without a
valid home, a home-anchored entry of the capability in any consulted list makes the evaluation
answer that the home is unbound, wherever the entry stands and whatever else matches; the filesystem
arm then decides nothing. -/
theorem siteDeny_floor (lp : LoadedPolicy) (req : Request) (path : String)
    (hpath : req.resource[resourcePath]? = some (.str path)) :
    (∀ principal operation, classOf req.action = some .fs →
      Attributes.str req.context contextFsOperation = some (FsOperation.asStr operation) →
      SiteDenies lp.policy operation path (carriedHome req).join →
      ¬(decideLoadedCited lp principal req).verdict.IsPermit) ∧
    ∀ subject scope home, IsCanonical path → validHome home = none →
      (∃ l ∈ (lp.policy.lists subject).1 ++ [(lp.policy.lists subject).2],
        ∃ p ∈ l.patterns, FsScope.wantsHome scope p = true) →
      evaluateScope lp.policy subject scope (.ofString path) home = .error .homeUnbound ∧
      (carriedHome req = some home → ∀ roleKey entry, permissionSet entry = subject →
        decideFs lp req roleKey scope entry = (.indeterminate, none)) := by
  constructor
  · intro principal operation hclass hop hdenies hpermit
    obtain ⟨entry, -, -, -, operation', scope, path', home, source, hop', hscope, hpath', -, hhome,
      hallow⟩ := FsAllowed.of_isPermit hclass hpermit
    obtain rfl : path = path' := by simpa [hpath] using hpath'
    obtain rfl : operation = operation' := FsOperation.asStr_injective (by simpa [hop] using hop')
    rw [carriedHome_eq_some_iff.mpr hhome] at hdenies
    exact evaluateScope_not_allow hscope hdenies source hallow
  · rintro subject scope home hcanon hhome ⟨l, hl, p, hp, hwants⟩
    have hunbound := evaluateScope_homeUnbound hcanon hhome hl hp hwants
    refine ⟨hunbound, ?_⟩
    rintro hcarried roleKey entry rfl
    simp only [decideFs, hpath, canonicalViolation_eq_none_iff.mpr hcanon, hcarried, decideFsAt,
      map_snd_permissions, hunbound]

/-- A site that denies `/etc`, and a principal whose own set allows every write and reads of the
home. -/
def etcFloor : LoadedPolicy where
  policy := ⟨[], [.write (.compile .root "/etc/**")], [], ["Write(/etc/**)"]⟩
  roles := ⟨⟨.kernel, 0, 1, [], [], [0], [0], [], []⟩, false⟩
  actionGrants := ∅
  destinations := ∅
  subjects := (∅ : Std.ExtTreeMap UInt32 SubjectEntry compare).insert 1000
    ⟨"operator", some ⟨[.write (.compile .root "/**"), .read (.compile .home "/**")], [],
      ["Write(/**)", "Read(~/**)"], []⟩, none, none⟩

/-- A local request to write `/etc/hosts`, with no home. -/
def writeHosts : Request where
  subject := (∅ : Attributes).insert subjectUid (.int 1000)
  resource := (∅ : Attributes).insert resourcePath (.str "/etc/hosts")
  action := "fs.write"
  context := ((∅ : Attributes).insert contextDacLane (.str "local")).insert contextFsOperation
    (.str "write-existing")

theorem siteDeny_floor_writeHosts :
    ¬(decideLoadedCited etcFloor ⟨1000⟩ writeHosts).verdict.IsPermit ∧
      evaluateScope etcFloor.policy (permissionSet etcFloor.subjects[(1000 : UInt32)]?) .read
        (.ofString "/etc/hosts") none = .error .homeUnbound := by
  obtain ⟨hdenied, hunbound⟩ := siteDeny_floor etcFloor writeHosts "/etc/hosts"
    (by simp [writeHosts])
  constructor
  · refine hdenied ⟨1000⟩ .writeExisting (by decide) ?_ ?_
    · simp [writeHosts, Attributes.str_eq_some_iff, FsOperation.asStr]
    · refine ⟨.write (.compile .root "/etc/**"), List.mem_cons_self, ?_⟩
      show _ = _
      decide
  · refine (hunbound _ .read none (by decide) rfl ?_).1
    refine ⟨⟨[.write (.compile .root "/**"), .read (.compile .home "/**")],
      ["Write(/**)", "Read(~/**)"]⟩, ?_, .read (.compile .home "/**"), ?_, by decide⟩
    · simp [etcFloor, permissionSet, AuthzPolicy.lists]
    · simp

end Maknae.Authz
