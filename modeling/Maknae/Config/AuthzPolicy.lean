import Maknae.Config.PathGlob

/-!
# Evaluation of the capability-grant policy

A policy is an allow list and a deny list of capability patterns; a subject may have its own two
lists, which replace the site's allow list and **add to** the site's deny list. Two questions are
asked of it: may this one path be read or written (`evaluate3Floored`), and may everything below
this root be destroyed (`evaluateWriteSubtreeFloored`).

Both are one walk over the consulted lists, `evaluateLists`, with different tests at each pattern;
its outcome is characterized once (`evaluateLists_allow_iff`), for any tests. The result about
recursive deletion, that a subtree permit permits every path below the root, then only compares the
tests, which `PathGlob` does pattern by pattern.
-/

namespace Maknae.Config

open List Text

/-! ### Patterns and requests -/

/-- One `Capability(specifier)` entry. Reading and writing are independent capabilities. -/
inductive Pattern
  | read (glob : PathGlob)
  | write (glob : PathGlob)

/-- A single filesystem capability request. -/
inductive Request
  | read (path : OsPath)
  | write (path : OsPath)

/-- The answer of the policy, with the text of the entry that decided. -/
inductive Match3
  | allowMatch (source : String)
  | denyMatch (source : String)
  | noMatch
deriving DecidableEq, Repr

namespace Pattern

/-- Parse one `Capability(specifier)` entry. -/
def parsePattern (spec : String) : Except AuthzError Pattern :=
  match findSub ['('] spec.toList with
  | none => .error (.badPattern spec)
  | some opening =>
    if !([')'].isSuffixOf spec.toList) then .error (.badPattern spec)
    else
      let capability := String.ofList (spec.toList.take opening)
      let inner := String.ofList (spec.toList.drop (opening + 1)).dropLast
      if capability = "Read" then (PathGlob.parse inner).map read
      else if capability = "Write" then (PathGlob.parse inner).map write
      else .error (.badPattern spec)

/-- The glob and the path, when the pattern is of the request's capability. -/
def globFor : Pattern → Request → Option (PathGlob × OsPath)
  | read g, .read p => some (g, p)
  | write g, .write p => some (g, p)
  | _, _ => none

/-- The pattern matches the request. -/
def matchesReq (p : Pattern) (req : Request) (home : Option OsPath) : Except HomeUnbound Bool :=
  match p.globFor req with
  | some (g, path) => g.matchesPath path home
  | none => .ok false

/-- The pattern is of the request's capability and anchored at the home. -/
def wantsHome (req : Request) (p : Pattern) : Bool :=
  (p.globFor req).any fun (g, _) ↦ g.isHome

/-- The pattern is a `Write` pattern anchored at the home. -/
def isHomeWrite : Pattern → Bool
  | write g => g.isHome
  | read _ => false

/-- The test of a deny entry against a subtree. -/
def mayIntersect (root : String) (home : Option OsPath) : Pattern → Except HomeUnbound Bool
  | write g => g.mayIntersectSubtree root home
  | read _ => .ok false

/-- The test of an allow entry against a subtree. -/
def covers (root : String) (home : Option OsPath) : Pattern → Except HomeUnbound Bool
  | write g => g.coversSubtree root home
  | read _ => .ok false

end Pattern

/-! ### Policies -/

/-- A list of patterns with the texts they were parsed from, index by index. -/
structure SourcedList where
  patterns : List Pattern
  sources : List String

/-- The text of entry `i`. -/
def SourcedList.source (l : SourcedList) (i : ℕ) (kind : String) : String :=
  l.sources[i]?.getD s!"<unknown {kind} entry>"

/-- A subject's own permission lists. -/
structure SubjectPermissions where
  allow : List Pattern
  deny : List Pattern
  allowSources : List String
  denySources : List String

/-- The parsed `permissions:` lists of the site. -/
structure AuthzPolicy where
  allow : List Pattern
  deny : List Pattern
  allowSources : List String
  denySources : List String

namespace AuthzPolicy

/-- The deny lists, in the order they are consulted, and the allow list. A subject's deny list comes
after the site's; its allow list replaces the site's. -/
def lists (policy : AuthzPolicy) (subject : Option SubjectPermissions) :
    List SourcedList × SourcedList :=
  let siteDeny : SourcedList := ⟨policy.deny, policy.denySources⟩
  match subject with
  | none => ([siteDeny], ⟨policy.allow, policy.allowSources⟩)
  | some s => ([siteDeny, ⟨s.deny, s.denySources⟩], ⟨s.allow, s.allowSources⟩)

end AuthzPolicy

/-- Some pattern of the consulted lists needs a home and there is none. -/
def unboundHome (home : Option OsPath) (deny : List SourcedList) (allow : SourcedList)
    (wants : Pattern → Bool) : Bool :=
  home.isNone && ((deny ++ [allow]).flatMap SourcedList.patterns).any wants

/-- The index of the first pattern the test accepts, counted from `i`. -/
def firstMatch (test : Pattern → Except HomeUnbound Bool) :
    ℕ → List Pattern → Except HomeUnbound (Option ℕ)
  | _, [] => .ok none
  | i, p :: ps => do
    if ← test p then return some i
    firstMatch test (i + 1) ps

/-- The first deny entry the test accepts, over the lists in order. -/
def firstDeny (test : Pattern → Except HomeUnbound Bool) :
    List SourcedList → Except HomeUnbound (Option String)
  | [] => .ok none
  | l :: ls => do
    match ← firstMatch test 0 l.patterns with
    | some i => return some (l.source i "deny")
    | none => firstDeny test ls

/-- One evaluation: the unbound-home check, then the deny lists, then the allow list. -/
def evaluateLists (wants : Pattern → Bool) (denies allows : Pattern → Except HomeUnbound Bool)
    (home : Option OsPath) (deny : List SourcedList) (allow : SourcedList) :
    Except HomeUnbound Match3 :=
  if unboundHome home deny allow wants then .error .homeUnbound
  else do
    match ← firstDeny denies deny with
    | some source => return .denyMatch source
    | none =>
      match ← firstMatch allows 0 allow.patterns with
      | some i => return .allowMatch (allow.source i "allow")
      | none => return .noMatch

namespace AuthzPolicy

/-- Decide one path under a subject's own permission set, or the site's when it has none. -/
def evaluate3Floored (policy : AuthzPolicy) (subject : Option SubjectPermissions) (req : Request)
    (home : Option OsPath) : Except HomeUnbound Match3 :=
  let home := validHome home
  let (deny, allow) := policy.lists subject
  evaluateLists (Pattern.wantsHome req) (·.matchesReq req home) (·.matchesReq req home) home deny
    allow

/-- The text is not one a subtree can be authorized at. -/
def refusesRoot (text : String) : Bool :=
  !startsWithChar '/' text || text.toList.contains '\x00' ||
    (text != "/" && (split '/' (drop 1 text)).any fun c ↦ c == "" || c == "." || c == "..")

/-- Authorize the whole subtree for recursive deletion: a deny that may reach below the root
refuses, and only a grant that provably covers the subtree permits. -/
def evaluateWriteSubtreeFloored (policy : AuthzPolicy) (subject : Option SubjectPermissions)
    (root : OsPath) (home : Option OsPath) : Except HomeUnbound Match3 :=
  match root.toStr with
  | none => .ok .noMatch
  | some text =>
    if refusesRoot text then .ok .noMatch
    else
      let home := validHome home
      let (deny, allow) := policy.lists subject
      evaluateLists Pattern.isHomeWrite (Pattern.mayIntersect text home)
        (Pattern.covers text home) home deny allow

end AuthzPolicy

/-! ### The walk over the lists -/

section Walk

variable {test denies allows : Pattern → Except HomeUnbound Bool} {wants : Pattern → Bool}
  {home : Option OsPath} {deny : List SourcedList} {allow : SourcedList}

theorem firstMatch_cons (i : ℕ) (p : Pattern) (ps : List Pattern) :
    firstMatch test i (p :: ps) =
      (test p >>= fun b ↦ if b then .ok (some i) else firstMatch test (i + 1) ps) := rfl

/-- Nothing is found exactly when every pattern was tested and refused. -/
theorem firstMatch_eq_none_iff {i ps} :
    firstMatch test i ps = .ok none ↔ ∀ p ∈ ps, test p = .ok false := by
  induction ps generalizing i with
  | nil => simp [firstMatch]
  | cons p ps ih =>
    rw [firstMatch_cons, forall_mem_cons, ← @ih (i + 1)]
    cases test p with
    | error e => simp
    | ok b => cases b <;> simp

theorem exists_of_firstMatch {i j ps}
    (h : firstMatch test i ps = .ok (some j)) : ∃ p ∈ ps, test p = .ok true := by
  induction ps generalizing i with
  | nil => simp [firstMatch] at h
  | cons p ps ih =>
    obtain ⟨b, hb, h⟩ := Except.bind_eq_ok.mp h
    cases b with
    | true => exact ⟨p, mem_cons_self, hb⟩
    | false =>
      obtain ⟨q, hq, hqt⟩ := ih h
      exact ⟨q, mem_cons_of_mem _ hq, hqt⟩

/-- Where every test answers, an accepted pattern makes the walk find one. -/
theorem exists_firstMatch {i ps} (htotal : ∀ p ∈ ps, ∃ b, test p = .ok b)
    {p} (hp : p ∈ ps) (hpt : test p = .ok true) :
    ∃ j, firstMatch test i ps = .ok (some j) := by
  induction ps generalizing i with
  | nil => simp at hp
  | cons q ps ih =>
    obtain ⟨⟨b, hb⟩, hps⟩ := forall_mem_cons.mp htotal
    rw [firstMatch_cons, hb]
    cases b with
    | true => exact ⟨i, rfl⟩
    | false =>
      rcases mem_cons.mp hp with rfl | hp
      · simp [hb] at hpt
      · exact ih hps hp

/-- No deny entry is found exactly when every pattern of every deny list was refused. -/
theorem firstDeny_eq_none_iff :
    firstDeny test deny = .ok none ↔ ∀ l ∈ deny, ∀ p ∈ l.patterns, test p = .ok false := by
  induction deny with
  | nil => simp [firstDeny]
  | cons l ls ih =>
    rw [forall_mem_cons, ← ih, ← @firstMatch_eq_none_iff test 0, firstDeny]
    cases firstMatch test 0 l.patterns with
    | error e => simp
    | ok r => cases r <;> simp

/-- **When an evaluation allows**: no needed home is missing, every deny entry refuses, and some
allow entry is found. -/
theorem evaluateLists_allow_iff :
    (∃ source, evaluateLists wants denies allows home deny allow = .ok (.allowMatch source)) ↔
      unboundHome home deny allow wants = false ∧
        (∀ l ∈ deny, ∀ p ∈ l.patterns, denies p = .ok false) ∧
        ∃ j, firstMatch allows 0 allow.patterns = .ok (some j) := by
  rw [← firstDeny_eq_none_iff, evaluateLists]
  cases unboundHome home deny allow wants with
  | true => simp
  | false =>
    cases firstDeny denies deny with
    | error e => simp
    | ok r =>
      cases r with
      | some source => simp
      | none =>
        cases firstMatch allows 0 allow.patterns with
        | error e => simp
        | ok r => cases r <;> simp

/-- With no home missing, a consulted pattern that wants a home has one. -/
theorem isSome_of_unboundHome_eq_false (h : unboundHome home deny allow wants = false)
    {l} (hl : l ∈ deny ++ [allow]) {p} (hp : p ∈ l.patterns)
    (hwants : wants p = true) : home.isSome = true := by
  by_contra hnone
  have hmem : p ∈ (deny ++ [allow]).flatMap SourcedList.patterns :=
    mem_flatMap.mpr ⟨l, hl, hp⟩
  have hany : ((deny ++ [allow]).flatMap SourcedList.patterns).any wants = true :=
    any_eq_true.mpr ⟨p, hmem, hwants⟩
  rw [unboundHome, hany, Option.not_isSome_iff_eq_none.mp hnone] at h
  exact absurd h (by simp)

/-- A walk over lists that deny more and allow less allows no more, provided that no test fails for
want of a home and that a dropped entry that wanted one did not find it missing. -/
theorem evaluateLists_allow_of_tighter {deny' allow'}
    (hdeny : deny.flatMap SourcedList.patterns ⊆ deny'.flatMap SourcedList.patterns)
    (hallow : allow'.patterns ⊆ allow.patterns)
    (hhome : home.isSome = true ∨ allow.patterns ⊆ allow'.patterns)
    (htotal : ∀ p, (wants p = true → home.isSome = true) → ∃ b, allows p = .ok b)
    (h : ∃ source, evaluateLists wants denies allows home deny' allow' = .ok (.allowMatch source)) :
    ∃ source, evaluateLists wants denies allows home deny allow = .ok (.allowMatch source) := by
  obtain ⟨hbound, hrefuses, j, hj⟩ := evaluateLists_allow_iff.mp h
  have hrefuses : ∀ p ∈ deny'.flatMap SourcedList.patterns, denies p = .ok false := by
    intro p hp
    obtain ⟨l, hl, hp⟩ := mem_flatMap.mp hp
    exact hrefuses l hl p hp
  have hwants : ∀ l ∈ deny ++ [allow], ∀ p ∈ l.patterns, wants p = true → home.isSome = true := by
    intro l hl p hp hw
    rcases hhome with hhome | hsame
    · exact hhome
    -- without a home every consulted entry is one the tighter lists consult too
    have hmem : p ∈ (deny' ++ [allow']).flatMap SourcedList.patterns := by
      rw [flatMap_append, mem_append]
      rcases mem_append.mp hl with hl | hl
      · exact .inl (hdeny (mem_flatMap.mpr ⟨l, hl, hp⟩))
      · obtain rfl := mem_singleton.mp hl
        exact .inr (mem_flatMap.mpr ⟨allow', mem_singleton_self _, hsame hp⟩)
    obtain ⟨l', hl', hp'⟩ := mem_flatMap.mp hmem
    exact isSome_of_unboundHome_eq_false hbound hl' hp' hw
  refine evaluateLists_allow_iff.mpr ⟨?_, fun l hl p hp ↦ ?_, ?_⟩
  · cases hsome : home.isSome with
    | true => simp [unboundHome, Option.isSome_iff_ne_none.mp hsome]
    | false =>
      rw [unboundHome, Bool.and_eq_false_iff]
      refine .inr (any_eq_false.mpr fun p hp hw ↦ ?_)
      obtain ⟨l, hl, hp⟩ := mem_flatMap.mp hp
      exact absurd (hwants l hl p hp hw) (by simp [hsome])
  · exact hrefuses p (hdeny (mem_flatMap.mpr ⟨l, hl, hp⟩))
  · obtain ⟨p, hp, hpt⟩ := exists_of_firstMatch hj
    refine exists_firstMatch (fun q hq ↦ htotal q fun hw ↦ ?_) (hallow hp) hpt
    exact hwants allow (by simp) q hq hw

end Walk

/-! ### Tests that answer -/

namespace Pattern

variable {p : Pattern} {home : Option OsPath} {req : Request}

/-- A glob that has a home when it needs one answers about every path. -/
theorem exists_matchesPath {g : PathGlob} (path : OsPath)
    (h : g.isHome = true → (validHome home).isSome = true) :
    ∃ b, g.matchesPath path home = .ok b := by
  obtain ⟨base, hbase⟩ := PathGlob.exists_base h
  cases hs : path.toStr <;> simp [PathGlob.matchesPath, hbase, hs]

/-- A pattern that has a home when it needs one answers about every request. -/
theorem exists_matchesReq (h : p.wantsHome req = true → (validHome home).isSome = true) :
    ∃ b, p.matchesReq req home = .ok b := by
  unfold matchesReq
  cases hg : p.globFor req with
  | none => exact ⟨false, rfl⟩
  | some gp => exact exists_matchesPath gp.2 fun hhome ↦ h (by simpa [wantsHome, hg] using hhome)

/-- A pattern that has a home when it needs one answers about every subtree. -/
theorem exists_covers {root} (h : p.isHomeWrite = true → (validHome home).isSome = true) :
    ∃ b, p.covers root home = .ok b := by
  cases p with
  | read g => exact ⟨false, rfl⟩
  | write g =>
    obtain ⟨base, hbase⟩ := PathGlob.exists_base h
    simp only [covers, PathGlob.coversSubtree, hbase]
    split <;> exact ⟨_, rfl⟩

theorem wantsHome_write (path : OsPath) : wantsHome (.write path) = isHomeWrite := by
  funext p
  cases p <;> rfl

/-- A pattern that matches a write below the root may intersect the subtree. -/
theorem mayIntersect_of_matchesReq {root path}
    (hbelow : components root <+: components path)
    (h : p.matchesReq (.write (.ofString path)) home = .ok true) :
    p.mayIntersect root home = .ok true := by
  cases p with
  | read g => simp [matchesReq, globFor] at h
  | write g => exact PathGlob.mayIntersectSubtree_of_matches hbelow h

/-- A pattern that covers the subtree matches every write below the root. -/
theorem matchesReq_of_covers {root path}
    (hbelow : components root <+: components path) (h : p.covers root home = .ok true) :
    p.matchesReq (.write (.ofString path)) home = .ok true := by
  cases p with
  | read g => simp [covers] at h
  | write g => exact PathGlob.matches_of_coversSubtree hbelow h

end Pattern

/-! ### Recursive deletion -/

namespace AuthzPolicy

variable {policy : AuthzPolicy} {subject : Option SubjectPermissions} {home : Option OsPath}

/-- With no home missing, every consulted pattern answers about the request. -/
theorem exists_matchesReq_of_mem {req}
    (h : unboundHome (validHome home) (policy.lists subject).1 (policy.lists subject).2
      (Pattern.wantsHome req) = false)
    {l} (hl : l ∈ (policy.lists subject).1 ++ [(policy.lists subject).2])
    {p} (hp : p ∈ l.patterns) : ∃ b, p.matchesReq req (validHome home) = .ok b :=
  Pattern.exists_matchesReq fun hwants ↦ by
    rw [validHome_validHome]
    exact isSome_of_unboundHome_eq_false h hl hp hwants

/-- A subtree permit is a permit for the write of every path below the root. -/
theorem evaluate3Floored_of_evaluateWriteSubtree {text path}
    (hbelow : components text <+: components path)
    (h : ∃ source, policy.evaluateWriteSubtreeFloored subject (.ofString text) home =
      .ok (.allowMatch source)) :
    ∃ source, policy.evaluate3Floored subject (.write (.ofString path)) home =
      .ok (.allowMatch source) := by
  simp only [evaluateWriteSubtreeFloored, OsPath.toStr_ofString] at h
  split_ifs at h with hroot
  · simp at h
  obtain ⟨hbound, hdeny, j, hallow⟩ := evaluateLists_allow_iff.mp h
  rw [← Pattern.wantsHome_write (.ofString path)] at hbound
  have htotal := @exists_matchesReq_of_mem policy subject home _ hbound
  refine evaluateLists_allow_iff.mpr ⟨hbound, ?_, ?_⟩
  · intro l hl p hp
    obtain ⟨b, hb⟩ := htotal (mem_append_left _ hl) hp
    cases b with
    | false => exact hb
    | true =>
      -- A deny that matched here would have been seen at the root.
      have hmay := Pattern.mayIntersect_of_matchesReq hbelow hb
      rw [hdeny l hl p hp] at hmay
      simp at hmay
  · obtain ⟨p, hp, hcovers⟩ := exists_of_firstMatch hallow
    have hlast : (policy.lists subject).2 ∈
        (policy.lists subject).1 ++ [(policy.lists subject).2] := by simp
    exact exists_firstMatch (fun q hq ↦ htotal hlast hq) hp
      (Pattern.matchesReq_of_covers hbelow hcovers)

/-- A home grant with a deny elsewhere in the home, asked about a subtree the deny cannot reach. -/
def homeGrant : AuthzPolicy where
  allow := [.write (.compile .home "/**")]
  deny := [.write (.compile .home "/.ssh/**")]
  allowSources := ["Write(~/**)"]
  denySources := ["Write(~/.ssh/**)"]

end AuthzPolicy

end Maknae.Config
