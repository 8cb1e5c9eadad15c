import Maknae.Authz.RoleSpec
import Maknae.Config.Mirror

/-!
# `maknae policy sync`

The command reads the daemon's mirror and the bindings file, plans, and installs the mirror over the
file. At a terminal a person reads what would change and answers for it. Without one the command
runs unattended, and then it installs only what tightens: no entry and no account may come to more
than the file gives it.

`Host` is what the command meets: every read of a file is numbered, so two reads of the same file
may differ, and anything may fail. `beforeInstall` is the command up to the replacement of the file,
which is the last thing that it does; `unattended_sync_only_tightens` is about every run that gets
there.
-/

namespace Maknae.Cli

open List hiding Vector
open Authz Config Except Option Std.ExtTreeMap

/-! ### The host -/

/-- What the command meets. -/
structure Host where
  /-- Standard input is a terminal. -/
  terminal : Bool
  /-- The reads of the mirror, in order. -/
  readMirror : ℕ → Except String (Option Mirror)
  /-- Opening the configuration directory. -/
  openConfig : Except String Unit
  /-- The reads of the bindings file, in order, parsed. -/
  bindingsFile : ℕ → Except String Bindings
  /-- The account database. -/
  lookup : String → Except String (Option UInt32)
  /-- Writing a line to standard output. -/
  write : String → Except String Unit
  /-- The trimmed answer at the prompt. -/
  answer : Except String String
  /-- Replacing the bindings file. -/
  publish : String → Except String Unit
  digest : String → Vector UInt8 32

inductive Outcome
  | installed
  | nothingToInstall
  | wouldInstall
  | noMirror
  | needsAdministrator (entries : List BindingEntry)
  | restoreNeedsAdministrator
deriving DecidableEq, Repr

/-- How far a run gets: to an outcome, or to the replacement of the file. -/
inductive Reached
  | done (outcome : Outcome)
  | install (restore : Bool) (bytes : String)
deriving DecidableEq, Repr

def configDir : String := "/etc/maknae"

def noBindingsKey : String :=
  "the mirror has no bindings: key; it cannot replace bindings.yaml's bindings; " ++
    "nothing was installed"

def noKeyRestore : String :=
  "bindings.yaml has no bindings: key; restoring it needs an administrator: run sudo maknae " ++
    "policy sync at a terminal"

def changedDuring : String :=
  "bindings.yaml changed during the sync; nothing was installed; reload maknaed so it merges, " ++
    "then sync again"

def mirrorChanged : String :=
  "the mirror changed during the sync; nothing was installed; run sudo maknae policy sync again"

def mirrorPolls : ℕ := 20

/-- A character as it is safe to print. -/
def terminalSafeChar (c : Char) : String :=
  if ' ' ≤ c ∧ c ≤ '~' then c.toString
  else if c = '\t' then "\\t"
  else if c = '\r' then "\\r"
  else if c = '\n' then "\\n"
  else "\\u\x7b" ++ String.ofList (Nat.toDigits 16 c.toNat) ++ "\x7d"

def terminalSafe (s : String) : String := String.join (s.toList.map terminalSafeChar)

namespace Host

variable (host : Host)

def say (line : String) : Except String Unit :=
  match host.write line with
  | .ok () => .ok ()
  | .error e => .error s!"cannot write to standard output: {e}"

/-- Say a line where there is something to say. -/
def sayIf (b : Bool) (line : String) : Except String Unit := if b then host.say line else .ok ()

/-- Poll for the mirror: read it again while there is none. -/
def poll : ℕ → ℕ → Except String (Option Mirror)
  | 0, k => host.readMirror k
  | n + 1, k => do
    match ← host.readMirror k with
    | some m => return some m
    | none => poll n (k + 1)

def awaitMirror : Except String (Option Mirror) :=
  host.poll (if host.terminal then 0 else mirrorPolls) 0

def readBindings (k : ℕ) : Except String Bindings := do
  let bindings ← host.bindingsFile k
  match checkRoles bindings.roles with
  | .ok () => return bindings
  | .error e =>
    let m := roleRuleMessage e
    .error s!"bindings.yaml is not valid: {m}"

/-- Look up the account of one entry, unless it is known. -/
def addLookup (uids : UidMap) : BindingEntry → Except String UidMap
  | .uid _ => .ok uids
  | .name n =>
    if n ∈ uids then .ok uids
    else
      match host.lookup n with
      | .error err => .error s!"cannot look up '{n}': {err}; nothing was installed"
      | .ok none => .ok uids
      | .ok (some u) => .ok (uids.insert n u)

/-- What an unattended sync would loosen. -/
def unattendedLoosenings (file mirror : Section) : Except String (List BindingEntry) := do
  let uids ← (file.entries ++ mirror.entries).foldlM host.addLookup ∅
  return (.ofList (loosenings file mirror ++ effectiveLoosenings file mirror uids) compare :
    EntrySet).toList

def onlyTightenings (entries : List BindingEntry) : String :=
  "an unattended sync installs only tightenings; these entries gain a role or leave adversary: " ++
    String.intercalate ", " (entries.map fun e ↦ terminalSafe e.render)

def otherConfigDir (found : String) : String :=
  let found := terminalSafe found
  s!"maknaed reads its configuration from {found}, not {configDir}; policy sync installs only " ++
    s!"{configDir}/bindings.yaml"

/-- The mirror and the file are still those the plan was made from. -/
def stillAsPlanned (mirror : Mirror) (restore : Bool) : Except String Unit := do
  let now ← host.readMirror (mirrorPolls + 1)
  if now ≠ some mirror then .error mirrorChanged
  else do
    let file ← host.readBindings 1
    match planSync mirror (.ofBindings file) host.digest configDir with
    | .restore _ _ _ =>
      if restore && !(!host.terminal && Section.ofBindings file ≠ .missing) then .ok ()
      else .error changedDuring
    | .install _ _ _ => if !restore then .ok () else .error changedDuring
    | _ => .error changedDuring

/-- Ask a person to accept the conflicts, if there are any. -/
def confirm (conflicts : ℕ) : Except String Unit :=
  if conflicts = 0 then .ok ()
  else if !host.terminal then
    .error (s!"the mirror lists {conflicts} conflicts; " ++
      "run sudo maknae policy sync on a terminal to review them")
  else do
    host.say "install bindings.yaml with these entries as the mirror holds them? [y/N] "
    match host.answer with
    | .error e => .error s!"cannot read the answer: {e}"
    | .ok line =>
      if line.toLower = "y" ∨ line.toLower = "yes" then .ok ()
      else .error "not installed: the conflicts were not accepted"

/-- Say the entries in conflict, if there are any. -/
def sayConflicts (conflicts : List BindingEntry) : Except String Unit :=
  if conflicts.isEmpty then .ok ()
  else do
    host.say ("the mirror fails these entries closed (contained, or unbound when neither side " ++
      "contained them):")
    conflicts.forM fun c ↦ host.say ("  conflict: " ++ terminalSafe c.render)

/-- The end of an install that loosens nothing unreviewed. -/
def finishInstall (mirror : Mirror) (conflicts : List BindingEntry) (bytes : String) :
    Except String Reached := do
  host.confirm conflicts.length
  host.stillAsPlanned mirror false
  return .install false bytes

/-- What an install would loosen without a person to review it. -/
def loosened (mirror : Mirror) (file : Section) : Except String (List BindingEntry) :=
  if host.terminal then .ok [] else host.unattendedLoosenings file mirror.section'

/-- The install of a mirror over the file it was merged from. -/
def installPlan (check : Bool) (mirror : Mirror) (file : Section) (diff : List String)
    (conflicts : List BindingEntry) (bytes : String) : Except String Reached := do
  diff.forM fun l ↦ host.say (terminalSafe l)
  host.sayConflicts conflicts
  let entries ← host.loosened mirror file
  if check then do
    host.sayIf (!entries.isEmpty) (onlyTightenings entries)
    return .done .wouldInstall
  else if !entries.isEmpty then return .done (.needsAdministrator entries)
  else host.finishInstall mirror conflicts bytes

/-- The restore of a file that has no bindings. -/
def restorePlan (check : Bool) (mirror : Mirror) (file : Section) (diff : List String)
    (conflicts : List BindingEntry) (bytes : String) : Except String Reached := do
  host.say ("restoring bindings.yaml, which is missing or has no bindings: key, from the " ++
    "bindings maknaed enforces")
  diff.forM fun l ↦ host.say (terminalSafe l)
  conflicts.forM fun c ↦
    host.say ("  conflict (installed as maknaed enforces it): " ++ terminalSafe c.render)
  let keyless := !host.terminal && file ≠ .missing
  if check then do
    host.sayIf keyless s!"an unattended sync would refuse: {noKeyRestore}"
    return .done .wouldInstall
  else if keyless then return .done .restoreNeedsAdministrator
  else do
    host.stillAsPlanned mirror true
    return .install true bytes

/-- The run once the mirror and the file are read. -/
def runPlan (check : Bool) (mirror : Mirror) (file : Section) : Except String Reached :=
  match planSync mirror file host.digest configDir with
  | .otherConfigDir found => .error (otherConfigDir found)
  | .nothingToInstall => do
    host.say "bindings.yaml already holds the mirror; nothing to install"
    return .done .nothingToInstall
  | .noBindingsKey => .error noBindingsKey
  | .baseChanged _ _ => .error ("bindings.yaml changed since maknaed last loaded it; reload " ++
      "maknaed so it merges, then sync again")
  | .restore diff conflicts bytes => host.restorePlan check mirror file diff conflicts bytes
  | .install diff conflicts bytes => host.installPlan check mirror file diff conflicts bytes

/-- The run on a mirror. -/
def runMirror (check : Bool) (mirror : Mirror) : Except String Reached :=
  if mirror.header.configDir ≠ configDir then .error (otherConfigDir mirror.header.configDir)
  else do
    host.openConfig
    let file ← host.readBindings 0
    host.runPlan check mirror (.ofBindings file)

/-- The command up to the replacement of the file. -/
def beforeInstall (check : Bool) : Except String Reached := do
  match ← host.awaitMirror with
  | none => return .done .noMirror
  | some mirror => host.runMirror check mirror

/-- The command. -/
def sync (check : Bool) : Except String Outcome := do
  match ← host.beforeInstall check with
  | .done outcome => return outcome
  | .install _ bytes =>
    match host.publish bytes with
    | .error e => .error s!"cannot install {configDir}/bindings.yaml: {e}"
    | .ok () => return .installed

end Host

/-! ### What a run that installs has checked -/

namespace Host

variable {host : Host}

variable {bytes bytes' : String} {conflicts : List BindingEntry} {mirror : Mirror}
  {diff : List String} {file : Section}

/-- An unattended install loosens nothing and has no conflict left. -/
theorem installPlan_eq_install (hunattended : host.terminal = false) {check restore}
    (h : host.installPlan check mirror file diff conflicts bytes = .ok (.install restore bytes')) :
    host.unattendedLoosenings file mirror.section' = .ok [] ∧ bytes' = bytes := by
  obtain ⟨-, -, -, -, entries, hentries, h⟩ := bind₃_eq_ok.mp h
  rw [loosened, hunattended] at hentries
  split_ifs at h with hcheck hempty
  · obtain ⟨-, -, ⟨⟩⟩ := bind_pure_eq_ok.mp h
  · cases pure_eq_ok.mp h
  · obtain ⟨-, -, -, -, h⟩ := bind₂_eq_ok.mp h
    obtain ⟨-, rfl⟩ := Reached.install.inj (pure_eq_ok.mp h)
    obtain rfl : entries = [] := by simpa using hempty
    exact ⟨hentries, rfl⟩

theorem restorePlan_ne_install {check} :
    host.restorePlan check mirror file diff conflicts bytes ≠ .ok (.install false bytes') := by
  intro h
  obtain ⟨-, -, -, -, -, -, h⟩ := bind₃_eq_ok.mp h
  dsimp only at h
  split_ifs at h with hcheck hkeyless
  · obtain ⟨-, -, ⟨⟩⟩ := bind_pure_eq_ok.mp h
  · cases pure_eq_ok.mp h
  · obtain ⟨-, -, ⟨⟩⟩ := bind_pure_eq_ok.mp h

end Host

/-- A run reached the install of a mirror over a file: what it read, and what it planned. -/
structure ReachesInstall (host : Host) (mirror : Mirror) (file : Bindings) (bytes : String) :
    Prop where
  mirror_read : ∃ k, host.readMirror k = .ok (some mirror)
  file_read : host.bindingsFile 0 = .ok file
  rules : checkRoles file.roles = .ok ()
  planned : ∃ diff conflicts, planSync mirror (.ofBindings file) host.digest configDir =
    .install diff conflicts bytes
  tightens : host.unattendedLoosenings (.ofBindings file) mirror.section' = .ok []

namespace Host

variable {host : Host}

theorem exists_read_of_poll {n k mirror} (h : host.poll n k = .ok (some mirror)) :
    ∃ k, host.readMirror k = .ok (some mirror) := by
  induction n generalizing k with
  | zero => exact ⟨k, h⟩
  | succ n ih =>
    obtain ⟨read, hread, h⟩ := bind_eq_ok.mp h
    cases read with
    | some m =>
      cases pure_eq_ok.mp h
      exact ⟨k, hread⟩
    | none => exact ih h

theorem readBindings_eq_ok {k file} (h : host.readBindings k = .ok file) :
    host.bindingsFile k = .ok file ∧ checkRoles file.roles = .ok () := by
  obtain ⟨file', hfile, h⟩ := bind_eq_ok.mp h
  split at h
  · rename_i hrules
    obtain rfl := pure_eq_ok.mp h
    exact ⟨hfile, hrules⟩
  · cases h

/-- The only way to the install of a mirror, without a terminal. -/
theorem reachesInstall_of_beforeInstall (hunattended : host.terminal = false) {check}
    {bytes} (h : host.beforeInstall check = .ok (.install false bytes)) :
    ∃ mirror file, ReachesInstall host mirror file bytes := by
  obtain ⟨read, hread, h⟩ := bind_eq_ok.mp h
  cases read with
  | none => cases pure_eq_ok.mp h
  | some mirror =>
    have h : host.runMirror check mirror = .ok (.install false bytes) := h
    unfold runMirror at h
    split_ifs at h
    obtain ⟨-, -, file, hfile, h⟩ := bind₂_eq_ok.mp h
    obtain ⟨hfile, hrules⟩ := readBindings_eq_ok hfile
    suffices hplan : (∃ diff conflicts, planSync mirror (.ofBindings file) host.digest configDir =
        .install diff conflicts bytes) ∧
        host.unattendedLoosenings (.ofBindings file) mirror.section' = .ok [] from
      ⟨mirror, file, exists_read_of_poll hread, hfile, hrules, hplan.1, hplan.2⟩
    unfold runPlan at h
    split at h
    · cases h
    · obtain ⟨-, -, ⟨⟩⟩ := bind_pure_eq_ok.mp h
    · cases h
    · cases h
    · exact absurd h restorePlan_ne_install
    · rename_i diff conflicts bytes' hplan
      obtain ⟨htightens, rfl⟩ := installPlan_eq_install hunattended h
      exact ⟨⟨diff, conflicts, hplan⟩, htightens⟩

/-- What the command knows of the accounts is what the host says. -/
def Knows (host : Host) (uids : UidMap) : Prop :=
  ∀ (n : String) u, uids[n]? = some u → host.lookup n = .ok (some u)

theorem Knows.addLookup {uids out} (hknows : host.Knows uids) {e}
    (h : host.addLookup uids e = .ok out) :
    host.Knows out ∧ (∀ n : String, n ∈ uids → n ∈ out) ∧
      ∀ n, e = .name n → host.lookup n = .ok out[n]? := by
  cases e with
  | uid u =>
    cases h
    exact ⟨hknows, fun _ ↦ id, nofun⟩
  | name m =>
    simp only [Host.addLookup] at h
    split_ifs at h with hmem
    · cases h
      refine ⟨hknows, fun _ ↦ id, ?_⟩
      rintro n ⟨⟩
      obtain ⟨u, hu⟩ := isSome_iff_exists.mp (mem_iff_isSome_getElem?.mp hmem)
      rw [hu]
      exact hknows _ u hu
    · split at h
      · cases h
      · rename_i hnone
        cases h
        refine ⟨hknows, fun _ ↦ id, ?_⟩
        rintro n ⟨⟩
        rw [hnone, getElem?_eq_none hmem]
      · rename_i u hu
        cases h
        refine ⟨fun n v hv ↦ ?_, fun n hn ↦ mem_insert.mpr (.inr hn), ?_⟩
        · rw [getElem?_insert_ite] at hv
          split_ifs at hv with heq
          · rw [heq, hu, hv]
          · exact hknows n v hv
        · rintro n ⟨⟩
          rw [hu, getElem?_insert_self]

/-- After the lookups the command knows the account of every entry. -/
theorem Knows.foldlM {entries : List BindingEntry} {uids out : UidMap} (hknows : host.Knows uids)
    (h : entries.foldlM host.addLookup uids = .ok out) :
    host.Knows out ∧ (∀ n : String, n ∈ uids → n ∈ out) ∧
      ∀ n, .name n ∈ entries → host.lookup n = .ok out[n]? := by
  induction entries generalizing uids with
  | nil =>
    obtain rfl := pure_eq_ok.mp h
    exact ⟨hknows, fun _ ↦ id, nofun⟩
  | cons e entries ih =>
    obtain ⟨uids', huids', h⟩ := bind_eq_ok.mp h
    obtain ⟨hknows', hkeep, hhead⟩ := hknows.addLookup huids'
    obtain ⟨hout, hkeep', hrest⟩ := ih hknows' h
    refine ⟨hout, fun n hn ↦ hkeep' n (hkeep n hn), fun n hn ↦ ?_⟩
    rcases mem_cons.mp hn with rfl | hn
    · cases hv : out[n]? with
      | some v => exact hout n v hv
      | none =>
        have hnone : uids'[n]? = none := getElem?_eq_none fun hmem ↦ by
          have hmem := mem_iff_isSome_getElem?.mp (hkeep' n hmem)
          rw [hv] at hmem
          cases hmem
        rw [hhead n rfl, hnone]
    · exact hrest n hn

end Host

/-! ### An unattended install tightens -/

/-- No account comes to more: a bound role was bound before, and a contained account stays so. -/
structure Tightens (was now : Resolved) : Prop where
  bound : ∀ uid role name, (uid, role, name) ∈ now.subjects → role ≠ .adversary →
    ∃ name', (uid, role, name') ∈ was.subjects
  contained : ∀ uid name, (uid, .adversary, name) ∈ was.subjects →
    ∃ name', (uid, .adversary, name') ∈ now.subjects

/-- What the entries of a uid come to, in the command's words and the daemon's. -/
theorem outcome_subjectsByUid (roles : List (ℕ × List BindingEntry)) (uids : UidMap)
    (uid : UInt32) :
    outcome (subjectsByUid roles (uidOf uids)).1[uid]? =
      effective ((entriesOf roles uids uid).map Prod.fst) := by
  have huidOf : uidOf uids = entryUid uids := by
    funext e
    cases e <;> rfl
  have hget := (subjectsByUid_eq roles uids).1 uid
  rw [huidOf]
  cases hheld : (subjectsByUid roles (entryUid uids)).1[uid]? with
  | some l =>
    obtain ⟨-, rfl⟩ := (hget l).mp hheld
    rfl
  | none =>
    have hnil : entriesOf roles uids uid = [] := by
      by_contra hne
      have hsome := (hget _).mpr ⟨hne, rfl⟩
      rw [hheld] at hsome
      cases hsome
    rw [hnil]
    rfl

theorem subjectsByUid_ne_nil (uids : UidMap) (s : Section) (u : UInt32) :
    (subjectsByUid (indexed s) (uidOf uids)).1[u]? ≠ some [] := by
  intro h
  exact (((subjectsByUid_eq (indexed s) uids).1 u []).mp h).1 rfl

theorem mem_entries_of_flatEntries {m} {roles : List (ℕ × List BindingEntry)}
    (h : checkedRoles (some m) = .ok roles) {x : ℕ × BindingEntry} (hx : x ∈ flatEntries roles) :
    x.2 ∈ (Section.present m).entries := by
  obtain ⟨-, entries, hentries, he⟩ := (mem_flatEntries_iff h).mp hx
  exact Section.mem_entries.mpr ⟨_, Section.mem_rolesOf_present.mpr ⟨entries, hentries, he⟩⟩

/-- **The check of the accounts is enough** for the resolution the daemon later makes, on any map
that gives the accounts the check looked up. -/
theorem tightens_of_effectiveLoosenings {file installed uids map was now}
    (hwas : resolveSubjects file map = .ok was)
    (hnow : resolveSubjects installed map = .ok now)
    {m m'} (hfile : file.roles = some m) (hinstalled : installed.roles = some m')
    (hknown : ∀ e ∈ (Section.present m).entries ++ (Section.present m').entries,
      entryUid uids e = entryUid map e)
    (h : effectiveLoosenings (.present m) (.present m') uids = []) : Tightens was now := by
  obtain ⟨roles, hroles, hentries⟩ := exists_resolvedEntries hwas
  obtain ⟨roles', hroles', hentries'⟩ := exists_resolvedEntries hnow
  rw [hfile] at hroles
  rw [hinstalled] at hroles'
  have hmay := mayInstall_of_effectiveLoosenings_eq_nil h (subjectsByUid_ne_nil uids)
  simp only [outcome_subjectsByUid] at hmay
  rw [indexed_eq_of_checkedRoles (s := .present m) hroles,
    indexed_eq_of_checkedRoles (s := .present m') hroles'] at hmay
  have hsame : ∀ uid, entriesOf roles uids uid = entriesOf roles map uid := entriesOf_congr
    fun x hx ↦ hknown _ (mem_append_left _ (mem_entries_of_flatEntries hroles hx))
  have hsame' : ∀ uid, entriesOf roles' uids uid = entriesOf roles' map uid := entriesOf_congr
    fun x hx ↦ hknown _ (mem_append_right _ (mem_entries_of_flatEntries hroles' hx))
  simp only [hsame, hsame'] at hmay
  constructor
  · intro uid role name hmem hrole
    have hnow := hentries'.exists_subject_iff.mp ⟨name, hmem⟩
    obtain ⟨outcome, houtcome, hbinds⟩ := bind_eq_some_iff.mp hnow
    have hmay := hmay uid
    cases outcome with
    | bound idx =>
      rw [houtcome] at hmay
      refine hentries.exists_subject_iff.mpr ?_
      rw [mayInstall_bound hmay]
      exact hbinds
    | contained => exact absurd (some.inj hbinds).symm hrole
    | unbound => cases hbinds
  · intro uid name hmem
    have hlt : ∀ i ∈ (entriesOf roles map uid).map Prod.fst, i < 4 := by
      intro i hi
      obtain ⟨x, hx, rfl⟩ := mem_map.mp hi
      exact lt_of_mem_entriesOf hroles hx
    have hmay := hmay uid
    rw [effective_eq_contained_of_role hlt (hentries.exists_subject_iff.mp ⟨name, hmem⟩)] at hmay
    refine hentries'.exists_subject_iff.mpr ?_
    rw [mayInstall_of_contained hmay]
    rfl

theorem exists_resolveSubjects {bindings} (map : UidMap)
    (h : checkRoles bindings.roles = .ok ()) : ∃ out, resolveSubjects bindings map = .ok out := by
  unfold checkRoles at h
  cases hroles : checkedRoles bindings.roles with
  | error e =>
    rw [hroles] at h
    cases h
  | ok roles => exact ⟨_, by rw [resolveSubjects, hroles]; rfl⟩

/-- **An unattended sync only tightens.** Suppose the command runs without a terminal and gets to
the install of a mirror over the file. Then no entry of the installed section gains a role other
than `adversary` or leaves `adversary`. And for every map that has the accounts the host gave, the
resolution of the installed section gives a uid a role other than `adversary` only if the file's
resolution gave it that role, and contains every uid that the file's contained. -/
theorem unattended_sync_only_tightens {host : Host} (hunattended : host.terminal = false)
    {check : Bool} {bytes : String}
    (h : host.beforeInstall check = .ok (.install false bytes)) :
    ∃ mirror file, ReachesInstall host mirror file bytes ∧ bytes = installable mirror ∧
      (∀ e, (∀ r ∈ mirror.section'.rolesOf e, r ≠ adversaryRole →
          r ∈ (Section.ofBindings file).rolesOf e) ∧
        (adversaryRole ∈ (Section.ofBindings file).rolesOf e →
          adversaryRole ∈ mirror.section'.rolesOf e)) ∧
      ∀ installed : Bindings, Section.ofBindings installed = mirror.section' →
        checkRoles installed.roles = .ok () →
        ∀ map : UidMap, (∀ (n : String) answer, host.lookup n = .ok answer → map[n]? = answer) →
          ∃ was now, resolveSubjects file map = .ok was ∧ resolveSubjects installed map = .ok now ∧
            Tightens was now := by
  obtain ⟨mirror, file, hreaches⟩ := Host.reachesInstall_of_beforeInstall hunattended h
  obtain ⟨-, -, hrules, ⟨diff, conflicts, hplan⟩, htightens⟩ := id hreaches
  obtain ⟨hfile, hmirror, hbytes⟩ := planSync_eq_install hplan
  obtain ⟨uids, huids, hnone⟩ := bind_eq_ok.mp htightens
  have hnone := not_mem_of_toList_ofList_eq_nil (pure_eq_ok.mp hnone)
  have hentry : loosenings (.ofBindings file) mirror.section' = [] :=
    eq_nil_iff_forall_not_mem.mpr fun e he ↦ hnone e (mem_append_left _ he)
  have haccount : effectiveLoosenings (.ofBindings file) mirror.section' uids = [] :=
    eq_nil_iff_forall_not_mem.mpr fun e he ↦ hnone e (mem_append_right _ he)
  refine ⟨mirror, file, hreaches, hbytes, of_loosenings_eq_nil hentry, ?_⟩
  intro installed hinstalled hrules' map hmap
  obtain ⟨was, hwas⟩ := exists_resolveSubjects map hrules
  obtain ⟨now, hnow⟩ := exists_resolveSubjects map hrules'
  obtain ⟨m, hm, hroles⟩ := Section.exists_roles_of_isPresent hfile
  obtain ⟨m', hm', hroles'⟩ := Section.exists_roles_of_isPresent (hinstalled ▸ hmirror)
  rw [← hinstalled, hm, hm'] at haccount huids
  refine ⟨was, now, hwas, hnow, tightens_of_effectiveLoosenings hwas hnow hroles hroles'
    ?_ haccount⟩
  -- the map gives each entry the account the command looked up
  intro e he
  cases e with
  | uid u => rfl
  | name n =>
    have hknows : host.Knows ∅ := fun n u hu ↦ by
      cases hu
    obtain ⟨-, -, hlookup⟩ := hknows.foldlM huids
    exact (hmap n _ (hlookup n he)).symm

/-- Bindings with one admin. -/
def alexFile : Bindings :=
  .read (.map [("admin", .seq [.str "alex"])])
    (.ofList [("admin", [BindingEntry.name "alex"])] compare) rfl

/-- The same with a contained uid. -/
def alexInstalled : Bindings :=
  .read (.map [("admin", .seq [.str "alex"]), ("adversary", .seq [.map [("uid", .int 4242)]])])
    (.ofList [("admin", [.name "alex"]), ("adversary", [.uid 4242])] compare) rfl

def alexMirror : Mirror :=
  ⟨⟨7, configDir, baseToken (.ofBindings alexFile) fun _ ↦ Vector.replicate 32 0, ∅⟩,
    .ofBindings alexInstalled⟩

/-- An unattended host whose mirror contains one uid more than the file. -/
def alexHost : Host where
  terminal := false
  readMirror _ := .ok (some alexMirror)
  openConfig := .ok ()
  bindingsFile _ := .ok alexFile
  lookup n := .ok (if n = "alex" then some 501 else none)
  write _ := .ok ()
  answer := .error "end of file"
  publish _ := .ok ()
  digest _ := Vector.replicate 32 0

theorem unattended_sync_only_tightens_alex :
    ∃ was now, resolveSubjects alexFile (.ofList [("alex", 501)] compare) = .ok was ∧
      resolveSubjects alexInstalled (.ofList [("alex", 501)] compare) = .ok now ∧
      Tightens was now := by
  have hreached : alexHost.beforeInstall false = .ok (.install false (installable alexMirror)) := by
    decide +kernel
  obtain ⟨mirror, file, ⟨⟨k, hmirror⟩, hfile, -⟩, -, -, htightens⟩ :=
    unattended_sync_only_tightens rfl hreached
  obtain rfl : alexMirror = mirror := some.inj (ok.inj hmirror)
  obtain rfl : alexFile = file := ok.inj hfile
  refine htightens alexInstalled rfl (by decide) _ fun n answer hanswer ↦ ?_
  cases hanswer
  rw [show (Std.ExtTreeMap.ofList [("alex", (501 : UInt32))] compare) =
    (∅ : UidMap).insert "alex" 501 by decide, Std.ExtTreeMap.getElem?_insert_ite,
    Std.ExtTreeMap.getElem?_empty]

end Maknae.Cli
