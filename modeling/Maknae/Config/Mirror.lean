import Mathlib.Data.Vector.Defs
import Maknae.Config.BindingsSync

/-!
# The mirror of the bindings, and what a sync of it would install

The daemon publishes the bindings it enforces as a mirror. A sync compares the mirror with the file
an administrator keeps and plans what to do: install the mirror over a file that is still the base
of the mirror, restore a file that has no bindings, or nothing.

`loosenings` and `effectiveLoosenings` are the two checks of an unattended sync. The first looks at
each entry alone; the second resolves the entries of both sections and looks at each account,
because dropping an entry can undo a conflict of roles and so give an account a role that no entry
gained.
-/

namespace Maknae.Config

open List hiding Vector
open Except Std.ExtTreeMap

/-! ### Texts -/

/-- The digits of a number to base sixteen, with leading zeros up to a width. -/
def hexDigits (width n : ℕ) : List Char :=
  let digits := Nat.toDigits 16 n
  replicate (width - digits.length) '0' ++ digits

def upperHex (width n : ℕ) : String := String.ofList ((hexDigits width n).map Char.toUpper)

/-- One character of a quoted name. -/
def quotedChar (c : Char) : String :=
  if c = '"' then "\\\""
  else if c = '\\' then "\\\\"
  else if ' ' ≤ c ∧ c ≤ '~' then c.toString
  else if c.toNat ≤ 0xFFFF then "\\u" ++ upperHex 4 c.toNat
  else "\\U" ++ upperHex 8 c.toNat

def quoted (n : String) : String := "\"" ++ String.join (n.toList.map quotedChar) ++ "\""

def inlineEntry : BindingEntry → String
  | .name n => quoted n
  | .uid u =>
    let n := u.toNat
    s!"uid: {n}"

/-- The lines of one role's list. -/
def roleBody (role : String) (list : List BindingEntry) : String :=
  if list.isEmpty then s!"  {role}: []\n"
  else s!"  {role}:\n" ++ String.join (list.map fun e ↦ "    - " ++ inlineEntry e ++ "\n")

/-- A section as the body of a bindings file. -/
def sectionBody (live : Section) : String :=
  "schema_version: 1\n" ++
    match live with
    | .present roles =>
      if roles.isEmpty then "bindings: \x7b\x7d\n"
      else "bindings:\n" ++ String.join ((bindingRoles.filter fun r ↦ roles.contains r).map fun r ↦
        roleBody r (roles[r]?.getD []))
    | _ => ""

/-! ### The mirror -/

structure MirrorHeader where
  revision : UInt64
  configDir : String
  /-- The token of the file section the mirror was merged from. -/
  base : String
  conflicts : EntrySet
deriving DecidableEq

structure Mirror where
  (header : MirrorHeader) (section' : Section)
deriving DecidableEq

/-- The token of a section. -/
def baseToken (s : Section) (digest : String → Vector UInt8 32) : String :=
  match s with
  | .missing => "missing"
  | .absent => "absent"
  | .present _ => "sha256:" ++ String.ofList ((digest s.canonical).toList.flatMap fun b ↦
      hexDigits 2 b.toNat)

/-- The file a sync of the mirror installs. -/
def installable (m : Mirror) : String :=
  let revision := m.header.revision.toNat
  s!"# installed by sudo maknae policy sync from maknaed's mirror at revision {revision}\n" ++
    sectionBody m.section'

def stateName (s : Section) : String := if s.isPresent then "present" else "absent"

/-- What a sync would change, for a person to read. -/
def diffLines (file mirror : Section) : List String :=
  let f := stateName file
  let m := stateName mirror
  (if f ≠ m then [s!"bindings: {f} -> {m}"] else []) ++ bindingRoles.flatMap fun role ↦
    let added := (mirror.listAt role).filter fun e ↦ !(file.listAt role).contains e
    let dropped := (file.listAt role).filter fun e ↦ !(mirror.listAt role).contains e
    added.map (fun e ↦ s!"{role}: +" ++ e.render) ++ dropped.map (fun e ↦ s!"{role}: -" ++ e.render)

/-- The sections list every entry under the same roles. -/
def equivalent (a b : Section) : Bool :=
  a.isPresent == b.isPresent && !(a.entries ++ b.entries).any fun e ↦ a.rolesOf e != b.rolesOf e

inductive SyncPlan
  | otherConfigDir (found : String)
  | nothingToInstall
  | restore (diff : List String) (conflicts : List BindingEntry) (bytes : String)
  | baseChanged (file base : String)
  | noBindingsKey
  | install (diff : List String) (conflicts : List BindingEntry) (bytes : String)

def planSync (m : Mirror) (file : Section) (digest : String → Vector UInt8 32)
    (configDir : String) : SyncPlan :=
  if m.header.configDir ≠ configDir then .otherConfigDir m.header.configDir
  else if equivalent file m.section' then .nothingToInstall
  else
    let diff := diffLines file m.section'
    let conflicts := m.header.conflicts.toList
    if !file.isPresent then .restore diff conflicts (installable m)
    else if !m.section'.isPresent then .noBindingsKey
    else if baseToken file digest ≠ m.header.base then
      .baseChanged (baseToken file digest) m.header.base
    else .install diff conflicts (installable m)

/-! ### Loosenings -/

/-- The entry gains a role other than `adversary`, or leaves `adversary`. -/
def loosens (file mirror : Section) (e : BindingEntry) : Bool :=
  let was := file.rolesOf e
  let now := mirror.rolesOf e
  now.toList.any (fun r ↦ r != adversaryRole && !was.contains r) ||
    (was.contains adversaryRole && !now.contains adversaryRole)

/-- The entries a sync would loosen, each looked at alone. -/
def loosenings (file mirror : Section) : List BindingEntry :=
  let keyless := file.isPresent && !mirror.isPresent
  (.ofList (file.entries ++ mirror.entries) compare : EntrySet).toList.filter fun e ↦
    keyless || loosens file mirror e

/-- The lists of a section by the position of their role. -/
def indexed (s : Section) : List (ℕ × List BindingEntry) :=
  match s with
  | .present m => m.toList.filterMap fun (k, v) ↦ (bindingRoles.idxOf? k).map fun i ↦ (i, v)
  | _ => []

/-- What an account comes to under the mirror is not looser than under the file. -/
def mayInstall (file mirror : Option Effective) : Bool :=
  let bound : Option Effective → Bool
    | some (.bound _) => true
    | _ => false
  let held := bound file || file == some .unbound
  mirror == some .contained || mirror == file || (mirror == some .unbound && bound file) ||
    (mirror.isNone && held)

/-- The uid an entry stands for. -/
def uidOf (uids : Std.ExtTreeMap String UInt32 compare) : BindingEntry → Option UInt32
  | .uid u => some u
  | .name n => uids[n]?

def outcome (held : Option (List (ℕ × BindingEntry))) : Option Effective :=
  held.bind fun h ↦ effective (h.map Prod.fst)

/-- The entries of the accounts that would come to something looser. -/
def loosenedAccounts (was now : HeldBy) : List BindingEntry :=
  (was.keys ++ now.keys).flatMap fun uid ↦
    if mayInstall (outcome was[uid]?) (outcome now[uid]?) then []
    else (was[uid]?.getD [] ++ now[uid]?.getD []).map Prod.snd

/-- The positions each entry stands at. -/
def byName (held : List (ℕ × BindingEntry)) : Std.ExtTreeMap BindingEntry (List ℕ) compare :=
  held.foldl (fun m x ↦ m.insert x.2 (m[x.2]?.getD [] ++ [x.1])) ∅

/-- The entries without an account that would come to something looser. -/
def loosenedNames (was now : Std.ExtTreeMap BindingEntry (List ℕ) compare) : List BindingEntry :=
  (was.keys ++ now.keys).filter fun e ↦
    !mayInstall (was[e]?.bind effective) (now[e]?.bind effective)

/-- The entries a sync would loosen through the accounts they resolve to. -/
def effectiveLoosenings (file mirror : Section) (uids : Std.ExtTreeMap String UInt32 compare) :
    List BindingEntry :=
  let was := subjectsByUid (indexed file) (uidOf uids)
  let now := subjectsByUid (indexed mirror) (uidOf uids)
  (.ofList (loosenedAccounts was.1 now.1 ++ loosenedNames (byName was.2) (byName now.2))
    compare : EntrySet).toList

/-! ### What the checks establish -/

/-- An install replaces a section by a section. -/
theorem planSync_eq_install {m file} {digest : String → Vector UInt8 32}
    {configDir} {diff} {conflicts} {bytes}
    (h : planSync m file digest configDir = .install diff conflicts bytes) :
    file.isPresent = true ∧ m.section'.isPresent = true ∧ bytes = installable m := by
  unfold planSync at h
  split_ifs at h with hdir hsame hfile hmirror hbase
  obtain ⟨-, -, rfl⟩ := SyncPlan.install.inj h
  exact ⟨by simpa using hfile, by simpa using hmirror, rfl⟩

/-- The lists of a section that keeps the rules. -/
theorem indexed_eq_of_checkedRoles {s} {roles : List (ℕ × List BindingEntry)}
    (h : checkedRoles s.roles? = .ok roles) : indexed s = roles := by
  cases s with
  | missing | absent => exact ok.inj h
  | present m =>
    refine filterMap_eq_of_mapM (fun ⟨role, entries⟩ out hout ↦ ?_) h
    obtain ⟨idx, hidx, rfl⟩ := checkRole_eq_ok hout
    simp only [hidx, Option.map_some]

/-- A set of entries is listed as empty when it has none. -/
theorem not_mem_of_toList_ofList_eq_nil {l}
    (h : (.ofList l compare : EntrySet).toList = []) (e : BindingEntry) : e ∉ l := by
  intro he
  have hmem : e ∈ (.ofList l compare : EntrySet).toList := by
    rw [Std.ExtTreeSet.mem_toList, Std.ExtTreeSet.mem_ofList]
    exact contains_iff_mem.mpr he
  rw [h] at hmem
  exact not_mem_nil hmem

variable {file mirror : Section}

/-- An entry that is not loosened gains no role but `adversary`, and does not leave it. -/
theorem loosens_eq_false_iff {e} :
    loosens file mirror e = false ↔
      (∀ r ∈ mirror.rolesOf e, r ≠ adversaryRole → r ∈ file.rolesOf e) ∧
      (adversaryRole ∈ file.rolesOf e → adversaryRole ∈ mirror.rolesOf e) := by
  have hcontains : ∀ (roles : RoleSet) r, roles.contains r = true ↔ r ∈ roles := fun roles r ↦
    Std.ExtTreeSet.contains_iff_mem
  rw [loosens, Bool.or_eq_false_iff, any_eq_false]
  simp only [Std.ExtTreeSet.mem_toList, Bool.and_eq_true, bne_iff_ne, Bool.not_eq_eq_eq_not,
    Bool.not_true, ← Bool.not_eq_true, hcontains, not_and, not_not]

/-- Nothing is loosened, entry by entry. -/
theorem of_loosenings_eq_nil (h : loosenings file mirror = []) (e : BindingEntry) :
    (∀ r ∈ mirror.rolesOf e, r ≠ adversaryRole → r ∈ file.rolesOf e) ∧
      (adversaryRole ∈ file.rolesOf e → adversaryRole ∈ mirror.rolesOf e) := by
  by_cases he : e ∈ file.entries ++ mirror.entries
  · refine loosens_eq_false_iff.mp (Bool.eq_false_iff.mpr fun hl ↦ ?_)
    have hmem : e ∈ loosenings file mirror := by
      refine mem_filter.mpr ⟨?_, by rw [hl, Bool.or_true]⟩
      rw [Std.ExtTreeSet.mem_toList, Std.ExtTreeSet.mem_ofList]
      exact contains_iff_mem.mpr he
    rw [h] at hmem
    exact not_mem_nil hmem
  · -- an entry neither section lists has no roles at all
    rw [mem_append, not_or] at he
    rw [Section.rolesOf_eq_empty he.1, Section.rolesOf_eq_empty he.2]
    exact ⟨fun r hr ↦ absurd hr Std.ExtTreeSet.not_mem_empty, id⟩

/-- What an account comes to, when the mirror may be installed. -/
theorem mayInstall_bound {file role}
    (h : mayInstall file (some (.bound role)) = true) : file = some (.bound role) := by
  rcases file with - | (r | - | -) <;> simp_all [mayInstall]

theorem mayInstall_of_contained {mirror}
    (h : mayInstall (some .contained) mirror = true) : mirror = some .contained := by
  rcases mirror with - | (r | - | -) <;> simp_all [mayInstall]

/-- **Nothing is loosened, account by account.** -/
theorem mayInstall_of_effectiveLoosenings_eq_nil {uids : Std.ExtTreeMap String UInt32 compare}
    (h : effectiveLoosenings file mirror uids = [])
    (hheld : ∀ (s : Section) (u : UInt32), (subjectsByUid (indexed s) (uidOf uids)).1[u]? ≠ some [])
    (uid : UInt32) :
    mayInstall (outcome (subjectsByUid (indexed file) (uidOf uids)).1[uid]?)
      (outcome (subjectsByUid (indexed mirror) (uidOf uids)).1[uid]?) = true := by
  have hnone := not_mem_of_toList_ofList_eq_nil h
  have hfile := hheld file uid
  have hmirror := hheld mirror uid
  generalize (subjectsByUid (indexed file) (uidOf uids)).1 = was at hnone hfile ⊢
  generalize (subjectsByUid (indexed mirror) (uidOf uids)).1 = now at hnone hmirror ⊢
  by_contra hnot
  -- the uid has an entry in one of the sections, and that entry is reported
  obtain ⟨x, hkey, hx⟩ : ∃ x, uid ∈ was.keys ++ now.keys ∧
      x ∈ was[uid]?.getD [] ++ now[uid]?.getD [] := by
    have hkeys : ∀ (m : HeldBy) l, m[uid]? = some l → uid ∈ m.keys := by
      intro m l hl
      rw [Std.ExtTreeMap.mem_keys, mem_iff_isSome_getElem?, hl]
      rfl
    cases hw : was[uid]? with
    | some l =>
      obtain ⟨x, rest, rfl⟩ := exists_cons_of_ne_nil fun hnil ↦ hfile (hnil ▸ hw)
      exact ⟨x, mem_append_left _ (hkeys was _ hw), by simp⟩
    | none =>
      cases hn : now[uid]? with
      | some l =>
        obtain ⟨x, rest, rfl⟩ := exists_cons_of_ne_nil fun hnil ↦ hmirror (hnil ▸ hn)
        exact ⟨x, mem_append_right _ (hkeys now _ hn), by simp⟩
      | none =>
        rw [hw, hn] at hnot
        exact absurd (by decide) hnot
  refine hnone x.2 (mem_append_left _ (mem_flatMap.mpr ⟨uid, hkey, ?_⟩))
  rw [if_neg hnot]
  exact mem_map.mpr ⟨x, hx, rfl⟩

end Maknae.Config
