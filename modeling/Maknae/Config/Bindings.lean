import Maknae.Config.Value
import Maknae.Foundation.Guards
import Mathlib.Data.Nat.Digits.Defs

/-!
# The bindings section

`bindings.yaml` lists, under each role, the names and uids that hold it. This module embeds the
reading of the section from its parsed value tree and the rules a section must keep.

Names in a section cannot hold a `:`. The grammar is what keeps the two kinds of entry apart in
print: `render` writes a uid as `uid:<n>`, and `BindingEntry.render_injOn` says that no two
grammatical entries print alike. The reader enforces it (`grammatical_of_entry`), and `Bindings`
carries it, so that no later step has to ask again.
-/

namespace Maknae.Config

open Except List Std.ExtTreeMap Std.ExtTreeSet

/-! ### Entries -/

/-- One entry under a role. -/
inductive BindingEntry
  | name (n : String)
  | uid (u : UInt32)
deriving DecidableEq, Repr

namespace BindingEntry

def render : BindingEntry → String
  | name n => n
  | uid u => s!"uid:{u.toNat}"

def isUid : BindingEntry → Bool
  | name _ => false
  | uid _ => true

/-! Names come before uids, each in their own order. -/

def tag : BindingEntry → ℕ
  | name _ => 0
  | uid _ => 1

def nameOf : BindingEntry → String
  | name n => n
  | uid _ => ""

def uidOf : BindingEntry → ℕ
  | name _ => 0
  | uid u => u.toNat

instance : Ord BindingEntry :=
  ⟨compareLex (compareOn tag) (compareLex (compareOn nameOf) (compareOn uidOf))⟩

instance : Std.TransOrd BindingEntry :=
  inferInstanceAs (Std.TransCmp
    (compareLex (compareOn tag) (compareLex (compareOn nameOf) (compareOn uidOf))))

instance : Std.LawfulEqOrd BindingEntry where
  eq_of_compare {a b} h := by
    obtain ⟨htag, hrest⟩ := Ordering.then_eq_eq.mp h
    obtain ⟨hname, huid⟩ := Ordering.then_eq_eq.mp hrest
    have htag : a.tag = b.tag := Std.LawfulEqOrd.eq_of_compare htag
    have hname : a.nameOf = b.nameOf := Std.LawfulEqOrd.eq_of_compare hname
    have huid : a.uidOf = b.uidOf := Std.LawfulEqOrd.eq_of_compare huid
    cases a with
    | name n =>
      cases b with
      | name m => exact congrArg name hname
      | uid v => cases htag
    | uid u =>
      cases b with
      | name m => cases htag
      | uid v => exact congrArg uid (UInt32.toNat_inj.mp huid)

end BindingEntry

/-! ### The grammar of names -/

/-- What keeps a text from being a name. -/
inductive NameFault
  | empty
  | colon
  | comma
  | control

/-- The control characters of the two control blocks. -/
def isControl (c : Char) : Bool :=
  decide (c.toNat < 0x20) || (decide (0x7f ≤ c.toNat) && decide (c.toNat ≤ 0x9f))

def nameFault (s : String) : Option NameFault :=
  if s = "" then some .empty
  else if ':' ∈ s.toList then some .colon
  else if ',' ∈ s.toList then some .comma
  else if s.toList.any isControl then some .control
  else none

/-- The entry is a uid or a name of the grammar. -/
def BindingEntry.NameOk : BindingEntry → Prop
  | name n => nameFault n = none
  | uid _ => True

/-- The entry is one the reader accepts. -/
def BindingEntry.Grammatical : BindingEntry → Prop
  | name n => nameFault n = none
  | uid u => u ≠ 4294967295

theorem colon_not_mem_of_nameFault {s} (h : nameFault s = none) : ':' ∉ s.toList := by
  unfold nameFault at h
  split_ifs at h with hempty hcolon
  exact hcolon

theorem BindingEntry.toList_render_uid (u : UInt32) :
    (uid u).render.toList = 'u' :: 'i' :: 'd' :: ':' :: (Nat.repr u.toNat).toList := by
  show ("uid:" ++ Nat.repr u.toNat).toList = _
  rw [String.toList_append]
  rfl

variable {e : BindingEntry} {v : Value} {map : RoleMap} {idx : ℕ} {entries : List BindingEntry}
  {role : String}

theorem BindingEntry.Grammatical.nameOk (h : e.Grammatical) : e.NameOk := by
  cases e with
  | name n => exact h
  | uid u => trivial

/-- No two entries of the grammar print alike. -/
theorem BindingEntry.render_injOn {a b : BindingEntry} (ha : a.NameOk) (hb : b.NameOk)
    (h : a.render = b.render) : a = b := by
  have hcolon : ∀ u n, (uid u).render = n → ':' ∈ n.toList := by
    rintro u n rfl
    simp [toList_render_uid]
  cases a with
  | name n =>
    cases b with
    | name m => exact congrArg name h
    | uid v => exact absurd (hcolon v n h.symm) (colon_not_mem_of_nameFault ha)
  | uid u =>
    cases b with
    | name m => exact absurd (hcolon u m h) (colon_not_mem_of_nameFault hb)
    | uid v =>
      have hlist := congrArg String.toList h
      rw [toList_render_uid, toList_render_uid] at hlist
      have hrepr : Nat.repr u.toNat = Nat.repr v.toNat :=
        String.toList_inj.mp (by simpa using hlist)
      exact congrArg uid (UInt32.toNat_inj.mp (repr_injective hrepr))

/-! ### Reading a section -/

inductive BindingsError
  | unknownSchemaVersion (v : ℤ)
  | unknownKey (key : String)
  | yaml (message : String)

/-- Read one entry: a quoted name, or a map that holds a uid and nothing else. -/
def entry : Value → Except BindingsError BindingEntry
  | .str s =>
    match nameFault s with
    | none => .ok (.name s)
    | some .empty => .error (.yaml "an empty name binds nobody; remove it")
    | some .colon =>
      .error (.yaml "a name cannot contain ':'; write `uid: 7` for a numeric uid")
    | some .comma => .error (.yaml "a name cannot contain ','")
    | some .control => .error (.yaml "a name cannot contain a control character")
  | .map [(k, .int n)] =>
    if k = "uid" then
      if 0 ≤ n ∧ n < 4294967295 then .ok (.uid (UInt32.ofNat n.toNat))
      else .error (.yaml "a `uid:` entry is a whole number from 0 to 4294967294")
    else .error (.yaml "a map entry is exactly `uid: <0..4294967294>`")
  | .map _ => .error (.yaml "a map entry is exactly `uid: <0..4294967294>`")
  | .int _ => .error (.yaml "quote every name; write `uid: <n>` for a numeric uid")
  | _ => .error (.yaml "bindings entries are quoted names or `uid: <n>`")

theorem grammatical_of_entry (h : entry v = .ok e) :
    e.Grammatical := by
  unfold entry at h
  split at h
  · next s =>
    split at h
    · next hfault =>
      cases h
      exact hfault
    all_goals cases h
  · next k n =>
    split_ifs at h with hk hrange
    cases h
    intro hmax
    have : (UInt32.ofNat n.toNat).toNat = 4294967295 := by rw [hmax]; rfl
    rw [UInt32.toNat_ofNat_of_lt' (by simp only [UInt32.size]; omega)] at this
    omega
  all_goals cases h

/-- The lists of a section by role. -/
abbrev RoleMap := Std.ExtTreeMap String (List BindingEntry) compare

/-- Every entry of the lists is one the reader accepts. -/
def RoleMap.Grammatical (map : RoleMap) : Prop :=
  ∀ (role : String) (entries : List BindingEntry), map[role]? = some entries →
    ∀ e ∈ entries, e.Grammatical

/-- Add the list of one role to those read so far. -/
def readRole (roles : RoleMap) : String × Value → Except BindingsError RoleMap
  | (role, .seq items) => do
    let entries ← items.mapM entry
    return roles.insert role entries
  | _ => .error (.yaml "a bindings member list must be a sequence (write `role: []` for empty)")

/-- Read the lists of a section. -/
def sectionRoles : Value → Except BindingsError RoleMap
  | .map byRole => byRole.foldlM readRole ∅
  | _ => .error (.yaml "the bindings section must be a map of role to member list")

theorem grammatical_of_readRole {roles roles'} {member : String × Value}
    (hroles : roles.Grammatical) (h : readRole roles member = .ok roles') :
    roles'.Grammatical := by
  obtain ⟨role, members⟩ := member
  unfold readRole at h
  split at h
  · next items heq =>
    obtain ⟨entries, hentries, rfl⟩ := bind_pure_eq_ok.mp h
    intro key list hlist e he
    rw [Std.ExtTreeMap.getElem?_insert] at hlist
    split_ifs at hlist
    · cases hlist
      obtain ⟨v, -, hv⟩ := exists_of_mem_mapM hentries he
      exact grammatical_of_entry hv
    · exact hroles key list hlist e he
  · cases h

theorem grammatical_of_sectionRoles (h : sectionRoles v = .ok map) :
    map.Grammatical := by
  unfold sectionRoles at h
  split at h
  · refine foldlM_invariant (fun _ _ _ ↦ grammatical_of_readRole) ?_ h
    intro role entries hentries
    simp at hentries
  · cases h

/-- The bindings of one load: the lists, or none when the section or the file is not there. -/
structure Bindings where
  roles : Option RoleMap
  missing : Bool
  /-- Every entry was accepted by the reader. -/
  grammatical : ∀ map ∈ roles, map.Grammatical

namespace Bindings

def absent : Bindings := ⟨none, false, nofun⟩

def missingFile : Bindings := ⟨none, true, nofun⟩

/-- The bindings of a section that was read. -/
def read (v : Value) (map : RoleMap) (h : sectionRoles v = .ok map) : Bindings where
  roles := some map
  missing := false
  grammatical := by
    rintro _ ⟨⟩
    exact grammatical_of_sectionRoles h

end Bindings

/-- The value at a key of a map. -/
def getKey (map : List (String × Value)) (k : String) : Option Value :=
  (map.find? fun entry ↦ entry.1 == k).map Prod.snd

/-- Read the bindings from the root of the parsed file. -/
def parseBindings (root : Value) : Except BindingsError Bindings :=
  match root with
  | .map map =>
    match map.find? fun entry ↦ !(["schema_version", "bindings"].contains entry.1) with
    | some (key, _) => .error (.unknownKey key)
    | none =>
      match getKey map "schema_version" with
      | some (.int 1) =>
        match getKey map "bindings" with
        | none => .ok .absent
        | some value =>
          match h : sectionRoles value with
          | .error e => .error e
          | .ok roles => .ok (.read value roles h)
      | some (.int n) => .error (.unknownSchemaVersion n)
      | _ => .error (.unknownSchemaVersion 0)
  | _ => .error (.yaml "the bindings.yaml root must be a mapping")

/-! ### The rules of a section -/

def bindingRoles : List String := ["admin", "user", "guest", "adversary"]

/-- The position of the role that contains. -/
def adversaryIndex : ℕ := bindingRoles.length - 1

inductive RoleRuleError
  | unknownRole (role : String)
  | duplicate (name : String)
  | uidOutsideAdversary (role : String)
deriving DecidableEq, Repr

/-- Check one list: no entry prints like an earlier one, and uids stand under `adversary` only. -/
def checkEntries (key : String) (idx : ℕ) (seen : Std.ExtTreeSet String compare) :
    List BindingEntry → Except RoleRuleError Unit
  | [] => .ok ()
  | e :: rest =>
    if seen.contains e.render then .error (.duplicate e.render)
    else if e.isUid ∧ idx ≠ adversaryIndex then .error (.uidOutsideAdversary key)
    else checkEntries key idx (seen.insert e.render) rest

/-- Check one role and its list. -/
def checkRole (role : String × List BindingEntry) :
    Except RoleRuleError (ℕ × List BindingEntry) :=
  match bindingRoles.idxOf? role.1 with
  | none => .error (.unknownRole role.1)
  | some idx => do
    checkEntries role.1 idx ∅ role.2
    return (idx, role.2)

/-- The lists of a section by the position of their role, when the section keeps the rules. -/
def checkedRoles (roles : Option RoleMap) : Except RoleRuleError (List (ℕ × List BindingEntry)) :=
  match roles with
  | none => .ok []
  | some map => map.toList.mapM checkRole

def checkRoles (roles : Option RoleMap) : Except RoleRuleError Unit :=
  (checkedRoles roles).map fun _ ↦ ()

/-- What the roles a subject is listed under come to. -/
inductive Effective
  | bound (role : ℕ)
  | contained
  | unbound
deriving DecidableEq, Repr

def effective (roles : List ℕ) : Option Effective :=
  roles.head?.map fun first ↦
    if roles.contains adversaryIndex then .contained
    else if roles.all (· == first) then .bound first
    else .unbound

/-- The entries of each uid with the roles they stand under, in file order. -/
abbrev HeldBy := Std.ExtTreeMap UInt32 (List (ℕ × BindingEntry)) compare

/-- File one entry under the uid it resolves to. -/
def holdEntry (uidOf : BindingEntry → Option UInt32) (acc : HeldBy × List (ℕ × BindingEntry))
    (entry : ℕ × BindingEntry) : HeldBy × List (ℕ × BindingEntry) :=
  match uidOf entry.2 with
  | some u => (acc.1.insert u (acc.1[u]?.getD [] ++ [entry]), acc.2)
  | none => (acc.1, acc.2 ++ [entry])

/-- All entries with the position of their role, in order. -/
def flatEntries (roles : List (ℕ × List BindingEntry)) : List (ℕ × BindingEntry) :=
  roles.flatMap fun (idx, entries) ↦ entries.map fun e ↦ (idx, e)

/-- Sort the entries by the uid they resolve to; the others are unresolved. -/
def subjectsByUid (roles : List (ℕ × List BindingEntry)) (uidOf : BindingEntry → Option UInt32) :
    HeldBy × List (ℕ × BindingEntry) :=
  (flatEntries roles).foldl (holdEntry uidOf) (∅, [])

/-! ### What checked and sorted entries are -/

/-- The rules a list keeps under its role. -/
structure RoleListOk (role : String) (entries : List BindingEntry) : Prop where
  role_mem : role ∈ bindingRoles
  nodup : (entries.map BindingEntry.render).Nodup
  of_uid : ∀ u, .uid u ∈ entries → role = "adversary"

theorem checkEntries_eq_ok {key} {seen : Std.ExtTreeSet String compare} :
    checkEntries key idx seen entries = .ok () ↔
      (∀ e ∈ entries, e.render ∉ seen) ∧ (entries.map BindingEntry.render).Nodup ∧
        ∀ u, .uid u ∈ entries → idx = adversaryIndex := by
  induction entries generalizing seen with
  | nil => simp [checkEntries]
  | cons e rest ih =>
    rw [checkEntries]
    split_ifs with hseen huid
    · have hmem : e.render ∈ seen := Std.ExtTreeSet.contains_iff_mem.mp hseen
      simp [hmem]
    · obtain ⟨huid, hidx⟩ := huid
      cases e with
      | name n => cases huid
      | uid u =>
        simp only [false_iff]
        rintro ⟨-, -, h⟩
        exact hidx (h u mem_cons_self)
    · rw [ih]
      have hnot : e.render ∉ seen := fun hmem ↦ hseen (Std.ExtTreeSet.contains_iff_mem.mpr hmem)
      have hhead : (∃ u, e = .uid u) → idx = adversaryIndex := by
        rintro ⟨u, rfl⟩
        by_contra hidx
        exact huid ⟨rfl, hidx⟩
      constructor
      · rintro ⟨hrest, hnodup, hadversary⟩
        refine ⟨?_, ?_, ?_⟩
        · refine forall_mem_cons.mpr ⟨hnot, fun e' he' hmem ↦ hrest e' he' ?_⟩
          exact mem_insert.mpr (.inr hmem)
        · refine nodup_cons.mpr ⟨fun hmem ↦ ?_, hnodup⟩
          obtain ⟨e', he', heq⟩ := mem_map.mp hmem
          exact hrest e' he' (mem_insert.mpr (.inl (by simp [heq])))
        · intro u hu
          rcases mem_cons.mp hu with hu | hu
          · exact hhead ⟨u, hu.symm⟩
          · exact hadversary u hu
      · rintro ⟨hall, hnodup, hadversary⟩
        obtain ⟨hfresh, hnodup⟩ := nodup_cons.mp hnodup
        refine ⟨fun e' he' hmem ↦ ?_, hnodup, fun u hu ↦ hadversary u (mem_cons_of_mem e hu)⟩
        rcases mem_insert.mp hmem with heq | hmem
        · have heq : e.render = e'.render := Std.LawfulEqOrd.eq_of_compare heq
          exact hfresh (heq ▸ mem_map.mpr ⟨e', he', rfl⟩)
        · exact hall e' (mem_cons_of_mem e he') hmem

theorem exists_idxOf?_of_mem (h : role ∈ bindingRoles) :
    ∃ idx, bindingRoles.idxOf? role = some idx ∧ (idx = adversaryIndex ↔ role = "adversary") := by
  simp only [bindingRoles, mem_cons, not_mem_nil, or_false] at h
  rcases h with rfl | rfl | rfl | rfl
  · exact ⟨0, by decide, by decide⟩
  · exact ⟨1, by decide, by decide⟩
  · exact ⟨2, by decide, by decide⟩
  · exact ⟨3, by decide, by decide⟩

theorem exists_checkRole_eq_ok :
    (∃ out, checkRole (role, entries) = .ok out) ↔ RoleListOk role entries := by
  constructor
  · rintro ⟨out, h⟩
    by_cases hrole : role ∈ bindingRoles
    · obtain ⟨idx, hidx, hadversary⟩ := exists_idxOf?_of_mem hrole
      simp only [checkRole, hidx] at h
      obtain ⟨⟨⟩, hentries, -⟩ := bind_eq_ok.mp h
      obtain ⟨-, hnodup, huid⟩ := checkEntries_eq_ok.mp hentries
      exact ⟨hrole, hnodup, fun u hu ↦ hadversary.mp (huid u hu)⟩
    · have hidx : bindingRoles.idxOf? role = none := by simpa using hrole
      simp [checkRole, hidx] at h
  · rintro ⟨hrole, hnodup, huid⟩
    obtain ⟨idx, hidx, hadversary⟩ := exists_idxOf?_of_mem hrole
    have hentries : checkEntries role idx ∅ entries = .ok () :=
      checkEntries_eq_ok.mpr ⟨by simp, hnodup, fun u hu ↦ hadversary.mpr (huid u hu)⟩
    exact ⟨(idx, entries), by simp only [checkRole, hidx, hentries]; rfl⟩

/-- **The rules of a section**, list by list. -/
theorem checkRoles_eq_ok :
    checkRoles (some map) = .ok () ↔
      ∀ (role : String) (entries : List BindingEntry), map[role]? = some entries →
        RoleListOk role entries := by
  have hok : checkRoles (some map) = .ok () ↔ ∃ out, checkedRoles (some map) = .ok out := by
    unfold checkRoles
    cases checkedRoles (some map) with
    | error e | ok out => simp [Except.map]
  rw [hok, checkedRoles, exists_mapM_eq_ok]
  constructor
  · intro h role entries hmem
    exact exists_checkRole_eq_ok.mp
      (h (role, entries) (mem_toList_iff_getElem?_eq_some.mpr hmem))
  · rintro h ⟨role, entries⟩ hmem
    exact exists_checkRole_eq_ok.mpr
      (h role entries (mem_toList_iff_getElem?_eq_some.mp hmem))

theorem checkRole_eq_ok {out : ℕ × List BindingEntry} (h : checkRole (role, entries) = .ok out) :
    ∃ idx, bindingRoles.idxOf? role = some idx ∧ out = (idx, entries) := by
  rw [checkRole] at h
  cases hidx : bindingRoles.idxOf? role with
  | none => simp [hidx] at h
  | some idx =>
    simp only [hidx] at h
    obtain ⟨-, -, h⟩ := bind_eq_ok.mp h
    exact ⟨idx, rfl, (pure_eq_ok.mp h).symm⟩

/-- A checked list is the list of a role of the section. -/
theorem exists_role_of_checkedRoles {roles}
    {checked : List (ℕ × List BindingEntry)} (h : checkedRoles roles = .ok checked)
    (hmem : (idx, entries) ∈ checked) :
    ∃ map ∈ roles, ∃ role : String, map[role]? = some entries := by
  cases roles with
  | none =>
    cases h
    cases hmem
  | some map =>
    obtain ⟨⟨role, list⟩, hlist, hrole⟩ := exists_of_mem_mapM h hmem
    obtain ⟨i, -, heq⟩ := checkRole_eq_ok hrole
    cases heq
    exact ⟨map, rfl, role, mem_toList_iff_getElem?_eq_some.mp hlist⟩

/-- An entry is filed under its uid, or with the unresolved, and comes from the lists. -/
theorem of_mem_subjectsByUid (roles : List (ℕ × List BindingEntry))
    (uidOf : BindingEntry → Option UInt32) :
    (∀ (u : UInt32) (l : List (ℕ × BindingEntry)), (subjectsByUid roles uidOf).1[u]? = some l →
      ∀ x ∈ l, x ∈ flatEntries roles ∧ uidOf x.2 = some u) ∧
    ∀ x ∈ (subjectsByUid roles uidOf).2, x ∈ flatEntries roles ∧ uidOf x.2 = none := by
  refine foldlRecOn (flatEntries roles) (holdEntry uidOf) (b := (∅, []))
    (motive := fun acc ↦ (∀ (u : UInt32) (l : List (ℕ × BindingEntry)), acc.1[u]? = some l →
      ∀ x ∈ l, x ∈ flatEntries roles ∧ uidOf x.2 = some u) ∧
      ∀ x ∈ acc.2, x ∈ flatEntries roles ∧ uidOf x.2 = none) ⟨by simp, by simp⟩ ?_
  rintro ⟨held, unresolved⟩ ⟨hheld, hunresolved⟩ entry hentry
  rw [holdEntry]
  cases huid : uidOf entry.2 with
  | none =>
    exact ⟨hheld, forall_mem_concat.mpr ⟨hunresolved, hentry, huid⟩⟩
  | some v =>
    refine ⟨fun u l hl x hx ↦ ?_, hunresolved⟩
    rw [Std.ExtTreeMap.getElem?_insert] at hl
    split_ifs at hl with hv
    · cases hl
      obtain rfl := Std.LawfulEqOrd.eq_of_compare hv
      rcases mem_append.mp hx with hx | hx
      · cases hold : held[v]? with
        | none => simp [hold] at hx
        | some old =>
          rw [hold] at hx
          exact hheld v old hold x hx
      · obtain rfl := mem_singleton.mp hx
        exact ⟨hentry, huid⟩
    · exact hheld u l hl x hx

end Maknae.Config
