import Maknae.Authz.Binding
import Maknae.Authz.Permit
import Maknae.Foundation.TreeMap

/-!
# The policy file, and the grants it compiles to

The policy file has the site's permission lists and three more sections: the action terms each role
is granted, the destinations each role may reach, and the restrictions of single subjects. A written
action entry is a term or a whole family of terms; `expand` turns it into terms of the closed
vocabulary. A role takes only terms it may hold, and only two of the roles take any.

The compiled grants are read by the decision core and nowhere else, and the core asks only which
terms they hold. So each validation is summarized by the terms of its result
(`granted_validateGrants`, `mem_expandAll`, `validateSubjects_eq_ok`), and the entry a term was
written as matters to citations alone.
-/

namespace Maknae.Authz

open Config Except List Std.ExtTreeMap

/-! ### The file -/

/-- An action entry as written: a term, or a family of terms. -/
inductive ActionPattern
  | exact (term : String)
  | family (name : String)

namespace ActionPattern

def source : ActionPattern → String
  | exact t => t
  | family f => s!"{f}.*"

/-- The term or the family. -/
def name : ActionPattern → String
  | exact n => n
  | family n => n

end ActionPattern

/-- One role's action entries. -/
structure RawActionGrants where
  allow : List ActionPattern
  deny : List ActionPattern

/-- One role's destinations. -/
structure RawDestinations where
  allow : List String

/-- One subject's action entries. -/
structure SubjectActions where
  allow : List ActionPattern
  deny : List ActionPattern

/-- One `subjects:` entry as written; an absent key is no limit of that kind. -/
structure SubjectPolicy where
  permissions : Option SubjectPermissions
  actions : Option SubjectActions
  models : Option (List ModelRef)

/-- A parsed policy file. -/
structure PolicyFile where
  permissions : AuthzPolicy
  actionGrants : Std.ExtTreeMap String RawActionGrants compare
  destinations : Std.ExtTreeMap String RawDestinations compare
  subjects : Std.ExtTreeMap String SubjectPolicy compare
  /-- The canonical text of each top-level section. -/
  sections : Std.ExtTreeMap String String compare
  /-- Bindings have a file of their own. -/
  bindings_moved : "bindings" ∉ sections

inductive AuthzBasicError
  | load (message : String)
  | bindings (message : String)
  | unknownRole (key : String)
  | roleNotSupportedYet (key : String)
  | unknownActionTerm (entry : String)
  | termNotGrantableForRole (role term : String)
  | unknownAction (entry : String)
  | ungrantableAction (entry : String)
  | subjectLookup (message : String)
  | duplicateSubjectUid (uid : UInt32) (first second : String)

def AuthzBasicError.message : AuthzBasicError → String
  | load m => s!"authz policy load refused: {m}"
  | bindings m => s!"authz bindings invalid: {m}"
  | subjectLookup m => s!"authz subjects: {m}"
  | unknownRole k => s!"authz roles: unknown role `{k}`"
  | roleNotSupportedYet k =>
    s!"authz roles: role `{k}` takes no grants (guest and adversary are structural)"
  | unknownActionTerm t =>
    let grantable := String.intercalate ", " grantableActions
    s!"authz roles: `{t}` is not a grantable action term (grantable: {grantable})"
  | termNotGrantableForRole role term =>
    let grantable := String.intercalate ", " grantableActions
    s!"authz roles: `{term}` is not grantable to role `{role}` (admin: {grantable}; " ++
      "user: session.prompt)"
  | unknownAction a => s!"authz subjects: `{a}` names no action family or term"
  | ungrantableAction a =>
    s!"authz subjects: `{a}` is a kernel or liveness action and no list may name it"
  | duplicateSubjectUid uid a b =>
    let u := uid.toNat
    s!"authz subjects: `{a}` and `{b}` resolve to the same uid {u}"

/-! ### Action entries -/

/-- The terms a subject's action list or a family can name. -/
def actionVocabulary : List String :=
  ["admin.status", "admin.config.show", "admin.subject.list", "admin.baseline.show",
    "admin.baseline.accept", "admin.contain", "admin.release", "session.prompt", "fs.read",
    "fs.write", "fs.delete", "fs.mkdir"]

/-- The terms of the vocabulary an entry names. -/
def namedTerms : ActionPattern → List String
  | .exact t => actionVocabulary.filter (· == t)
  | .family f => actionVocabulary.filter fun t ↦ classOf t == classOf f

/-- An entry against the vocabulary: each term it names, with the entry as written. -/
def expand (p : ActionPattern) : Except AuthzBasicError (List Grant) :=
  match classOf p.name with
  | some .kernel | some .liveness => .error (.ungrantableAction p.source)
  | none => .error (.unknownAction p.source)
  | some _ =>
    match p with
    | .exact _ =>
      if (namedTerms p).isEmpty then .error (.unknownAction p.source)
      else .ok ((namedTerms p).map fun t ↦ (t, p.source))
    | .family _ => .ok ((namedTerms p).map fun t ↦ (t, p.source))

/-- The role may hold the term. -/
def holds (role : Role) (t : String) : Bool := role ≠ .user || t == "session.prompt"

/-- The terms one entry grants a role. A family keeps only the terms the role may hold, and one that
keeps none is refused like an unknown term. -/
def roleTerms (key : String) (role : Role) (p : ActionPattern) :
    Except AuthzBasicError (List String) :=
  match expand p with
  | .error _ => .error (.unknownActionTerm p.source)
  | .ok expanded =>
    let terms := (expanded.map Prod.fst).filter fun t ↦ grantableActions.contains t
    match p with
    | .exact t =>
      match terms.head? with
      | none => .error (.unknownActionTerm p.source)
      | some term =>
        if !holds role term then .error (.termNotGrantableForRole key t) else .ok terms
    | .family _ =>
      let held := terms.filter (holds role)
      if held.isEmpty then .error (.unknownActionTerm p.source) else .ok held

/-- Add the grants of one entry. -/
def addGrants (key : String) (role : Role) (out : List Grant) (p : ActionPattern) :
    Except AuthzBasicError (List Grant) := do
  return out ++ (← roleTerms key role p).map fun t ↦ (t, p.source)

/-- The grants of a list of entries. -/
def grantTerms (key : String) (role : Role) (entries : List ActionPattern) :
    Except AuthzBasicError (List Grant) :=
  entries.foldlM (addGrants key role) []

/-- The role of a key that may hold grants. -/
def grantRole (key : String) : Except AuthzBasicError Role :=
  match Role.fromKey key with
  | none => .error (.unknownRole key)
  | some .admin => .ok .admin
  | some .user => .ok .user
  | some _ => .error (.roleNotSupportedYet key)

def validateRole (key : String) (grants : RawActionGrants) :
    Except AuthzBasicError (List Grant × List Grant) := do
  let role ← grantRole key
  return (← grantTerms key role grants.allow, ← grantTerms key role grants.deny)

/-- The action grants of the file. -/
def validateGrants (raw : Std.ExtTreeMap String RawActionGrants compare) :
    Except AuthzBasicError ActionGrants :=
  raw.checkAll validateRole

/-- The destinations of the file. -/
def validateDestinations (raw : Std.ExtTreeMap String RawDestinations compare) :
    Except AuthzBasicError DestinationGrants :=
  raw.checkAll fun key d ↦ do
    let _ ← grantRole key
    return d.allow

/-! ### Subjects -/

/-- Add the terms of one entry; the first entry that names a term is kept for it. -/
def addTerms (terms : Std.ExtTreeMap String String compare) (p : ActionPattern) :
    Except AuthzBasicError (Std.ExtTreeMap String String compare) := do
  return (← expand p).foldl (fun terms g ↦ terms.insertIfNew g.1 g.2) terms

/-- The terms a list of entries names. -/
def expandAll (entries : List ActionPattern) :
    Except AuthzBasicError (Std.ExtTreeMap String String compare) :=
  entries.foldlM addTerms ∅

/-- A subject's action lists, expanded. -/
def subjectActions : Option SubjectActions → Except AuthzBasicError (Option SubjectActionSet)
  | none => .ok none
  | some lists => do return some ⟨← expandAll lists.allow, ← expandAll lists.deny⟩

/-- File a subject under the uid its name resolves to. Its action lists are checked whether or not
the name resolves. -/
def fileSubject (lookups : Lookups) (out : Std.ExtTreeMap UInt32 SubjectEntry compare)
    (member : String × SubjectPolicy) :
    Except AuthzBasicError (Std.ExtTreeMap UInt32 SubjectEntry compare) := do
  let actions ← subjectActions member.2.actions
  match lookups[member.1]? with
  | some (some uid) =>
    match out[uid]? with
    | some first => .error (.duplicateSubjectUid uid first.name member.1)
    | none => return out.insert uid ⟨member.1, member.2.permissions, actions, member.2.models⟩
  | _ => return out

/-- The subjects of the file by uid. -/
def validateSubjects (policy : PolicyFile) (lookups : Lookups) :
    Except AuthzBasicError (Std.ExtTreeMap UInt32 SubjectEntry compare) :=
  policy.subjects.toList.foldlM (fileSubject lookups) ∅

/-! ### The terms of compiled grants -/

/-- The terms an entry gives a role; none when it is refused. -/
def termsOf (key : String) (role : Role) (p : ActionPattern) : List String :=
  (roleTerms key role p).toOption.getD []

variable {t : String} {entries : List ActionPattern} {entry : SubjectEntry} {lookups : Lookups}
  {uid : UInt32}

theorem mem_grantTerms {key role acc out}
    (h : entries.foldlM (addGrants key role) acc = .ok out) :
    t ∈ out.map Prod.fst ↔ t ∈ acc.map Prod.fst ∨ ∃ p ∈ entries, t ∈ termsOf key role p := by
  induction entries generalizing acc with
  | nil =>
    obtain rfl := pure_eq_ok.mp h
    simp
  | cons p entries ih =>
    obtain ⟨acc', hacc', h⟩ := bind_eq_ok.mp h
    obtain ⟨terms, hterms, hacc'⟩ := bind_eq_ok.mp hacc'
    obtain rfl := pure_eq_ok.mp hacc'
    have hof : termsOf key role p = terms := by
      rw [termsOf, hterms]
      rfl
    rw [ih h, map_append, mem_append, exists_mem_cons_iff, hof, or_assoc]
    simp [Function.comp_def]

/-- The role's written entries grant the term: some allow entry names it and no deny entry does. -/
def WrittenGrant (raw : Std.ExtTreeMap String RawActionGrants compare) (key action : String) :
    Prop :=
  ∃ grants role, raw[key]? = some grants ∧ grantRole key = .ok role ∧
    (∃ p ∈ grants.allow, action ∈ termsOf key role p) ∧
    ∀ p ∈ grants.deny, action ∉ termsOf key role p

/-- **What the compiled grants hold is what is written.** -/
theorem granted_validateGrants {raw : Std.ExtTreeMap String RawActionGrants compare}
    {grants} (h : validateGrants raw = .ok grants) {key action} :
    Granted grants key action ↔ WrittenGrant raw key action := by
  unfold Granted WrittenGrant
  rcases checkAll_eq_ok h key with ⟨written, lists, hraw, hvalid, hout⟩ | ⟨hraw, hout⟩
  · obtain ⟨role, hrole, allow, hallow, deny, hdeny, ⟨⟩⟩ := bind₃_eq_ok.mp hvalid
    rw [hraw, hout, hrole]
    simp only [Option.some.injEq, Prod.mk.injEq, ok.injEq]
    constructor
    · rintro ⟨_, _, ⟨rfl, rfl⟩, hin, hnot⟩
      refine ⟨written, role, rfl, rfl, ?_, fun p hp hmem ↦ hnot ?_⟩
      · simpa using (mem_grantTerms hallow).mp hin
      · exact (mem_grantTerms hdeny).mpr (.inr ⟨p, hp, hmem⟩)
    · rintro ⟨_, _, rfl, rfl, hin, hnot⟩
      refine ⟨allow, deny, ⟨rfl, rfl⟩, (mem_grantTerms hallow).mpr (.inr hin), fun hmem ↦ ?_⟩
      obtain ⟨p, hp, hterm⟩ : ∃ p ∈ written.deny, action ∈ termsOf key role p := by
        simpa using (mem_grantTerms hdeny).mp hmem
      exact hnot p hp hterm
  · simp [hraw, hout]

theorem getElem?_validateDestinations {raw : Std.ExtTreeMap String RawDestinations compare}
    {out} (h : validateDestinations raw = .ok out) (key : String) :
    out[key]? = raw[key]?.map RawDestinations.allow := by
  rcases checkAll_eq_ok h key with ⟨d, allow, hraw, hd, hout⟩ | ⟨hraw, hout⟩
  · obtain ⟨role, -, rfl⟩ := bind_pure_eq_ok.mp hd
    rw [hraw, hout, Option.map_some]
  · rw [hraw, hout, Option.map_none]

/-- The terms a subject's entry names; none when it is refused. -/
def subjectTermsOf (p : ActionPattern) : List String :=
  ((expand p).toOption.getD []).map Prod.fst

theorem mem_foldl_insertIfNew (grants : List Grant) (terms : Std.ExtTreeMap String String compare) :
    t ∈ grants.foldl (fun terms g ↦ terms.insertIfNew g.1 g.2) terms ↔
      t ∈ terms ∨ t ∈ grants.map Prod.fst := by
  induction grants generalizing terms with
  | nil => simp
  | cons g grants ih =>
    rw [foldl_cons, ih, mem_insertIfNew, map_cons, mem_cons, Std.LawfulEqCmp.compare_eq_iff_eq]
    tauto

theorem mem_foldlM_addTerms {acc out : Std.ExtTreeMap String String compare}
    (h : entries.foldlM addTerms acc = .ok out) :
    t ∈ out ↔ t ∈ acc ∨ ∃ p ∈ entries, t ∈ subjectTermsOf p := by
  induction entries generalizing acc with
  | nil =>
    obtain rfl := pure_eq_ok.mp h
    simp
  | cons p entries ih =>
    obtain ⟨acc', hacc', h⟩ := bind_eq_ok.mp h
    obtain ⟨terms, hterms, hacc'⟩ := bind_eq_ok.mp hacc'
    obtain rfl := pure_eq_ok.mp hacc'
    have hof : subjectTermsOf p = terms.map Prod.fst := by
      rw [subjectTermsOf, hterms]
      rfl
    rw [ih h, mem_foldl_insertIfNew, exists_mem_cons_iff, hof, or_assoc]

theorem mem_expandAll {out : Std.ExtTreeMap String String compare}
    (h : expandAll entries = .ok out) :
    t ∈ out ↔ ∃ p ∈ entries, t ∈ subjectTermsOf p := by
  rw [mem_foldlM_addTerms h]
  simp

/-! ### The subjects by uid -/

/-- The entry is the compiled form of what is written for the name. -/
def CompiledSubject (name : String) (written : SubjectPolicy) (entry : SubjectEntry) : Prop :=
  entry.name = name ∧ entry.permissions = written.permissions ∧ entry.models = written.models ∧
    subjectActions written.actions = .ok entry.actions

theorem foldlM_fileSubject {l : List (String × SubjectPolicy)}
    {acc out : Std.ExtTreeMap UInt32 SubjectEntry compare}
    (h : l.foldlM (fileSubject lookups) acc = .ok out) :
    out[uid]? = some entry ↔
      acc[uid]? = some entry ∨ ∃ m ∈ l, lookups[m.1]? = some (some uid) ∧
        CompiledSubject m.1 m.2 entry := by
  induction l generalizing acc with
  | nil =>
    obtain rfl := pure_eq_ok.mp h
    simp
  | cons m l ih =>
    obtain ⟨acc', hacc', h⟩ := bind_eq_ok.mp h
    obtain ⟨actions, hactions, hacc'⟩ := bind_eq_ok.mp hacc'
    rw [ih h, exists_mem_cons_iff, ← or_assoc]
    refine or_congr_left ?_
    split at hacc'
    · rename_i uid' hlookup
      split at hacc'
      · cases hacc'
      rename_i hfree
      obtain rfl := pure_eq_ok.mp hacc'
      rw [Std.ExtTreeMap.getElem?_insert, hlookup]
      simp only [Std.LawfulEqCmp.compare_eq_iff_eq]
      split_ifs with heq
      · subst heq
        rw [hfree]
        simp only [Option.some.injEq, reduceCtorEq, false_or, true_and, CompiledSubject, hactions,
          ok.injEq]
        constructor
        · rintro rfl
          exact ⟨rfl, rfl, rfl, rfl⟩
        · obtain ⟨name, permissions, actions', models⟩ := entry
          rintro ⟨rfl, rfl, rfl, rfl⟩
          rfl
      · simp [heq]
    · rename_i hno
      obtain rfl := pure_eq_ok.mp hacc'
      exact ⟨.inl, fun h ↦ h.elim id fun h ↦ absurd h.1 (hno uid)⟩

/-- **The compiled subjects**: the written entry of every name that resolves, under its uid. -/
theorem validateSubjects_eq_ok {policy}
    {out : Std.ExtTreeMap UInt32 SubjectEntry compare}
    (h : validateSubjects policy lookups = .ok out) :
    out[uid]? = some entry ↔ ∃ name written, policy.subjects[name]? = some written ∧
      lookups[name]? = some (some uid) ∧ CompiledSubject name written entry := by
  rw [foldlM_fileSubject h]
  simp only [getElem?_empty, reduceCtorEq, false_or]
  constructor
  · rintro ⟨⟨name, written⟩, hm, hlookup, hentry⟩
    exact ⟨name, written, mem_toList_iff_getElem?_eq_some.mp hm, hlookup, hentry⟩
  · rintro ⟨name, written, hm, hlookup, hentry⟩
    exact ⟨(name, written), mem_toList_iff_getElem?_eq_some.mpr hm, hlookup, hentry⟩

end Maknae.Authz
