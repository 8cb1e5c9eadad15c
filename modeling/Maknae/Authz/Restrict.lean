import Maknae.Authz.Narrower

/-!
# Restricting edits of the policy files

The edits an operator makes to restrict a policy, one constructor each. `AddsDeny` are the deny
entries that can be added; `Restricts` adds the edits that drop an allow entry, limit a subject or
contain an account. An entry is added or dropped at any position of its list, and the canonical
texts of the edited file, which are only digested, are whatever they are.

Every edit gives narrower files, so no edit permits a request that was not permitted
(`restriction_never_widens`). For dropped allow entries this needs the request to carry a valid
home: `~` entries make an evaluation without one fail, and dropping the last of them lets it answer.
-/

namespace Maknae.Authz

open Config hiding Request
open List hiding Vector
open Option Security StateGraph Std.ExtTreeMap

/-- The new list is the old one with one more entry. -/
def Adds {α : Type} (x : α) (old new : List α) : Prop :=
  ∃ before after, old = before ++ after ∧ new = before ++ x :: after

theorem Adds.subset {α : Type} {x} {old new : List α} (h : Adds x old new) : old ⊆ new := by
  obtain ⟨before, after, rfl, rfl⟩ := h
  exact append_subset.mpr ⟨subset_append_left _ _,
    fun y hy ↦ mem_append_right _ (mem_cons_of_mem x hy)⟩

/-! ### Edits of one section -/

/-- The canonical texts of the sections of a policy file. -/
abbrev SectionTexts := {texts : Std.ExtTreeMap String String compare // "bindings" ∉ texts}

namespace Files

variable (f : Files) (texts : SectionTexts)

def withPermissions (permissions : AuthzPolicy) : Files where
  policy := { f.policy with permissions, sections := texts.1, bindings_moved := texts.2 }
  bindings := f.bindings

def withGrants (key : String) (grants : RawActionGrants) : Files where
  policy := { f.policy with
    actionGrants := f.policy.actionGrants.insert key grants
    sections := texts.1
    bindings_moved := texts.2 }
  bindings := f.bindings

def withDestinations (key : String) (allow : List String) : Files where
  policy := { f.policy with
    destinations := f.policy.destinations.insert key ⟨allow⟩
    sections := texts.1
    bindings_moved := texts.2 }
  bindings := f.bindings

def withSubject (name : String) (subject : SubjectPolicy) : Files where
  policy := { f.policy with
    subjects := f.policy.subjects.insert name subject
    sections := texts.1
    bindings_moved := texts.2 }
  bindings := f.bindings

def withBindings (bindings : BindingsFile) : Files := { f with bindings }

end Files

/-- A deny entry is added: to the site's list, to the list of a subject with its own set, to a
role's grants, or to a subject's actions limit. -/
inductive AddsDeny (f : Files) : Files → Prop
  | site {texts : SectionTexts} {p : Pattern} {permissions : AuthzPolicy}
      (hdeny : Adds p f.policy.permissions.deny permissions.deny)
      (hallow : permissions.allow = f.policy.permissions.allow) :
      AddsDeny f (f.withPermissions texts permissions)
  | subject {texts : SectionTexts} {name : String} {s : SubjectPolicy} {p : Pattern}
      {set set' : SubjectPermissions} (hs : f.policy.subjects[name]? = some s)
      (hset : s.permissions = some set) (hdeny : Adds p set.deny set'.deny)
      (hallow : set'.allow = set.allow) :
      AddsDeny f (f.withSubject texts name { s with permissions := some set' })
  | role {texts : SectionTexts} {key : String} {p : ActionPattern} {deny : List ActionPattern}
      (hdeny : Adds p (grantsAt f.policy.actionGrants key).deny deny) :
      AddsDeny f (f.withGrants texts key { grantsAt f.policy.actionGrants key with deny })
  | limit {texts : SectionTexts} {name : String} {s : SubjectPolicy} {limit : SubjectActions}
      {p : ActionPattern} {deny : List ActionPattern} (hs : f.policy.subjects[name]? = some s)
      (hlimit : s.actions = some limit) (hdeny : Adds p limit.deny deny) :
      AddsDeny f (f.withSubject texts name { s with actions := some { limit with deny } })

/-- A restriction: a deny entry is added, an allow entry is dropped from one of the lists, a subject
without a limit gets one, or an account is listed under `adversary`. -/
inductive Restricts (f : Files) : Files → Prop
  | deny {f' : Files} (h : AddsDeny f f') : Restricts f f'
  | siteAllow {texts : SectionTexts} {p : Pattern} {permissions : AuthzPolicy}
      (hallow : Adds p permissions.allow f.policy.permissions.allow)
      (hdeny : permissions.deny = f.policy.permissions.deny) :
      Restricts f (f.withPermissions texts permissions)
  | subjectAllow {texts : SectionTexts} {name : String} {s : SubjectPolicy} {p : Pattern}
      {set set' : SubjectPermissions} (hs : f.policy.subjects[name]? = some s)
      (hset : s.permissions = some set) (hallow : Adds p set'.allow set.allow)
      (hdeny : set'.deny = set.deny) :
      Restricts f (f.withSubject texts name { s with permissions := some set' })
  | roleAllow {texts : SectionTexts} {key : String} {p : ActionPattern}
      {allow : List ActionPattern}
      (hallow : Adds p allow (grantsAt f.policy.actionGrants key).allow) :
      Restricts f (f.withGrants texts key { grantsAt f.policy.actionGrants key with allow })
  | destination {texts : SectionTexts} {key d : String} {allow : List String}
      (hallow : Adds d allow (destinationsAt f.policy.destinations key)) :
      Restricts f (f.withDestinations texts key allow)
  | addActions {texts : SectionTexts} {name : String} (limit : SubjectActions)
      (hnone : (subjectAt f.policy.subjects name).actions = none) :
      Restricts f (f.withSubject texts name
        { subjectAt f.policy.subjects name with actions := some limit })
  | addModels {texts : SectionTexts} {name : String} (listed : List ModelRef)
      (hnone : (subjectAt f.policy.subjects name).models = none) :
      Restricts f (f.withSubject texts name
        { subjectAt f.policy.subjects name with models := some listed })
  | limitActions {texts : SectionTexts} {name : String} {s : SubjectPolicy}
      {limit : SubjectActions} {p : ActionPattern} {allow : List ActionPattern}
      (hs : f.policy.subjects[name]? = some s) (hlimit : s.actions = some limit)
      (hallow : Adds p allow limit.allow) :
      Restricts f (f.withSubject texts name { s with actions := some { limit with allow } })
  | limitModels {texts : SectionTexts} {name : String} {s : SubjectPolicy} {m : ModelRef}
      {listed listed' : List ModelRef} (hs : f.policy.subjects[name]? = some s)
      (hmodels : s.models = some listed) (hallow : Adds m listed' listed) :
      Restricts f (f.withSubject texts name { s with models := some listed' })
  | adversary {bindings : BindingsFile} {e : BindingEntry} {entries : List BindingEntry}
      (hadds : Adds e (entriesAt f.bindings.roles adversary) entries)
      (hroles : bindings.roles = some ((f.bindings.roles.getD ∅).insert adversary entries)) :
      Restricts f (f.withBindings bindings)

/-! ### Every edit is narrower -/

theorem NarrowerLists.refl {α : Type} (bound : Prop) (allow deny : List α) :
    NarrowerLists bound allow deny allow deny :=
  ⟨List.Subset.refl _, List.Subset.refl _, .inr (List.Subset.refl _)⟩

theorem Narrower.refl (bound : Prop) (f : Files) : Narrower bound f f where
  site := .refl bound _ _
  grants _ := .refl True _ _
  destinations _ := List.Subset.refl _
  named _ := id
  subjects _ := .refl bound _
  bindings := ⟨id, List.Subset.refl _, fun _ _ ↦ rfl⟩

section Sections

variable {bound : Prop} {f : Files} {texts : SectionTexts}

theorem narrower_withPermissions {permissions}
    (h : NarrowerLists bound permissions.allow permissions.deny f.policy.permissions.allow
      f.policy.permissions.deny) :
    Narrower bound (f.withPermissions texts permissions) f :=
  { Narrower.refl bound f with site := h }

variable {key : String} {name : String}

theorem narrower_withGrants {grants}
    (h : NarrowerLists True grants.allow grants.deny (grantsAt f.policy.actionGrants key).allow
    (grantsAt f.policy.actionGrants key).deny) :
    Narrower bound (f.withGrants texts key grants) f := by
  refine { Narrower.refl bound f with grants := fun n ↦ ?_ }
  have hat : grantsAt (f.withGrants texts key grants).policy.actionGrants n =
      if n = key then grants else grantsAt f.policy.actionGrants n := by
    rw [grantsAt, Files.withGrants, getElem?_insert_ite]
    split_ifs <;> rfl
  rw [hat]
  split_ifs with hn
  · rw [hn]
    exact h
  · exact .refl True _ _

theorem narrower_withDestinations {allow}
    (h : allow ⊆ destinationsAt f.policy.destinations key) :
    Narrower bound (f.withDestinations texts key allow) f := by
  refine { Narrower.refl bound f with destinations := fun n ↦ ?_ }
  have hat : destinationsAt (f.withDestinations texts key allow).policy.destinations n =
      if n = key then allow else destinationsAt f.policy.destinations n := by
    rw [destinationsAt, Files.withDestinations, getElem?_insert_ite]
    split_ifs <;> rfl
  rw [hat]
  split_ifs with hn
  · rw [hn]
    exact h
  · exact List.Subset.refl _

theorem narrower_withSubject {subject}
    (h : NarrowerSubject bound subject (subjectAt f.policy.subjects name)) :
    Narrower bound (f.withSubject texts name subject) f := by
  refine { Narrower.refl bound f with
    named := fun n hn ↦ mem_insert.mpr (.inr hn)
    subjects := fun n ↦ ?_ }
  have hat : subjectAt (f.withSubject texts name subject).policy.subjects n =
      if n = name then subject else subjectAt f.policy.subjects n := by
    rw [subjectAt, Files.withSubject, getElem?_insert_ite]
    split_ifs <;> rfl
  rw [hat]
  split_ifs with hn
  · rw [hn]
    exact h
  · exact .refl bound _

theorem narrower_withSubject_of_written {written subject}
    (hwritten : f.policy.subjects[name]? = some written)
    (h : NarrowerSubject bound subject written) :
    Narrower bound (f.withSubject texts name subject) f := by
  refine narrower_withSubject ?_
  rw [subjectAt, hwritten]
  exact h

/-- Listing one more account under `adversary` leaves the other roles as they are. -/
theorem narrower_withBindings {bindings : BindingsFile} {entries : List BindingEntry}
    (hsub : entriesAt f.bindings.roles adversary ⊆ entries)
    (hroles : bindings.roles = some ((f.bindings.roles.getD ∅).insert adversary entries)) :
    Narrower bound (f.withBindings bindings) f := by
  refine { Narrower.refl bound f with bindings := ⟨fun hnone ↦ ?_, ?_, fun r hr ↦ ?_⟩ }
  · rw [show (f.withBindings bindings).bindings.roles = bindings.roles from rfl, hroles] at hnone
    cases hnone
  · show _ ⊆ entriesAt bindings.roles adversary
    have hat : entriesAt bindings.roles adversary = entries := by
      rw [hroles, entriesAt, bind_some, getElem?_insert_self, getD_some]
    rw [hat]
    exact hsub
  · show entriesAt bindings.roles r.key = _
    have hne : r.key ≠ adversary := fun h ↦ hr (Role.key_injective h)
    rw [hroles, entriesAt, bind_some, getElem?_insert_ite, if_neg hne]
    cases f.bindings.roles <;> simp [entriesAt]

end Sections

section Subject

variable {bound : Prop} {s : SubjectPolicy}

theorem narrowerSubject_permissions {set set'} (hset : s.permissions = some set)
    (h : NarrowerLists bound set'.allow set'.deny set.allow set.deny) :
    NarrowerSubject bound { s with permissions := some set' } s := by
  refine { NarrowerSubject.refl bound s with
    own := by simp [hset]
    permissions := fun p' hp' p hp ↦ ?_ }
  cases hp'
  cases hset.symm.trans hp
  exact h

theorem narrowerSubject_actions {limit'}
    (h : ∀ limit ∈ s.actions, NarrowerLists True limit'.allow limit'.deny limit.allow limit.deny) :
    NarrowerSubject bound { s with actions := some limit' } s :=
  { NarrowerSubject.refl bound s with actions := fun limit hl ↦ ⟨limit', rfl, h limit hl⟩ }

theorem narrowerSubject_models {listed'} (h : ∀ listed ∈ s.models, listed' ⊆ listed) :
    NarrowerSubject bound { s with models := some listed' } s :=
  { NarrowerSubject.refl bound s with models := fun listed hl ↦ ⟨listed', rfl, h listed hl⟩ }

end Subject

theorem AddsDeny.narrower {f f'} (h : AddsDeny f f') (bound : Prop) : Narrower bound f' f := by
  cases h with
  | site hdeny hallow =>
    exact narrower_withPermissions (hallow ▸ ⟨hdeny.subset, List.Subset.refl _,
      .inr (List.Subset.refl _)⟩)
  | subject hs hset hdeny hallow =>
    refine narrower_withSubject_of_written hs (narrowerSubject_permissions hset ?_)
    exact hallow ▸ ⟨hdeny.subset, List.Subset.refl _, .inr (List.Subset.refl _)⟩
  | role hdeny => exact narrower_withGrants ⟨hdeny.subset, List.Subset.refl _, .inl trivial⟩
  | limit hs hlimit hdeny =>
    refine narrower_withSubject_of_written hs (narrowerSubject_actions fun l hl ↦ ?_)
    cases hlimit.symm.trans hl
    exact ⟨hdeny.subset, List.Subset.refl _, .inl trivial⟩

theorem Restricts.narrower {f f'} (h : Restricts f f') : Narrower True f' f := by
  cases h with
  | deny h => exact h.narrower True
  | siteAllow hallow hdeny =>
    exact narrower_withPermissions (hdeny ▸ ⟨List.Subset.refl _, hallow.subset, .inl trivial⟩)
  | subjectAllow hs hset hallow hdeny =>
    refine narrower_withSubject_of_written hs (narrowerSubject_permissions hset ?_)
    exact hdeny ▸ ⟨List.Subset.refl _, hallow.subset, .inl trivial⟩
  | roleAllow hallow => exact narrower_withGrants ⟨List.Subset.refl _, hallow.subset, .inl trivial⟩
  | destination hallow => exact narrower_withDestinations hallow.subset
  | addActions limit hnone =>
    refine narrower_withSubject (narrowerSubject_actions fun l hl ↦ ?_)
    rw [hnone] at hl
    cases hl
  | addModels listed hnone =>
    refine narrower_withSubject (narrowerSubject_models fun l hl ↦ ?_)
    rw [hnone] at hl
    cases hl
  | limitActions hs hlimit hallow =>
    refine narrower_withSubject_of_written hs (narrowerSubject_actions fun l hl ↦ ?_)
    cases hlimit.symm.trans hl
    exact ⟨List.Subset.refl _, hallow.subset, .inl trivial⟩
  | limitModels hs hmodels hallow =>
    refine narrower_withSubject_of_written hs (narrowerSubject_models fun l hl ↦ ?_)
    cases hmodels.symm.trans hl
    exact hallow.subset
  | adversary hadds hroles => exact narrower_withBindings hadds.subset hroles

/-- **A restriction never widens.** The old files and the edited ones are installed on one host,
from the same persisted layer or one after the other. A request permitted after the edit was
permitted before it: for an added deny entry every request, for the other restrictions every request
that carries a valid home. -/
theorem restriction_never_widens {host : String → Lookup} {old new : Files}
    {persisted persisted' : IdentityLayer} (before : Installation host old persisted)
    (after : Installation host new persisted')
    (hpersisted : persisted' = persisted ∨ persisted' = before.stored.layer)
    (principal : Principal) (req : Request) :
    (AddsDeny old new → (decideLoadedCited after.snap.loaded principal req).verdict.IsPermit →
      (decideLoadedCited before.snap.loaded principal req).verdict.IsPermit) ∧
    (Restricts old new → HasValidHome req →
      (decideLoadedCited after.snap.loaded principal req).verdict.IsPermit →
      (decideLoadedCited before.snap.loaded principal req).verdict.IsPermit) := by
  constructor
  · intro hedit
    exact isPermit_of_narrowerLoaded
      ((hedit.narrower False).loaded after before hpersisted principal) False.elim
  · intro hedit hhome
    exact isPermit_of_narrowerLoaded (hedit.narrower.loaded after before hpersisted principal)
      fun _ ↦ hhome

/-! ### A restricted installation -/

/-- Install files on a host: load them, carry the persisted containments forward, build the graph of
the layer and compile the snapshot. -/
def Files.install (f : Files) (host : String → Lookup) (persisted : IdentityLayer)
    (label : String) (digest : String → Digest) : Option (Installation host f persisted) :=
  match hload : PolicyInput.load f.policy f.bindings host "/etc/maknae/authz.yaml"
      "/etc/maknae/bindings.yaml" with
  | .error _ => none
  | .ok input =>
    match hbuild : Identity.build (nextLayer persisted ⟨input.toPolicySource, label,
        (input.sectionDigests digest)["bindings"]?⟩) none none (persistedCompiledSet label)
        (digest "") 1 .seed with
    | .error _ => none
    | .ok graph =>
      match hextract : Identity.extract graph with
      | .error _ => none
      | .ok stored =>
        if hlayer : stored.layer = nextLayer persisted ⟨input.toPolicySource, label,
            (input.sectionDigests digest)["bindings"]?⟩ then
          match hcompile : compile graph input (persistedCompiledSet label)
              (input.sectionDigests digest) with
          | .error _ => none
          | .ok snap => some {
              policySource := "/etc/maknae/authz.yaml"
              identitySource := "/etc/maknae/bindings.yaml"
              input, label, digest, graph, stored, snap
              vocabulary := persistedCompiledSet label
              load_eq := hload
              built := by
                obtain ⟨⟨b, -, -, hbuilt⟩, -⟩ := exists_written hbuild
                exact ⟨b, _, _, hbuilt⟩
              extract_eq := hextract
              layer_eq := hlayer
              compile_eq := hcompile }
        else none

def readingTexts : SectionTexts := ⟨.ofList [("permissions", "reading")] compare, by decide⟩

/-- Everything may be read but what is denied. -/
def readingPermissions (deny : List Pattern) (denySources : List String) : AuthzPolicy :=
  ⟨[.read (.compile .root "/**")], deny, ["Read(/**)"], denySources⟩

def readingFiles : Files where
  policy := ⟨readingPermissions [] [], ∅, ∅, ∅, readingTexts.1, readingTexts.2⟩
  bindings := ⟨.absent, none, rfl⟩

/-- The same with the reads of `/etc` denied. -/
def etcDeniedFiles : Files :=
  readingFiles.withPermissions readingTexts
    (readingPermissions [.read (.compile .root "/etc/**")] ["Read(/etc/**)"])

/-- The same with a second allow entry, for the reads below a home. -/
def homeReadingFiles : Files :=
  readingFiles.withPermissions readingTexts
    ⟨[.read (.compile .root "/**"), .read (.compile .home "/**")], [],
      ["Read(/**)", "Read(~/**)"], []⟩

/-- The files installed on a fresh host. -/
def readingInstall (f : Files) :
    Option (Installation (fun _ ↦ .absent) f ⟨"/etc/maknae/bindings.yaml", "U", none, [], ∅⟩) :=
  f.install _ _ "U" fun _ ↦ Vector.replicate 32 0

/-- A local request to read a log file, with no home. -/
def readLog : Request where
  subject := (∅ : Attributes).insert subjectUid (.int 501)
  resource := (∅ : Attributes).insert resourcePath (.str "/var/log/syslog")
  action := "fs.read"
  context := ((∅ : Attributes).insert contextDacLane (.str "local")).insert contextFsOperation
    (.str "read")

/-- The same from a session that knows the home. -/
def readLogFromHome : Request :=
  { readLog with subject := readLog.subject.insert subjectHome (.str "/home/alex") }

/-- The enrolled principal may read the log once the reads of `/etc` are denied, so it might before;
and once the allow entry for homes is dropped, so it might with it. -/
theorem restriction_never_widens_readLog :
    (∃ before, readingInstall readingFiles = some before ∧
      (decideLoadedCited before.snap.loaded ⟨501⟩ readLog).verdict.IsPermit) ∧
    ∃ before, readingInstall homeReadingFiles = some before ∧
      (decideLoadedCited before.snap.loaded ⟨501⟩ readLogFromHome).verdict.IsPermit := by
  have hinstall : (readingInstall readingFiles).isSome = true ∧
      (readingInstall homeReadingFiles).isSome = true := by decide +kernel
  have hdenied : ((readingInstall etcDeniedFiles).any fun after ↦
      decide (decideLoadedCited after.snap.loaded ⟨501⟩ readLog).verdict.IsPermit) = true := by
    decide +kernel
  have hdropped : ((readingInstall readingFiles).any fun after ↦
      decide (decideLoadedCited after.snap.loaded ⟨501⟩ readLogFromHome).verdict.IsPermit) =
        true := by decide +kernel
  have hdeny : AddsDeny readingFiles etcDeniedFiles :=
    .site (p := .read (.compile .root "/etc/**")) ⟨[], [], rfl, rfl⟩ rfl
  have hdrop : Restricts homeReadingFiles readingFiles :=
    @Restricts.siteAllow homeReadingFiles readingTexts (.read (.compile .home "/**"))
      (readingPermissions [] []) ⟨[.read (.compile .root "/**")], [], rfl, rfl⟩ rfl
  obtain ⟨before, hbefore⟩ := isSome_iff_exists.mp hinstall.1
  obtain ⟨before', hbefore'⟩ := isSome_iff_exists.mp hinstall.2
  obtain ⟨after, -, hpermit⟩ := any_eq_true _ _ |>.mp hdenied
  obtain ⟨after', -, hpermit'⟩ := any_eq_true _ _ |>.mp hdropped
  refine ⟨⟨before, hbefore, ?_⟩, before', hbefore', ?_⟩
  · exact (restriction_never_widens before after (.inl rfl) ⟨501⟩ readLog).1 hdeny
      (of_decide_eq_true hpermit)
  · exact (restriction_never_widens before' after' (.inl rfl) ⟨501⟩ readLogFromHome).2 hdrop
      ⟨"/home/alex", by decide, by decide⟩ (of_decide_eq_true hpermit')

end Maknae.Authz
