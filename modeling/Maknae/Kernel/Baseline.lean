import Maknae.Config.BaselineDoc
import Maknae.State.Envelope

/-!
# The baseline a boot runs

The daemon runs the configuration that was accepted, not the one in its files. Three sections follow
the file at a start all the same: `vault`, `deployment` and `audit`, the last with the readers of
the accepted section. What else the file says is pending until it is accepted.

The mixture that is run is a new set of sections, and the next boot finds it as the accepted one. So
the readers have to be read from a text that was put together from two (`readersOf_auditFollowed`),
and following the file a second time must change nothing (`auditFollowed_auditFollowed`).
-/

namespace Maknae.Kernel

open Config List Option StateGraph Std.ExtTreeMap

/-- When a change takes effect. -/
inductive Apply
  | live
  | restart
deriving DecidableEq, Repr

/-- A change that waits to be accepted. -/
inductive PendingState
  | valid (proposed : BaselineSections) (apply : Apply) (sections : List String)
  | invalid (cause : String) (proposed : Option BaselineSections)
deriving DecidableEq

/-- A file that did not parse, or parsed and did not validate. -/
structure InvalidFile where
  cause : String
  proposed : Option BaselineSections

structure PendingSet where
  source : String
  hash : String
  state : PendingState
deriving DecidableEq

/-- What a boot comes to. -/
structure Start where
  /-- What the process runs and persists as the accepted baseline. -/
  run : BaselineSections
  events : List String
  pending : Option PendingSet

def rootFile : String := "root-file"

/-- The sections that a boot takes from the file. -/
def followedAtBoot : List String := ["audit", "deployment", "vault"]

def seededEvent : String :=
  "baseline seeded from maknae.yaml and config.d (no accepted baseline yet)"

/-! ### The pending change -/

section Pending

variable (sha256 : List UInt8 → Digest) (parseJson : String → Option Value)

def sectionsValue (s : BaselineSections) : Value := .map (s.toList.map fun (k, v) ↦ (k, .str v))

/-- The digest of what was accepted. -/
def acceptedDigest (s : BaselineSections) : Digest :=
  sha256 (utf8Bytes (canonicalJson (sectionsValue s)))

/-- The hash that an operator accepts a change by. -/
def changeSetHash (accepted : BaselineSections) (state : PendingState) : String :=
  let doc : List (String × Value) :=
    [("accepted", .str (hex (acceptedDigest sha256 accepted))), ("source", .str rootFile)]
  let (doc, proposed) : List (String × Value) × Option BaselineSections :=
    match state with
    | .valid proposed _ _ => (doc, some proposed)
    | .invalid cause proposed => (doc ++ [("invalid", .str cause)], proposed)
  let doc := doc ++ (proposed.map fun p ↦ ("proposed", sectionsValue p)).toList
  hex (sha256 (utf8Bytes (canonicalJson (.map doc))))

def changedSections (a b : BaselineSections) : List String :=
  let names : Std.ExtTreeSet String compare := .ofList (a.keys ++ b.keys) compare
  names.toList.filter fun n ↦ a[n]? ≠ b[n]?

def nonEmptySeq (text : Option String) : Bool :=
  match text.bind (valueFromCanonicalJson parseJson) with
  | some (.seq items) => !items.isEmpty
  | _ => false

def isEmptyMap : Value → Bool
  | .map entries => entries.isEmpty
  | _ => false

/-- Removes the key at a path, and an intermediate map that this removal empties; the answer says
whether a key was removed. -/
def removePath : List String → Value → Value × Bool
  | key :: rest, .map entries =>
    match entries.findIdx? (·.1 == key) with
    | none => (.map entries, false)
    | some pos =>
      if rest = [] then (.map (entries.eraseIdx pos), true)
      else
        match entries[pos]? with
        | none => (.map entries, false)
        | some (k, child) =>
          let (child, removed) := removePath rest child
          (.map (if removed && isEmptyMap child then entries.eraseIdx pos
            else entries.set pos (k, child)), removed)
  | _, v => (v, false)

def equalWithout (old new : Option String) (path : List String) : Bool :=
  let strip (text : Option String) : Option String := do
    let v ← valueFromCanonicalJson parseJson (← text)
    return canonicalJson (removePath path v).1
  match strip old, strip new with
  | some o, some n => o == n
  | _, _ => false

/-- A change is live if each of its sections can be. -/
def applyOf (a b : BaselineSections) : Apply :=
  let live := (changedSections a b).all fun name ↦
    if name = "principal" then true
    else if name = "providers" then nonEmptySeq parseJson a[name]? && nonEmptySeq parseJson b[name]?
    else if name = "audit" then equalWithout parseJson a[name]? b[name]? ["readers"]
    else false
  if live then .live else .restart

/-- The change that a file proposes. -/
def pending (accepted : BaselineSections) (file : Except InvalidFile BaselineSections) :
    Option PendingSet :=
  let found (state : PendingState) : Option PendingSet :=
    some ⟨rootFile, changeSetHash sha256 accepted state, state⟩
  match file with
  | .ok f =>
    if f = accepted then none
    else found (.valid f (applyOf parseJson accepted f) (changedSections accepted f))
  | .error invalid => found (.invalid invalid.cause invalid.proposed)

/-! ### The boot -/

/-- The readers of an audit section, with their key. -/
def readersOf (audit : Option String) : Option (String × Value) :=
  match audit.bind (valueFromCanonicalJson parseJson) with
  | some (.map entries) => entries.find? (·.1 == "readers")
  | _ => none

/-- The members of an audit section with other readers in it. -/
def withReaders (entries : List (String × Value)) (readers : Option (String × Value)) :
    List (String × Value) :=
  entries.filter (·.1 != "readers") ++ readers.toList

/-- The file's audit section with the accepted readers, or the accepted section when the file's is
not a map. -/
def auditFollowed (file accepted : Option String) : Option String :=
  let readers := readersOf parseJson accepted
  match file.map (valueFromCanonicalJson parseJson) with
  | some none => accepted
  | none =>
    if readers.isNone then none else some (canonicalJson (.map (withReaders [] readers)))
  | some (some (.map entries)) => some (canonicalJson (.map (withReaders entries readers)))
  | some (some _) => accepted

/-- A section that follows the file. -/
def followed (acc f : BaselineSections) (name : String) : Option String :=
  if name = "audit" then auditFollowed parseJson f[name]? acc[name]? else f[name]?

def follow (acc f : BaselineSections) (mix : BaselineSections) (name : String) :
    BaselineSections :=
  match followed parseJson acc f name with
  | some v => mix.insert name v
  | none => mix.erase name

/-- The accepted sections with those that follow the file. -/
def mixture (acc f : BaselineSections) : BaselineSections :=
  followedAtBoot.foldl (follow parseJson acc f) acc

/-- The sections that a boot says have followed the file. -/
def followEvents (acc mix : BaselineSections) : List String :=
  (followedAtBoot.filter fun n ↦ acc[n]? ≠ mix[n]?).map fun n ↦ s!"{n} follows maknae.yaml at start"

/-- What a start runs, given what was accepted and the file. -/
def atBoot (accepted : Option BaselineSections) (file : Except InvalidFile BaselineSections)
    (mixValid : BaselineSections → Except String Unit) : Except String Start :=
  match accepted with
  | none =>
    match file with
    | .ok f => .ok ⟨f, [seededEvent], none⟩
    | .error invalid => .error invalid.cause
  | some acc =>
    match file with
    | .error invalid => .ok ⟨acc, [], pending sha256 parseJson acc (.error invalid)⟩
    | .ok f =>
      let mix := mixture parseJson acc f
      match mixValid mix with
      | .error cause =>
        let cause :=
          if mix = acc then s!"the accepted baseline no longer validates: {cause}"
          else s!"the file's vault, audit and deployment sections cannot start: {cause}"
        .ok ⟨acc, [], pending sha256 parseJson acc (.error ⟨cause, some f⟩)⟩
      | .ok () =>
        .ok ⟨mix, followEvents acc mix, pending sha256 parseJson mix (.ok f)⟩

end Pending

/-! ### The readers -/

section Readers

variable {parseJson : String → Option Value} {file accepted : Option String}

theorem exists_of_readersOf {r : String × Value} (h : readersOf parseJson accepted = some r) :
    r.1 = "readers" ∧ ∃ s es, valueFromCanonicalJson parseJson s = some (.map es) ∧ r ∈ es := by
  unfold readersOf at h
  split at h
  · next entries hvalue =>
    obtain ⟨s, -, hs⟩ := bind_eq_some_iff.mp hvalue
    exact ⟨by simpa using find?_some h, s, entries, hs, mem_of_find?_eq_some h⟩
  · cases h

theorem readersOf_withReaders (hreader : ReadsMembers parseJson) {entries : List (String × Value)}
    (hordered : entries.Pairwise fun a b ↦ a.1 < b.1)
    (hmembers : ∀ e ∈ entries, ∃ s es,
      valueFromCanonicalJson parseJson s = some (.map es) ∧ e ∈ es) :
    readersOf parseJson
        (some (canonicalJson (.map (withReaders entries (readersOf parseJson accepted))))) =
      readersOf parseJson accepted := by
  have hrest : ∀ e ∈ entries.filter (·.1 != "readers"), e.1 ≠ "readers" := fun e he ↦ by
    simpa using (mem_filter.mp he).2
  have hnodup : ((entries.filter (·.1 != "readers")).map Prod.fst).Nodup :=
    pairwise_map.mpr ((hordered.filter _).imp ne_of_lt)
  have hknown : ∀ e ∈ entries.filter (·.1 != "readers"), ∃ s es,
      valueFromCanonicalJson parseJson s = some (.map es) ∧ e ∈ es := fun e he ↦
    hmembers e (mem_filter.mp he).1
  cases hr : readersOf parseJson accepted with
  | none =>
    rw [withReaders, toList_none, append_nil]
    simp only [readersOf, bind_some, valueFromCanonicalJson_map hreader hnodup hknown]
    exact find?_eq_none.mpr fun e he ↦ by simpa using hrest e (mem_sortByKey.mp he)
  | some r =>
    obtain ⟨hkey, hfound⟩ := exists_of_readersOf hr
    have hnodup' : ((withReaders entries (some r)).map Prod.fst).Nodup := by
      rw [withReaders, map_append]
      refine nodup_append.mpr ⟨hnodup, nodup_singleton _, fun a ha b hb ↦ ?_⟩
      obtain ⟨e, he, rfl⟩ := mem_map.mp ha
      rw [mem_singleton.mp hb, hkey]
      exact hrest e he
    have hmem : r ∈ withReaders entries (some r) :=
      mem_append_right _ (mem_singleton_self r)
    simp only [readersOf, bind_some, valueFromCanonicalJson_map hreader hnodup' fun e he ↦
      (mem_append.mp he).elim (hknown e) fun he ↦ mem_singleton.mp he ▸ hfound]
    -- no other member has the key of the readers
    obtain ⟨e, he⟩ : ∃ e, (sortByKey Prod.fst (withReaders entries (some r))).find?
        (·.1 == "readers") = some e :=
      isSome_iff_exists.mp (find?_isSome.mpr ⟨r, mem_sortByKey.mpr hmem, by simp [hkey]⟩)
    have hkeys : e.1 = r.1 := by
      rw [hkey]
      simpa using find?_some he
    rw [he, eq_of_key_eq (pairwise_map.mp hnodup')
      (mem_sortByKey.mp (mem_of_find?_eq_some he)) hmem hkeys]

/-- The readers are the accepted ones. -/
theorem readersOf_auditFollowed (hreader : ReadsMembers parseJson) :
    readersOf parseJson (auditFollowed parseJson file accepted) = readersOf parseJson accepted := by
  unfold auditFollowed
  dsimp only
  split
  · rfl
  · split_ifs with hnone
    · exact (isNone_iff_eq_none.mp hnone).symm
    · exact readersOf_withReaders hreader List.Pairwise.nil nofun
  · next entries hvalue =>
    obtain ⟨s, -, hs⟩ := map_eq_some_iff.mp hvalue
    exact readersOf_withReaders hreader (hreader.ordered hs) fun e he ↦ ⟨s, entries, hs, he⟩
  · rfl

/-- Of the accepted section, only the readers matter, or it stays as it is. -/
theorem auditFollowed_cases (parseJson : String → Option Value) (file : Option String) :
    (∀ accepted, auditFollowed parseJson file accepted = accepted) ∨
      ∀ a b, readersOf parseJson a = readersOf parseJson b →
        auditFollowed parseJson file a = auditFollowed parseJson file b := by
  cases hvalue : file.map (valueFromCanonicalJson parseJson) with
  | none => exact .inr fun a b h ↦ by simp only [auditFollowed, hvalue, h]
  | some read =>
    rcases read with - | v
    · exact .inl fun a ↦ by simp only [auditFollowed, hvalue]
    · cases v with
      | map entries => exact .inr fun a b h ↦ by simp only [auditFollowed, hvalue, h]
      | null | bool | int | float | str | seq =>
        exact .inl fun a ↦ by simp only [auditFollowed, hvalue]

/-- **Following the file again changes nothing.** -/
theorem auditFollowed_auditFollowed (hreader : ReadsMembers parseJson) :
    auditFollowed parseJson file (auditFollowed parseJson file accepted) =
      auditFollowed parseJson file accepted := by
  rcases auditFollowed_cases parseJson file with hkept | hreaders
  · exact hkept _
  · exact hreaders _ _ (readersOf_auditFollowed hreader)

end Readers

/-! ### The mixture -/

section Mixture

variable {parseJson : String → Option Value} {acc f : BaselineSections}

theorem getElem?_follow (mix : BaselineSections) (name n : String) :
    (follow parseJson acc f mix name)[n]? =
      if n = name then followed parseJson acc f name else mix[n]? := by
  unfold follow
  by_cases hn : n = name
  · subst hn
    split <;> simp_all
  · have hne : name ≠ n := Ne.symm hn
    split <;> simp [Std.ExtTreeMap.getElem?_insert, Std.ExtTreeMap.getElem?_erase, hn, hne]

theorem getElem?_foldl_follow (names : List String) (mix : BaselineSections) (n : String) :
    (names.foldl (follow parseJson acc f) mix)[n]? =
      if n ∈ names then followed parseJson acc f n else mix[n]? := by
  induction names generalizing mix with
  | nil => simp
  | cons name names ih =>
    rw [foldl_cons, ih, getElem?_follow]
    by_cases hn : n ∈ names
    · simp [hn]
    · by_cases hname : n = name
      · simp [hname]
      · simp [hname]

theorem getElem?_mixture (n : String) : (mixture parseJson acc f)[n]? =
    if n ∈ followedAtBoot then followed parseJson acc f n else acc[n]? :=
  getElem?_foldl_follow followedAtBoot acc n

theorem getElem?_mixture_audit : (mixture parseJson acc f)["audit"]? =
    auditFollowed parseJson f["audit"]? acc["audit"]? := by
  rw [getElem?_mixture, if_pos (by decide), followed, if_pos rfl]

/-- The mixture of a mixture with the same file. -/
theorem mixture_mixture (hreader : ReadsMembers parseJson) :
    mixture parseJson (mixture parseJson acc f) f = mixture parseJson acc f := by
  refine ext_getElem? fun n ↦ ?_
  rw [getElem?_mixture]
  split_ifs with hn
  · rw [getElem?_mixture, followed, followed]
    split_ifs with haudit
    · subst haudit
      rw [getElem?_mixture_audit, auditFollowed_auditFollowed hreader]
    · rfl
  · rfl

end Mixture

/-! ### Two boots -/

variable {sha256 : List UInt8 → Digest} {parseJson : String → Option Value}

theorem pending_eq_none_iff {accepted f} :
    pending sha256 parseJson accepted (.ok f) = none ↔ f = accepted := by
  unfold pending
  dsimp only
  split_ifs with hf
  · exact iff_of_true rfl hf
  · exact iff_of_false (fun h ↦ nomatch h) hf

theorem followEvents_self (acc : BaselineSections) : followEvents acc acc = [] := by
  simp [followEvents]

/-- What differs in the mixture is told. -/
theorem followEvents_mixture_ne_nil {acc f}
    (h : mixture parseJson acc f ≠ acc) : followEvents acc (mixture parseJson acc f) ≠ [] := by
  intro hnil
  refine h (ext_getElem? fun n ↦ ?_)
  rw [followEvents, map_eq_nil_iff, filter_eq_nil_iff] at hnil
  by_cases hn : n ∈ followedAtBoot
  · have hsame := hnil n hn
    rw [decide_eq_true_iff, not_not] at hsame
    exact hsame.symm
  · rw [getElem?_mixture, if_neg hn]

/-- **The daemon runs what was accepted.** A boot on an accepted baseline runs it, apart from the
sections that follow the file and with the accepted readers in them. What it runs instead has been
validated and is told, and what the file says beyond that is pending. A second boot, on what the
first one ran, does the same and has nothing to tell. -/
theorem boot_runs_accepted (sha256 : List UInt8 → Digest) (hreader : ReadsMembers parseJson)
    (acc : BaselineSections) (file : Except InvalidFile BaselineSections)
    (mixValid : BaselineSections → Except String Unit) :
    ∃ start, atBoot sha256 parseJson (some acc) file mixValid = .ok start ∧
      (∀ n, n ∉ followedAtBoot → start.run[n]? = acc[n]?) ∧
      readersOf parseJson start.run["audit"]? = readersOf parseJson acc["audit"]? ∧
      (start.run ≠ acc → mixValid start.run = .ok () ∧ start.events ≠ []) ∧
      (∀ invalid, file = .error invalid → start.run = acc) ∧
      (∀ f, file = .ok f → mixValid (mixture parseJson acc f) = .ok () →
        (start.pending = none ↔ f = start.run)) ∧
      atBoot sha256 parseJson (some start.run) file mixValid = .ok { start with events := [] } := by
  cases file with
  | error invalid =>
    refine ⟨⟨acc, [], _⟩, rfl, fun _ _ ↦ rfl, rfl, fun h ↦ absurd rfl h, fun _ _ ↦ rfl,
      fun f hf ↦ ?_, rfl⟩
    cases hf
  | ok f =>
    cases hvalid : mixValid (mixture parseJson acc f) with
    | error cause =>
      obtain ⟨pending, hboot⟩ : ∃ pending, atBoot sha256 parseJson (some acc) (.ok f) mixValid =
          .ok ⟨acc, [], pending⟩ := by
        simp only [atBoot, hvalid]
        exact ⟨_, rfl⟩
      refine ⟨_, hboot, fun _ _ ↦ rfl, rfl, fun h ↦ absurd rfl h, fun _ _ ↦ rfl,
        fun g hg hok ↦ ?_, hboot⟩
      cases hg
      exact nomatch hvalid.symm.trans hok
    | ok =>
      have hboot : ∀ a, mixture parseJson a f = mixture parseJson acc f →
          atBoot sha256 parseJson (some a) (.ok f) mixValid =
            .ok ⟨mixture parseJson acc f, followEvents a (mixture parseJson acc f),
              pending sha256 parseJson (mixture parseJson acc f) (.ok f)⟩ := by
        intro a ha
        simp only [atBoot, ha, hvalid]
      refine ⟨_, hboot acc rfl, fun n hn ↦ ?_, ?_, fun hne ↦ ⟨hvalid, ?_⟩, fun _ h ↦ (nomatch h),
        fun g hg _ ↦ ?_, ?_⟩
      · show (mixture parseJson acc f)[n]? = _
        rw [getElem?_mixture, if_neg hn]
      · show readersOf parseJson (mixture parseJson acc f)["audit"]? = _
        rw [getElem?_mixture_audit, readersOf_auditFollowed hreader]
      · exact followEvents_mixture_ne_nil hne
      · cases hg
        exact pending_eq_none_iff
      · rw [hboot _ (mixture_mixture hreader), followEvents_self]

/-! ### A boot with other readers in the file -/

def auditPath : String × Value := ("jsonl_path", .str "/var/log/audit.jsonl")
def auditReaders : String × Value := ("readers", .str "alex")
def otherReaders : String × Value := ("readers", .str "mallory")

/-- The accepted sections, and those of the file. -/
def acceptedAudit : BaselineSections :=
  .ofList [("audit", canonicalJson (.map [auditPath, auditReaders])), ("core", "1")] compare

def fileAudit : BaselineSections :=
  .ofList [("audit", canonicalJson (.map [otherReaders])), ("core", "2"), ("vault", "3")] compare

theorem auditFollowed_audit :
    auditFollowed canonicalReader fileAudit["audit"]? acceptedAudit["audit"]? =
      some (canonicalJson (.map [auditReaders])) := by
  have hread : ∀ {entries}, (Value.map entries).Ordered →
      valueFromCanonicalJson canonicalReader (canonicalJson (.map entries)) = some (.map entries) :=
    fun h ↦ valueFromCanonicalJson_of_eq (canonicalReader_eq_some.mpr ⟨h, rfl⟩)
  have haccepted := @hread [auditPath, auditReaders]
    (.map (by decide) (by simp [auditPath, auditReaders, Value.Ordered.str]))
  have hfile := @hread [otherReaders] (.map (by decide) (by simp [otherReaders, Value.Ordered.str]))
  show auditFollowed canonicalReader (some (canonicalJson (.map [otherReaders])))
    (some (canonicalJson (.map [auditPath, auditReaders]))) = _
  simp only [auditFollowed, readersOf, bind_some, map_some, haccepted, hfile]
  rfl

theorem boot_runs_accepted_audit :
    (∃ start, atBoot State.Crypto.plain.sha256 canonicalReader (some acceptedAudit) (.ok fileAudit)
        (fun _ ↦ .ok ()) = .ok start ∧
      readersOf canonicalReader start.run["audit"]? =
        readersOf canonicalReader acceptedAudit["audit"]?) ∧
    mixture canonicalReader acceptedAudit fileAudit = .ofList
      [("audit", canonicalJson (.map [auditReaders])), ("core", "1"), ("vault", "3")] compare := by
  obtain ⟨start, hboot, -, hreaders, -⟩ := boot_runs_accepted State.Crypto.plain.sha256
    readsMembers_canonicalReader acceptedAudit (.ok fileAudit) fun _ ↦ .ok ()
  refine ⟨⟨start, hboot, hreaders⟩, ?_⟩
  simp only [mixture, followedAtBoot, foldl_cons, foldl_nil, follow, followed, if_pos,
    auditFollowed_audit]
  decide +kernel

end Maknae.Kernel
