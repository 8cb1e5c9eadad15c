import Maknae.Config.Error
import Maknae.Config.Value
import Maknae.Foundation.Guards
import Mathlib.Data.List.Nodup

/-!
# Assembling the configuration

The configuration is a base file and any number of files in `config.d`. A section of a `config.d`
file replaces the whole section of the base. Nothing else replaces anything: a section in two
`config.d` files is an error, and so is `core` in one of them, so the order of the files does not
matter.

The loop over the files keeps four lists. What they are after any part of the entries is a function
of the base and of that part (`Assembled`), and each entry keeps it so (`Assembled.win`).
-/

namespace Maknae.Config

open Except List

/-- The file a section came from. -/
inductive Source
  | base
  | configD (path : String)

/-- A section of `config.d` replaced one of the base. -/
structure Override where
  part : String
  winner : Source
  shadowed : Source

structure Document where
  sections : List (String × Value × Source)
  overrides : List Override
  /-- The sections that were replaced. -/
  shadowed : List (String × Value × Source)

namespace Document

/-- The value of a section. -/
def sectionOf (d : Document) (name : String) : Option Value :=
  (d.sections.find? fun s ↦ s.1 = name).map fun s ↦ s.2.1

/-- Every value of a section that another replaced. -/
def shadowedSections (d : Document) (name : String) : List Value :=
  (d.shadowed.filter fun s ↦ s.1 = name).map fun s ↦ s.2.1

end Document

/-- A section the caller registers. -/
structure SectionSpec where
  name : String
  required : Bool

structure Registry where
  specs : List SectionSpec

def coreSection : String := "core"

namespace Registry

def isReserved (_ : Registry) (name : String) : Bool := name = coreSection

def isKnown (reg : Registry) (name : String) : Bool :=
  name = coreSection || reg.specs.any fun s ↦ s.name = name

def requiredExtensions (reg : Registry) : List String :=
  (reg.specs.filter fun s ↦ s.required).map SectionSpec.name

end Registry

def sourceLabel : Source → String
  | .base => "maknae.yaml"
  | .configD p => p

section Assemble

variable (loadStr : String → Except ConfigError Value) (reg : Registry)

/-- The sections of a file; an empty file has none. -/
def parseBuffer (buffer : Source × String) :
    Except ConfigError (Source × List (String × Value)) := do
  match ← loadStr buffer.2 with
  | .null => return (buffer.1, [])
  | .map m => return (buffer.1, m)
  | _ => .error (.notAMap (sourceLabel buffer.1))

/-- What the loop over the files collects. -/
structure Assembly where
  sections : List (String × Value × Source) := []
  overrides : List Override := []
  shadowed : List (String × Value × Source) := []
  /-- The sections a `config.d` file has supplied. -/
  fromConfigd : List String := []

/-- A section of a `config.d` file replaces that of the base, or is new. -/
def Assembly.win (acc : Assembly) (path key : String) (val : Value) : Assembly :=
  match acc.sections.find? fun s ↦ s.1 = key with
  | some slot => {
      sections := acc.sections.set (acc.sections.findIdx fun s ↦ s.1 = key)
        (key, val, .configD path)
      overrides := acc.overrides ++ [⟨key, .configD path, slot.2.2⟩]
      shadowed := acc.shadowed ++ [(key, slot.2.1, slot.2.2)]
      fromConfigd := acc.fromConfigd ++ [key] }
  | none => { acc with
      sections := acc.sections ++ [(key, val, .configD path)]
      fromConfigd := acc.fromConfigd ++ [key] }

def collectSection (source : Source) (acc : Assembly) (entry : String × Value) :
    Except ConfigError Assembly :=
  if ¬reg.isKnown entry.1 then .error (.unknownSection entry.1 (sourceLabel source))
  else match source with
    | .base => .ok { acc with sections := acc.sections ++ [(entry.1, entry.2, .base)] }
    | .configD path =>
      if reg.isReserved entry.1 then .error .coreOverride
      else if entry.1 ∈ acc.fromConfigd then .error (.duplicateSection entry.1)
      else .ok (acc.win path entry.1 entry.2)

def addFile (acc : Assembly) (file : Source × List (String × Value)) :
    Except ConfigError Assembly :=
  file.2.foldlM (collectSection reg file.1) acc

/-- Every file is parsed before a section of any is looked at. -/
def assemble (buffers : List (Source × String)) : Except ConfigError Document := do
  let parsed ← buffers.mapM (parseBuffer loadStr)
  let acc ← parsed.foldlM (addFile reg) {}
  reg.requiredExtensions.forM fun name ↦
    refuseIf (¬acc.sections.any fun s ↦ s.1 = name) (.missingSection name)
  return ⟨acc.sections, acc.overrides, acc.shadowed⟩

end Assemble

/-! ### One entry -/

section Entries

variable {base : List (String × Value)} {added : List (String × String × Value)} {acc : Assembly}

/-- The section of a key, after some entries of `config.d`, each with its path. -/
def sectionAfter (base : List (String × Value)) (added : List (String × String × Value))
    (key : String) : Option (String × Value × Source) :=
  match added.find? fun a ↦ a.2.1 = key with
  | some a => some (key, a.2.2, .configD a.1)
  | none => (base.find? fun b ↦ b.1 = key).map fun b ↦ (key, b.2, .base)

/-- The lists of the loop, after the base and some entries of `config.d`. -/
structure Assembled (base : List (String × Value)) (added : List (String × String × Value))
    (acc : Assembly) : Prop where
  find?_sections (key : String) :
    (acc.sections.find? fun s ↦ s.1 = key) = sectionAfter base added key
  overrides_eq : acc.overrides = added.filterMap fun a ↦
    (base.find? fun b ↦ b.1 = a.2.1).map fun _ ↦ ⟨a.2.1, .configD a.1, .base⟩
  shadowed_eq : acc.shadowed = added.filterMap fun a ↦
    (base.find? fun b ↦ b.1 = a.2.1).map fun b ↦ (a.2.1, b.2, .base)
  fromConfigd_eq : acc.fromConfigd = added.map fun a ↦ a.2.1

variable {key : String} {val : Value}

/-- Replacing the first section of a name changes what is found for that name only. -/
theorem find?_set_findIdx {l : List (String × Value × Source)} {x : Value × Source}
    (h : (l.find? fun s ↦ s.1 = key).isSome) (k : String) :
    ((l.set (l.findIdx fun s ↦ s.1 = key) (key, x)).find? fun s ↦ s.1 = k) =
      if k = key then some (key, x) else l.find? fun s ↦ s.1 = k := by
  induction l with
  | nil => cases h
  | cons s l ih =>
    by_cases hs : s.1 = key
    · rw [findIdx_cons, decide_eq_true hs]
      by_cases hk : k = key
      · simp [hk]
      · have hne : s.1 ≠ k := fun heq ↦ hk (heq.symm.trans hs)
        have hne' : key ≠ k := fun heq ↦ hk heq.symm
        simp [hk, hne, hne']
    · have hrest : (l.find? fun s ↦ s.1 = key).isSome := by
        rwa [find?_cons_of_neg (by simpa using hs)] at h
      rw [findIdx_cons, decide_eq_false hs]
      have := ih hrest
      by_cases hsk : s.1 = k
      · have hk : k ≠ key := fun heq ↦ hs (hsk.trans heq)
        simp [hsk, hk]
      · simpa [hsk] using this

theorem find?_eq_none_of_not_mem (hnew : key ∉ added.map fun a ↦ a.2.1) :
    (added.find? fun a ↦ a.2.1 = key) = none :=
  find?_eq_none.mpr fun a ha heq ↦ hnew (mem_map.mpr ⟨a, ha, of_decide_eq_true heq⟩)

theorem sectionAfter_of_not_mem (hnew : key ∉ added.map fun a ↦ a.2.1) :
    sectionAfter base added key = (base.find? fun b ↦ b.1 = key).map fun b ↦ (key, b.2, .base) := by
  rw [sectionAfter, find?_eq_none_of_not_mem hnew]

theorem sectionAfter_append {path key} (hnew : key ∉ added.map fun a ↦ a.2.1) (k : String) :
    sectionAfter base (added ++ [(path, key, val)]) k =
      if k = key then some (key, val, .configD path) else sectionAfter base added k := by
  rw [sectionAfter, find?_append]
  by_cases hk : k = key
  · subst hk
    rw [find?_eq_none_of_not_mem hnew]
    simp
  · have hne : key ≠ k := fun heq ↦ hk heq.symm
    simp [hk, hne, sectionAfter]

/-- A new entry keeps the lists what they are. -/
theorem Assembled.win (h : Assembled base added acc) {path key}
    (hnew : key ∉ acc.fromConfigd) :
    Assembled base (added ++ [(path, key, val)]) (acc.win path key val) := by
  rw [h.fromConfigd_eq] at hnew
  have hfind := h.find?_sections key
  rw [sectionAfter_of_not_mem hnew] at hfind
  cases hbase : base.find? fun b ↦ b.1 = key with
  | some b =>
    rw [hbase, Option.map_some] at hfind
    rw [Assembly.win, hfind]
    constructor
    · intro k
      rw [find?_set_findIdx (by rw [hfind]; rfl), sectionAfter_append hnew, h.find?_sections]
    · simp [hbase, h.overrides_eq]
    · simp [hbase, h.shadowed_eq]
    · simp [h.fromConfigd_eq]
  | none =>
    rw [hbase, Option.map_none] at hfind
    rw [Assembly.win, hfind]
    constructor
    · intro k
      rw [find?_append, sectionAfter_append hnew, h.find?_sections]
      by_cases hk : k = key
      · subst hk
        rw [← h.find?_sections, hfind]
        simp
      · have hne : key ≠ k := fun heq ↦ hk heq.symm
        simp [hk, hne]
    · simp [hbase, h.overrides_eq]
    · simp [hbase, h.shadowed_eq]
    · simp [h.fromConfigd_eq]

theorem Assembled.filter_overrides (h : Assembled base added acc) (key : String) :
    (acc.overrides.filter fun o ↦ o.part = key) =
      (added.filter fun a ↦ a.2.1 = key).filterMap fun a ↦
        (base.find? fun b ↦ b.1 = a.2.1).map fun _ ↦ ⟨a.2.1, .configD a.1, .base⟩ := by
  rw [h.overrides_eq]
  refine filter_filterMap_key (fun a o ho ↦ ?_) added key
  obtain ⟨b, -, rfl⟩ := Option.map_eq_some_iff.mp ho
  rfl

theorem Assembled.filter_shadowed (h : Assembled base added acc) (key : String) :
    (acc.shadowed.filter fun s ↦ s.1 = key) =
      (added.filter fun a ↦ a.2.1 = key).filterMap fun a ↦
        (base.find? fun b ↦ b.1 = a.2.1).map fun b ↦ (a.2.1, b.2, .base) := by
  rw [h.shadowed_eq]
  refine filter_filterMap_key (fun a o ho ↦ ?_) added key
  obtain ⟨b, -, rfl⟩ := Option.map_eq_some_iff.mp ho
  rfl

end Entries

/-! ### The loops -/

section Loops

variable {reg : Registry} {base : List (String × Value)} {added : List (String × String × Value)}
  {acc : Assembly}

variable {acc' : Assembly} {es : List (String × String × Value)}

/-- The sections of the base, as they are recorded. -/
theorem addFile_base :
    addFile reg acc (.base, base) = .ok acc' ↔ (∀ b ∈ base, reg.isKnown b.1) ∧
      { acc with sections := acc.sections ++ base.map fun b ↦ (b.1, b.2, .base) } = acc' := by
  unfold addFile
  induction base generalizing acc with
  | nil => simp [pure_eq_ok]
  | cons b base ih =>
    rw [foldlM_cons, forall_mem_cons]
    by_cases hknown : reg.isKnown b.1
    · have hstep : collectSection reg .base acc b =
          .ok { acc with sections := acc.sections ++ [(b.1, b.2, .base)] } :=
        if_neg (not_not_intro hknown)
      rw [hstep, ok_bind, ih]
      simp [hknown]
    · have hstep : collectSection reg .base acc b = .error (.unknownSection b.1 "maknae.yaml") :=
        if_pos hknown
      rw [hstep]
      exact iff_of_false (by simp) fun h ↦ hknown h.1.1

theorem assembled_base : Assembled base [] { sections := base.map fun b ↦ (b.1, b.2, .base) } where
  find?_sections key := by
    rw [find?_map]
    show ((base.find? fun b ↦ b.1 = key).map fun b ↦ (b.1, b.2, Source.base)) = _
    refine Option.map_congr fun b hb ↦ ?_
    have hkey : b.1 = key := by simpa using find?_some hb
    rw [hkey]
  overrides_eq := rfl
  shadowed_eq := rfl
  fromConfigd_eq := rfl

/-- One entry of a `config.d` file, with the path of the file. -/
def addEntry (reg : Registry) (acc : Assembly) (e : String × String × Value) :
    Except ConfigError Assembly :=
  collectSection reg (.configD e.1) acc e.2

theorem addEntry_eq_ok {e : String × String × Value} :
    addEntry reg acc e = .ok acc' ↔ (reg.isKnown e.2.1 ∧ e.2.1 ≠ coreSection) ∧
      e.2.1 ∉ acc.fromConfigd ∧ acc.win e.1 e.2.1 e.2.2 = acc' := by
  rw [addEntry, collectSection]
  by_cases hknown : reg.isKnown e.2.1
  swap
  · simp [hknown]
  by_cases hcore : e.2.1 = coreSection
  · rw [if_neg (not_not_intro hknown)]
    simp [hcore, Registry.isReserved]
  by_cases hnew : e.2.1 ∈ acc.fromConfigd
  · simp [hknown, hcore, hnew, Registry.isReserved]
  · simp [hknown, hcore, hnew, Registry.isReserved]

theorem foldlM_addFile (files : List (String × List (String × Value))) (acc : Assembly) :
    (files.map fun f ↦ (Source.configD f.1, f.2)).foldlM (addFile reg) acc =
      (files.flatMap fun f ↦ f.2.map fun e ↦ (f.1, e)).foldlM (addEntry reg) acc := by
  induction files generalizing acc with
  | nil => rfl
  | cons f files ih =>
    rw [map_cons, flatMap_cons, foldlM_append, foldlM_map]
    exact congrArg (_ >>= ·) (funext ih)

/-- **A run of entries**: what was checked of them, and the lists at its end. -/
theorem Assembled.foldlM (h : Assembled base added acc)
    (hfold : es.foldlM (addEntry reg) acc = .ok acc') :
    (∀ e ∈ es, reg.isKnown e.2.1 ∧ e.2.1 ≠ coreSection) ∧
      ((added.map fun a ↦ a.2.1).Nodup → ((added ++ es).map fun a ↦ a.2.1).Nodup) ∧
      Assembled base (added ++ es) acc' := by
  induction es generalizing added acc with
  | nil =>
    obtain rfl := pure_eq_ok.mp hfold
    rw [append_nil]
    exact ⟨nofun, id, h⟩
  | cons e es ih =>
    obtain ⟨mid, hmid, hfold⟩ := bind_eq_ok.mp hfold
    obtain ⟨hchecks, hnew, rfl⟩ := addEntry_eq_ok.mp hmid
    obtain ⟨hall, hnodup, hend⟩ := ih (h.win hnew) hfold
    rw [append_assoc] at hnodup hend
    refine ⟨forall_mem_cons.mpr ⟨hchecks, hall⟩, fun hadded ↦ hnodup ?_, hend⟩
    rw [h.fromConfigd_eq] at hnew
    rw [map_append, map_singleton, ← concat_eq_append]
    exact hadded.concat hnew

theorem exists_foldlM (h : Assembled base added acc)
    (hall : ∀ e ∈ es, reg.isKnown e.2.1 ∧ e.2.1 ≠ coreSection)
    (hnodup : ((added ++ es).map fun a ↦ a.2.1).Nodup) :
    ∃ acc', es.foldlM (addEntry reg) acc = .ok acc' := by
  induction es generalizing added acc with
  | nil => exact ⟨acc, rfl⟩
  | cons e es ih =>
    obtain ⟨hchecks, hall⟩ := forall_mem_cons.mp hall
    have hnew : e.2.1 ∉ acc.fromConfigd := by
      rw [h.fromConfigd_eq]
      rw [map_append] at hnodup
      exact fun hmem ↦ (nodup_append.mp hnodup).2.2 _ hmem _ mem_cons_self rfl
    obtain ⟨acc', hacc'⟩ := ih (h.win hnew) hall (by rwa [append_assoc])
    refine ⟨acc', ?_⟩
    rw [foldlM_cons, addEntry_eq_ok.mpr ⟨hchecks, hnew, rfl⟩]
    exact hacc'

end Loops

/-! ### The whole assembly -/

/-- A file of `config.d` with the sections its body parses to. -/
structure ConfigFile where
  path : String
  body : String
  entries : List (String × Value)

/-- The body parses to these sections; an empty body has none. -/
def Parses (loadStr : String → Except ConfigError Value) (body : String)
    (entries : List (String × Value)) : Prop :=
  loadStr body = .ok (.map entries) ∨ loadStr body = .ok .null ∧ entries = []

/-- The base file and the files of `config.d`, in order. -/
def buffers (baseBody : String) (files : List ConfigFile) : List (Source × String) :=
  (.base, baseBody) :: files.map fun f ↦ (.configD f.path, f.body)

/-- What a configuration has to keep. -/
structure Assembles (reg : Registry) (base : List (String × Value)) (files : List ConfigFile) :
    Prop where
  known_base : ∀ b ∈ base, reg.isKnown b.1
  known_files : ∀ f ∈ files, ∀ e ∈ f.entries, reg.isKnown e.1
  /-- The core section is in the base only. -/
  core_base : ∀ f ∈ files, ∀ e ∈ f.entries, e.1 ≠ coreSection
  /-- No section is in two files of `config.d`. -/
  once : files.Pairwise fun f g ↦ ∀ d ∈ f.entries, ∀ e ∈ g.entries, d.1 ≠ e.1
  required : ∀ name ∈ reg.requiredExtensions,
    (∃ b ∈ base, b.1 = name) ∨ ∃ f ∈ files, ∃ e ∈ f.entries, e.1 = name

/-- What an assembled document holds. -/
structure Layered (base : List (String × Value)) (files : List ConfigFile) (doc : Document) :
    Prop where
  /-- The value of a section is that of `config.d`, if there is one, or that of the base. -/
  sectionOf_eq_some {key : String} {v : Value} : doc.sectionOf key = some v ↔
    (∃ f ∈ files, (key, v) ∈ f.entries) ∨
      (∀ f ∈ files, ∀ e ∈ f.entries, e.1 ≠ key) ∧ (key, v) ∈ base
  /-- A section in both leaves one record and the value of the base. -/
  overridden {key : String} {v w : Value} {f : ConfigFile} (hf : f ∈ files)
    (hfile : (key, w) ∈ f.entries) (hbase : (key, v) ∈ base) :
    (doc.overrides.filter fun o ↦ o.part = key) = [⟨key, .configD f.path, .base⟩] ∧
      doc.shadowedSections key = [v]
  /-- No other section leaves anything. -/
  untouched {key : String}
    (h : (∀ b ∈ base, b.1 ≠ key) ∨ ∀ f ∈ files, ∀ e ∈ f.entries, e.1 ≠ key) :
    (doc.overrides.filter fun o ↦ o.part = key) = [] ∧ doc.shadowedSections key = []

section Whole

variable {loadStr : String → Except ConfigError Value} {reg : Registry} {baseBody : String}
  {base : List (String × Value)} {files : List ConfigFile}

/-- The entries of all files of `config.d`. -/
def contributions (files : List ConfigFile) : List (String × String × Value) :=
  files.flatMap fun f ↦ f.entries.map fun e ↦ (f.path, e)

theorem parseBuffer_of_parses {source body} {entries : List (String × Value)}
    (h : Parses loadStr body entries) :
    parseBuffer loadStr (source, body) = .ok (source, entries) := by
  rcases h with h | ⟨h, rfl⟩
  · rw [parseBuffer, h]
    rfl
  · rw [parseBuffer, h]
    rfl

/-- What is left of the assembly once every file is parsed. -/
theorem assemble_eq_ok (hbase : Parses loadStr baseBody base)
    (hfiles : ∀ f ∈ files, Parses loadStr f.body f.entries) {doc} :
    assemble loadStr reg (buffers baseBody files) = .ok doc ↔
      (∀ b ∈ base, reg.isKnown b.1) ∧ ∃ acc,
        (contributions files).foldlM (addEntry reg)
          { sections := base.map fun b ↦ (b.1, b.2, .base) } = .ok acc ∧
        (∀ name ∈ reg.requiredExtensions, acc.sections.any fun s ↦ s.1 = name) ∧
        ⟨acc.sections, acc.overrides, acc.shadowed⟩ = doc := by
  have hparsed : (buffers baseBody files).mapM (parseBuffer loadStr) =
      .ok ((.base, base) :: (files.map fun f ↦ (f.path, f.entries)).map fun f ↦
        (.configD f.1, f.2)) := by
    have hrest : files.mapM (parseBuffer loadStr ∘ fun f ↦ (.configD f.path, f.body)) =
        .ok (files.map fun f ↦ (.configD f.path, f.entries)) :=
      mapM_eq_ok_map fun f hf ↦ parseBuffer_of_parses (hfiles f hf)
    rw [buffers, mapM_cons, parseBuffer_of_parses hbase, mapM_map, hrest, map_map]
    rfl
  have hcontributions : ((files.map fun f ↦ (f.path, f.entries)).flatMap fun f ↦
      f.2.map fun e ↦ (f.1, e)) = contributions files := by
    rw [flatMap_map]
    rfl
  have hrequired (acc : Assembly) : (reg.requiredExtensions.forM fun name ↦
      refuseIf (¬acc.sections.any fun s ↦ s.1 = name) (ConfigError.missingSection name)) =
        .ok ⟨⟩ ↔ ∀ name ∈ reg.requiredExtensions, acc.sections.any fun s ↦ s.1 = name := by
    rw [forM_eq_ok]
    simp only [refuseIf_eq_ok, not_not]
  have hfold (acc : Assembly) : (((Source.base, base) :: (files.map fun f ↦
      (f.path, f.entries)).map fun f ↦ (.configD f.1, f.2)).foldlM (addFile reg) {} = .ok acc) ↔
        (∀ b ∈ base, reg.isKnown b.1) ∧ (contributions files).foldlM (addEntry reg)
          { sections := base.map fun b ↦ (b.1, b.2, .base) } = .ok acc := by
    rw [foldlM_cons, bind_eq_ok]
    simp only [addFile_base, foldlM_addFile, hcontributions]
    simp
  rw [assemble, hparsed, ok_bind]
  constructor
  · intro h
    obtain ⟨acc, hacc, ⟨⟩, hchecked, h⟩ := bind₂_eq_ok.mp h
    obtain ⟨hknown, hacc⟩ := (hfold acc).mp hacc
    exact ⟨hknown, acc, hacc, (hrequired acc).mp hchecked, pure_eq_ok.mp h⟩
  · rintro ⟨hknown, acc, hacc, hchecked, rfl⟩
    rw [(hfold acc).mpr ⟨hknown, hacc⟩, ok_bind, (hrequired acc).mpr hchecked]
    rfl

theorem mem_contributions {path key v} :
    (path, key, v) ∈ contributions files ↔ ∃ f ∈ files, f.path = path ∧ (key, v) ∈ f.entries := by
  rw [contributions, mem_flatMap]
  refine exists_congr fun f ↦ and_congr_right fun _ ↦ ?_
  rw [mem_map]
  constructor
  · rintro ⟨e, he, heq⟩
    obtain ⟨hpath, rfl⟩ := Prod.mk.inj heq
    exact ⟨hpath, he⟩
  · rintro ⟨rfl, he⟩
    exact ⟨_, he, rfl⟩

/-- Keys differ among all entries when they differ in each file and between any two. -/
theorem nodup_contributions (hfiles : ∀ f ∈ files, (f.entries.map Prod.fst).Nodup) :
    ((contributions files).map fun a ↦ a.2.1).Nodup ↔
      files.Pairwise fun f g ↦ ∀ d ∈ f.entries, ∀ e ∈ g.entries, d.1 ≠ e.1 := by
  have hkeys : (contributions files).map (fun a ↦ a.2.1) =
      files.flatMap fun f ↦ f.entries.map Prod.fst := by
    rw [contributions, map_flatMap]
    simp only [map_map, Function.comp_def]
  rw [hkeys, nodup_flatMap, and_iff_right hfiles]
  have hdisjoint (f g : ConfigFile) : (f.entries.map Prod.fst).Disjoint (g.entries.map Prod.fst) ↔
      ∀ d ∈ f.entries, ∀ e ∈ g.entries, d.1 ≠ e.1 := by
    simp only [disjoint_left, mem_map, forall_exists_index, and_imp,
      forall_apply_eq_imp_iff₂, not_exists, not_and]
    exact forall₄_congr fun d _ e _ ↦ ⟨Ne.symm, Ne.symm⟩
  exact ⟨fun h ↦ h.imp (hdisjoint _ _).mp, fun h ↦ h.imp (hdisjoint _ _).mpr⟩

theorem not_mem_contributions {key} (hkey : ∀ f ∈ files, ∀ e ∈ f.entries, e.1 ≠ key) :
    ∀ a ∈ contributions files, ¬a.2.1 = key := by
  rintro ⟨path, k, v⟩ ha
  obtain ⟨f, hf, -, hmem⟩ := mem_contributions.mp ha
  exact hkey f hf _ hmem

section Layered

variable {acc : Assembly} (hbase : (base.map Prod.fst).Nodup)
  (hnodup : ((contributions files).map fun a ↦ a.2.1).Nodup)
  (h : Assembled base (contributions files) acc)

include hbase hnodup h

/-- The value of a section is that of `config.d`, if there is one, or that of the base. -/
theorem sectionOf_eq_some_iff {key v} :
    Document.sectionOf ⟨acc.sections, acc.overrides, acc.shadowed⟩ key = some v ↔
      (∃ f ∈ files, (key, v) ∈ f.entries) ∨
        (∀ f ∈ files, ∀ e ∈ f.entries, e.1 ≠ key) ∧ (key, v) ∈ base := by
  rw [Document.sectionOf, h.find?_sections]
  by_cases hkey : ∃ f ∈ files, ∃ w, (key, w) ∈ f.entries
  · obtain ⟨f, hf, w, hw⟩ := hkey
    have hfind {g : ConfigFile} {u : Value} (hg : g ∈ files) (hu : (key, u) ∈ g.entries) :
        ((contributions files).find? fun a ↦ a.2.1 = key) = some (g.path, key, u) :=
      @find?_key_eq_some _ _ (g.path, key, u) (fun a ↦ a.2.1) _ _ hnodup
        (mem_contributions.mpr ⟨g, hg, rfl, hu⟩)
    rw [sectionAfter, hfind hf hw]
    constructor
    · intro heq
      obtain rfl : w = v := Option.some.inj heq
      exact .inl ⟨f, hf, hw⟩
    · rintro (⟨g, hg, hv⟩ | ⟨hnone, -⟩)
      · have hsame := Option.some.inj ((hfind hf hw).symm.trans (hfind hg hv))
        exact congrArg some (congrArg (fun a : String × String × Value ↦ a.2.2) hsame)
      · exact absurd rfl (hnone f hf _ hw)
  · have hnone : ∀ f ∈ files, ∀ e ∈ f.entries, e.1 ≠ key := fun f hf e he heq ↦
      hkey ⟨f, hf, e.2, heq ▸ he⟩
    have hnew : key ∉ (contributions files).map fun a ↦ a.2.1 := fun hmem ↦ by
      obtain ⟨a, ha, heq⟩ := mem_map.mp hmem
      exact not_mem_contributions hnone a ha heq
    rw [sectionAfter_of_not_mem hnew, Option.map_map]
    constructor
    · intro heq
      obtain ⟨b, hb, rfl⟩ := Option.map_eq_some_iff.mp heq
      have hb' : b.1 = key := by simpa using find?_some hb
      exact .inr ⟨hnone, hb' ▸ mem_of_find?_eq_some hb⟩
    · rintro (⟨f, hf, hv⟩ | ⟨-, hv⟩)
      · exact absurd ⟨f, hf, v, hv⟩ hkey
      · have hfind : (base.find? fun b ↦ b.1 = key) = some (key, v) :=
          find?_key_eq_some hbase hv
        rw [hfind]
        rfl

/-- What the lists hold is what an assembled document holds. -/
theorem layered_of_assembled : Layered base files ⟨acc.sections, acc.overrides, acc.shadowed⟩ where
  sectionOf_eq_some := sectionOf_eq_some_iff hbase hnodup h
  overridden {key v w f} hf hfile hmem := by
    have hfind : (base.find? fun b ↦ b.1 = key) = some (key, v) := find?_key_eq_some hbase hmem
    have hfilter : ((contributions files).filter fun a ↦ a.2.1 = key) = [(f.path, key, w)] :=
      @filter_key_eq_singleton _ _ (f.path, key, w) (fun a ↦ a.2.1) _ _
        (pairwise_map.mp hnodup) (mem_contributions.mpr ⟨f, hf, rfl, hfile⟩)
    rw [Document.shadowedSections, h.filter_overrides, h.filter_shadowed, hfilter]
    simp [hfind]
  untouched {key} hkey := by
    rw [Document.shadowedSections, h.filter_overrides, h.filter_shadowed]
    rcases hkey with hkey | hkey
    · have hnone : (base.find? fun b ↦ b.1 = key) = none :=
        find?_eq_none.mpr fun b hb heq ↦ hkey b hb (of_decide_eq_true heq)
      have hempty {γ : Type} (g : String × String × Value → String × Value → γ) :
          ((contributions files).filter fun a ↦ a.2.1 = key).filterMap (fun a ↦
            (base.find? fun b ↦ b.1 = a.2.1).map (g a)) = [] := by
        refine filterMap_eq_nil_iff.mpr fun a ha ↦ ?_
        rw [of_decide_eq_true (mem_filter.mp ha).2, hnone]
        rfl
      exact ⟨hempty _, by rw [hempty]; rfl⟩
    · have hempty : ((contributions files).filter fun a ↦ a.2.1 = key) = [] :=
        filter_eq_nil_iff.mpr fun a ha heq ↦
          not_mem_contributions hkey a ha (of_decide_eq_true heq)
      rw [hempty]
      exact ⟨rfl, rfl⟩

/-- A section is there when the base or a file has it. -/
theorem any_sections_iff {name} : (acc.sections.any fun s ↦ s.1 = name) ↔
    (∃ b ∈ base, b.1 = name) ∨ ∃ f ∈ files, ∃ e ∈ f.entries, e.1 = name := by
  have hvalue : (acc.sections.any fun s ↦ s.1 = name) ↔ ∃ v,
      Document.sectionOf ⟨acc.sections, acc.overrides, acc.shadowed⟩ name = some v := by
    rw [← Option.isSome_iff_exists, Document.sectionOf, Option.isSome_map, find?_isSome,
      any_eq_true]
  simp only [hvalue, sectionOf_eq_some_iff hbase hnodup h]
  constructor
  · rintro ⟨v, ⟨f, hf, hv⟩ | ⟨-, hv⟩⟩
    · exact .inr ⟨f, hf, _, hv, rfl⟩
    · exact .inl ⟨_, hv, rfl⟩
  · intro hthere
    by_cases hfile : ∃ f ∈ files, ∃ e ∈ f.entries, e.1 = name
    · obtain ⟨f, hf, e, he, rfl⟩ := hfile
      exact ⟨e.2, .inl ⟨f, hf, he⟩⟩
    · obtain ⟨b, hb, rfl⟩ := hthere.resolve_right hfile
      exact ⟨b.2, .inr ⟨fun f hf e he heq ↦ hfile ⟨f, hf, e, he, heq⟩, hb⟩⟩

end Layered

/-- The base and the files parse to maps in which no key is twice. -/
structure Readable (loadStr : String → Except ConfigError Value) (baseBody : String)
    (base : List (String × Value)) (files : List ConfigFile) : Prop where
  parses_base : Parses loadStr baseBody base
  nodup_base : (base.map Prod.fst).Nodup
  parses_file : ∀ f ∈ files, Parses loadStr f.body f.entries
  nodup_file : ∀ f ∈ files, (f.entries.map Prod.fst).Nodup

namespace Readable

variable (h : Readable loadStr baseBody base files)

include h

theorem of_perm {files'} (hperm : files'.Perm files) : Readable loadStr baseBody base files' where
  parses_base := h.parses_base
  nodup_base := h.nodup_base
  parses_file f hf := h.parses_file f (hperm.mem_iff.mp hf)
  nodup_file f hf := h.nodup_file f (hperm.mem_iff.mp hf)

/-- A document that was assembled, with what was checked. -/
theorem of_assemble {doc} (hdoc : assemble loadStr reg (buffers baseBody files) = .ok doc) :
    Assembles reg base files ∧ Layered base files doc := by
  obtain ⟨hknown, acc, hfold, hrequired, rfl⟩ :=
    (assemble_eq_ok h.parses_base h.parses_file).mp hdoc
  obtain ⟨hchecks, hnodup, hassembled⟩ := assembled_base.foldlM hfold
  have hnodup := hnodup nodup_nil
  have hfile (f : ConfigFile) (hf : f ∈ files) (e : String × Value) (he : e ∈ f.entries) :=
    hchecks (f.path, e) (mem_contributions.mpr ⟨f, hf, rfl, he⟩)
  refine ⟨?_, layered_of_assembled h.nodup_base hnodup hassembled⟩
  exact {
    known_base := hknown
    known_files := fun f hf e he ↦ (hfile f hf e he).1
    core_base := fun f hf e he ↦ (hfile f hf e he).2
    once := (nodup_contributions h.nodup_file).mp hnodup
    required := fun name hname ↦
      (any_sections_iff h.nodup_base hnodup hassembled).mp (hrequired name hname) }

theorem exists_assemble (hchecks : Assembles reg base files) :
    ∃ doc, assemble loadStr reg (buffers baseBody files) = .ok doc := by
  have hnodup := (nodup_contributions h.nodup_file).mpr hchecks.once
  have hall : ∀ e ∈ contributions files, reg.isKnown e.2.1 ∧ e.2.1 ≠ coreSection := by
    rintro ⟨path, key, v⟩ he
    obtain ⟨f, hf, -, hmem⟩ := mem_contributions.mp he
    exact ⟨hchecks.known_files f hf _ hmem, hchecks.core_base f hf _ hmem⟩
  obtain ⟨acc, hacc⟩ := exists_foldlM (assembled_base : Assembled base _ _) hall
    (by rwa [nil_append])
  have hassembled := (assembled_base.foldlM hacc).2.2
  exact ⟨_, (assemble_eq_ok h.parses_base h.parses_file).mpr ⟨hchecks.known_base, acc, hacc,
    fun name hname ↦ (any_sections_iff h.nodup_base hnodup hassembled).mpr
      (hchecks.required name hname), rfl⟩⟩

theorem exists_assemble_iff :
    (∃ doc, assemble loadStr reg (buffers baseBody files) = .ok doc) ↔ Assembles reg base files :=
  ⟨fun ⟨_, hdoc⟩ ↦ (h.of_assemble hdoc).1, h.exists_assemble⟩

end Readable

/-- What a configuration has to keep does not depend on the order of the files. -/
theorem Assembles.of_perm (h : Assembles reg base files) {files'}
    (hperm : files'.Perm files) : Assembles reg base files' where
  known_base := h.known_base
  known_files f hf := h.known_files f (hperm.mem_iff.mp hf)
  core_base f hf := h.core_base f (hperm.mem_iff.mp hf)
  once := (hperm.pairwise_iff fun hfg d hd e he heq ↦ hfg e he d hd heq.symm).mpr h.once
  required name hname := (h.required name hname).imp_right fun ⟨f, hf, he⟩ ↦
    ⟨f, hperm.mem_iff.mpr hf, he⟩

/-- Neither do the values of the sections. -/
theorem Layered.sectionOf_eq_of_perm {doc doc'} (h : Layered base files doc)
    {files'} (hperm : files'.Perm files) (h' : Layered base files' doc')
    (key : String) : doc'.sectionOf key = doc.sectionOf key := by
  ext v
  rw [h.sectionOf_eq_some, h'.sectionOf_eq_some]
  simp only [hperm.mem_iff]

/-- **Assembly has no last-wins.** It succeeds exactly on the configurations that keep the rules;
then the value of a section is that of `config.d` or that of the base, and every section in both
leaves one record and the value it replaced. The order of the files changes neither success nor a
value. -/
theorem assemble_noLastWins (h : Readable loadStr baseBody base files) :
    ((∃ doc, assemble loadStr reg (buffers baseBody files) = .ok doc) ↔
      Assembles reg base files) ∧
    (∀ doc, assemble loadStr reg (buffers baseBody files) = .ok doc → Layered base files doc) ∧
    ∀ files', files'.Perm files →
      ((∃ doc, assemble loadStr reg (buffers baseBody files') = .ok doc) ↔
        ∃ doc, assemble loadStr reg (buffers baseBody files) = .ok doc) ∧
      ∀ doc doc', assemble loadStr reg (buffers baseBody files) = .ok doc →
        assemble loadStr reg (buffers baseBody files') = .ok doc' →
          ∀ key, doc'.sectionOf key = doc.sectionOf key := by
  refine ⟨h.exists_assemble_iff, fun doc hdoc ↦ (h.of_assemble hdoc).2, fun files' hperm ↦ ⟨?_, ?_⟩⟩
  · rw [h.exists_assemble_iff, (h.of_perm hperm).exists_assemble_iff]
    exact ⟨fun hchecks ↦ hchecks.of_perm hperm.symm, fun hchecks ↦ hchecks.of_perm hperm⟩
  · intro doc doc' hdoc hdoc'
    exact (h.of_assemble hdoc).2.sectionOf_eq_of_perm hperm ((h.of_perm hperm).of_assemble hdoc').2

/-- A base with two sections, one of them also in `config.d`. -/
def siteFile : ConfigFile := ⟨"10-site.yaml", "audit: 2", [("audit", .int 2)]⟩

def siteLoad (body : String) : Except ConfigError Value :=
  if body = "audit: 2" then .ok (.map [("audit", .int 2)])
  else .ok (.map [("core", .null), ("audit", .int 1)])

theorem readable_site :
    Readable siteLoad "maknae" [("core", .null), ("audit", .int 1)] [siteFile] where
  parses_base := .inl rfl
  nodup_base := by decide
  parses_file := by simpa using .inl rfl
  nodup_file := by simp [siteFile]

theorem assemble_noLastWins_site :
    ∃ doc, assemble siteLoad ⟨[⟨"audit", true⟩]⟩ (buffers "maknae" [siteFile]) = .ok doc ∧
      doc.sectionOf "audit" = some (.int 2) ∧ doc.shadowedSections "audit" = [.int 1] := by
  obtain ⟨hiff, hlayered, -⟩ := @assemble_noLastWins _ ⟨[⟨"audit", true⟩]⟩ _ _ _ readable_site
  obtain ⟨doc, hdoc⟩ := hiff.mpr {
    known_base := by simp [Registry.isKnown, coreSection]
    known_files := by simp [siteFile, Registry.isKnown]
    core_base := by simp [siteFile, coreSection]
    once := pairwise_singleton _ _
    required := by simp [Registry.requiredExtensions] }
  have h := hlayered doc hdoc
  refine ⟨doc, hdoc, h.sectionOf_eq_some.mpr (.inl ⟨siteFile, ?_, ?_⟩), ?_⟩
  · exact mem_singleton_self _
  · exact mem_singleton_self _
  · exact (h.overridden (mem_singleton_self _) (mem_singleton_self _)
      (mem_cons_of_mem _ (mem_singleton_self _))).2

end Whole

end Maknae.Config
