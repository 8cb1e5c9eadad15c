import Maknae.StateGraph.LayersWritten

/-!
# Reading the layers back

The writer was proved into the description `Written` of a graph; this file proves the reader out of
it. What is read back is what was written (`extract_build`), with the subjects in uid order, for
layers the kernel writes: the source is an absolute path, the texts of the sync state agree on
whether bindings are explicit, and the ceiling of the baseline is not empty.

The keys of the sources keep the parts apart: a path starts with a slash, and the keys of the
vocabulary and the baseline do not.
-/

namespace Maknae.StateGraph

open List hiding Vector
open Except Std.LawfulEqOrd

/-! ### Digests -/

theorem nibble_digitChar : ∀ n < 256,
    (nibble (Nat.digitChar (n / 16)) <<< 4) + nibble (Nat.digitChar (n % 16)) = UInt8.ofNat n := by
  decide +kernel

theorem isHexDigit_digitChar : ∀ n < 16, isHexDigit (Nat.digitChar n) = true := by decide

theorem unhexChars_flatMap_hexByte (l : List UInt8) : unhexChars (l.flatMap hexByte) = l := by
  induction l with
  | nil => rfl
  | cons b l ih =>
    rw [flatMap_cons, hexByte, cons_append, cons_append, nil_append, unhexChars,
      ih, nibble_digitChar _ b.toNat_lt, UInt8.ofNat_toNat]

theorem unhex_hex (d : Digest) : unhex (hex d) = some d := by
  have hbytes : unhexChars (hex d).toList = d.toList := by
    rw [hex, String.toList_ofList, unhexChars_flatMap_hexByte]
  have hlength : (hex d).toList.length = 64 := by
    have htwo : ∀ b : UInt8, (hexByte b).length = 2 := fun _ ↦ rfl
    simp [hex, htwo]
  have hdigits : (hex d).toList.all isHexDigit = true := by
    rw [hex, String.toList_ofList, all_flatMap, all_eq_true]
    intro b _
    have hb := b.toNat_lt
    simp [hexByte, isHexDigit_digitChar (b.toNat / 16) (by omega),
      isHexDigit_digitChar (b.toNat % 16) (by omega)]
  rw [unhex, if_neg (by simp [hlength, hdigits])]
  simp only [hbytes, Vector.length_toList, dif_pos, Option.some.injEq]
  exact Vector.toArray_inj.mp Array.toArray_toList

/-! ### Attributes -/

section Attributes

variable {entries : List (String × String)} {k v : String}

theorem getElem?_strAttrs (hdistinct : (entries.map Prod.fst).Nodup) (h : (k, v) ∈ entries) :
    (strAttrs entries)[k]? = some (.str v) := by
  refine Std.ExtTreeMap.getElem?_ofList_of_mem Std.ReflCmp.compare_self ?_
    (mem_map.mpr ⟨(k, v), h, rfl⟩)
  rw [List.Nodup, pairwise_map] at hdistinct
  rw [pairwise_map]
  exact hdistinct.imp fun hne heq ↦ hne (eq_of_compare heq)

theorem getElem?_strAttrs_eq_none (h : k ∉ entries.map Prod.fst) :
    (strAttrs entries)[k]? = none := by
  refine Std.ExtTreeMap.getElem?_ofList_of_contains_eq_false ?_
  rw [map_map, ← Bool.not_eq_true, contains_iff_mem]
  exact h

end Attributes

/-! ### Aliases -/

namespace Identity

/-- The names of a uid among alias entries. -/
def namesOf (entries : List (String × UInt32)) (uid : UInt32) : List String :=
  (entries.filter fun c ↦ c.2 = uid).map Prod.fst

variable {layer : IdentityLayer} {uid : UInt32} {aliases : Claims} {name : String}

theorem foldlM_collectAlias {entries : List (String × UInt32)} {out names}
    (h : entries.foldlM (collectAlias layer) out = .ok names) :
    (∀ c ∈ entries, aliasAllowed layer c.1 c.2 = true) ∧
      ∀ uid, names[uid]? = if namesOf entries uid = [] then out[uid]?
        else some (out.getD uid [] ++ namesOf entries uid) := by
  induction entries generalizing out with
  | nil =>
    obtain rfl := pure_eq_ok.mp h
    exact ⟨nofun, fun uid ↦ rfl⟩
  | cons entry entries ih =>
    obtain ⟨mid, hstep, h⟩ := bind_eq_ok.mp h
    rw [collectAlias] at hstep
    split_ifs at hstep with hallowed
    cases hstep
    obtain ⟨hall, hnames⟩ := ih h
    refine ⟨forall_mem_cons.mpr ⟨hallowed, hall⟩, fun uid ↦ ?_⟩
    rw [hnames uid, Std.ExtTreeMap.getElem?_insert, Std.ExtTreeMap.getD_insert]
    by_cases huid : entry.2 = uid
    · subst huid
      have hcons : namesOf (entry :: entries) entry.2 = entry.1 :: namesOf entries entry.2 := by
        simp [namesOf]
      rw [hcons]
      by_cases hnil : namesOf entries entry.2 = [] <;> simp [hnil]
    · have hcons : namesOf (entry :: entries) uid = namesOf entries uid := by
        simp [namesOf, huid]
      have hne : ¬compare entry.2 uid = .eq := fun heq ↦ huid (eq_of_compare heq)
      rw [hcons, if_neg hne, if_neg hne]

/-- The aliases of a uid, as they are listed. -/
theorem getElem?_aliasNames {names} (h : aliasNames layer = .ok names) (uid : UInt32) :
    names[uid]? = if namesOf layer.aliases.toList uid = [] then none
      else some (namesOf layer.aliases.toList uid) := by
  rw [(foldlM_collectAlias h).2 uid]
  simp

theorem mem_namesOf {n} :
    n ∈ namesOf aliases.toList uid ↔ aliases[n]? = some uid := by
  rw [namesOf]
  simp

theorem nodup_namesOf (aliases : Claims) (uid : UInt32) : (namesOf aliases.toList uid).Nodup := by
  have hdistinct : aliases.toList.Pairwise fun a b ↦ ¬compare a.1 b.1 = .eq :=
    Std.ExtTreeMap.distinct_keys_toList
  refine pairwise_map.mpr ((hdistinct.filter _).imp fun hne heq ↦ hne ?_)
  rw [heq]
  exact Std.ReflCmp.compare_self

theorem aliasAllowed_iff :
    aliasAllowed layer name uid = true ↔ layer.Contains uid ∧
      (∀ s ∈ layer.subjects, s.role = adversary → s.name ≠ name) ∧ name ≠ "" ∧
        ',' ∉ name.toList := by
  simp [aliasAllowed, IdentityLayer.Contains, and_assoc]

/-- Aliases that are read are inserted, if they are new and proper. -/
theorem foldlM_insertAlias (uid : UInt32) {names : List String} (hnodup : names.Nodup)
    (h : ∀ n ∈ names, n ≠ "" ∧ n ≠ name ∧ n ∉ aliases) :
    ∃ out, names.foldlM (insertAlias name uid) aliases = .ok out ∧
      ∀ n, out[n]? = if n ∈ names then some uid else aliases[n]? := by
  induction names generalizing aliases with
  | nil => exact ⟨aliases, rfl, fun n ↦ by simp⟩
  | cons a names ih =>
    obtain ⟨⟨hempty, hname, hnew⟩, hrest⟩ := forall_mem_cons.mp h
    obtain ⟨hnot, hnodup⟩ := nodup_cons.mp hnodup
    have hstep : insertAlias name uid aliases a = .ok (aliases.insert a uid) := by
      rw [insertAlias, if_neg (by simp [hempty, hname, hnew])]
    obtain ⟨out, hfold, hout⟩ := @ih (aliases.insert a uid) hnodup fun n hn ↦ by
      refine ⟨(hrest n hn).1, (hrest n hn).2.1, fun hmem ↦ ?_⟩
      rcases Std.ExtTreeMap.mem_insert.mp hmem with heq | hmem
      · exact hnot (eq_of_compare heq ▸ hn)
      · exact (hrest n hn).2.2 hmem
    refine ⟨out, by rw [foldlM_cons, hstep, ok_bind, hfold], fun n ↦ ?_⟩
    rw [hout n, Std.ExtTreeMap.getElem?_insert]
    by_cases hn : n = a
    · subst hn
      simp
    · have hne : ¬compare a n = .eq := fun heq ↦ hn (eq_of_compare heq).symm
      simp [hn, hne]

end Identity

/-! ### Subjects -/

section Reading

variable {layer : IdentityLayer} {baseline : Option BaselineLayer} {sync : Option SyncBase}
  {compiled : CompiledSet} {vocabularySha256 : Digest} {p : Parts} {g : Graph}

namespace Written

variable (w : Written layer baseline sync compiled vocabularySha256 p g)

include w

variable {n : NodeRecord} {c : Chunk} {kind : EdgeKind} {t : NodeId}

theorem mem_nodes (hc : c ∈ p.chunks) (hn : n ∈ c.nodes) :
    n ∈ g.nodes := by
  rw [w.nodes_eq]
  exact mem_flatMap.mpr ⟨c, hc, hn⟩

theorem outEdges_eq_nil (hc : c ∈ p.chunks) (hn : n ∈ c.nodes)
    (h : targets c.edges n.id kind = []) : g.outEdges n.id kind = [] := by
  have hperm := w.out_perm c hc n hn kind
  rw [h, perm_nil] at hperm
  exact map_eq_nil_iff.mp hperm

theorem map_target_outEdges (hc : c ∈ p.chunks) (hn : n ∈ c.nodes)
    (h : targets c.edges n.id kind = [t]) :
    (g.outEdges n.id kind).map EdgeRecord.target = [t] := by
  have hperm := w.out_perm c hc n hn kind
  rwa [h, perm_singleton] at hperm

theorem exists_outEdges_eq (hc : c ∈ p.chunks) (hn : n ∈ c.nodes)
    (h : targets c.edges n.id kind = [t]) :
    ∃ e, g.outEdges n.id kind = [e] ∧ e.target = t := by
  have hmap := w.map_target_outEdges hc hn h
  obtain ⟨e, hedges⟩ := length_eq_one_iff.mp ((length_map _).symm.trans
    (congrArg length hmap))
  rw [hedges] at hmap
  exact ⟨e, hedges, singleton_inj.mp hmap⟩

/-- The node of a role. -/
theorem node_of_role {role id} (h : p.roles[role]? = some id) :
    ∃ n, g.node id = some n ∧ n.kind = roleKind ∧ n.key = role := by
  obtain ⟨n, hn, hkind, hkey, rfl⟩ := w.roles_eq role id h
  exact ⟨n, w.node_eq n (w.mem_nodes (by simp [Parts.chunks]) hn), hkind, hkey⟩

end Written

/-- The aliases of the layer that belong to the given subjects. -/
def AliasesOf (layer : IdentityLayer) (done : List SubjectEntry) (aliases : Claims) : Prop :=
  ∀ (n : String) (u : UInt32), aliases[n]? = some u ↔
    layer.aliases[n]? = some u ∧ ∃ s ∈ done, s.uid = u ∧ s.role = adversary

open Identity

theorem getElem?_subjectAttrs (aliases : AliasNames) (s : SubjectEntry) :
    (subjectAttrs aliases s)[attrName]? = some (.str s.name) ∧
      (subjectAttrs aliases s)[attrUid]? = some (.u64 s.uid.toUInt64) ∧
      (subjectAttrs aliases s)[attrAliases]? = if s.role = adversary then
        aliases[s.uid]?.map fun names ↦ .str (",".intercalate names) else none := by
  rw [subjectAttrs]
  cases hnames : aliases[s.uid]? with
  | none =>
    rw [Option.map_none, ite_self]
    exact ⟨rfl, rfl, rfl⟩
  | some names =>
    by_cases hrole : s.role = adversary
    · simp only [hrole]
      exact ⟨rfl, rfl, Std.ExtTreeMap.getElem?_insert_self⟩
    · simp only [hrole]
      exact ⟨rfl, rfl, rfl⟩

namespace Written

variable (w : Written layer baseline sync compiled vocabularySha256 p g)

include w

variable {s : SubjectEntry} {n : NodeRecord}

theorem readAliases_eq {done : List SubjectEntry} {aliases : Claims}
    (haliases : AliasesOf layer done aliases) (hs : s ∈ layer.subjects)
    (hattrs : n.attrs = subjectAttrs p.aliases s) (hnew : ∀ s' ∈ done, s'.uid ≠ s.uid) :
    ∃ out, readAliases n s.name s.uid (s.role = adversary) aliases = .ok out ∧
      AliasesOf layer (done ++ [s]) out := by
  obtain ⟨-, -, hattr⟩ := getElem?_subjectAttrs p.aliases s
  rw [← hattrs] at hattr
  have hallowed := (foldlM_collectAlias w.aliases_eq).1
  -- nothing is added when the subject has no alias or is not contained
  have hsame : (s.role = adversary → ∀ n : String, layer.aliases[n]? ≠ some s.uid) →
      AliasesOf layer (done ++ [s]) aliases := by
    intro hnone m u
    rw [haliases m u]
    refine and_congr_right fun hm ↦ ?_
    simp only [mem_append, mem_singleton, or_and_right, exists_or, exists_eq_left]
    refine (or_iff_left ?_).symm
    rintro ⟨rfl, hrole⟩
    exact hnone hrole m hm
  rw [getElem?_aliasNames w.aliases_eq] at hattr
  by_cases hrole : s.role = adversary
  swap
  · rw [if_neg hrole] at hattr
    refine ⟨aliases, ?_, hsame fun h ↦ absurd h hrole⟩
    rw [readAliases, if_neg (by simp [Std.ExtTreeMap.mem_iff_isSome_getElem?, hattr])]
  rw [if_pos hrole] at hattr
  by_cases hnil : namesOf layer.aliases.toList s.uid = []
  · rw [if_pos hnil] at hattr
    refine ⟨aliases, ?_, hsame fun _ m hm ↦ ?_⟩
    · rw [readAliases, if_neg (by simp [Std.ExtTreeMap.mem_iff_isSome_getElem?, hattr])]
    · exact absurd (mem_namesOf.mpr hm) (by simp [hnil])
  rw [if_neg hnil, Option.map_some] at hattr
  have hproper : ∀ m ∈ namesOf layer.aliases.toList s.uid, m ≠ "" ∧ m ≠ s.name ∧
      ',' ∉ m.toList := by
    intro m hm
    have hmem := Std.ExtTreeMap.mem_toList_iff_getElem?_eq_some.mpr (mem_namesOf.mp hm)
    obtain ⟨-, hname, hempty, hcomma⟩ := aliasAllowed_iff.mp (hallowed _ hmem)
    exact ⟨hempty, fun heq ↦ hname s hs hrole heq.symm, hcomma⟩
  have hfresh : ∀ m ∈ namesOf layer.aliases.toList s.uid, m ∉ aliases := by
    intro m hm hmem
    obtain ⟨u, hu⟩ := Std.ExtTreeMap.mem_iff_isSome_getElem?.mp hmem |> Option.isSome_iff_exists.mp
    obtain ⟨hlayer, s', hs', huid, -⟩ := (haliases m u).mp hu
    rw [mem_namesOf.mp hm] at hlayer
    exact hnew s' hs' (huid.trans (Option.some.inj hlayer).symm)
  obtain ⟨out, hfold, hout⟩ := foldlM_insertAlias s.uid (nodup_namesOf layer.aliases s.uid)
    fun m hm ↦ ⟨(hproper m hm).1, (hproper m hm).2.1, hfresh m hm⟩
  refine ⟨out, ?_, fun m u ↦ ?_⟩
  · have hsplit : Text.split ',' (",".intercalate (namesOf layer.aliases.toList s.uid)) =
        namesOf layer.aliases.toList s.uid :=
      Text.split_intercalate hnil fun m hm ↦ (hproper m hm).2.2
    rw [readAliases, if_pos (by simp [Std.ExtTreeMap.mem_iff_isSome_getElem?, hattr]), strAttr,
      hattr]
    simp only [ok_bind, hrole, hsplit]
    exact hfold
  · simp only [hout m, mem_append, mem_singleton, or_and_right, exists_or, exists_eq_left]
    split_ifs with hm
    · have hlayer := mem_namesOf.mp hm
      constructor
      · intro hu
        cases hu
        exact ⟨hlayer, .inr ⟨rfl, hrole⟩⟩
      · rintro ⟨hu, -⟩
        rw [← hu, hlayer]
    · rw [haliases m u]
      refine and_congr_right fun hu ↦ (or_iff_left ?_).symm
      rintro ⟨rfl, -⟩
      exact hm (mem_namesOf.mpr hu)

/-- A subject that was written is read. -/
theorem readSubject_eq {out} (haliases : AliasesOf layer out.subjects out.aliases)
    (hs : s ∈ layer.subjects) (hn : n ∈ p.subjects.nodes)
    (hrecord : SubjectRecord p.roles p.aliases p.subjects.edges s n)
    (hnew : ∀ s' ∈ out.subjects, s'.uid ≠ s.uid) :
    ∃ aliases, readSubject g (some p.source) out n =
        .ok { out with subjects := out.subjects ++ [s], aliases } ∧
      AliasesOf layer (out.subjects ++ [s]) aliases := by
  obtain ⟨aliases, hread, haliases'⟩ := w.readAliases_eq haliases hs hrecord.attrs_eq hnew
  refine ⟨aliases, ?_, haliases'⟩
  obtain ⟨hname, huid, -⟩ := getElem?_subjectAttrs p.aliases s
  rw [← hrecord.attrs_eq] at hname huid
  have hchunk : p.subjects ∈ p.chunks := by simp [Parts.chunks]
  have huid' : subjectUid n = .ok s.uid := by
    rw [subjectUid, huid]
    dsimp only
    rw [if_pos, UInt32.toUInt32_toUInt64]
    rw [UInt32.toUInt32_toUInt64]
    exact ⟨by simpa using s.uid.toNat_lt, hrecord.key_eq⟩
  have hname' : strAttr n attrName = .ok s.name := by rw [strAttr, hname]
  rw [readSubject, huid', ok_bind]
  by_cases hrole : s.role = adversary
  · obtain ⟨⟨cid, hcontained⟩, hbinds⟩ := hrecord.contained_of hrole
    obtain ⟨e, hout, -⟩ := w.exists_outEdges_eq hchunk hn hcontained
    rw [w.outEdges_eq_nil hchunk hn hbinds, hname', ok_bind, hout]
    simp only [hrole, decide_true] at hread
    simp only [isEmpty_cons, Bool.not_false, hread]
    rw [← hrole]
    rfl
  · obtain ⟨hcontained, id, hid, hbinds⟩ := hrecord.bound_of hrole
    obtain ⟨e, hout, rfl⟩ := w.exists_outEdges_eq hchunk hn hbinds
    obtain ⟨m, hm, -, hkey⟩ := w.node_of_role hid
    rw [w.outEdges_eq_nil hchunk hn hcontained, hout, hname', ok_bind]
    simp only [hrole, decide_false] at hread
    simp only [isEmpty_nil, Bool.not_true, hread, head?_cons, Option.bind_some, hm,
      Option.map_some, hkey]
    rfl

/-- **The subjects that were written are read.** -/
theorem readSubjects_eq {subjects nodes} (out : Subjects)
    (hrecords : List.Forall₂ (SubjectRecord p.roles p.aliases p.subjects.edges) subjects nodes)
    (hnodes : ∀ n ∈ nodes, n ∈ p.subjects.nodes) (hsubjects : ∀ s ∈ subjects, s ∈ layer.subjects)
    (haliases : AliasesOf layer out.subjects out.aliases)
    (hdistinct : ((out.subjects ++ subjects).map SubjectEntry.uid).Nodup) :
    ∃ aliases, nodes.foldlM (readSubject g (some p.source)) out =
        .ok { out with subjects := out.subjects ++ subjects, aliases } ∧
      AliasesOf layer (out.subjects ++ subjects) aliases := by
  induction hrecords generalizing out with
  | nil => exact ⟨out.aliases, by simp, by simpa using haliases⟩
  | @cons s n subjects nodes hrecord hrecords ih =>
    obtain ⟨hn, hnodes⟩ := forall_mem_cons.mp hnodes
    obtain ⟨hs, hsubjects⟩ := forall_mem_cons.mp hsubjects
    have hnew : ∀ s' ∈ out.subjects, s'.uid ≠ s.uid := by
      rw [map_append, nodup_append] at hdistinct
      exact fun s' hs' ↦ hdistinct.2.2 _ (mem_map_of_mem hs') _ (by simp)
    obtain ⟨aliases, hread, haliases'⟩ := w.readSubject_eq haliases hs hn hrecord hnew
    obtain ⟨aliases', hfold, hfinal⟩ := ih { out with subjects := out.subjects ++ [s], aliases }
      hnodes hsubjects haliases' (by simpa using hdistinct)
    refine ⟨aliases', ?_, by simpa using hfinal⟩
    rw [foldlM_cons, hread, ok_bind, hfold]
    simp

end Written

/-! ### Keys -/

section Keys

variable {source name : String}

theorem startsWithChar_append {c a b} (h : Text.startsWithChar c a = true) :
    Text.startsWithChar c (a ++ b) = true := by
  rw [Text.startsWithChar, beq_iff_eq] at h ⊢
  rw [String.toList_append, head?_append, h]
  rfl

/-- A key made from a path is not one of the baseline's. -/
theorem bindingsSectionKey_ne_append (habsolute : Text.startsWithChar '/' source = true) :
    bindingsSectionKey source ≠ baselineSourceKey ++ name := by
  intro heq
  have hstart : Text.startsWithChar '/' (bindingsSectionKey source) = true :=
    startsWithChar_append habsolute
  rw [heq, Text.startsWithChar] at hstart
  exact absurd hstart (by simp [baselineSourceKey])

theorem sectionKey_eq (name : String) :
    Baseline.sectionKey name = baselineSourceKey ++ ("#" ++ name) := by
  rfl

theorem sectionKey_ne_bindings (habsolute : Text.startsWithChar '/' source = true) :
    Baseline.sectionKey name ≠ bindingsSectionKey source := by
  rw [sectionKey_eq]
  exact (bindingsSectionKey_ne_append habsolute).symm

theorem sectionName_sectionKey {n} (h : n.key = Baseline.sectionKey name) :
    Baseline.sectionName n = some name := by
  rw [Baseline.sectionName, h, Text.stripPrefix_eq_some.mpr (sectionKey_eq name)]
  exact Text.stripPrefix_eq_some.mpr rfl

theorem levelKey_eq (system ceiling : String) :
    Baseline.levelKey system ceiling = system ++ (":" ++ ceiling) := by
  rw [← String.append_assoc]
  rfl

end Keys

/-! ### Nodes by kind -/

variable {nodes : List NodeRecord} {kind : NodeKind}

theorem filter_kind_eq_nil (kinds : List NodeKind) (h : ∀ n ∈ nodes, n.kind ∈ kinds)
    (hkind : kind ∉ kinds) :
    nodes.filter (fun n ↦ n.kind = kind) = [] :=
  filter_eq_nil_iff.mpr fun n hn heq ↦ hkind (of_decide_eq_true heq ▸ h n hn)

theorem filter_kind_eq_self (h : ∀ n ∈ nodes, n.kind = kind) :
    nodes.filter (fun n ↦ n.kind = kind) = nodes :=
  filter_eq_self.mpr fun n hn ↦ decide_eq_true (h n hn)

theorem Baseline.Records.filter_kind {bl edges n}
    (h : Records bl edges n) :
    n.toList.filter (fun m ↦ m.kind = configSource) = [n.source] ∧
      n.toList.filter (fun m ↦ m.kind = sectionKind) = n.sections ∧
      n.toList.filter (fun m ↦ m.kind = instanceKind) = [n.inst] ∧
      n.toList.filter (fun m ↦ m.kind = classificationSystem) = [n.system] ∧
      n.toList.filter (fun m ↦ m.kind = level) = [n.level] ∧
      n.toList.filter (fun m ↦ m.kind = subjectKind) = [] ∧
      n.toList.filter (fun m ↦ m.kind = syncBaseKind) = [] := by
  have hsections : ∀ m ∈ n.sections, m.kind = sectionKind := fun m hm ↦ by
    obtain ⟨entry, -, hrecord⟩ := h.sections.exists_mem_left hm
    exact hrecord.kind_eq
  have hnil : ∀ kind, kind ≠ sectionKind → n.sections.filter (fun m ↦ m.kind = kind) = [] :=
    fun kind hkind ↦ filter_kind_eq_nil [sectionKind] (by simpa using hsections)
      (by simpa using hkind)
  simp only [Nodes.toList, filter_cons, filter_append, h.source_kind, h.inst_kind,
    h.system_kind, h.level_kind, filter_kind_eq_self hsections, hnil configSource (by decide),
    hnil instanceKind (by decide), hnil classificationSystem (by decide), hnil level (by decide),
    hnil subjectKind (by decide), hnil syncBaseKind (by decide)]
  simp [configSource, sectionKind, instanceKind, classificationSystem, level, subjectKind,
    syncBaseKind]

namespace Written

variable (w : Written layer baseline sync compiled vocabularySha256 p g)

include w

/-- The nodes of a kind are those of the parts. -/
theorem filter_nodes (kind : NodeKind) (hkind : kind ∉ kernelSchema.compiledKinds) :
    g.nodes.filter (fun n ↦ n.kind = kind) =
      (if kind = configSource then [p.source, p.vocabulary] else []) ++
      ((if kind = sectionKind then p.bindings.nodes else []) ++
      (p.subjects.nodes.filter (fun n ↦ n.kind = kind) ++
      ((if kind = syncBaseKind then p.sync.nodes else []) ++
      p.baseline.elim [] fun n ↦ n.toList.filter fun m ↦ m.kind = kind))) := by
  have hbindings : ∀ n ∈ p.bindings.nodes, n.kind = sectionKind := fun n hn ↦ by
    obtain ⟨_, -, hrecord⟩ := w.bindings_eq.exists_mem_left hn
    exact hrecord.kind_eq
  have hsync : ∀ n ∈ p.sync.nodes, n.kind = syncBaseKind := fun n hn ↦ by
    obtain ⟨_, -, hrecord⟩ := w.sync_eq.exists_mem_left hn
    exact hrecord.kind_eq
  have hsources : ∀ n ∈ [p.source, p.vocabulary], n.kind = configSource := by
    simp [w.source_kind, w.vocabulary_kind]
  have hof : ∀ (nodes : List NodeRecord) (k : NodeKind), (∀ n ∈ nodes, n.kind = k) →
      nodes.filter (fun n ↦ n.kind = kind) = if kind = k then nodes else [] := by
    intro nodes k hk
    split_ifs with heq
    · subst heq
      exact filter_kind_eq_self hk
    · exact filter_kind_eq_nil [k] (by simpa using hk) (by simpa using heq)
  have hbaseline : (p.baseline.elim [] Baseline.Nodes.toList).filter (fun n ↦ n.kind = kind) =
      p.baseline.elim [] fun n ↦ n.toList.filter fun m ↦ m.kind = kind := by
    cases p.baseline <;> rfl
  rw [w.nodes_eq, Parts.chunk, Chunk.concat]
  simp only [Parts.chunks, flatMap_cons, flatMap_nil, filter_append, append_nil,
    hof _ _ hsources, filter_kind_eq_nil _ w.compiled_kind hkind, hof _ _ hbindings, hof _ _ hsync,
    hbaseline, nil_append]

theorem subjects_filter_eq_nil {kind} (hkind : kind ∉ [subjectKind, containment]) :
    p.subjects.nodes.filter (fun n ↦ n.kind = kind) = [] :=
  filter_kind_eq_nil _ (fun n hn ↦ by simpa using w.subjects_kind n hn) hkind

/-- There is a baseline in the graph when there is one to write. -/
theorem baseline_cases : (baseline = none ∧ p.baseline = none) ∨
    ∃ bl n, baseline = some bl ∧ p.baseline = some n ∧
      Baseline.Records bl p.baselineEdges n := by
  have hrecords := w.baseline_eq
  cases hp : p.baseline with
  | none =>
    rw [hp, Option.toList_none, forall₂_nil_right_iff, Option.toList_eq_nil_iff] at hrecords
    exact .inl ⟨hrecords, rfl⟩
  | some n =>
    rw [hp] at hrecords
    cases baseline with
    | none => cases hrecords
    | some bl =>
      cases hrecords with
      | cons hrecord _ => exact .inr ⟨bl, n, rfl, rfl, hrecord⟩

/-- What a baseline has of a kind is read off its records. -/
theorem baseline_filter_eq {kind} {f : Baseline.Nodes → List NodeRecord}
    (h : ∀ {bl edges n}, Baseline.Records bl edges n →
      n.toList.filter (fun m ↦ m.kind = kind) = f n) :
    (p.baseline.elim [] fun n ↦ n.toList.filter fun m ↦ m.kind = kind) = p.baseline.elim [] f := by
  rcases w.baseline_cases with ⟨-, hp⟩ | ⟨bl, n, -, hp, hrecords⟩
  · rw [hp]
    rfl
  · rw [hp]
    exact h hrecords

theorem sources_eq : g.nodes.filter (fun n ↦ n.kind = configSource) =
    [p.source, p.vocabulary] ++ p.baseline.elim [] fun n ↦ [n.source] := by
  rw [w.filter_nodes _ (by decide), w.subjects_filter_eq_nil (by decide),
    w.baseline_filter_eq fun h ↦ h.filter_kind.1]
  rfl

theorem sections_eq : g.nodes.filter (fun n ↦ n.kind = sectionKind) =
    p.bindings.nodes ++ p.baseline.elim [] Baseline.Nodes.sections := by
  rw [w.filter_nodes _ (by decide), w.subjects_filter_eq_nil (by decide),
    w.baseline_filter_eq fun h ↦ h.filter_kind.2.1]
  rfl

theorem subjects_nodes_eq : g.nodes.filter (fun n ↦ n.kind = subjectKind) =
    p.subjects.nodes.filter fun n ↦ n.kind = subjectKind := by
  rw [w.filter_nodes _ (by decide), w.baseline_filter_eq fun h ↦ h.filter_kind.2.2.2.2.2.1]
  cases p.baseline <;> exact append_nil _

theorem sync_nodes_eq : g.nodes.filter (fun n ↦ n.kind = syncBaseKind) = p.sync.nodes := by
  rw [w.filter_nodes _ (by decide), w.subjects_filter_eq_nil (by decide),
    w.baseline_filter_eq fun h ↦ h.filter_kind.2.2.2.2.2.2]
  cases p.baseline <;> exact append_nil _

/-- The nodes that only a baseline has. -/
theorem baseline_nodes_eq {kind} (hkind : kind ∈ [instanceKind, classificationSystem, level]) :
    g.nodes.filter (fun n ↦ n.kind = kind) =
      p.baseline.elim [] fun n ↦ n.toList.filter fun m ↦ m.kind = kind := by
  have hne : kind ∉ kernelSchema.compiledKinds ∧ kind ∉ [subjectKind, containment] ∧
      kind ≠ configSource ∧ kind ≠ sectionKind ∧ kind ≠ syncBaseKind := by
    simp only [mem_cons, not_mem_nil, or_false] at hkind
    rcases hkind with rfl | rfl | rfl <;> decide
  rw [w.filter_nodes _ hne.1, w.subjects_filter_eq_nil hne.2.1, if_neg hne.2.2.1,
    if_neg hne.2.2.2.1, if_neg hne.2.2.2.2]
  rfl

/-! ### Sources and sections -/

/-- The key of the bindings' source is a path. -/
theorem source_key_ne (habsolute : Text.startsWithChar '/' layer.source = true) {key}
    (hkey : Text.startsWithChar '/' key = false) : p.source.key ≠ key := by
  rintro rfl
  rw [w.source_key, habsolute] at hkey
  cases hkey

theorem readSources_eq (habsolute : Text.startsWithChar '/' layer.source = true) :
    (g.nodes.filter fun n ↦ n.kind = configSource).foldlM readSource (none, none) =
      .ok (some vocabularySha256, some p.source) := by
  have hsource : readSource (none, none) p.source = .ok (none, some p.source) := by
    rw [readSource, if_neg (w.source_key_ne habsolute (by decide)),
      if_neg (w.source_key_ne habsolute (by decide))]
  have hdigest : digestAttr p.vocabulary = .ok vocabularySha256 := by
    rw [digestAttr, strAttr, w.vocabulary_attrs,
      getElem?_strAttrs (v := hex vocabularySha256) (by simp) (by simp),
      ok_bind, unhex_hex]
    rfl
  have hvocabulary : readSource (none, some p.source) p.vocabulary =
      .ok (some vocabularySha256, some p.source) := by
    rw [readSource, if_pos w.vocabulary_key, hdigest]
    rfl
  rw [w.sources_eq, foldlM_append, foldlM_cons, hsource, ok_bind, foldlM_cons,
    hvocabulary, ok_bind, foldlM_nil, pure_bind]
  rcases w.baseline_cases with ⟨-, hp⟩ | ⟨bl, n, -, hp, hrecords⟩
  · rw [hp]
    rfl
  · have hbaseline : readSource (some vocabularySha256, some p.source) n.source =
        .ok (some vocabularySha256, some p.source) := by
      rw [readSource, if_neg (by rw [hrecords.source_key]; decide), if_pos hrecords.source_key]
    rw [hp, Option.elim_some, foldlM_cons, hbaseline]
    rfl

/-- The section of the bindings is there when the layer has a digest for it. -/
theorem lookup_bindings (habsolute : Text.startsWithChar '/' layer.source = true) :
    (∃ d n, layer.bindingsSha256 = some d ∧ digestAttr n = .ok d ∧
      g.lookup sectionKind (bindingsSectionKey layer.source) = some n) ∨
    (layer.bindingsSha256 = none ∧
      g.lookup sectionKind (bindingsSectionKey layer.source) = none) := by
  have hbindings := w.bindings_eq
  cases hdigest : layer.bindingsSha256 with
  | some d =>
    rw [hdigest, Option.toList_some, forall₂_cons_left_iff] at hbindings
    obtain ⟨n, rest, hrecord, -, hnodes⟩ := hbindings
    have hn : n ∈ g.nodes :=
      w.mem_nodes (c := p.bindings) (by simp [Parts.chunks]) (by simp [hnodes])
    have hlookup := w.lookup_eq n hn
    rw [hrecord.kind_eq, hrecord.key_eq] at hlookup
    refine .inl ⟨d, n, rfl, ?_, hlookup⟩
    rw [digestAttr, strAttr, hrecord.attrs_eq,
      getElem?_strAttrs (v := hex d) (by simp) (by simp), ok_bind, unhex_hex]
    rfl
  | none =>
    rw [hdigest, Option.toList_none, forall₂_nil_left_iff] at hbindings
    refine .inr ⟨rfl, Option.eq_none_iff_forall_ne_some.mpr fun n hn ↦ ?_⟩
    obtain ⟨hmem, hkind, hkey⟩ := w.mem_of_lookup _ _ n hn
    have hmem' : n ∈ g.nodes.filter fun n ↦ n.kind = sectionKind :=
      mem_filter.mpr ⟨hmem, decide_eq_true hkind⟩
    rw [w.sections_eq, hbindings] at hmem'
    rcases w.baseline_cases with ⟨-, hp⟩ | ⟨bl, nodes, -, hp, hrecords⟩
    · rw [hp] at hmem'
      cases hmem'
    · rw [hp] at hmem'
      obtain ⟨entry, -, hrecord⟩ := hrecords.sections.exists_mem_left hmem'
      -- a baseline section's key does not start like a path
      exact sectionKey_ne_bindings habsolute (hrecord.key_eq.symm.trans hkey)

/-! ### The baseline -/

theorem sectionName_of_bindings (habsolute : Text.startsWithChar '/' layer.source = true)
    {n} (hn : n ∈ p.bindings.nodes) : Baseline.sectionName n = none := by
  obtain ⟨_, -, hrecord⟩ := w.bindings_eq.exists_mem_left hn
  rw [Baseline.sectionName, hrecord.key_eq, Option.bind_eq_none_iff]
  intro rest hrest
  exact absurd (Text.stripPrefix_eq_some.mp hrest) (bindingsSectionKey_ne_append habsolute)

section Baseline

variable {bl : BaselineLayer} {n : Baseline.Nodes} (hp : p.baseline = some n)
  (hrecords : Baseline.Records bl p.baselineEdges n)

include hp

omit w in
theorem mem_chunks_baseline : (⟨n.toList, p.baselineEdges⟩ : Chunk) ∈ p.chunks := by
  simp [Parts.chunks, hp]

theorem readSection_eq {entry : String × String} {m} (hm : m ∈ n.sections)
    (hrecord : Baseline.SectionRecord n.source.id p.baselineEdges entry m)
    (sections : Std.ExtTreeMap String String compare) :
    Baseline.readSection g n.source sections m = .ok (sections.insert entry.1 entry.2) := by
  have hm' : m ∈ n.toList := by
    exact mem_cons_of_mem _ (mem_append_left _ hm)
  have hedges := w.map_target_outEdges (mem_chunks_baseline hp) hm' hrecord.part_of
  have hvalue : Baseline.strAttr m attrValue = .ok entry.2 := by
    rw [Baseline.strAttr, hrecord.attrs_eq, getElem?_strAttrs (v := entry.2) (by simp) (by simp)]
  rw [Baseline.readSection, sectionName_sectionKey hrecord.key_eq]
  dsimp only
  rw [if_neg hrecord.name_ne, if_neg (not_not_intro hedges), hvalue]
  rfl

theorem readSections_of_forall₂ {entries : List (String × String)} {nodes}
    (hentries : List.Forall₂ (Baseline.SectionRecord n.source.id p.baselineEdges) entries nodes)
    (hmem : ∀ m ∈ nodes, m ∈ n.sections) (sections : Std.ExtTreeMap String String compare) :
    nodes.foldlM (Baseline.readSection g n.source) sections =
      .ok (sections.insertMany entries) := by
  induction hentries generalizing sections with
  | nil => simp
  | @cons entry m entries nodes hrecord _ ih =>
    obtain ⟨hm, hmem⟩ := forall_mem_cons.mp hmem
    rw [foldlM_cons, w.readSection_eq hp hm hrecord, ok_bind, ih hmem,
      Std.ExtTreeMap.insertMany_cons]

theorem only_eq {kind} (hkind : kind ∈ [instanceKind, classificationSystem, level])
    {m} (hm : n.toList.filter (fun m ↦ m.kind = kind) = [m]) (many : String) :
    Baseline.only g kind many = .ok (some m) := by
  rw [Baseline.only, w.baseline_nodes_eq hkind, hp, Option.elim_some, hm]

include hrecords

theorem readSections_eq (habsolute : Text.startsWithChar '/' layer.source = true) :
    (g.nodes.filter fun n ↦ n.kind = sectionKind).foldlM (Baseline.readSection g n.source) ∅ =
      .ok bl.sections := by
  -- the section of the bindings is passed over
  have hskip : ∀ nodes : List NodeRecord, (∀ m ∈ nodes, m ∈ p.bindings.nodes) → ∀ sections,
      nodes.foldlM (Baseline.readSection g n.source) sections = .ok sections := by
    intro nodes hnodes sections
    induction nodes with
    | nil => rfl
    | cons m nodes ih =>
      obtain ⟨hm, hnodes⟩ := forall_mem_cons.mp hnodes
      rw [foldlM_cons, Baseline.readSection, w.sectionName_of_bindings habsolute hm,
        ok_bind, ih hnodes]
  rw [w.sections_eq, hp, foldlM_append, hskip _ fun m hm ↦ hm, ok_bind, Option.elim_some,
    w.readSections_of_forall₂ hp hrecords.sections fun m hm ↦ hm,
    ← Std.ExtTreeMap.ofList_eq_insertMany_empty, ofList_toList]

theorem baselineExtract_eq (habsolute : Text.startsWithChar '/' layer.source = true)
    (hceiling : bl.ceiling ≠ "") : Baseline.extract g = .ok (some bl) := by
  have hchunk := mem_chunks_baseline hp
  have hsource : g.lookup configSource baselineSourceKey = some n.source := by
    have := w.lookup_eq n.source (w.mem_nodes hchunk (by simp [Baseline.Nodes.toList]))
    rwa [hrecords.source_kind, hrecords.source_key] at this
  have hkeys : ((attrSha256, hex bl.sha256) ::
      bl.movedFrom.toList.map fun path ↦ (attrMovedFrom, path)).map Prod.fst = attrSha256 ::
        bl.movedFrom.toList.map fun _ ↦ attrMovedFrom := by
    simp [map_map]
  have hdistinct : (attrSha256 :: bl.movedFrom.toList.map fun _ ↦ attrMovedFrom).Nodup := by
    cases bl.movedFrom <;> simp [attrSha256, attrMovedFrom]
  have hdigest : Baseline.strAttr n.source attrSha256 = .ok (hex bl.sha256) := by
    rw [Baseline.strAttr, hrecords.source_attrs, getElem?_strAttrs
      (hkeys ▸ hdistinct) mem_cons_self]
  have hmoved : Baseline.readMovedFrom n.source = .ok bl.movedFrom := by
    rw [Baseline.readMovedFrom, hrecords.source_attrs]
    cases hpath : bl.movedFrom with
    | none => rw [getElem?_strAttrs_eq_none (by simp [attrSha256, attrMovedFrom])]
    | some path =>
      rw [getElem?_strAttrs (v := path) (by simp [attrSha256, attrMovedFrom]) (by simp)]
  obtain ⟨-, -, hinst, hsystem, hlevel, -⟩ := hrecords.filter_kind
  have hinstance : Baseline.readInstance g n.source = .ok n.inst := by
    rw [Baseline.readInstance, w.only_eq hp (by simp) hinst, ok_bind]
    dsimp only
    rw [if_pos hrecords.inst_key]
    rfl
  have hread : Baseline.readSystem g n.inst = .ok n.system := by
    have hone : (g.outEdges n.inst.id declares).length = 1 := by
      rw [← length_map EdgeRecord.target, w.map_target_outEdges hchunk
        (by simp [Baseline.Nodes.toList]) hrecords.declares_system]
      rfl
    rw [Baseline.readSystem, w.only_eq hp (by simp) hsystem, ok_bind]
    dsimp only
    rw [if_neg (not_not_intro hone)]
    rfl
  have hceil : Baseline.readCeiling g n.system = .ok bl.ceiling := by
    have hone : (g.outEdges n.level.id levelOf).length = 1 := by
      rw [← length_map EdgeRecord.target, w.map_target_outEdges hchunk
        (by simp [Baseline.Nodes.toList]) hrecords.level_of_system]
      rfl
    have hkey : (Text.stripPrefix n.system.key n.level.key).bind (Text.stripPrefix ":") =
        some bl.ceiling := by
      rw [hrecords.system_key, hrecords.level_key, Text.stripPrefix_eq_some.mpr
        (levelKey_eq bl.system bl.ceiling)]
      exact Text.stripPrefix_eq_some.mpr rfl
    rw [Baseline.readCeiling, w.only_eq hp (by simp) hlevel, ok_bind]
    dsimp only
    rw [hkey]
    dsimp only
    rw [if_pos ⟨hceiling, hone⟩]
    rfl
  rw [Baseline.extract, hsource]
  dsimp only
  rw [hdigest, ok_bind, unhex_hex]
  dsimp only
  rw [hmoved, ok_bind, w.readSections_eq hp hrecords habsolute, ok_bind,
    if_neg (by simp [hrecords.sections_ne]), hinstance, ok_bind, hread, ok_bind,
    hceil, hrecords.system_key]
  rfl

end Baseline

theorem baselineExtract_eq_none (habsolute : Text.startsWithChar '/' layer.source = true)
    (hp : p.baseline = none) : Baseline.extract g = .ok none := by
  have hsource : g.lookup configSource baselineSourceKey = none := by
    refine Option.eq_none_iff_forall_ne_some.mpr fun n hn ↦ ?_
    obtain ⟨hmem, hkind, hkey⟩ := w.mem_of_lookup _ _ n hn
    have hmem' : n ∈ g.nodes.filter fun n ↦ n.kind = configSource :=
      mem_filter.mpr ⟨hmem, decide_eq_true hkind⟩
    rw [w.sources_eq, hp] at hmem'
    rcases mem_cons.mp hmem' with rfl | hmem'
    · exact w.source_key_ne habsolute (by decide) hkey
    · rw [mem_singleton.mp hmem', w.vocabulary_key] at hkey
      exact absurd hkey (by decide)
  have hnone : g.nodes.find? Baseline.isBaselineNode = none := by
    refine find?_eq_none.mpr fun n hn hbaseline ↦ ?_
    rw [Baseline.isBaselineNode, Bool.or_eq_true, Bool.and_eq_true, decide_eq_true_eq,
      decide_eq_true_eq] at hbaseline
    rcases hbaseline with hkind | ⟨hkind, hname⟩
    · have hmem : n ∈ g.nodes.filter fun m ↦ m.kind = n.kind :=
        mem_filter.mpr ⟨hn, decide_eq_true rfl⟩
      rw [w.baseline_nodes_eq hkind, hp] at hmem
      cases hmem
    · have hmem : n ∈ g.nodes.filter fun m ↦ m.kind = sectionKind :=
        mem_filter.mpr ⟨hn, decide_eq_true hkind⟩
      rw [w.sections_eq, hp, Option.elim_none, append_nil] at hmem
      rw [w.sectionName_of_bindings habsolute hmem] at hname
      cases hname
  rw [Baseline.extract, hsource]
  rw [hnone]

/-! ### The sync state -/

theorem syncExtract_eq (habsolute : Text.startsWithChar '/' layer.source = true)
    (hexplicit : ∀ s ∈ sync, Sync.explicit s.base = Sync.explicit s.live ∧
      Sync.explicit s.live = layer.bindingsSha256.isSome) :
    Sync.extract g (some p.source) = .ok sync := by
  have hsync := w.sync_eq
  rw [Sync.extract, w.sync_nodes_eq]
  cases sync with
  | none =>
    rw [Option.toList_none, forall₂_nil_left_iff] at hsync
    rw [hsync]
  | some s =>
    obtain ⟨hbase, hlive⟩ := hexplicit s rfl
    rw [Option.toList_some, forall₂_cons_left_iff] at hsync
    obtain ⟨n, rest, hrecord, hrest, hnodes⟩ := hsync
    rw [forall₂_nil_left_iff] at hrest
    have hedges := w.map_target_outEdges (by simp [Parts.chunks])
      (by simp [hnodes]) hrecord.part_of
    have hattr : ∀ k v, (k, v) ∈ [(attrBase, s.base), (attrLive, s.live),
        (attrConflicts, s.conflicts)] → v ≠ "" → Sync.attr n k = .ok v := by
      intro k v hkv hne
      rw [Sync.attr, hrecord.attrs_eq,
        getElem?_strAttrs (by simp [attrBase, attrLive, attrConflicts]) hkv]
      dsimp only
      rw [if_pos hne]
    have hsection : (g.lookup sectionKind (bindingsSectionKey p.source.key)).isSome =
        layer.bindingsSha256.isSome := by
      rw [w.source_key]
      rcases w.lookup_bindings habsolute with ⟨d, m, hd, -, hm⟩ | ⟨hd, hm⟩
      · rw [hd, hm]
        rfl
      · rw [hd, hm]
        rfl
    have hread : Sync.read g n p.source = .ok s := by
      rw [Sync.read, if_neg (by rw [hrecord.key_eq, w.source_key]; simp),
        if_neg (not_not_intro hedges), hattr _ _ (by simp) hrecord.base_ne, ok_bind,
        hattr _ _ (by simp) hrecord.live_ne, ok_bind,
        hattr _ _ (by simp) hrecord.conflicts_ne, ok_bind, if_neg (not_not_intro hbase),
        hsection, if_neg (not_not_intro hlive)]
      rfl
    rw [hnodes, hrest]
    dsimp only
    rw [hread]
    rfl

end Written

/-! ### All layers -/

/-- Layers that can be read back. -/
structure Readable (layer : IdentityLayer) (baseline : Option BaselineLayer)
    (sync : Option SyncBase) : Prop where
  /-- The source of the bindings is an absolute path. -/
  absolute : Text.startsWithChar '/' layer.source = true
  ceiling_ne : ∀ bl ∈ baseline, bl.ceiling ≠ ""
  /-- The sync state agrees with the layer on whether bindings are explicit. -/
  explicit_eq : ∀ s ∈ sync, Sync.explicit s.base = Sync.explicit s.live ∧
    Sync.explicit s.live = layer.bindingsSha256.isSome

namespace Written

variable (w : Written layer baseline sync compiled vocabularySha256 p g)

include w

/-- Subjects are told apart by their uids. -/
theorem nodup_uids : (layer.subjects.map SubjectEntry.uid).Nodup := by
  have hkeys : (g.nodes.filter fun n ↦ n.kind = subjectKind).map NodeRecord.key =
      ((sortByKey (fun s ↦ s.uid.toNat) layer.subjects).map SubjectEntry.uid).map subjectKey := by
    rw [w.subjects_nodes_eq, map_map]
    refine forall₂_eq_eq_eq ▸ (forall₂_map_left_iff.mpr (forall₂_map_right_iff.mpr ?_))
    exact (List.Forall₂.flip
      (w.subjects_eq.imp fun s n hrecord ↦ hrecord.key_eq))
  have hnodup : ((g.nodes.filter fun n ↦ n.kind = subjectKind).map NodeRecord.key).Nodup := by
    refine (w.nodes_nodup.filter _).map_on fun m hm n hn hkey ↦ ?_
    obtain ⟨hm, hmkind⟩ := mem_filter.mp hm
    obtain ⟨hn, hnkind⟩ := mem_filter.mp hn
    -- a kind and a key find one node
    have hlookup := w.lookup_eq m hm
    rw [of_decide_eq_true hmkind, hkey, ← of_decide_eq_true hnkind, w.lookup_eq n hn] at hlookup
    exact (Option.some.inj hlookup).symm
  rw [hkeys] at hnodup
  exact ((sortByKey_perm _ _).map _).nodup_iff.mp (.of_map _ hnodup)

/-- No alias is the name of a contained subject. -/
theorem aliasClash_eq_false {aliases} (haliases : AliasesOf layer layer.subjects aliases)
    {s} (hs : s ∈ layer.subjects) : aliasClash aliases s = false := by
  rw [← Bool.not_eq_true, aliasClash, Bool.and_eq_true, Bool.and_eq_true, decide_eq_true_eq]
  rintro ⟨⟨hrole, hmem⟩, -⟩
  rw [Std.ExtTreeMap.contains_eq_isSome_getElem?] at hmem
  obtain ⟨u, hu⟩ := Option.isSome_iff_exists.mp hmem
  have hlisted := Std.ExtTreeMap.mem_toList_iff_getElem?_eq_some.mpr ((haliases _ _).mp hu).1
  obtain ⟨-, hname, -⟩ := aliasAllowed_iff.mp ((foldlM_collectAlias w.aliases_eq).1 _ hlisted)
  exact hname s hs hrole rfl

/-- All aliases belong to subjects of the layer. -/
theorem eq_aliases {aliases} (haliases : AliasesOf layer layer.subjects aliases) :
    aliases = layer.aliases := by
  refine Std.ExtTreeMap.ext_getElem? fun n ↦ Option.ext fun u ↦ ?_
  rw [haliases n u, and_iff_left_iff_imp]
  intro hn
  have hlisted := Std.ExtTreeMap.mem_toList_iff_getElem?_eq_some.mpr hn
  exact (aliasAllowed_iff.mp ((foldlM_collectAlias w.aliases_eq).1 _ hlisted)).1

/-- In uid order, each subject comes after all those with smaller uids. -/
theorem pairwise_uid_lt : (sortByKey (fun s ↦ s.uid.toNat) layer.subjects).Pairwise
    fun s t ↦ s.uid.toNat < t.uid.toNat := by
  have hne : (sortByKey (fun s ↦ s.uid.toNat) layer.subjects).Pairwise fun s t ↦ s.uid ≠ t.uid :=
    pairwise_map.mp (((sortByKey_perm _ _).map _).nodup_iff.mpr w.nodup_uids)
  exact (pairwise_sortByKey (fun s : SubjectEntry ↦ s.uid.toNat) layer.subjects).imp₂
    (fun s t hle hst ↦ lt_of_le_of_ne hle fun heq ↦ hst (UInt32.toNat_inj.mp heq)) hne

theorem extract_eq (h : Readable layer baseline sync) :
    Identity.extract g = .ok {
      layer := { layer with subjects := sortByKey (fun s ↦ s.uid.toNat) layer.subjects }
      vocabularySha256 := some vocabularySha256
      unbound := []
      baseline
      sync } := by
  let subjects := sortByKey (fun s ↦ s.uid.toNat) layer.subjects
  have hperm : subjects.Perm layer.subjects := sortByKey_perm _ _
  have hempty : AliasesOf layer [] ∅ := fun n u ↦ by simp
  obtain ⟨aliases, hsubjects, haliases⟩ := w.readSubjects_eq ⟨[], ∅, []⟩ w.subjects_eq
    (fun n hn ↦ mem_of_mem_filter hn) (fun s hs ↦ hperm.mem_iff.mp hs) hempty
    ((hperm.map _).nodup_iff.mpr w.nodup_uids)
  have haliases' : AliasesOf layer layer.subjects aliases := fun n u ↦ by
    rw [haliases n u]
    simp only [nil_append, mem_sortByKey]
  have hsorted : sortByKey (fun s ↦ s.uid.toNat) subjects = subjects :=
    sortByKey_eq_of_perm (.refl _) w.pairwise_uid_lt
  have hclash : subjects.find? (aliasClash aliases) = none := by
    refine find?_eq_none.mpr fun s hs ↦ ?_
    rw [w.aliasClash_eq_false haliases' (hperm.mem_iff.mp hs)]
    simp
  have hbaseline : Baseline.extract g = .ok baseline := by
    rcases w.baseline_cases with ⟨rfl, hp⟩ | ⟨bl, n, rfl, hp, hrecords⟩
    · exact w.baselineExtract_eq_none h.absolute hp
    · exact w.baselineExtract_eq hp hrecords h.absolute (h.ceiling_ne bl rfl)
  have hbindings : readBindings g layer.source = .ok layer.bindingsSha256 := by
    rcases w.lookup_bindings h.absolute with ⟨d, n, hd, hn, hlookup⟩ | ⟨hd, hlookup⟩
    · rw [readBindings, hlookup, hd]
      dsimp only
      rw [hn]
      rfl
    · rw [readBindings, hlookup, hd]
  rw [Identity.extract, w.readSources_eq h.absolute, ok_bind]
  dsimp only
  rw [Option.elim_some, w.source_key, hbindings, ok_bind, w.subjects_nodes_eq, hsubjects, ok_bind]
  dsimp only [nil_append]
  rw [hsorted, hclash]
  rw [hbaseline, w.syncExtract_eq h.absolute h.explicit_eq, w.eq_aliases haliases',
    Option.elim_some, w.source_label]
  rfl

end Written

end Reading

/-- **The layers of a graph are those it was built from.** -/
theorem extract_build {layer baseline sync compiled vocabularySha256 revision initiator g}
    (hread : Readable layer baseline sync)
    (h : Identity.build layer baseline sync compiled vocabularySha256 revision initiator = .ok g) :
    Identity.extract g = .ok {
      layer := { layer with subjects := sortByKey (fun s ↦ s.uid.toNat) layer.subjects }
      vocabularySha256 := some vocabularySha256
      unbound := []
      baseline
      sync } := by
  obtain ⟨-, p, w⟩ := exists_written h
  exact w.extract_eq hread

/-- **What is persisted is what the next boot reads.** The layers of a graph are those it was built
from, with the subjects in the order of their uids, and so are the layers of the graph that its
bytes decode to with the vocabulary it was built with. -/
theorem layers_round_trip {layer : IdentityLayer} {baseline : Option BaselineLayer}
    {sync : Option SyncBase} {compiled : CompiledSet} {vocabularySha256 : Digest}
    {revision : UInt64}
    {initiator : ProvenanceKind} {g : Graph} (hread : Readable layer baseline sync)
    (h : Identity.build layer baseline sync compiled vocabularySha256 revision initiator = .ok g) :
    ∃ subjects, subjects.Perm layer.subjects ∧
      subjects.Pairwise (fun s t ↦ s.uid.toNat < t.uid.toNat) ∧
      Identity.extract g = .ok {
        layer := { layer with subjects }
        vocabularySha256 := some vocabularySha256
        unbound := []
        baseline
        sync } ∧
      ∃ bytes read, (encode g : Outcome GraphError _) = .ok bytes ∧
        decode bytes .kernel kernelSchema compiled = .ok read ∧
        Identity.extract read = .ok {
          layer := { layer with subjects }
          vocabularySha256 := some vocabularySha256
          unbound := []
          baseline
          sync } := by
  obtain ⟨⟨b, hspace, -, hbuild⟩, p, w⟩ := exists_written h
  obtain ⟨⟨g, bytes⟩, hencoded, rfl⟩ := bind_pure_eq_ok.mp hbuild
  have hbuilt := b.builtFrom hencoded
  have hdecode := decode_of_buildEncoded hencoded
  rw [hbuilt.space_eq, hspace] at hdecode
  exact ⟨_, sortByKey_perm _ _, w.pairwise_uid_lt, w.extract_eq hread, bytes, g,
    hbuilt.encode_eq, hdecode, w.extract_eq hread⟩

/-! ### Two subjects, listed against the order of their uids -/

def tabletLayer : IdentityLayer where
  source := "/etc/maknae/bindings.yaml"
  label := "U"
  bindingsSha256 := some (.replicate 32 1)
  subjects := [⟨666, "mallory", adversary⟩, ⟨501, "alex", "admin"⟩]
  aliases := .ofList [("mal", 666)] compare

def tabletBaseline : BaselineLayer where
  sections := .ofList [("core", "1"), ("vault", "2")] compare
  system := "us"
  ceiling := "U"
  sha256 := .replicate 32 2
  movedFrom := some "/var/log/old.jsonl"

def tabletSync : SyncBase := ⟨"{}", "{}", "[]"⟩

theorem readable_tablet : Readable tabletLayer (some tabletBaseline) (some tabletSync) where
  absolute := by decide
  ceiling_ne bl h := by
    cases h
    decide
  explicit_eq s h := by
    cases h
    decide

theorem layers_round_trip_tablet :
    ∃ g bytes read, Identity.build tabletLayer (some tabletBaseline) (some tabletSync)
        (persistedCompiledSet "U") (.replicate 32 3) 1 .seed = .ok g ∧
      (encode g : Outcome GraphError _) = .ok bytes ∧
      decode bytes .kernel kernelSchema (persistedCompiledSet "U") = .ok read ∧
      (Identity.extract read).map (·.layer.subjects.map SubjectEntry.uid) = .ok [501, 666] := by
  obtain ⟨g, hbuild⟩ : ∃ g, Identity.build tabletLayer (some tabletBaseline) (some tabletSync)
      (persistedCompiledSet "U") (.replicate 32 3) 1 .seed = .ok g :=
    exists_eq_ok_of_isOk (by decide +kernel)
  obtain ⟨subjects, hperm, hordered, -, bytes, read, hencode, hdecode, hextract⟩ :=
    layers_round_trip readable_tablet hbuild
  have hsubjects : subjects = [⟨501, "alex", "admin"⟩, ⟨666, "mallory", adversary⟩] :=
    (hperm.trans (.swap _ _ _)).eq_of_pairwise
      (fun s t _ _ hst hts ↦ absurd hst (lt_asymm hts)) hordered (by decide)
  refine ⟨g, bytes, read, hbuild, hencode, hdecode, ?_⟩
  rw [hextract, hsubjects]
  rfl

end Maknae.StateGraph
