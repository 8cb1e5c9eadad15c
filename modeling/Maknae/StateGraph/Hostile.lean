import Maknae.StateGraph.BuildTotal

/-!
# Decoding hostile bytes

Every offset, count and reference of a store comes from its bytes. This file shows that reading them
does not panic whatever they are (`Scan.Scans`), that the records that come out fit the build
(`RecordsFit`), and so that decoding ends with a graph or an error.

A graph that is decoded has exactly the bytes it was decoded from: the decoder compares them. Two
stores of one graph are therefore equal, and a store holds nothing that its graph does not.

The only bound asked of the bytes is that four times their number can be counted in 64 bits with
room for the indexes. Store files are refused above 64 MiB.
-/

namespace Maknae.StateGraph

open Except List Outcome Scan

variable {table : List String}

/-! ### Fields -/

theorem scans_getString (i : ℕ) : Scans (getString table i) fun s n cost ↦
    s ∈ table ∧ n = 0 ∧ cost = (utf8Bytes s).length := by
  rw [getString]
  split
  · rename_i s hs
    exact (scans_spend _ _).bind fun _ _ _ h ↦ scans_pure ⟨mem_of_getElem? hs, h⟩
  · exact scans_fail _ _

theorem scans_readStringRef : Scans (readStringRef table) fun s n cost ↦
    s ∈ table ∧ n = 4 ∧ cost = (utf8Bytes s).length := by
  refine (scans_readU32 _).bind_width fun i ↦ ?_
  exact (scans_getString i.toNat).mono fun s n cost ⟨hs, hn, hcost⟩ ↦ ⟨hs, by omega, hcost⟩

theorem scans_reserved (k : ℕ) : Scans (reserved k) fun _ n cost ↦ n = k ∧ cost = 0 := by
  refine (scans_take _ k).bind fun bs _ _ ⟨_, hn, hcost⟩ ↦ ?_
  refine (scans_refuse _ _).mono fun _ n cost ⟨_, hn', hcost'⟩ ↦ ?_
  omega

theorem scans_decodeSpace (tag : UInt8) (subject : UInt64) :
    Scans (decodeSpace tag subject) fun _ n cost ↦ n = 0 ∧ cost = 0 := by
  rw [decodeSpace]
  split_ifs
  · exact scans_pure ⟨rfl, rfl⟩
  · exact scans_pure ⟨rfl, rfl⟩
  · exact scans_pure ⟨rfl, rfl⟩
  · exact scans_fail _ _

theorem scans_readProvenance (code : UInt16) (transition : UInt64) :
    Scans (readProvenance code transition) fun _ n cost ↦ n = 0 ∧ cost = 0 := by
  rw [readProvenance]
  split
  · exact scans_pure ⟨rfl, rfl⟩
  · exact scans_fail _ _

/-! ### Records -/

theorem scans_readString : Scans readString fun s n cost ↦
    (utf8Bytes s).length < 2 ^ 32 ∧ n = 4 + (utf8Bytes s).length ∧ cost = 0 := by
  refine (scans_readU32 _).bind_width fun len ↦ ?_
  refine (scans_take _ len.toNat).bind fun bs _ _ ⟨hlength, hn, hcost⟩ ↦ ?_
  split
  · rename_i s hs
    have hbytes := utf8Bytes_of_ofUtf8Bytes hs
    have hlen := len.toNat_lt
    refine scans_pure ?_
    rw [hbytes]
    omega
  · exact scans_fail _ _

theorem scans_readNode : Scans (readNode table) fun r n cost ↦
    (r.1.key ∈ table ∧ r.1.label ∈ table) ∧ n = 56 ∧
      cost = stringsLength [r.1.key, r.1.label] := by
  refine (scans_readU64 _).bind_width fun id ↦ ?_
  refine (scans_readU16 _).bind_width fun kind ↦ ?_
  refine (scans_readU16 _).bind_width fun code ↦ ?_
  refine (scans_readU8 _).bind_width fun tag ↦ ?_
  refine (scans_reserved 3).bind_width fun _ ↦ ?_
  refine (scans_readU64 _).bind_width fun subject ↦ ?_
  refine scans_readStringRef.bind fun key _ _ ⟨hkey, hm, hx⟩ ↦ ?_
  refine scans_readStringRef.bind fun label _ _ ⟨hlabel, hn, hy⟩ ↦ ?_
  refine (scans_readU64 _).bind_width fun revision ↦ ?_
  refine (scans_readU64 _).bind_width fun transition ↦ ?_
  refine (scans_readU32 _).bind_width fun start ↦ ?_
  refine (scans_readU32 _).bind_width fun count ↦ ?_
  refine (scans_decodeSpace tag subject).bind_width fun space ↦ ?_
  refine (scans_readProvenance code transition).bind_width fun provenance ↦ scans_pure ?_
  refine ⟨⟨hkey, hlabel⟩, by omega, ?_⟩
  simp only [stringsLength_cons, stringsLength_nil]
  omega

theorem scans_readEdge : Scans (readEdge table) fun r n cost ↦
    r.1.label ∈ table ∧ n = 72 ∧ cost = stringsLength [r.1.label] := by
  refine (scans_readU64 _).bind_width fun id ↦ ?_
  refine (scans_readU64 _).bind_width fun source ↦ ?_
  refine (scans_readU64 _).bind_width fun target ↦ ?_
  refine (scans_readU16 _).bind_width fun kind ↦ ?_
  refine (scans_readU16 _).bind_width fun code ↦ ?_
  refine (scans_readU8 _).bind_width fun tag ↦ ?_
  refine (scans_reserved 3).bind_width fun _ ↦ ?_
  refine (scans_readU64 _).bind_width fun subject ↦ ?_
  refine scans_readStringRef.bind fun label _ _ ⟨hlabel, hn, hy⟩ ↦ ?_
  refine (scans_reserved 4).bind_width fun _ ↦ ?_
  refine (scans_readU64 _).bind_width fun revision ↦ ?_
  refine (scans_readU64 _).bind_width fun transition ↦ ?_
  refine (scans_readU32 _).bind_width fun start ↦ ?_
  refine (scans_readU32 _).bind_width fun count ↦ ?_
  refine (scans_decodeSpace tag subject).bind_width fun space ↦ ?_
  refine (scans_readProvenance code transition).bind_width fun provenance ↦ scans_pure ?_
  refine ⟨hlabel, by omega, ?_⟩
  simp only [stringsLength_cons, stringsLength_nil]
  omega

theorem scans_readAttrValue : Scans (readAttrValue table) fun v n cost ↦
    (∀ s ∈ valueStrings v, s ∈ table) ∧ n = 12 ∧ cost = stringsLength (valueStrings v) := by
  refine (scans_readU8 _).bind_width fun tag ↦ ?_
  refine (scans_reserved 3).bind_width fun _ ↦ ?_
  refine (scans_readU64 _).bind_width fun raw ↦ ?_
  split_ifs
  · refine (scans_getString raw.toNat).bind fun s _ _ ⟨hs, hm, hx⟩ ↦
      scans_pure ⟨?_, by omega, ?_⟩
    · exact forall_mem_singleton.mpr hs
    · simp [valueStrings, hx]
  · exact scans_pure ⟨by simp [valueStrings], rfl, rfl⟩
  · exact scans_fail _ _

theorem scans_readAttr : Scans (readAttr table) fun a n cost ↦
    (∀ s ∈ pairStrings a, s ∈ table) ∧ n = 16 ∧ cost = stringsLength (pairStrings a) := by
  refine scans_readStringRef.bind fun key _ _ ⟨hkey, hm, hx⟩ ↦ ?_
  refine scans_readAttrValue.bind fun value _ _ ⟨hvalue, hn, hy⟩ ↦ scans_pure ⟨?_, by omega, ?_⟩
  · exact forall_mem_cons.mpr ⟨hkey, hvalue⟩
  · rw [pairStrings, stringsLength_cons, hx, hy, Nat.add_zero]

/-! ### The header and the sections -/

theorem scans_readHeader (expected : GraphSpace) (schema : Schema) :
    Scans (readHeader expected schema) fun _ _ _ ↦ True := by
  refine (scans_take _ 4).bind fun _ _ _ _ ↦ ?_
  refine (scans_refuse _ _).bind fun _ _ _ _ ↦ ?_
  refine (scans_readU16 _).bind fun _ _ _ _ ↦ ?_
  refine (scans_refuse _ _).bind fun _ _ _ _ ↦ ?_
  refine (scans_readU16 _).bind fun _ _ _ _ ↦ ?_
  refine (scans_refuse _ _).bind fun _ _ _ _ ↦ ?_
  refine (scans_readU8 _).bind fun _ _ _ _ ↦ ?_
  refine (scans_readU8 _).bind fun _ _ _ _ ↦ ?_
  refine (scans_readU16 _).bind fun _ _ _ _ ↦ ?_
  refine (scans_readU64 _).bind fun _ _ _ _ ↦ ?_
  refine (scans_readU64 _).bind fun _ _ _ _ ↦ ?_
  refine (scans_readU32 _).bind fun _ _ _ _ ↦ ?_
  refine (scans_readU64 _).bind fun _ _ _ _ ↦ ?_
  refine (scans_refuse _ _).bind fun _ _ _ _ ↦ ?_
  refine (scans_refuse _ _).bind fun _ _ _ _ ↦ ?_
  refine (scans_refuse _ _).bind fun _ _ _ _ ↦ ?_
  refine (scans_decodeSpace _ _).bind fun _ _ _ _ ↦ ?_
  exact (scans_refuse _ _).bind fun _ _ _ _ ↦ scans_pure trivial

/-- The sections that are found follow one another in the store. -/
theorem scans_readSections (bytes : List UInt8) (k next : ℕ) :
    Scans (readSections bytes k next) fun r _ _ ↦
      r.1.length = k ∧ r.2 = next + r.1.flatten.length := by
  induction k generalizing next with
  | zero => exact scans_pure ⟨rfl, rfl⟩
  | succ k ih =>
    refine (scans_readU64 _).bind fun offset _ _ _ ↦ ?_
    refine (scans_readU64 _).bind fun len _ _ _ ↦ ?_
    refine (scans_refuse _ _).bind fun _ _ _ ⟨hoffset, _⟩ ↦ ?_
    refine (scans_refuse _ _).bind fun _ _ _ ⟨hstop, _⟩ ↦ ?_
    refine (scans_slice (by omega)).bind fun part _ _ ⟨hpart, _⟩ ↦ ?_
    refine (ih _).bind fun r _ _ ⟨hlength, hend⟩ ↦ scans_pure ⟨?_, ?_⟩
    · rw [length_cons, hlength]
    · rw [flatten_cons, length_append]
      omega

theorem scans_readFrame (bytes : List UInt8) (expected : GraphSpace) (schema : Schema) :
    Scans (readFrame bytes expected schema) fun r _ _ ↦
      r.2.length = sectionCount ∧ sectionsStart + r.2.flatten.length = bytes.length := by
  refine (scans_readHeader expected schema).bind fun header _ _ _ ↦ ?_
  refine (scans_readSections bytes _ _).bind fun r _ _ ⟨hlength, hend⟩ ↦ ?_
  refine (scans_refuse _ _).bind fun _ _ _ ⟨hbytes, _⟩ ↦ scans_pure ⟨hlength, ?_⟩
  rw [← hend]
  exact not_not.mp hbytes

variable {α : Type} {Q : α → Prop} {bytes : List UInt8} {rest : AttrCursor} {size : ℕ}
  {b : GraphBuilder} {g : Graph} {schema : Schema}

/-- A section is a counted list that fills it. -/
theorem sat_runSection {p : Parse α} {width charge : α → ℕ}
    (hp : Scans p fun a n cost ↦ Q a ∧ n = width a ∧ cost = charge a)
    (hbytes : bytes.length < 2 ^ 64) (budget : ℕ) :
    Sat (runSection p bytes budget) fun r ↦
      r.1.length < 2 ^ 32 ∧ (∀ a ∈ r.1, Q a) ∧ bytes.length = 4 + (r.1.map width).sum ∧
        r.2 + (r.1.map charge).sum = budget := by
  have hscan : Scans (do readMany p (← readU32 FormatError.truncated).toNat) fun as n cost ↦
      as.length < 2 ^ 32 ∧ (∀ a ∈ as, Q a) ∧ n = 4 + (as.map width).sum ∧
        cost = (as.map charge).sum := by
    refine (scans_readU32 _).bind_width fun k ↦ ?_
    refine (scans_readMany hp k.toNat).mono fun as n cost ⟨hlength, has, hn, hcost⟩ ↦ ?_
    exact ⟨hlength ▸ k.toNat_lt, has, by omega, hcost⟩
  refine sat_bind (hscan.run_finish hbytes budget .trailingBytes) ?_
  rintro ⟨as, c⟩ ⟨cost, ⟨hlength, has, hn, hcost⟩, hspent⟩
  exact sat_pure.mpr ⟨hlength, has, hn, hcost ▸ hspent⟩

/-! ### Attributes -/

theorem sat_takeAttrs (start count : UInt32) (h : rest.2 + rest.1.length < 2 ^ 64) :
    Sat (takeAttrs rest start count) fun r ↦ ∃ used, rest.1 = used ++ r.2.1 ∧
      r.2.2 = rest.2 + used.length ∧ r.1 = .ofList used compare := by
  rw [takeAttrs]
  split_ifs with hrange
  · exact sat_fail
  · obtain ⟨-, hcount⟩ := not_or.mp hrange
    have hlength : (rest.1.take count.toNat).length = count.toNat := by
      rw [length_take]
      omega
    refine sat_bind (sat_narrow (show rest.2 + count.toNat < 2 ^ 64 by omega))
      fun cursor hcursor ↦ ?_
    refine sat_pure.mpr ⟨rest.1.take count.toNat, (take_append_drop _ _).symm, ?_, rfl⟩
    rw [hlength, hcursor]

/-- Records get attributes that were read, none of them twice. -/
theorem sat_attachAttrs {attrsOf : α → Attrs} {bare : α → α} {attach : α → Attrs → α}
    (hattrs : ∀ a m, attrsOf (attach a m) = m) (hbare : ∀ a m, bare (attach a m) = bare a)
    {records : List (Ranged α)} (h : rest.2 + rest.1.length < 2 ^ 64) :
    Sat (attachAttrs attach rest records) fun r ↦ ∃ used, rest.1 = used ++ r.2.1 ∧
      r.2.2 = rest.2 + used.length ∧ (allAttrs attrsOf r.1).Subperm used ∧
      r.1.map bare = records.map fun x ↦ bare x.1 := by
  induction records generalizing rest with
  | nil => exact sat_ok.mpr ⟨[], rfl, rfl, List.Subperm.refl _, rfl⟩
  | cons record records ih =>
    obtain ⟨a, start, count⟩ := record
    refine sat_bind (sat_takeAttrs start count h) ?_
    rintro ⟨m, rest'⟩ ⟨used, hused, hcursor, rfl⟩
    dsimp only at hused hcursor ⊢
    have hlength : rest.1.length = used.length + rest'.1.length := by
      rw [hused, length_append]
    refine sat_bind (ih (show rest'.2 + rest'.1.length < 2 ^ 64 by omega)) ?_
    rintro ⟨done, rest''⟩ ⟨used', hused', hcursor', hsub, hdone⟩
    refine sat_pure.mpr ⟨used ++ used', ?_, ?_, ?_, ?_⟩
    · rw [hused, hused', append_assoc]
    · rw [hcursor', hcursor, length_append, Nat.add_assoc]
    · have hfirst : (attrsOf (attach a (.ofList used compare))).toList.Subperm used := by
        rw [hattrs]
        exact subperm_toList_ofList used
      show (_ ++ allAttrs attrsOf done).Subperm (used ++ used')
      exact ((subperm_append_right _).mpr hfirst).trans
        ((subperm_append_left _).mpr hsub)
    · rw [map_cons, map_cons, hbare, hdone]

/-! ### The records -/

theorem stringsLength_flatMap (f : α → List String) (l : List α) :
    stringsLength (l.flatMap f) = (l.map fun a ↦ stringsLength (f a)).sum := by
  induction l with
  | nil => rfl
  | cons a l ih => rw [flatMap_cons, stringsLength_append, ih, map_cons, sum_cons]

/-- A string of some records is a key or a label of theirs, or in one of their attributes. -/
theorem mem_of_mem_recordStrings {nodes edges s}
    (h : s ∈ recordStrings nodes edges) :
    s ∈ nodes.flatMap (fun n ↦ [n.key, n.label]) ∨ s ∈ edges.flatMap (fun e ↦ [e.label]) ∨
      s ∈ (recordAttrs nodes edges).flatMap pairStrings := by
  have hattr {m : Attrs} (hm : ∀ a ∈ m.toList, a ∈ recordAttrs nodes edges)
      (hs : s ∈ attrStrings m) : s ∈ (recordAttrs nodes edges).flatMap pairStrings := by
    obtain ⟨a, ha, hs⟩ := mem_flatMap.mp hs
    exact mem_flatMap.mpr ⟨a, hm a ha, hs⟩
  rcases mem_append.mp h with h | h
  · obtain ⟨n, hn, hs⟩ := mem_flatMap.mp h
    rcases mem_append.mp (show s ∈ [n.key, n.label] ++ attrStrings n.attrs from hs) with hs | hs
    · exact .inl (mem_flatMap.mpr ⟨n, hn, hs⟩)
    · refine .inr (.inr (hattr (fun a ha ↦ ?_) hs))
      exact mem_append.mpr (.inl (mem_flatMap.mpr ⟨n, hn, ha⟩))
  · obtain ⟨e, he, hs⟩ := mem_flatMap.mp h
    rcases mem_append.mp (show s ∈ [e.label] ++ attrStrings e.attrs from hs) with hs | hs
    · exact .inr (.inl (mem_flatMap.mpr ⟨e, he, hs⟩))
    · refine .inr (.inr (hattr (fun a ha ↦ ?_) hs))
      exact mem_append.mpr (.inr (mem_flatMap.mpr ⟨e, he, ha⟩))

/-- What was read of the records before their attributes were attached, and the attributes. -/
structure Collected (table : List String) (nodes : List (Ranged NodeRecord))
    (edges : List (Ranged EdgeRecord)) (attrs : List (String × AttrValue)) (size : ℕ) : Prop where
  table_lt : table.length < 2 ^ 32
  nodes_lt : nodes.length < 2 ^ 32
  edges_lt : edges.length < 2 ^ 32
  attrs_lt : attrs.length < 2 ^ 32
  strings_lt : ∀ s ∈ table, (utf8Bytes s).length < 2 ^ 32
  nodes_mem : ∀ r ∈ nodes, r.1.key ∈ table ∧ r.1.label ∈ table
  edges_mem : ∀ r ∈ edges, r.1.label ∈ table
  attrs_mem : ∀ a ∈ attrs, ∀ s ∈ pairStrings a, s ∈ table
  stored_le : sectionsStart + (4 + tableLength table) + (4 + 56 * nodes.length) +
    (4 + 72 * edges.length) + (4 + 16 * attrs.length) ≤ size
  references_le : stringsLength (nodes.flatMap fun r ↦ [r.1.key, r.1.label]) +
    stringsLength (edges.flatMap fun r ↦ [r.1.label]) + stringsLength (attrs.flatMap pairStrings) ≤
      expansionLimit * size

/-- Records with attributes from those that were read fit the build. -/
theorem Collected.recordsFit {nodes : List (Ranged NodeRecord)} {edges : List (Ranged EdgeRecord)}
    {attrs : List (String × AttrValue)} (h : Collected table nodes edges attrs size)
    {nodes'} {edges'}
    (hnodes : nodes'.map NodeRecord.bare = nodes.map fun r ↦ r.1.bare)
    (hedges : edges'.map EdgeRecord.bare = edges.map fun r ↦ r.1.bare)
    (hattrs : (recordAttrs nodes' edges').Subperm attrs) :
    RecordsFit table nodes' edges' size := by
  have hnodesLength : nodes'.length = nodes.length := by
    have := congrArg length hnodes
    rwa [length_map, length_map] at this
  have hedgesLength : edges'.length = edges.length := by
    have := congrArg length hedges
    rwa [length_map, length_map] at this
  have hattrsLength := hattrs.length_le
  have hstored := h.stored_le
  have hreferences := h.references_le
  -- keys and labels are those of the records before their attributes were attached
  have hnodeCharge : nodes'.flatMap (fun n ↦ [n.key, n.label]) =
      nodes.flatMap fun r ↦ [r.1.key, r.1.label] := by
    have := congrArg (flatMap fun n : NodeRecord ↦ [n.key, n.label]) hnodes
    rwa [flatMap_map, flatMap_map] at this
  have hedgeCharge : edges'.flatMap (fun e ↦ [e.label]) = edges.flatMap fun r ↦ [r.1.label] := by
    have := congrArg (flatMap fun e : EdgeRecord ↦ [e.label]) hedges
    rwa [flatMap_map, flatMap_map] at this
  have hattrCharge : stringsLength ((recordAttrs nodes' edges').flatMap pairStrings) ≤
      stringsLength (attrs.flatMap pairStrings) := by
    rw [stringsLength_flatMap, stringsLength_flatMap]
    exact sum_map_le_of_subperm hattrs
  have hmem : ∀ s ∈ recordStrings nodes' edges', s ∈ table := by
    intro s hs
    rcases mem_of_mem_recordStrings hs with hs | hs | hs
    · rw [hnodeCharge] at hs
      obtain ⟨r, hr, hs⟩ := mem_flatMap.mp hs
      obtain ⟨hkey, hlabel⟩ := h.nodes_mem r hr
      simp only [mem_cons, not_mem_nil, or_false] at hs
      rcases hs with rfl | rfl
      · exact hkey
      · exact hlabel
    · rw [hedgeCharge] at hs
      obtain ⟨r, hr, hs⟩ := mem_flatMap.mp hs
      rw [mem_singleton.mp hs]
      exact h.edges_mem r hr
    · obtain ⟨a, ha, hs⟩ := mem_flatMap.mp hs
      exact h.attrs_mem a (hattrs.subset ha) s hs
  exact {
    nodes_lt := hnodesLength ▸ h.nodes_lt
    edges_lt := hedgesLength ▸ h.edges_lt
    attrs_lt := hattrsLength.trans_lt h.attrs_lt
    table_lt := h.table_lt
    strings_lt := h.strings_lt
    strings_mem := hmem
    stored_le := by omega
    references_le := by
      rw [stringsLength_recordStrings, hnodeCharge, hedgeCharge]
      omega }

/-- The records of any sections that fill a store fit the build. -/
theorem sat_parseRecords {sections : List (List UInt8)} (header : Header)
    (hcount : sections.length = sectionCount)
    (hsections : sectionsStart + sections.flatten.length = size) (hsize : size < 2 ^ 61) :
    Sat (parseRecords sections header size) fun r ↦
      ∃ table, RecordsFit table r.1.nodes r.1.edges size := by
  match sections, hcount with
  | [stringPart, nodePart, edgePart, outPart, inPart, keyPart, attrPart], _ =>
  simp only [flatten_cons, length_append] at hsections
  refine sat_bind (sat_runSection scans_readString (by omega) 0) ?_
  rintro ⟨table, _⟩ ⟨htable, hstrings, hstringPart, -⟩
  refine sat_bind (sat_narrow (show expansionLimit * size < 2 ^ 64 by rw [expansionLimit]; omega))
    fun budget hbudget ↦ ?_
  refine sat_bind (sat_runSection scans_readNode (by omega) budget) ?_
  rintro ⟨nodes, afterNodes⟩ ⟨hnodesLt, hnodesMem, hnodePart, hnodeCost⟩
  refine sat_bind (sat_runSection scans_readEdge (by omega) afterNodes) ?_
  rintro ⟨edges, afterEdges⟩ ⟨hedgesLt, hedgesMem, hedgePart, hedgeCost⟩
  refine sat_bind (sat_runSection scans_readAttr (by omega) afterEdges) ?_
  rintro ⟨attrs, left⟩ ⟨hattrsLt, hattrsMem, hattrPart, hattrCost⟩
  dsimp only at *
  rw [map_const', sum_replicate_nat] at hnodePart hedgePart hattrPart
  rw [← stringsLength_flatMap] at hnodeCost hedgeCost hattrCost
  have hcollected : Collected table nodes edges attrs size := {
    table_lt := htable
    nodes_lt := hnodesLt
    edges_lt := hedgesLt
    attrs_lt := hattrsLt
    strings_lt := hstrings
    nodes_mem := hnodesMem
    edges_mem := hedgesMem
    attrs_mem := hattrsMem
    stored_le := by
      rw [← tableLength] at hstringPart
      omega
    references_le := by omega }
  have hnodeAttrs (n : NodeRecord) (m : Attrs) : (n.withAttrs m).attrs = m := rfl
  have hnodeBare (n : NodeRecord) (m : Attrs) : (n.withAttrs m).bare = n.bare := rfl
  refine sat_bind (sat_attachAttrs hnodeAttrs hnodeBare
    (show 0 + attrs.length < 2 ^ 64 by omega)) ?_
  rintro ⟨nodes', rest⟩ ⟨used, hused, hcursor, hnodeAttrs, hnodes⟩
  dsimp only at hused hcursor hnodeAttrs hnodes
  have hlength : attrs.length = used.length + rest.1.length := by
    rw [hused, length_append]
  have hedgeAttrs (e : EdgeRecord) (m : Attrs) : (e.withAttrs m).attrs = m := rfl
  have hedgeBare (e : EdgeRecord) (m : Attrs) : (e.withAttrs m).bare = e.bare := rfl
  refine sat_bind (sat_attachAttrs hedgeAttrs hedgeBare
    (show rest.2 + rest.1.length < 2 ^ 64 by omega)) ?_
  rintro ⟨edges', rest'⟩ ⟨used', hused', -, hedgeAttrs, hedges⟩
  split_ifs with hleft
  · exact sat_fail
  have hempty : rest'.1 = [] := length_eq_zero_iff.mp (not_not.mp hleft)
  refine sat_pure.mpr ⟨table, hcollected.recordsFit hnodes hedges ?_⟩
  rw [hused, hused', hempty, append_nil]
  exact ((subperm_append_right _).mpr hnodeAttrs).trans
    ((subperm_append_left _).mpr hedgeAttrs)

theorem sat_parse (hbytes : bytes.length < 2 ^ 61) (expected : GraphSpace) (schema : Schema) :
    Sat (parse bytes expected schema) fun b ↦
      ∃ table, RecordsFit table b.nodes b.edges bytes.length := by
  have hgood : Cursor.Good ⟨bytes, 0, 0⟩ := ⟨Nat.zero_le _, show bytes.length < 2 ^ 64 by omega⟩
  have hrecords : Sat (parseBudget bytes expected schema) fun r ↦
      ∃ table, RecordsFit table r.1.nodes r.1.edges bytes.length := by
    refine sat_bind (scans_readFrame bytes expected schema _ hgood) ?_
    rintro ⟨⟨header, sections⟩, c⟩ ⟨n, cost, ⟨hcount, hsections⟩, -⟩
    exact sat_parseRecords header hcount hsections hbytes
  exact sat_bind hrecords fun r hr ↦ sat_pure.mpr hr

theorem sat_ofGraphError {x : Outcome GraphError α} (h : Sat x Q) :
    Sat (ofGraphError x) Q := by
  rcases x with (e | _) | a
  · exact sat_fail
  · exact h
  · exact h

/-! ### Decoding -/

theorem sat_rebuildCanonical (schema : Schema) (compiled : CompiledSet)
    (h : ∃ table, RecordsFit table b.nodes b.edges bytes.length) (hbytes : bytes.length < 2 ^ 61) :
    Sat (rebuildCanonical b bytes schema compiled) fun _ ↦ True := by
  obtain ⟨table, hfit⟩ := h
  refine sat_bind (sat_ofGraphError (sat_buildEncoded schema compiled hfit hbytes)) ?_
  rintro ⟨graph, encoded⟩ -
  dsimp only
  split_ifs
  · exact sat_fail
  · exact trivial

/-- A graph that passed the comparison has the bytes it was compared with. -/
theorem encode_of_rebuildCanonical {compiled}
    (h : rebuildCanonical b bytes schema compiled = .ok g) :
    (encode g : Outcome GraphError _) = .ok bytes :=
  (b.builtFrom (rebuildCanonical_eq_ok.mp h)).encode_eq

/-- Decoding ends with a graph or an error on any bytes, and a graph that is decoded has exactly
those bytes: no two stores decode to one graph. -/
theorem decode_total_canonical (bytes : List UInt8) (expected : GraphSpace) (schema : Schema)
    (compiled : CompiledSet) :
    (bytes.length < 2 ^ 61 → decode bytes expected schema compiled ≠ panicked) ∧
    ∀ g, decode bytes expected schema compiled = .ok g →
      (encode g : Outcome GraphError _) = .ok bytes ∧
      ∀ bytes' expected' schema' compiled',
        decode bytes' expected' schema' compiled' = .ok g → bytes' = bytes := by
  have hencode {bytes : List UInt8} {expected : GraphSpace} {schema : Schema}
      {compiled : CompiledSet} {g : Graph} (hg : decode bytes expected schema compiled = .ok g) :
      (encode g : Outcome GraphError _) = .ok bytes := by
    obtain ⟨b, -, hg⟩ := bind_eq_ok.mp hg
    exact encode_of_rebuildCanonical hg
  refine ⟨fun hbytes ↦ ?_, fun g hg ↦ ⟨hencode hg, fun bytes' expected' schema' compiled' hg' ↦ ?_⟩⟩
  · have hsat : Sat (decode bytes expected schema compiled) fun _ ↦ True :=
      sat_bind (sat_parse hbytes expected schema) fun b hb ↦
        sat_rebuildCanonical schema compiled hb hbytes
    exact hsat.ne_panicked
  · exact ok.inj ((hencode hg').symm.trans (hencode hg))

/-- The bytes of the graph of `adminBuilder`. -/
def adminBytes : List UInt8 :=
  match adminBuilder.buildEncoded adminSchema ⟨[]⟩ with
  | .ok (_, bytes) => bytes
  | .error _ => []

theorem decode_total_canonical_admin :
    adminBytes.length < 2 ^ 61 ∧ decode adminBytes .kernel adminSchema ⟨[]⟩ ≠ panicked ∧
      ∃ g, decode adminBytes .kernel adminSchema ⟨[]⟩ = .ok g ∧
        (encode g : Outcome GraphError _) = .ok adminBytes := by
  have hlength : adminBytes.length < 2 ^ 61 := by decide +kernel
  obtain ⟨g, hdecode⟩ : ∃ g, decode adminBytes .kernel adminSchema ⟨[]⟩ = .ok g :=
    exists_eq_ok_of_isOk (by decide +kernel)
  obtain ⟨htotal, hcanonical⟩ := decode_total_canonical adminBytes .kernel adminSchema ⟨[]⟩
  exact ⟨hlength, htotal hlength, g, hdecode, (hcanonical g hdecode).1⟩

/-- **A store of unknown vocabulary is decoded safely.** Decoding it against its own compiled nodes
ends with a graph or an error on any bytes. A graph comes with a set the store also decodes against,
and has exactly those bytes. -/
theorem decodeStoredCompiled_total_canonical (bytes : List UInt8) (expected : GraphSpace)
    (schema : Schema) :
    (bytes.length < 2 ^ 61 → decodeStoredCompiled bytes expected schema ≠ panicked) ∧
    ∀ g stored, decodeStoredCompiled bytes expected schema = .ok (g, stored) →
      decode bytes expected schema stored = .ok g ∧
        (encode g : Outcome GraphError _) = .ok bytes := by
  refine ⟨fun hbytes ↦ ?_, fun g stored h ↦ ?_⟩
  · have hsat : Sat (decodeStoredCompiled bytes expected schema) fun _ ↦ True := by
      refine sat_bind (sat_parse hbytes expected schema) fun b hb ↦ ?_
      exact sat_bind (sat_rebuildCanonical schema _ hb hbytes) fun _ _ ↦ trivial
    exact hsat.ne_panicked
  · obtain ⟨b, hb, graph, hgraph, ⟨⟩⟩ := bind₂_eq_ok.mp h
    refine ⟨?_, encode_of_rebuildCanonical hgraph⟩
    rw [decode, hb]
    exact hgraph

theorem decodeStoredCompiled_total_canonical_admin :
    decodeStoredCompiled adminBytes .kernel adminSchema ≠ panicked ∧
      ∃ g stored, decodeStoredCompiled adminBytes .kernel adminSchema = .ok (g, stored) ∧
        decode adminBytes .kernel adminSchema stored = .ok g := by
  obtain ⟨htotal, hcanonical⟩ := decodeStoredCompiled_total_canonical adminBytes .kernel adminSchema
  obtain ⟨⟨g, stored⟩, hdecode⟩ : ∃ r, decodeStoredCompiled adminBytes .kernel adminSchema =
    .ok r :=
    exists_eq_ok_of_isOk (by decide +kernel)
  exact ⟨htotal (by decide +kernel), g, stored, hdecode, (hcanonical g stored hdecode).1⟩

end Maknae.StateGraph
