import Maknae.StateGraph.Format

/-!
# Reading back what was written

Each writer of the format has a reader, and this file shows that the reader reads back what the
writer wrote (`Scan.Reads`): first the fields, then the records with the ranges of their attributes,
then the table of sections, and from these the whole store.

A graph that was built is read back as it was. The reader collects the records in the order of the
store, which is not the order they were built from, and builds again. Sorting by identifier makes
the two builds the same (`buildEncoded_of_buildEncoded`). The strings the reader copies are exactly
the references the builder counted, so the budget that is left is the limit minus `referenceBytes`.
-/

namespace Maknae.StateGraph

open Except List Outcome Scan Std.ExtTreeMap

variable {ε : Type} {table : List String}

/-! ### Lengths of strings -/

@[simp] theorem stringsLength_nil : stringsLength [] = 0 := rfl

@[simp] theorem stringsLength_cons (s : String) (l : List String) :
    stringsLength (s :: l) = (utf8Bytes s).length + stringsLength l := by
  simp [stringsLength]

@[simp] theorem stringsLength_append (l l' : List String) :
    stringsLength (l ++ l') = stringsLength l + stringsLength l' := by
  simp [stringsLength]

variable {α : Type} {s : String} {i : ℕ} {bs : List UInt8} {start count : ℕ} {schema : Schema}
  {sections : List (List UInt8)} {out next : List UInt8 × ℕ} {bytes : List UInt8} {g : Graph}
  {compiled : CompiledSet} {b : GraphBuilder}

theorem stringsLength_flatMap_append (f f' : α → List String) (l : List α) :
    stringsLength (l.flatMap fun a ↦ f a ++ f' a) =
      stringsLength (l.flatMap f) + stringsLength (l.flatMap f') := by
  induction l with
  | nil => rfl
  | cons a l ih =>
    simp only [flatMap_cons, stringsLength_append]
    omega

/-! ### Fields -/

/-- A position the writer found is one where the reader finds the string. -/
theorem getElem?_of_sref (h : (sref table s : Outcome ε ℕ) = .ok i) :
    i < 2 ^ 32 ∧ table[i]? = some s := by
  rw [sref] at h
  split at h
  · rename_i j hj
    obtain ⟨hlt, rfl⟩ := narrow_eq_ok.mp h
    obtain ⟨t, ht, heq⟩ := exists_of_binarySearchBy_eq_some hj
    rw [ht, Std.LawfulEqOrd.eq_of_compare heq]
    exact ⟨hlt, rfl⟩
  · cases h

theorem reads_getString (h : table[i]? = some s) :
    Reads (getString table i) [] (utf8Bytes s).length s := by
  rw [getString, h]
  exact (reads_spend FormatError.expansionLimit _).map fun _ ↦ s

theorem toNat_ofNat_u32 {n : ℕ} (h : n < 2 ^ 32) : (UInt32.ofNat n).toNat = n :=
  UInt32.toNat_ofNat_of_lt' h

theorem reads_readStringRef (h : (sref table s : Outcome ε ℕ) = .ok i) :
    Reads (readStringRef table) (leBytes 4 i) (utf8Bytes s).length s := by
  obtain ⟨hi, hget⟩ := getElem?_of_sref h
  rw [← toNat_ofNat_u32 hi] at hget
  exact (reads_readU32_ofNat _ hi).bind_free_nil (reads_getString hget)

theorem reads_reserved (n : ℕ) : Reads (reserved n) (replicate n 0) 0 () := by
  have htake := reads_take FormatError.truncated (replicate n (0 : UInt8))
  rw [length_replicate] at htake
  exact htake.bind_free_nil (reads_refuse (by simp [any_replicate]) _)

theorem reads_decodeSpace (space : GraphSpace) :
    Reads (decodeSpace (spaceParts space).1 (spaceParts space).2) [] 0 space := by
  cases space with
  | shared | user subject | kernel => exact reads_pure _

theorem reads_readProvenance (p : Provenance) :
    Reads (readProvenance p.kind.code p.transition) [] 0 p := by
  rw [readProvenance, ProvenanceKind.fromCode_code]
  exact reads_pure p

/-! ### Strings, nodes, edges and attributes -/

theorem reads_readString (h : (encodeString s : Outcome ε _) = .ok bs) :
    Reads readString bs 0 s := by
  obtain ⟨n, hn, h⟩ := bind_eq_ok.mp h
  obtain ⟨hlt, rfl⟩ := narrow_eq_ok.mp hn
  obtain rfl := pure_eq_ok.mp h
  refine (reads_readU32_ofNat _ hlt).bind_free ?_
  rw [toNat_ofNat_u32 hlt]
  refine (reads_take _ (utf8Bytes s)).bind_free_nil ?_
  rw [ofUtf8Bytes_utf8Bytes]
  exact reads_pure s

theorem reads_readStrings {strings} {texts : List (List UInt8)}
    (h : (strings.mapM encodeString : Outcome ε _) = .ok texts) :
    Reads (readMany readString strings.length) texts.flatten 0 strings := by
  induction mapM_eq_ok.mp h with
  | nil => exact reads_readMany_zero _
  | cons hs hrest ih => exact (reads_readString hs).readMany_succ (ih (mapM_eq_ok.mpr hrest))

/-- A node without its attributes. -/
def NodeRecord.bare (n : NodeRecord) : NodeRecord := { n with attrs := ∅ }

/-- An edge without its attributes. -/
def EdgeRecord.bare (e : EdgeRecord) : EdgeRecord := { e with attrs := ∅ }

theorem reads_readNode {n} (hstart : start < 2 ^ 32) (hcount : count < 2 ^ 32)
    (h : (encodeNode table n (start, count) : Outcome ε _) = .ok bs) :
    Reads (readNode table) bs (stringsLength [n.key, n.label])
      (n.bare, UInt32.ofNat start, UInt32.ofNat count) := by
  obtain ⟨key, hkey, label, hlabel, ⟨⟩⟩ := bind₂_eq_ok.mp h
  refine (reads_readU64 _ n.id.val).bind_free ?_
  refine (reads_readU16 _ n.kind.val).bind_free ?_
  refine (reads_readU16 _ n.provenance.kind.code).bind_free ?_
  refine (reads_readU8 _ (spaceParts n.space).1).bind_free ?_
  refine (reads_reserved 3).bind_free ?_
  refine (reads_readU64 _ (spaceParts n.space).2).bind_free ?_
  refine (reads_readStringRef hkey).bind ?_
  refine (reads_readStringRef hlabel).bind ?_
  refine (reads_readU64 _ n.revision).bind_free ?_
  refine (reads_readU64 _ n.provenance.transition).bind_free ?_
  refine (reads_readU32_ofNat _ hstart).bind_free ?_
  refine (reads_readU32_ofNat _ hcount).bind_free_nil ?_
  refine (reads_decodeSpace n.space).bind_skip ?_
  exact (reads_readProvenance n.provenance).bind_skip (reads_pure _)

theorem reads_readEdge {e} (hstart : start < 2 ^ 32) (hcount : count < 2 ^ 32)
    (h : (encodeEdge table e (start, count) : Outcome ε _) = .ok bs) :
    Reads (readEdge table) bs (stringsLength [e.label])
      (e.bare, UInt32.ofNat start, UInt32.ofNat count) := by
  obtain ⟨label, hlabel, rfl⟩ := bind_pure_eq_ok.mp h
  refine (reads_readU64 _ e.id.val).bind_free ?_
  refine (reads_readU64 _ e.source.val).bind_free ?_
  refine (reads_readU64 _ e.target.val).bind_free ?_
  refine (reads_readU16 _ e.kind.val).bind_free ?_
  refine (reads_readU16 _ e.provenance.kind.code).bind_free ?_
  refine (reads_readU8 _ (spaceParts e.space).1).bind_free ?_
  refine (reads_reserved 3).bind_free ?_
  refine (reads_readU64 _ (spaceParts e.space).2).bind_free ?_
  refine (reads_readStringRef hlabel).bind ?_
  refine (reads_reserved 4).bind_free ?_
  refine (reads_readU64 _ e.revision).bind_free ?_
  refine (reads_readU64 _ e.provenance.transition).bind_free ?_
  refine (reads_readU32_ofNat _ hstart).bind_free ?_
  refine (reads_readU32_ofNat _ hcount).bind_free_nil ?_
  refine (reads_decodeSpace e.space).bind_skip ?_
  exact (reads_readProvenance e.provenance).bind_skip (reads_pure _)

theorem reads_readAttrValue {v} (h : (encodeAttrValue table v : Outcome ε _) = .ok bs) :
    Reads (readAttrValue table) bs (stringsLength (valueStrings v)) v := by
  cases v with
  | str s =>
    obtain ⟨i, hi, h⟩ := bind_eq_ok.mp h
    obtain ⟨hlt, hget⟩ := getElem?_of_sref hi
    obtain rfl := pure_eq_ok.mp h
    have hraw : Reads (readU64 FormatError.truncated) (leBytes 8 i) 0 (UInt64.ofNat i) :=
      (reads_readLe _ (by omega)).map UInt64.ofNat
    have hvalue : table[(UInt64.ofNat i).toNat]? = some s := by
      rwa [UInt64.toNat_ofNat_of_lt' (show i < 2 ^ 64 by omega)]
    refine (reads_readU8 _ attrStrTag).bind_free ?_
    refine (reads_reserved 3).bind_free ?_
    refine hraw.bind_free_nil ?_
    exact (reads_getString hvalue).map AttrValue.str
  | u64 x =>
    obtain rfl := pure_eq_ok.mp h
    refine (reads_readU8 _ attrU64Tag).bind_free ?_
    refine (reads_reserved 3).bind_free ?_
    exact (reads_readU64 _ x).bind_free_nil (reads_pure _)

/-! ### Attributes and their ranges -/

/-- Writing went from `out` to `next` by appending bytes from which these attributes are read. -/
def AttrsWritten (table : List String) (out next : AttrBody) (l : List (String × AttrValue)) :
    Prop :=
  ∃ body, next = ⟨out.bytes ++ body, out.count + l.length⟩ ∧ out.count + l.length < 2 ^ 32 ∧
    Reads (readMany (readAttr table) l.length) body (stringsLength (l.flatMap pairStrings)) l

theorem AttrsWritten.refl {out} (h : out.count < 2 ^ 32) :
    AttrsWritten table out out [] :=
  ⟨[], by simp, h, reads_readMany_zero _⟩

theorem AttrsWritten.trans {a b c} {l l' : List (String × AttrValue)}
    (h : AttrsWritten table a b l) (h' : AttrsWritten table b c l') :
    AttrsWritten table a c (l ++ l') := by
  obtain ⟨body, rfl, -, hread⟩ := h
  obtain ⟨body', rfl, hlt, hread'⟩ := h'
  refine ⟨body ++ body', ?_, ?_, ?_⟩
  · rw [append_assoc, length_append, Nat.add_assoc]
  · rwa [length_append, ← Nat.add_assoc]
  · rw [length_append, flatMap_append, stringsLength_append]
    exact hread.readMany_add hread'

theorem attrsWritten_of_pushAttr {out next} {a : String × AttrValue}
    (h : (pushAttr table out a : Outcome ε _) = .ok next) : AttrsWritten table out next [a] := by
  obtain ⟨key, hkey, value, hvalue, count, hcount, h⟩ := bind₃_eq_ok.mp h
  obtain ⟨hlt, rfl⟩ := narrow_eq_ok.mp hcount
  obtain rfl := pure_eq_ok.mp h
  have hread : Reads (readAttr table) (leBytes 4 key ++ value) (stringsLength (pairStrings a)) a :=
    (reads_readStringRef hkey).bind ((reads_readAttrValue hvalue).map fun v ↦ (a.1, v))
  refine ⟨leBytes 4 key ++ value, rfl, hlt, ?_⟩
  have hmany := hread.readMany_succ (reads_readMany_zero _)
  simpa using hmany

theorem attrsWritten_of_foldlM {out next} {l : List (String × AttrValue)}
    (h : (l.foldlM (pushAttr table) out : Outcome ε _) = .ok next) (hout : out.count < 2 ^ 32) :
    AttrsWritten table out next l := by
  induction l generalizing out with
  | nil =>
    obtain rfl := pure_eq_ok.mp h
    exact .refl hout
  | cons a l ih =>
    obtain ⟨mid, hmid, h⟩ := bind_eq_ok.mp h
    have hfirst := attrsWritten_of_pushAttr hmid
    have hcount : mid.count < 2 ^ 32 := by
      obtain ⟨body, rfl, hlt, -⟩ := hfirst
      exact hlt
    exact hfirst.trans (ih h hcount)

section Records

variable (attrsOf : α → Attrs) (bare : α → α)

/-- The attributes of some records, one record after another. -/
def allAttrs (l : List α) : List (String × AttrValue) := l.flatMap fun a ↦ (attrsOf a).toList

/-- The records without their attributes, each with the range of its attributes; the first range
starts at `cursor`. -/
def ranged : ℕ → List α → List (Ranged α)
  | _, [] => []
  | cursor, a :: l =>
    (bare a, UInt32.ofNat cursor, UInt32.ofNat (attrsOf a).size) ::
      ranged (cursor + (attrsOf a).size) l

variable {attrsOf bare}

/-- Records that were written are read back as ranges of the attributes that were written with
them. -/
theorem reads_of_foldlM_pushRecord {p : Parse (Ranged α)} {charge : α → List String}
    {encodeRecord : α → ℕ × ℕ → Outcome ε (List UInt8)}
    (hread : ∀ a start count bs, start < 2 ^ 32 → count < 2 ^ 32 →
      encodeRecord a (start, count) = .ok bs →
      Reads p bs (stringsLength (charge a)) (bare a, UInt32.ofNat start, UInt32.ofNat count))
    {l : List α} {out next}
    (h : l.foldlM (pushRecord table attrsOf encodeRecord) out = .ok next)
    (hout : out.attrs.count < 2 ^ 32) :
    (∃ body, next.bytes = out.bytes ++ body ∧ Reads (readMany p l.length) body
      (stringsLength (l.flatMap charge)) (ranged attrsOf bare out.attrs.count l)) ∧
    AttrsWritten table out.attrs next.attrs (allAttrs attrsOf l) := by
  induction l generalizing out with
  | nil =>
    obtain rfl := pure_eq_ok.mp h
    exact ⟨⟨[], by simp, reads_readMany_zero _⟩, .refl hout⟩
  | cons a l ih =>
    obtain ⟨mid, hmid, h⟩ := bind_eq_ok.mp h
    obtain ⟨⟨range, attrs⟩, hattrs, record, hrecord, ⟨⟩⟩ := bind₂_eq_ok.mp hmid
    obtain ⟨written, hwritten, count, hcount, hattrs⟩ := bind₂_eq_ok.mp hattrs
    obtain ⟨hsize, rfl⟩ := narrow_eq_ok.mp hcount
    obtain ⟨rfl, rfl⟩ := Prod.mk.inj (pure_eq_ok.mp hattrs)
    have hfirst := attrsWritten_of_foldlM hwritten hout
    have hnext : written.count = out.attrs.count + (attrsOf a).size ∧ written.count < 2 ^ 32 := by
      obtain ⟨body, rfl, hlt, -⟩ := hfirst
      rw [length_toList] at hlt ⊢
      exact ⟨rfl, hlt⟩
    have hmid : (RecordBody.mk (out.bytes ++ record) written).attrs.count < 2 ^ 32 := hnext.2
    obtain ⟨⟨body, hbody, hreads⟩, hrest⟩ := ih h hmid
    rw [hnext.1] at hreads
    refine ⟨⟨record ++ body, ?_, ?_⟩, hfirst.trans hrest⟩
    · rw [hbody, append_assoc]
    · rw [flatMap_cons, stringsLength_append]
      exact (hread a _ _ record hout hsize hrecord).readMany_succ hreads

/-- Ranges in sequence hand every record its own attributes. -/
theorem attachAttrs_ranged {attach : α → Attrs → α} (hattach : ∀ a, attach (bare a) (attrsOf a) = a)
    (l : List α) (more : List (String × AttrValue)) {cursor}
    (h : cursor + (allAttrs attrsOf l).length < 2 ^ 32) :
    attachAttrs attach (allAttrs attrsOf l ++ more, cursor) (ranged attrsOf bare cursor l) =
      .ok (l, more, cursor + (allAttrs attrsOf l).length) := by
  induction l generalizing cursor with
  | nil => rfl
  | cons a l ih =>
    have hall : allAttrs attrsOf (a :: l) = (attrsOf a).toList ++ allAttrs attrsOf l := rfl
    have hsize : (attrsOf a).toList.length = (attrsOf a).size := length_toList
    rw [hall, length_append, hsize] at h ⊢
    have htake : takeAttrs ((attrsOf a).toList ++ allAttrs attrsOf l ++ more, cursor)
        (UInt32.ofNat cursor) (UInt32.ofNat (attrsOf a).size) =
        .ok (attrsOf a, allAttrs attrsOf l ++ more, cursor + (attrsOf a).size) := by
      rw [takeAttrs, toNat_ofNat_u32 (show cursor < 2 ^ 32 by omega),
        toNat_ofNat_u32 (show (attrsOf a).size < 2 ^ 32 by omega), ← hsize, if_neg (by simp),
        checkedAdd, narrow, if_pos (show cursor + (attrsOf a).toList.length < 2 ^ 64 by omega),
        append_assoc, take_left, drop_left, ofList_toList]
      rfl
    have hrest :=
      ih (show cursor + (attrsOf a).size + (allAttrs attrsOf l).length < 2 ^ 32 by omega)
    rw [ranged, attachAttrs, htake, ok_bind]
    dsimp only
    rw [hrest, hattach, Nat.add_assoc]
    rfl

end Records

/-! ### The header and the table of sections -/

theorem reads_readHeader (g : Graph) (h : g.schemaVersion = schema.version) :
    Reads (readHeader g.space schema) (encodeHeader g) 0 ⟨g.space, g.revision⟩ := by
  have hcount : (7 : UInt32).toNat = sectionCount := rfl
  refine (reads_take _ magic).bind_free ?_
  refine (reads_refuse (by simp) _).bind_skip ?_
  refine (reads_readU16 _ formatVersion).bind_free ?_
  refine (reads_refuse (by simp) _).bind_skip ?_
  refine (reads_readU16 _ g.schemaVersion).bind_free ?_
  refine (reads_refuse (by simp [h]) _).bind_skip ?_
  refine (reads_readU8 _ (spaceParts g.space).1).bind_free ?_
  refine (reads_readU8 _ 0).bind_free ?_
  refine (reads_readU16 _ 0).bind_free ?_
  refine (reads_readU64 _ (spaceParts g.space).2).bind_free ?_
  refine (reads_readU64 _ g.revision).bind_free ?_
  refine (reads_readU32 _ 7).bind_free ?_
  refine (reads_readU64 _ 0).bind_free_nil ?_
  refine (reads_refuse (by simp) _).bind_skip ?_
  refine (reads_refuse (by simp) _).bind_skip ?_
  refine (reads_refuse (by simp [hcount]) _).bind_skip ?_
  refine (reads_decodeSpace g.space).bind_skip ?_
  exact (reads_refuse (by simp) _).bind_skip (reads_pure _)

theorem length_encodeHeader (g : Graph) : (encodeHeader g).length = headerLen := by
  simp [encodeHeader, magic, headerLen]

theorem length_of_foldlM_pushSection
    (h : (sections.foldlM pushSection out : Outcome ε _) = .ok next) :
    next.1.length = out.1.length + 16 * sections.length := by
  induction sections generalizing out with
  | nil =>
    obtain rfl := pure_eq_ok.mp h
    rfl
  | cons part sections ih =>
    obtain ⟨mid, hmid, h⟩ := bind_eq_ok.mp h
    obtain ⟨stop, -, rfl⟩ := bind_pure_eq_ok.mp hmid
    rw [ih h, length_cons]
    simp only [length_append, length_leBytes]
    omega

/-- The table of sections leads back to the sections, wherever they follow one another in `bytes`.
-/
theorem reads_readSections (hbytes : bytes.length < 2 ^ 64)
    (h : (sections.foldlM pushSection out : Outcome ε _) = .ok next)
    (hparts : sections.flatten <+: bytes.drop out.2) (hout : out.2 ≤ bytes.length) :
    ∃ places, next.1 = out.1 ++ places ∧ next.2 = out.2 + sections.flatten.length ∧
      Reads (readSections bytes sections.length out.2) places 0 (sections, next.2) := by
  induction sections generalizing out with
  | nil =>
    obtain rfl := pure_eq_ok.mp h
    exact ⟨[], by simp, rfl, reads_pure _⟩
  | cons part sections ih =>
    obtain ⟨mid, hmid, h⟩ := bind_eq_ok.mp h
    obtain ⟨stop, hstop, hmid⟩ := bind_eq_ok.mp hmid
    obtain ⟨-, rfl⟩ := narrow_eq_ok.mp hstop
    obtain rfl := pure_eq_ok.mp hmid
    rw [flatten_cons] at hparts
    have hlength := hparts.length_le
    rw [length_append, length_drop] at hlength
    have hfirst : part <+: bytes.drop out.2 := (prefix_append part _).trans hparts
    have hrest : sections.flatten <+: bytes.drop (out.2 + part.length) := by
      obtain ⟨tail, htail⟩ := hparts
      refine ⟨tail, ?_⟩
      rw [← drop_drop, ← htail, append_assoc, drop_left]
    obtain ⟨places, hplaces, hend, hreads⟩ := ih h hrest (by dsimp only; omega)
    have hoffset : (UInt64.ofNat out.2).toNat = out.2 :=
      UInt64.toNat_ofNat_of_lt' (show out.2 < 2 ^ 64 by omega)
    have hsize : (UInt64.ofNat part.length).toNat = part.length :=
      UInt64.toNat_ofNat_of_lt' (show part.length < 2 ^ 64 by omega)
    have hslice : (bytes.take (out.2 + part.length)).drop out.2 = part := by
      rw [drop_take, Nat.add_sub_cancel_left]
      exact (prefix_iff_eq_take.mp hfirst).symm
    refine ⟨leBytes 8 out.2 ++ (leBytes 8 part.length ++ places), ?_, ?_, ?_⟩
    · rw [hplaces]
      simp only [append_assoc]
    · rw [hend, flatten_cons, length_append, Nat.add_assoc]
    · have h1 := reads_readU64 FormatError.truncated (UInt64.ofNat out.2)
      have h2 := reads_readU64 FormatError.truncated (UInt64.ofNat part.length)
      rw [hoffset] at h1
      rw [hsize] at h2
      refine h1.bind_free (h2.bind_free ?_)
      rw [hoffset, hsize]
      refine (reads_refuse (by simp) _).bind_skip ?_
      refine (reads_refuse (by omega) _).bind_skip ?_
      have h3 := reads_slice (ε := FormatError) (show out.2 ≤ out.2 + part.length ∧
        out.2 + part.length ≤ bytes.length by omega)
      rw [hslice] at h3
      refine h3.bind_skip ?_
      exact hreads.bind_free_nil (reads_pure (part :: sections, next.2))

/-! ### The store -/

/-- The bytes are a count and that many items, which are read at this cost. -/
def Counted (p : Parse α) (k : ℕ) (part : List UInt8) (cost : ℕ) (items : List α) : Prop :=
  k < 2 ^ 32 ∧ ∃ body, part = leBytes 4 k ++ body ∧ Reads (readMany p k) body cost items

/-- A counted list that was written is read back, and its cost is taken from the budget. -/
theorem Counted.runSection {p : Parse α} {k cost budget} {part} {items : List α}
    (h : Counted p k part cost items) (hlength : part.length < 2 ^ 64) (hcost : cost ≤ budget) :
    runSection p part budget = .ok (items, budget - cost) := by
  obtain ⟨hk, body, rfl, hbody⟩ := h
  have hread : Reads (do readMany p (← readU32 FormatError.truncated).toNat) (leBytes 4 k ++ body)
      cost items := by
    refine (reads_readU32_ofNat _ hk).bind_free ?_
    rwa [toNat_ofNat_u32 hk]
  have hrun : readSection p ⟨leBytes 4 k ++ body, 0, budget⟩ = .ok (items,
      ⟨leBytes 4 k ++ body, (leBytes 4 k ++ body).length, budget - cost⟩) :=
    hread.run_finish hlength hcost .trailingBytes
  rw [StateGraph.runSection, hrun]
  rfl

/-- The attributes of some records, in the order they are stored. -/
def recordAttrs (nodes : List NodeRecord) (edges : List EdgeRecord) : List (String × AttrValue) :=
  allAttrs NodeRecord.attrs nodes ++ allAttrs EdgeRecord.attrs edges

/-- The attributes of a graph, in the order they are stored. -/
def Graph.allAttrs (g : Graph) : List (String × AttrValue) := recordAttrs g.nodes g.edges

/-- The references of some records: those of the nodes, of the edges and of their attributes. -/
theorem stringsLength_recordStrings (nodes : List NodeRecord) (edges : List EdgeRecord) :
    stringsLength (recordStrings nodes edges) =
      stringsLength (nodes.flatMap fun n ↦ [n.key, n.label]) +
      stringsLength (edges.flatMap fun e ↦ [e.label]) +
      stringsLength ((recordAttrs nodes edges).flatMap pairStrings) := by
  have hnodes := stringsLength_flatMap_append (fun n : NodeRecord ↦ [n.key, n.label])
  have hedges := stringsLength_flatMap_append (fun e : EdgeRecord ↦ [e.label])
  have hflat : (recordAttrs nodes edges).flatMap pairStrings =
      (nodes.flatMap fun n ↦ attrStrings n.attrs) ++
        edges.flatMap fun e ↦ attrStrings e.attrs := by
    simp only [recordAttrs, allAttrs, flatMap_append, flatMap_assoc, attrStrings]
  rw [hflat, stringsLength_append]
  show stringsLength ((nodes.flatMap fun n ↦ [n.key, n.label] ++ attrStrings n.attrs) ++
    edges.flatMap fun e ↦ [e.label] ++ attrStrings e.attrs) = _
  rw [stringsLength_append, hnodes, hedges]
  omega

theorem attachAttrs_nodes (h : g.allAttrs.length < 2 ^ 32) :
    attachAttrs NodeRecord.withAttrs (g.allAttrs, 0)
      (ranged NodeRecord.attrs NodeRecord.bare 0 g.nodes) = .ok (g.nodes,
        allAttrs EdgeRecord.attrs g.edges, (allAttrs NodeRecord.attrs g.nodes).length) := by
  rw [Graph.allAttrs, recordAttrs, length_append] at h
  have hattach : attachAttrs NodeRecord.withAttrs (g.allAttrs, 0)
      (ranged NodeRecord.attrs NodeRecord.bare 0 g.nodes) = .ok (g.nodes,
        allAttrs EdgeRecord.attrs g.edges, 0 + (allAttrs NodeRecord.attrs g.nodes).length) :=
    attachAttrs_ranged (fun _ ↦ rfl) g.nodes _ (by omega)
  rwa [Nat.zero_add] at hattach

theorem attachAttrs_edges (h : g.allAttrs.length < 2 ^ 32) :
    attachAttrs EdgeRecord.withAttrs
      (allAttrs EdgeRecord.attrs g.edges, (allAttrs NodeRecord.attrs g.nodes).length)
      (ranged EdgeRecord.attrs EdgeRecord.bare (allAttrs NodeRecord.attrs g.nodes).length g.edges) =
        .ok (g.edges, [], g.allAttrs.length) := by
  rw [Graph.allAttrs, recordAttrs, length_append] at h ⊢
  have hattach := attachAttrs_ranged
    (fun e : EdgeRecord ↦ show e.bare.withAttrs e.attrs = e from rfl) g.edges [] h
  rwa [append_nil] at hattach

/-- The sections of a graph, with what is read from those that hold records. -/
structure Stored (g : Graph) (stringPart nodePart edgePart attrPart : List UInt8) : Prop where
  strings : Counted readString (stringTable g).length stringPart 0 (stringTable g)
  nodes : Counted (readNode (stringTable g)) g.nodes.length nodePart
    (stringsLength (g.nodes.flatMap fun n ↦ [n.key, n.label]))
    (ranged NodeRecord.attrs NodeRecord.bare 0 g.nodes)
  edges : Counted (readEdge (stringTable g)) g.edges.length edgePart
    (stringsLength (g.edges.flatMap fun e ↦ [e.label]))
    (ranged EdgeRecord.attrs EdgeRecord.bare (allAttrs NodeRecord.attrs g.nodes).length g.edges)
  attrs : Counted (readAttr (stringTable g)) g.allAttrs.length attrPart
    (stringsLength (g.allAttrs.flatMap pairStrings)) g.allAttrs

theorem stored_of_encodeSections (h : (encodeSections g : Outcome ε _) = .ok sections) :
    ∃ stringPart nodePart edgePart outPart inPart keyPart attrPart,
      sections = [stringPart, nodePart, edgePart, outPart, inPart, keyPart, attrPart] ∧
      Stored g stringPart nodePart edgePart attrPart := by
  obtain ⟨nodeCount, hnodeCount, nodes, hnodes, edgeCount, hedgeCount, h⟩ := bind₃_eq_ok.mp h
  obtain ⟨edges, hedges, keys, -, stringCount, hstringCount, h⟩ := bind₃_eq_ok.mp h
  obtain ⟨texts, htexts, rfl⟩ := bind_pure_eq_ok.mp h
  obtain ⟨hnodesLt, rfl⟩ := narrow_eq_ok.mp hnodeCount
  obtain ⟨hedgesLt, rfl⟩ := narrow_eq_ok.mp hedgeCount
  obtain ⟨hstringsLt, rfl⟩ := narrow_eq_ok.mp hstringCount
  obtain ⟨hnodeBody, hnodeAttrs⟩ := reads_of_foldlM_pushRecord
    (fun _ _ _ _ hstart hcount hn ↦ reads_readNode hstart hcount hn) hnodes (Nat.two_pow_pos 32)
  have hmid : nodes.attrs.count = (allAttrs NodeRecord.attrs g.nodes).length ∧
      nodes.attrs.count < 2 ^ 32 := by
    obtain ⟨body, hattrs, hlt, -⟩ := hnodeAttrs
    rw [hattrs]
    exact ⟨Nat.zero_add _, hlt⟩
  obtain ⟨hedgeBody, hedgeAttrs⟩ := reads_of_foldlM_pushRecord
    (fun _ _ _ _ hstart hcount he ↦ reads_readEdge hstart hcount he) hedges hmid.2
  rw [hmid.1] at hedgeBody
  -- the attribute section is one list: the attributes of the nodes, then those of the edges
  obtain ⟨attrBody, hattrs, hattrCount, hattrReads⟩ := hnodeAttrs.trans hedgeAttrs
  rw [Nat.zero_add] at hattrs hattrCount
  rw [hattrs]
  exact ⟨_, _, _, _, _, _, _, rfl, ⟨hstringsLt, _, rfl, reads_readStrings htexts⟩,
    ⟨hnodesLt, hnodeBody⟩, ⟨hedgesLt, hedgeBody⟩, hattrCount, attrBody, rfl, hattrReads⟩

/-- The sections of a graph hold its records, and reading them costs what the graph refers to. -/
theorem parseRecords_encodeSections {length}
    (h : (encodeSections g : Outcome ε _) = .ok sections) (header : Header)
    (hsections : sections.flatten.length < 2 ^ 64) (hlimit : expansionLimit * length < 2 ^ 64)
    (hwithin : g.referenceBytes ≤ expansionLimit * length) :
    parseRecords sections header length =
      .ok (⟨header.space, header.revision, g.nodes, g.edges⟩,
        expansionLimit * length - g.referenceBytes) := by
  obtain ⟨stringPart, nodePart, edgePart, outPart, inPart, keyPart, attrPart, rfl, hstored⟩ :=
    stored_of_encodeSections h
  obtain ⟨hstrings, hnodes, hedges, hattrs⟩ := hstored
  simp only [flatten_cons, length_append] at hsections
  have hreferences := stringsLength_recordStrings g.nodes g.edges
  change g.referenceBytes = _ + _ + stringsLength (g.allAttrs.flatMap pairStrings) at hreferences
  generalize hnodeCost : stringsLength (g.nodes.flatMap fun n ↦ [n.key, n.label]) = nodeCost at *
  generalize hedgeCost : stringsLength (g.edges.flatMap fun e ↦ [e.label]) = edgeCost at *
  have hbudget : (checkedMul 64 expansionLimit length : Outcome FormatError ℕ) =
      .ok (expansionLimit * length) := narrow_eq_ok.mpr ⟨hlimit, rfl⟩
  have hstringPart : runSection readString stringPart 0 = .ok (stringTable g, 0) :=
    hstrings.runSection (by omega) le_rfl
  have hnodePart := hnodes.runSection (by omega)
    (show nodeCost ≤ expansionLimit * length by omega)
  have hedgePart := hedges.runSection (by omega)
    (show edgeCost ≤ expansionLimit * length - nodeCost by omega)
  have hattrPart := hattrs.runSection (by omega)
    (show stringsLength (g.allAttrs.flatMap pairStrings) ≤
      expansionLimit * length - nodeCost - edgeCost by omega)
  rw [parseRecords, hstringPart, ok_bind]
  dsimp only
  rw [hbudget, ok_bind, hnodePart, ok_bind]
  rw [hedgePart, ok_bind]
  rw [hattrPart, ok_bind]
  rw [attachAttrs_nodes hattrs.1, ok_bind]
  rw [attachAttrs_edges hattrs.1, ok_bind]
  rw [if_neg (by simp), pure_eq_ok, hreferences, Nat.sub_sub, Nat.sub_sub, Nat.add_assoc]

/-- A store that was written is read back, at the price of the references. -/
theorem parseBudget_encode (h : (encode g : Outcome ε _) = .ok bytes)
    (hversion : g.schemaVersion = schema.version) (hlimit : expansionLimit * bytes.length < 2 ^ 64)
    (hwithin : g.referenceBytes ≤ expansionLimit * bytes.length) :
    parseBudget bytes g.space schema = .ok (⟨g.space, g.revision, g.nodes, g.edges⟩,
      expansionLimit * bytes.length - g.referenceBytes) := by
  obtain ⟨sections, hsections, next, hnext, ⟨⟩⟩ := bind₂_eq_ok.mp h
  have hcount : sections.length = sectionCount := by
    obtain ⟨_, _, _, _, _, _, _, rfl, -⟩ := stored_of_encodeSections hsections
    rfl
  have hplacesLength := length_of_foldlM_pushSection hnext
  rw [length_nil] at hplacesLength
  have hheaderLength := length_encodeHeader g
  generalize hbytes : encodeHeader g ++ (next.1 ++ sections.flatten) = bytes at *
  have hlength : bytes.length = sectionsStart + sections.flatten.length := by
    rw [← hbytes, length_append, length_append, sectionsStart]
    omega
  have hlt : bytes.length < 2 ^ 64 := by
    rw [expansionLimit] at hlimit
    omega
  have hdrop : bytes.drop sectionsStart = sections.flatten := by
    rw [← hbytes, ← append_assoc]
    refine drop_left' ?_
    rw [length_append, sectionsStart]
    omega
  obtain ⟨places, hplaces, hend, hreads⟩ := reads_readSections hlt hnext
    (hdrop ▸ prefix_rfl) (by dsimp only; omega)
  rw [nil_append] at hplaces
  rw [hcount] at hreads
  have hframe : Reads (readFrame bytes g.space schema) (encodeHeader g ++ places) 0
      (⟨g.space, g.revision⟩, sections) := by
    refine (reads_readHeader g hversion).bind_free ?_
    refine hreads.bind_free_nil ?_
    exact (reads_refuse (by simp [hend, hlength]) _).bind_skip (reads_pure _)
  have hstarts : encodeHeader g ++ places <+: Cursor.rest ⟨bytes, 0, 0⟩ :=
    ⟨sections.flatten, by rw [← hplaces, append_assoc, hbytes]; rfl⟩
  have hrun := hframe ⟨bytes, 0, 0⟩ ⟨Nat.zero_le _, hlt⟩ hstarts le_rfl
  rw [parseBudget, hrun]
  exact parseRecords_encodeSections hsections ⟨g.space, g.revision⟩ (by omega) hlimit hwithin

/-! ### The build -/

/-- What a build from ordered records makes of them, and what it checked on the way. -/
structure BuiltFrom (space : GraphSpace) (revision : UInt64) (nodes : List NodeRecord)
    (edges : List EdgeRecord) (schema : Schema) (g : Graph) (bytes : List UInt8) : Prop where
  space_eq : g.space = space
  revision_eq : g.revision = revision
  version_eq : g.schemaVersion = schema.version
  nodes_eq : g.nodes = nodes
  edges_eq : g.edges = sortByKey (outOrder nodes) edges
  nodes_lt : nodes.Pairwise fun m n ↦ m.id.val.toNat < n.id.val.toNat
  edges_lt : edges.Pairwise fun d e ↦ d.id.val.toNat < e.id.val.toNat
  encode_eq : (encode g : Outcome GraphError _) = .ok bytes
  limit_lt : expansionLimit * bytes.length < 2 ^ 64
  within : g.referenceBytes ≤ expansionLimit * bytes.length

theorem findAdjacent_eq_none_of_refuseRepeat {repeats : α → α → Bool} {error : α → GraphError}
    {l : List α} (h : refuseRepeat repeats error l = .ok ⟨⟩) :
    findAdjacent repeats l = none := by
  rw [refuseRepeat] at h
  split at h
  · cases h
  · assumption

/-- A graph that is encoded within the limit. -/
theorem encodeWithin_eq_ok {graph g} (h : encodeWithin graph = .ok (g, bytes)) :
    graph = g ∧ (encode g : Outcome GraphError _) = .ok bytes ∧
      expansionLimit * bytes.length < 2 ^ 64 ∧
      g.referenceBytes ≤ expansionLimit * bytes.length := by
  obtain ⟨encoded, hencoded, charged, hcharged, within, hwithin, h⟩ := bind₃_eq_ok.mp h
  obtain ⟨limit, hlimit, hwithin⟩ := bind_eq_ok.mp hwithin
  obtain ⟨-, rfl⟩ := narrow_eq_ok.mp hcharged
  obtain ⟨hlt, rfl⟩ := narrow_eq_ok.mp hlimit
  obtain rfl := pure_eq_ok.mp hwithin
  split_ifs at h with hle
  · cases pure_eq_ok.mp h
    exact ⟨rfl, hencoded, hlt, of_decide_eq_true hle⟩
  · cases h

theorem builtFrom_of_buildSorted {space revision nodes edges}
    (hnodes : nodes.Pairwise fun m n ↦ m.id.val.toNat ≤ n.id.val.toNat)
    (hedges : edges.Pairwise fun d e ↦ d.id.val.toNat ≤ e.id.val.toNat)
    (h : buildSorted space revision nodes edges schema compiled = .ok (g, bytes)) :
    BuiltFrom space revision nodes edges schema g bytes := by
  obtain ⟨keys, hchecks, graph, hindexed, h⟩ := bind₂_eq_ok.mp h
  obtain ⟨rfl, hencoded, hlimit, hle⟩ := encodeWithin_eq_ok h
  obtain ⟨⟨⟩, hnodeIds, ⟨⟩, -, _, -, hchecks⟩ := bind₃_eq_ok.mp hchecks
  obtain ⟨⟨⟩, -, ⟨⟩, -, hchecks⟩ := bind₂_eq_ok.mp hchecks
  obtain ⟨⟨⟩, hedgeIds, -⟩ := bind_eq_ok.mp hchecks
  obtain ⟨outOffsets, -, inEdges, -, inOffsets, -, ⟨⟩⟩ := bind₃_eq_ok.mp hindexed
  have hsame {a b : UInt64} (hab : a.toNat = b.toNat) : a = b := UInt64.toNat_inj.mp hab
  refine ⟨rfl, rfl, rfl, rfl, rfl, ?_, ?_, hencoded, hlimit, hle⟩
  · refine pairwise_lt_of_findAdjacent_eq_none (fun m n hmn ↦ ?_) hnodes
      (findAdjacent_eq_none_of_refuseRepeat hnodeIds)
    exact decide_eq_true (congrArg NodeId.mk (hsame hmn))
  · refine pairwise_lt_of_findAdjacent_eq_none (fun d e hde ↦ ?_) hedges
      (findAdjacent_eq_none_of_refuseRepeat hedgeIds)
    exact decide_eq_true (congrArg EdgeId.mk (hsame hde))

section

variable (h : b.buildEncoded schema compiled = .ok (g, bytes))

include h

/-- What a builder makes of its records. -/
theorem GraphBuilder.builtFrom :
    BuiltFrom b.space b.revision (sortByKey (fun n ↦ n.id.val.toNat) b.nodes)
      (sortByKey (fun e ↦ e.id.val.toNat) b.edges) schema g bytes :=
  builtFrom_of_buildSorted (pairwise_sortByKey _ _) (pairwise_sortByKey _ _) h

/-- The records of a graph build that graph again, in whatever order they were collected first. -/
theorem buildEncoded_of_buildEncoded :
    GraphBuilder.buildEncoded ⟨g.space, g.revision, g.nodes, g.edges⟩ schema compiled =
      .ok (g, bytes) := by
  have hbuilt := b.builtFrom h
  have hnodes : sortByKey (fun n ↦ n.id.val.toNat) g.nodes =
      sortByKey (fun n ↦ n.id.val.toNat) b.nodes := by
    rw [hbuilt.nodes_eq]
    exact sortByKey_eq_of_perm (List.Perm.refl _) hbuilt.nodes_lt
  have hedges : sortByKey (fun e ↦ e.id.val.toNat) g.edges =
      sortByKey (fun e ↦ e.id.val.toNat) b.edges := by
    rw [hbuilt.edges_eq]
    exact sortByKey_eq_of_perm (sortByKey_perm _ _) hbuilt.edges_lt
  rw [GraphBuilder.buildEncoded, hnodes, hedges, hbuilt.space_eq, hbuilt.revision_eq]
  exact h

/-- The bytes of a build are read with what is left of the references it counted. -/
theorem parseBudget_of_buildEncoded :
    parseBudget bytes g.space schema = .ok (⟨g.space, g.revision, g.nodes, g.edges⟩,
      expansionLimit * bytes.length - g.referenceBytes) := by
  have hbuilt := b.builtFrom h
  exact parseBudget_encode hbuilt.encode_eq hbuilt.version_eq hbuilt.limit_lt hbuilt.within

end

/-- A canonical rebuild has built the bytes it was given. -/
theorem rebuildCanonical_eq_ok :
    rebuildCanonical b bytes schema compiled = .ok g ↔
      b.buildEncoded schema compiled = .ok (g, bytes) := by
  rw [rebuildCanonical]
  cases b.buildEncoded schema compiled with
  | error e => cases e <;> exact iff_of_false nofun nofun
  | ok r =>
    obtain ⟨graph, encoded⟩ := r
    show (if encoded ≠ bytes then Outcome.fail FormatError.nonCanonical else pure graph) = ok g ↔ _
    split_ifs with hsame
    · exact iff_of_false nofun fun h ↦ hsame (Prod.mk.inj (ok.inj h)).2
    · obtain rfl := not_not.mp hsame
      simp

/-- The bytes of a build are decoded to what was built. -/
theorem decode_of_buildEncoded (h : b.buildEncoded schema compiled = .ok (g, bytes)) :
    decode bytes g.space schema compiled = .ok g := by
  rw [decode, parse, parseBudget_of_buildEncoded h]
  exact rebuildCanonical_eq_ok.mpr (buildEncoded_of_buildEncoded h)

/-- Every graph that was built is read back from its bytes, and reading it spends exactly the
references that building it counted. -/
theorem decode_encode_of_build {b : GraphBuilder} {schema : Schema} {compiled : CompiledSet}
    {g : Graph} (h : b.build schema compiled = .ok g) :
    ∃ bytes, (encode g : Outcome GraphError _) = .ok bytes ∧
      decode bytes g.space schema compiled = .ok g ∧
      ∃ left, parseBudget bytes g.space schema =
          .ok (⟨g.space, g.revision, g.nodes, g.edges⟩, left) ∧
        left + g.referenceBytes = expansionLimit * bytes.length := by
  obtain ⟨⟨g', bytes⟩, hbuild, rfl⟩ := bind_pure_eq_ok.mp h
  have hbuilt := b.builtFrom hbuild
  exact ⟨bytes, hbuilt.encode_eq, decode_of_buildEncoded hbuild, _,
    parseBudget_of_buildEncoded hbuild, Nat.sub_add_cancel hbuilt.within⟩

def adminSchema : Schema where
  version := 3
  nodeKinds := [(⟨1⟩, "subject"), (⟨2⟩, "role")]
  edgeKinds := [(⟨1⟩, "has-role")]
  triples := [(⟨1⟩, ⟨1⟩, ⟨2⟩)]
  compiledKinds := []
  forbiddenTargets := []

/-- A subject with attributes and an edge to its role, collected out of order. -/
def adminBuilder : GraphBuilder where
  space := .kernel
  revision := 7
  nodes := [⟨⟨20⟩, .kernel, ⟨2⟩, "admin", "Admin", ⟨.seed, 1⟩, 1, ∅⟩,
    ⟨⟨10⟩, .kernel, ⟨1⟩, "uid:0", "root", ⟨.seed, 1⟩, 1,
      .ofList [("shell", .str "root"), ("uid", .u64 0)] compare⟩]
  edges := [⟨⟨5⟩, .kernel, ⟨10⟩, ⟨20⟩, ⟨1⟩, "root", ⟨.seed, 1⟩, 1, ∅⟩]

theorem exists_build_admin : ∃ g, adminBuilder.build adminSchema ⟨[]⟩ = .ok g :=
  exists_eq_ok_of_isOk (by decide +kernel)

theorem decode_encode_of_build_admin :
    ∃ g bytes, adminBuilder.build adminSchema ⟨[]⟩ = .ok g ∧
      (encode g : Outcome GraphError _) = .ok bytes ∧
      decode bytes g.space adminSchema ⟨[]⟩ = .ok g := by
  obtain ⟨g, hbuild⟩ := exists_build_admin
  obtain ⟨bytes, hencode, hdecode, -⟩ := decode_encode_of_build hbuild
  exact ⟨g, bytes, hbuild, hencode, hdecode⟩

end Maknae.StateGraph
