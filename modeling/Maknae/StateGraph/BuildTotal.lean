import Maknae.StateGraph.RoundTrip
import Mathlib.Data.List.Destutter

/-!
# Building does not panic

The builder and the writer panic where a count or a length does not fit its field and where they
index past the end of a list. None of this happens on records that fit (`RecordsFit`): their strings
are in a table that could be stored, and there are few enough of them. The records of a store that
was parsed do, since they were counted by fields of the same widths.

The writer cannot be given more than about one and a half times the bytes that were parsed: it adds
only the indexes, which have a fixed size per record.
-/

namespace Maknae.StateGraph

open List Outcome

variable {ε : Type} {table : List String}

/-! ### The string table -/

theorem stringTable_eq_dedup (g : Graph) :
    stringTable g = (g.strings.insertionSort (· ≤ ·)).dedup :=
  (pairwise_insertionSort (· ≤ ·) g.strings).destutter_eq_dedup

variable {s : String} {g : Graph} {α : Type} {l : List ℕ} {nodes : List NodeRecord}
  {edges : List EdgeRecord} {space : GraphSpace} {schema : Schema}

theorem mem_stringTable : s ∈ stringTable g ↔ s ∈ g.strings := by
  rw [stringTable_eq_dedup, mem_dedup, mem_insertionSort]

theorem nodup_stringTable (g : Graph) : (stringTable g).Nodup := by
  rw [stringTable_eq_dedup]
  exact nodup_dedup _

theorem pairwise_stringTable (g : Graph) : (stringTable g).Pairwise (· < ·) := by
  have hle : (stringTable g).Pairwise (· ≤ ·) := by
    rw [stringTable_eq_dedup]
    exact (pairwise_insertionSort (· ≤ ·) g.strings).sublist (dedup_sublist _)
  exact hle.imp₂ (fun _ _ hle hne ↦ lt_of_le_of_ne hle hne) (nodup_stringTable g)

/-- A string of an ordered table that fits is found in it. -/
theorem sat_sref (hsorted : table.Pairwise (· < ·)) (hlt : table.length < 2 ^ 32) (hs : s ∈ table) :
    Sat (sref table s : Outcome ε ℕ) fun _ ↦ True := by
  have hsearch : (binarySearchBy (fun t ↦ compare t s) table).isSome := by
    refine isSome_binarySearchBy (hsorted.imp fun {a b} hab heq ↦ ?_) hs Std.ReflCmp.compare_self
    rw [← Std.LawfulEqOrd.eq_of_compare heq]
    exact compare_lt_iff_lt.mpr hab
  obtain ⟨i, hi⟩ := Option.isSome_iff_exists.mp hsearch
  obtain ⟨t, ht, -⟩ := exists_of_binarySearchBy_eq_some hi
  obtain ⟨hlength, -⟩ := List.getElem?_eq_some_iff.mp ht
  rw [sref, hi]
  exact (sat_narrow (hlength.trans hlt)).mono fun _ _ ↦ trivial

/-! ### Records -/

section Table

variable (hsorted : table.Pairwise (· < ·)) (hlt : table.length < 2 ^ 32)

include hsorted hlt

theorem sat_encodeAttrValue {v} (h : ∀ s ∈ valueStrings v, s ∈ table) :
    Sat (encodeAttrValue table v : Outcome ε _) (·.length = 12) := by
  cases v with
  | str s =>
    refine sat_bind (sat_sref hsorted hlt (h s (mem_singleton_self s))) fun i _ ↦ ?_
    exact sat_pure.mpr (by simp)
  | u64 x => exact sat_pure.mpr (by simp)

variable {out : AttrBody}

theorem sat_pushAttr {a : String × AttrValue} (h : ∀ s ∈ pairStrings a, s ∈ table)
    (hcount : out.count + 1 < 2 ^ 32) :
    Sat (pushAttr table out a : Outcome ε _) fun next ↦
      next.count = out.count + 1 ∧ next.bytes.length = out.bytes.length + 16 := by
  obtain ⟨hkey, hvalue⟩ := forall_mem_cons.mp h
  refine sat_bind (sat_sref hsorted hlt hkey) fun i _ ↦ ?_
  refine sat_bind (sat_encodeAttrValue hsorted hlt hvalue) fun value hlength ↦ ?_
  refine sat_bind (sat_narrow hcount) fun count hnext ↦ ?_
  refine sat_pure.mpr ⟨hnext, ?_⟩
  simp [hlength]

theorem sat_foldlM_pushAttr {l : List (String × AttrValue)}
    (h : ∀ s ∈ l.flatMap pairStrings, s ∈ table) (hcount : out.count + l.length < 2 ^ 32) :
    Sat (l.foldlM (pushAttr table) out : Outcome ε _) fun next ↦
      next.count = out.count + l.length ∧
        next.bytes.length = out.bytes.length + 16 * l.length := by
  induction l generalizing out with
  | nil => exact sat_pure.mpr ⟨rfl, rfl⟩
  | cons a l ih =>
    rw [flatMap_cons, forall_mem_append] at h
    rw [length_cons] at hcount ⊢
    refine sat_bind (sat_pushAttr hsorted hlt h.1 (by omega)) fun mid ⟨hmid, hbytes⟩ ↦ ?_
    refine (ih h.2 (by omega)).mono fun next ⟨hnext, hlength⟩ ↦ ?_
    omega

theorem sat_pushAttrs {a} (h : ∀ s ∈ attrStrings a, s ∈ table)
    (hcount : out.count + a.toList.length < 2 ^ 32) :
    Sat (pushAttrs table out a : Outcome ε _) fun r ↦
      r.2.count = out.count + a.toList.length ∧
        r.2.bytes.length = out.bytes.length + 16 * a.toList.length := by
  have hsize : a.toList.length = a.size := Std.ExtTreeMap.length_toList
  refine sat_bind (sat_foldlM_pushAttr hsorted hlt h hcount) fun attrs hwritten ↦ ?_
  exact sat_bind (sat_narrow (by omega)) fun count _ ↦ sat_pure.mpr hwritten

theorem sat_encodeNode {n} (h : ∀ s ∈ nodeStrings n, s ∈ table) (range : ℕ × ℕ) :
    Sat (encodeNode table n range : Outcome ε _) (·.length = 56) := by
  obtain ⟨hkey, h⟩ := forall_mem_cons.mp h
  refine sat_bind (sat_sref hsorted hlt hkey) fun key _ ↦ ?_
  refine sat_bind (sat_sref hsorted hlt (h _ mem_cons_self)) fun label _ ↦ ?_
  exact sat_pure.mpr (by simp)

theorem sat_encodeEdge {e} (h : ∀ s ∈ edgeStrings e, s ∈ table) (range : ℕ × ℕ) :
    Sat (encodeEdge table e range : Outcome ε _) (·.length = 72) := by
  refine sat_bind (sat_sref hsorted hlt (h _ mem_cons_self)) fun label _ ↦ ?_
  exact sat_pure.mpr (by simp)

/-- Records whose strings are in the table are written, each in a fixed width and with its
attributes. -/
theorem sat_foldlM_pushRecord {α : Type} {attrsOf : α → Attrs}
    {encodeRecord : α → ℕ × ℕ → Outcome ε (List UInt8)} {width} {l : List α} {out}
    (hrecord : ∀ a ∈ l, ∀ range, Sat (encodeRecord a range) (·.length = width))
    (hattrs : ∀ a ∈ l, ∀ s ∈ attrStrings (attrsOf a), s ∈ table)
    (hcount : out.attrs.count + (allAttrs attrsOf l).length < 2 ^ 32) :
    Sat (l.foldlM (pushRecord table attrsOf encodeRecord) out) fun next ↦
      next.bytes.length = out.bytes.length + width * l.length ∧
        next.attrs.count = out.attrs.count + (allAttrs attrsOf l).length ∧
        next.attrs.bytes.length = out.attrs.bytes.length + 16 * (allAttrs attrsOf l).length := by
  induction l generalizing out with
  | nil => exact sat_pure.mpr ⟨rfl, rfl, rfl⟩
  | cons a l ih =>
    have hall : (allAttrs attrsOf (a :: l)).length =
        (attrsOf a).toList.length + (allAttrs attrsOf l).length := length_append
    obtain ⟨hrecordA, hrecordL⟩ := forall_mem_cons.mp hrecord
    obtain ⟨hattrsA, hattrsL⟩ := forall_mem_cons.mp hattrs
    refine sat_bind ?_ fun mid (hmid : mid.bytes.length = out.bytes.length + width ∧
      mid.attrs.count = out.attrs.count + (attrsOf a).toList.length ∧
      mid.attrs.bytes.length = out.attrs.bytes.length + 16 * (attrsOf a).toList.length) ↦ ?_
    · refine sat_bind (sat_pushAttrs hsorted hlt hattrsA (by omega)) fun r hr ↦ ?_
      refine sat_bind (hrecordA r.1) fun record hlength ↦ sat_pure.mpr ⟨?_, hr⟩
      rw [length_append, hlength]
    · refine (ih hrecordL hattrsL (by omega)).mono fun next ⟨hbytes, hnext, hlength⟩ ↦ ?_
      rw [length_cons, Nat.mul_add]
      omega

end Table

/-! ### The store -/

/-- Every count and length of a graph fits its field, and the key index names only keys. -/
structure Graph.Fits (g : Graph) : Prop where
  nodes_lt : g.nodes.length < 2 ^ 32
  edges_lt : g.edges.length < 2 ^ 32
  attrs_lt : g.allAttrs.length < 2 ^ 32
  table_lt : (stringTable g).length < 2 ^ 32
  strings_lt : ∀ s ∈ g.strings, (utf8Bytes s).length < 2 ^ 32
  keys_mem : ∀ entry ∈ g.keys, entry.2.1 ∈ g.strings

/-- The bytes a table of strings takes. -/
def tableLength (strings : List String) : ℕ := (strings.map fun s ↦ 4 + (utf8Bytes s).length).sum

/-- The bytes the sections of a graph take. -/
def Graph.storedLength (g : Graph) : ℕ :=
  4 + tableLength (stringTable g) + (4 + 56 * g.nodes.length) + (4 + 72 * g.edges.length) +
    4 * (g.outOffsets.length + g.inOffsets.length + g.inEdges.length) + 12 * g.keys.length +
    (4 + 16 * g.allAttrs.length)

theorem length_flatten_of_forall₂ {width : α → ℕ} {l : List α} {bs : List (List UInt8)}
    (h : List.Forall₂ (fun a b ↦ b.length = width a) l bs) :
    bs.flatten.length = (l.map width).sum := by
  induction h with
  | nil => rfl
  | cons hfirst _ ih =>
    rw [flatten_cons, length_append, hfirst, ih, map_cons, sum_cons]

theorem sat_mapM_encodeString {strings}
    (h : ∀ s ∈ strings, (utf8Bytes s).length < 2 ^ 32) :
    Sat (strings.mapM encodeString : Outcome ε _) fun texts ↦
      texts.flatten.length = tableLength strings := by
  refine (sat_mapM fun s hs ↦ ?_).mono fun texts htexts ↦ length_flatten_of_forall₂ htexts
  refine sat_bind (sat_narrow (h s hs)) fun n _ ↦ sat_pure.mpr ?_
  rw [length_append, length_leBytes]

theorem sat_mapM_encodeKey (hsorted : table.Pairwise (· < ·)) (hlt : table.length < 2 ^ 32)
    {keys : List (NodeKind × String × UInt32)} (h : ∀ entry ∈ keys, entry.2.1 ∈ table) :
    Sat (keys.mapM (encodeKey table) : Outcome ε _) fun entries ↦
      entries.flatten.length = 12 * keys.length := by
  have hwidth : ∀ entry ∈ keys, Sat (encodeKey table entry : Outcome ε _) (·.length = 12) := by
    intro entry hentry
    refine sat_bind (sat_sref hsorted hlt (h entry hentry)) fun key _ ↦ sat_pure.mpr ?_
    simp
  refine (sat_mapM hwidth).mono fun entries hentries ↦ ?_
  rw [length_flatten_of_forall₂ hentries, map_const', sum_replicate_nat, Nat.mul_comm]

theorem length_encodeOffsets (offsets : List UInt32) :
    (encodeOffsets offsets).length = 4 * offsets.length := by
  simp [encodeOffsets, Nat.mul_comm]

theorem sat_encodeSections (h : g.Fits) :
    Sat (encodeSections g : Outcome ε _) fun sections ↦
      sections.length = sectionCount ∧ sections.flatten.length = g.storedLength := by
  have hsorted := pairwise_stringTable g
  have hattrs : g.allAttrs.length = (allAttrs NodeRecord.attrs g.nodes).length +
      (allAttrs EdgeRecord.attrs g.edges).length := length_append
  have hattrsLt := h.attrs_lt
  have hnodeStrings : ∀ n ∈ g.nodes, ∀ s ∈ nodeStrings n, s ∈ stringTable g := fun n hn s hs ↦
    mem_stringTable.mpr (mem_append.mpr (.inl (mem_flatMap.mpr ⟨n, hn, hs⟩)))
  have hedgeStrings : ∀ e ∈ g.edges, ∀ s ∈ edgeStrings e, s ∈ stringTable g := fun e he s hs ↦
    mem_stringTable.mpr (mem_append.mpr (.inr (mem_flatMap.mpr ⟨e, he, hs⟩)))
  refine sat_bind (sat_narrow h.nodes_lt) fun nodeCount _ ↦ ?_
  refine sat_bind (sat_foldlM_pushRecord hsorted h.table_lt
    (fun n hn ↦ sat_encodeNode hsorted h.table_lt (hnodeStrings n hn))
    (fun n hn s hs ↦ hnodeStrings n hn s (mem_cons_of_mem _ (mem_cons_of_mem _ hs)))
    (by dsimp only; omega)) fun nodes ⟨hnodeBytes, hnodeCount, hnodeAttrs⟩ ↦ ?_
  dsimp only at hnodeBytes hnodeCount hnodeAttrs
  refine sat_bind (sat_narrow h.edges_lt) fun edgeCount _ ↦ ?_
  refine sat_bind (sat_foldlM_pushRecord hsorted h.table_lt
    (fun e he ↦ sat_encodeEdge hsorted h.table_lt (hedgeStrings e he))
    (fun e he s hs ↦ hedgeStrings e he s (mem_cons_of_mem _ hs))
    (by dsimp only; omega)) fun edges ⟨hedgeBytes, hedgeCount, hedgeAttrs⟩ ↦ ?_
  refine sat_bind (sat_mapM_encodeKey hsorted h.table_lt fun entry hentry ↦
    mem_stringTable.mpr (h.keys_mem entry hentry)) fun keys hkeys ↦ ?_
  refine sat_bind (sat_narrow h.table_lt) fun stringCount _ ↦ ?_
  refine sat_bind (sat_mapM_encodeString fun s hs ↦ h.strings_lt s (mem_stringTable.mp hs))
    fun texts htexts ↦ ?_
  refine sat_pure.mpr ⟨rfl, ?_⟩
  simp only [flatten_cons, flatten_nil, length_append, length_nil,
    length_leBytes, length_encodeOffsets, hnodeBytes, hedgeBytes, hedgeAttrs, hnodeAttrs,
    Graph.storedLength]
  omega

theorem sat_foldlM_pushSection {sections : List (List UInt8)} {out : List UInt8 × ℕ}
    (h : out.2 + sections.flatten.length < 2 ^ 64) :
    Sat (sections.foldlM pushSection out : Outcome ε _) fun _ ↦ True := by
  induction sections generalizing out with
  | nil => exact trivial
  | cons part sections ih =>
    rw [flatten_cons, length_append] at h
    refine sat_bind (sat_bind (sat_narrow (show out.2 + part.length < 2 ^ 64 by omega))
      fun stop hstop ↦ sat_pure.mpr hstop) fun mid (hmid : mid.2 = out.2 + part.length) ↦ ?_
    exact ih (by omega)

theorem sat_encode (h : g.Fits) (hlength : sectionsStart + g.storedLength < 2 ^ 64) :
    Sat (encode g : Outcome ε _) fun bytes ↦ bytes.length = sectionsStart + g.storedLength := by
  refine sat_bind (sat_encodeSections h) fun sections ⟨hcount, hsections⟩ ↦ ?_
  refine sat_bind (sat_foldlM_pushSection (by rwa [hsections])).and_eq_ok
    fun places ⟨hplaces, _⟩ ↦ ?_
  have hwidth := length_of_foldlM_pushSection hplaces
  refine sat_pure.mpr ?_
  rw [length_append, length_append, length_encodeHeader, hwidth, sectionsStart, length_nil]
  omega

theorem sat_encodeWithin (h : g.Fits)
    (hlength : expansionLimit * (sectionsStart + g.storedLength) < 2 ^ 64)
    (hreferences : g.referenceBytes < 2 ^ 64) : Sat (encodeWithin g) fun _ ↦ True := by
  refine sat_bind (sat_encode h (by rw [expansionLimit] at hlength; omega)) fun bytes hbytes ↦ ?_
  refine sat_bind (sat_narrow hreferences) fun charged _ ↦ ?_
  have hwithin : Sat (withinExpansionLimit charged bytes.length : Outcome GraphError _)
      fun _ ↦ True :=
    sat_bind (sat_narrow (by rwa [hbytes])) fun _ _ ↦ trivial
  refine sat_bind hwithin fun within _ ↦ ?_
  split_ifs
  · exact trivial
  · exact sat_fail

/-! ### Indexes -/

theorem sum_set_succ {i n} (h : l[i]? = some n) :
    (l.set i (n + 1)).sum = l.sum + 1 := by
  induction l generalizing i with
  | nil => cases h
  | cons m l ih =>
    cases i with
    | zero =>
      cases h
      simp only [set_cons_zero, sum_cons]
      omega
    | succ i =>
      rw [set_cons_succ, sum_cons, sum_cons, ih h]
      omega

/-- Running sums do not overflow when the whole sum does not. -/
theorem sat_runningSums {sum} (h : sum + l.sum < 2 ^ 32) :
    Sat (runningSums sum l) fun sums ↦ sums.length = l.length := by
  induction l generalizing sum with
  | nil => exact sat_ok.mpr rfl
  | cons count l ih =>
    rw [sum_cons] at h
    refine sat_bind (sat_narrow (show sum + count < 2 ^ 32 by omega)) fun next hnext ↦ ?_
    refine sat_bind (ih (by omega)) fun rest hrest ↦ sat_pure.mpr ?_
    rw [length_cons, hrest, length_cons]

theorem sat_countOwner {nodes owner out} (hlength : out.length = nodes + 1)
    (howner : owner < nodes) (hsum : out.sum + 1 < 2 ^ 32) :
    Sat (countOwner out owner) fun next ↦
      next.length = nodes + 1 ∧ next.sum = out.sum + 1 := by
  have hget : out[owner + 1]? = some out[owner + 1] := getElem?_eq_getElem (by omega)
  have hle : out[owner + 1] ≤ out.sum := le_sum_of_mem (getElem_mem _)
  rw [countOwner, hget]
  refine sat_bind (sat_narrow (show out[owner + 1] + 1 < 2 ^ 32 by omega)) fun count hcount ↦ ?_
  refine sat_pure.mpr ⟨?_, ?_⟩
  · rw [length_set, hlength]
  · rw [hcount, sum_set_succ hget]

/-- The offsets of rows that have owners and fewer entries than a field can count. -/
theorem sat_offsets {nodes} {owners : List (Option ℕ)} (hlt : owners.length < 2 ^ 32)
    (howners : ∀ i, some i ∈ owners → i < nodes) :
    Sat (offsets nodes owners) fun offsets ↦ offsets.length = nodes + 1 := by
  have hcounts : Sat ((owners.filterMap id).foldlM countOwner (replicate (nodes + 1) 0))
      fun counts ↦ counts.length = nodes + 1 ∧ counts.sum < 2 ^ 32 := by
    -- each owner left adds one to the sum
    refine (sat_foldlM (fun rest out ↦ out.length = nodes + 1 ∧
      out.sum + rest.length < 2 ^ 32 ∧ ∀ i ∈ rest, i < nodes) ?_ ⟨?_, ?_, ?_⟩).mono
        fun counts ⟨hlength, hsum, _⟩ ↦ ⟨hlength, hsum⟩
    · rintro owner rest out ⟨hlength, hsum, hrest⟩
      obtain ⟨howner, hrest⟩ := forall_mem_cons.mp hrest
      rw [length_cons] at hsum
      refine (sat_countOwner hlength howner (by omega)).mono fun next ⟨hnext, hadd⟩ ↦ ?_
      exact ⟨hnext, by omega, hrest⟩
    · exact length_replicate
    · have := length_filterMap_le id owners
      rw [sum_replicate_nat]
      omega
    · intro i hi
      obtain ⟨owner, howner, rfl⟩ := mem_filterMap.mp hi
      exact howners i howner
  refine sat_bind hcounts fun counts ⟨hlength, hsum⟩ ↦ ?_
  refine sat_bind (sat_runningSums (by omega)) fun sums hsums ↦ sat_pure.mpr ?_
  rw [length_map, hsums, hlength]

theorem positionOf_lt {id i} (h : positionOf nodes id = some i) :
    i < nodes.length := by
  obtain ⟨n, hn, -⟩ := exists_of_binarySearchBy_eq_some h
  exact (List.getElem?_eq_some_iff.mp hn).1

theorem sat_incoming (h : edges.length < 2 ^ 32) :
    Sat (incoming nodes edges) fun indexed ↦ indexed.length = edges.length := by
  have hindex : ∀ p ∈ edges.zipIdx, Sat (do
      let i ← indexU32 p.2
      return (i, p.1) : Outcome GraphError (ℕ × EdgeRecord)) fun _ ↦ True := by
    rintro ⟨e, i⟩ hp
    have hi : i < edges.length := by
      have := snd_lt_of_mem_zipIdx hp
      omega
    exact sat_bind (sat_narrow (hi.trans h)) fun _ _ ↦ trivial
  refine sat_bind (sat_mapM hindex) fun indexed hindexed ↦ sat_pure.mpr ?_
  rw [(sortByKey_perm _ _).length_eq, ← hindexed.length_eq, length_zipIdx]

theorem sat_indexRecords {revision keys} (h : edges.length < 2 ^ 32) :
    Sat (indexRecords space revision nodes edges schema keys) fun g ↦
      g.nodes = nodes ∧ g.edges.Perm edges ∧ g.keys = keys ∧
        g.outOffsets.length = nodes.length + 1 ∧ g.inOffsets.length = nodes.length + 1 ∧
        g.inEdges.length = edges.length := by
  have hperm : (sortByKey (outOrder nodes) edges).Perm edges := sortByKey_perm _ _
  have hlength := hperm.length_eq
  refine sat_bind (sat_offsets (by rwa [length_map, hlength]) fun i hi ↦ ?_)
    fun outOffsets hout ↦ ?_
  · obtain ⟨e, -, he⟩ := mem_map.mp hi
    exact positionOf_lt he
  refine sat_bind (sat_incoming (by rwa [hlength])) fun inEdges hin ↦ ?_
  refine sat_bind (sat_offsets (by rwa [length_map, hin, hlength]) fun i hi ↦ ?_)
    fun inOffsets hoffsets ↦ ?_
  · obtain ⟨p, -, hp⟩ := mem_map.mp hi
    exact positionOf_lt hp
  refine sat_pure.mpr ⟨rfl, hperm, rfl, hout, hoffsets, ?_⟩
  rw [length_map, hin, hlength]

/-! ### Checks -/

theorem sat_refuseRepeat (repeats : α → α → Bool) (error : α → GraphError) (l : List α) :
    Sat (refuseRepeat repeats error l) fun _ ↦ True := by
  rw [refuseRepeat]
  split
  · exact sat_fail
  · exact trivial

theorem sat_checkNode (space : GraphSpace) (schema : Schema) (compiled : CompiledSet)
    (n : NodeRecord) : Sat (checkNode space schema compiled n) fun _ ↦ True := by
  rw [checkNode]
  split_ifs <;> trivial

theorem sat_checkCompiled (schema : Schema) (keys : List KeyEntry) (c : CompiledNode) :
    Sat (checkCompiled schema keys c) fun _ ↦ True := by
  rw [checkCompiled]
  split_ifs <;> trivial

/-- The positions that were found are positions of nodes. -/
theorem sat_checkEdge (space : GraphSpace) (schema : Schema) (nodes : List NodeRecord)
    (e : EdgeRecord) : Sat (checkEdge space schema nodes e) fun _ ↦ True := by
  rw [checkEdge]
  split_ifs
  iterate 4 trivial
  cases hsource : positionOf nodes e.source with
  | none => trivial
  | some f =>
    cases htarget : positionOf nodes e.target with
    | none => trivial
    | some t =>
      dsimp only
      rw [getElem?_eq_getElem (positionOf_lt hsource), getElem?_eq_getElem (positionOf_lt htarget)]
      dsimp only
      split_ifs <;> trivial

theorem sat_keyIndex (h : nodes.length < 2 ^ 32) :
    Sat (keyIndex nodes) fun keys ↦
      keys.length = nodes.length ∧ ∀ entry ∈ keys, ∃ n ∈ nodes, entry.2.1 = n.key := by
  have hentry : ∀ p ∈ nodes.zipIdx, Sat (do
      let i ← indexU32 p.2
      return (p.1.kind, p.1.key, UInt32.ofNat i) : Outcome GraphError KeyEntry) fun entry ↦
        p.1 ∈ nodes ∧ entry.2.1 = p.1.key := by
    rintro ⟨n, i⟩ hp
    have hi : i < nodes.length := by
      have := snd_lt_of_mem_zipIdx hp
      omega
    refine sat_bind (sat_narrow (hi.trans h)) fun _ _ ↦ sat_pure.mpr ⟨?_, rfl⟩
    exact fst_mem_of_mem_zipIdx hp
  refine sat_bind (sat_mapM hentry).and_eq_ok fun keys ⟨hok, hkeys⟩ ↦
    sat_pure.mpr ⟨?_, fun entry hmem ↦ ?_⟩
  · rw [(sortByKey_perm _ _).length_eq, ← hkeys.length_eq, length_zipIdx]
  · obtain ⟨p, hp, hpair⟩ := Except.exists_of_mem_mapM hok (mem_sortByKey.mp hmem)
    exact ⟨p.1, (hentry p hp).of_ok hpair⟩

theorem sat_checkRecords {compiled} (h : nodes.length < 2 ^ 32) :
    Sat (checkRecords space nodes edges schema compiled) fun keys ↦
      keys.length = nodes.length ∧ ∀ entry ∈ keys, ∃ n ∈ nodes, entry.2.1 = n.key := by
  refine sat_bind (sat_refuseRepeat _ _ _) fun _ _ ↦ ?_
  refine sat_bind (sat_forM fun n _ ↦ sat_checkNode space schema compiled n) fun _ _ ↦ ?_
  refine sat_bind (sat_keyIndex h) fun keys hkeys ↦ ?_
  refine sat_bind (sat_refuseRepeat _ _ _) fun _ _ ↦ ?_
  refine sat_bind (sat_forM fun c _ ↦ sat_checkCompiled schema keys c) fun _ _ ↦ ?_
  refine sat_bind (sat_refuseRepeat _ _ _) fun _ _ ↦ ?_
  exact sat_bind (sat_forM fun e _ ↦ sat_checkEdge space schema nodes e) fun _ _ ↦
    sat_pure.mpr hkeys

/-! ### The build -/

/-- Records that could have been read from a store of the given size with this table of strings. -/
structure RecordsFit (table : List String) (nodes : List NodeRecord) (edges : List EdgeRecord)
    (size : ℕ) : Prop where
  nodes_lt : nodes.length < 2 ^ 32
  edges_lt : edges.length < 2 ^ 32
  attrs_lt : (recordAttrs nodes edges).length < 2 ^ 32
  table_lt : table.length < 2 ^ 32
  strings_lt : ∀ s ∈ table, (utf8Bytes s).length < 2 ^ 32
  strings_mem : ∀ s ∈ recordStrings nodes edges, s ∈ table
  stored_le : sectionsStart + (4 + tableLength table) + (4 + 56 * nodes.length) +
    (4 + 72 * edges.length) + (4 + 16 * (recordAttrs nodes edges).length) ≤ size
  references_le : stringsLength (recordStrings nodes edges) ≤ expansionLimit * size

variable {nodes nodes' : List NodeRecord} {edges edges' : List EdgeRecord} {size : ℕ}

/-- The order of the records does not matter. -/
theorem RecordsFit.perm (h : RecordsFit table nodes edges size) (hnodes : nodes'.Perm nodes)
    (hedges : edges'.Perm edges) : RecordsFit table nodes' edges' size := by
  have hstrings : (recordStrings nodes' edges').Perm (recordStrings nodes edges) :=
    (hnodes.flatMap_right _).append (hedges.flatMap_right _)
  have hattrs : (recordAttrs nodes' edges').length = (recordAttrs nodes edges).length :=
    ((hnodes.flatMap_right _).append (hedges.flatMap_right _)).length_eq
  have hreferences : stringsLength (recordStrings nodes' edges') =
      stringsLength (recordStrings nodes edges) := (hstrings.map _).sum_eq
  exact {
    nodes_lt := hnodes.length_eq ▸ h.nodes_lt
    edges_lt := hedges.length_eq ▸ h.edges_lt
    attrs_lt := hattrs ▸ h.attrs_lt
    table_lt := h.table_lt
    strings_lt := h.strings_lt
    strings_mem := fun s hs ↦ h.strings_mem s (hstrings.mem_iff.mp hs)
    stored_le := by
      rw [hnodes.length_eq, hedges.length_eq, hattrs]
      exact h.stored_le
    references_le := hreferences ▸ h.references_le }

/-- A graph whose records fit, with an index of their keys, fits. -/
theorem RecordsFit.fits (h : RecordsFit table g.nodes g.edges size)
    (hkeys : ∀ entry ∈ g.keys, ∃ n ∈ g.nodes, entry.2.1 = n.key) :
    g.Fits ∧ tableLength (stringTable g) ≤ tableLength table := by
  have hsub : (stringTable g).Subperm table :=
    subperm_of_subset (nodup_stringTable g) fun s hs ↦ h.strings_mem s (mem_stringTable.mp hs)
  refine ⟨?_, sum_map_le_of_subperm hsub⟩
  exact {
    nodes_lt := h.nodes_lt
    edges_lt := h.edges_lt
    attrs_lt := h.attrs_lt
    table_lt := hsub.length_le.trans_lt h.table_lt
    strings_lt := fun s hs ↦ h.strings_lt s (h.strings_mem s hs)
    keys_mem := fun entry hentry ↦ by
      obtain ⟨n, hn, hkey⟩ := hkeys entry hentry
      rw [hkey]
      exact mem_append.mpr (.inl (mem_flatMap.mpr ⟨n, hn, mem_cons_self⟩)) }

/-- A build from records that fit does not panic. -/
theorem sat_buildEncoded {b : GraphBuilder} (schema : Schema) (compiled : CompiledSet)
    (h : RecordsFit table b.nodes b.edges size) (hsize : size < 2 ^ 61) :
    Sat (b.buildEncoded schema compiled) fun _ ↦ True := by
  have hfit := h.perm (sortByKey_perm (fun n ↦ n.id.val.toNat) b.nodes)
    (sortByKey_perm (fun e ↦ e.id.val.toNat) b.edges)
  refine sat_bind (sat_checkRecords hfit.nodes_lt) fun keys ⟨hlength, hkeys⟩ ↦ ?_
  refine sat_bind (sat_indexRecords hfit.edges_lt)
    fun g ⟨hnodes, hedges, hindex, hout, hin, hinEdges⟩ ↦ ?_
  have hgraph : RecordsFit table g.nodes g.edges size := hfit.perm (.of_eq hnodes) hedges
  obtain ⟨hfits, htable⟩ := hgraph.fits (by rwa [hindex, hnodes])
  have hstored := hgraph.stored_le
  have hreferences : g.referenceBytes ≤ expansionLimit * size := hgraph.references_le
  have hattrs : (recordAttrs g.nodes g.edges).length = g.allAttrs.length := rfl
  rw [← hnodes] at hlength hout hin
  rw [← hedges.length_eq] at hinEdges
  refine sat_encodeWithin hfits ?_ (by rw [expansionLimit] at hreferences; omega)
  -- the indexes add 20 bytes a node and 4 bytes an edge to what was read
  rw [Graph.storedLength, hindex, expansionLimit]
  omega

/-! ### The order of the records -/

section Order

variable {α ι : Type} [DecidableEq ι] {ident : α → ι} {rank : ι → ℕ} {f : ι → GraphError}

/-- What is refused depends on the identifiers alone. -/
theorem refuseRepeat_map (l : List α) :
    refuseRepeat (fun a b ↦ ident a = ident b) (fun a ↦ f (ident a)) l =
      refuseRepeat (fun i j ↦ i = j) f (l.map ident) := by
  unfold refuseRepeat
  induction l with
  | nil => rfl
  | cons a l ih =>
    cases l with
    | nil => rfl
    | cons b l =>
      simp only [map_cons, findAdjacent, decide_eq_true_eq] at ih ⊢
      split_ifs
      · rfl
      · exact ih

/-- Records in another order sort to the same, or an identifier that repeats is refused. -/
theorem sortByKey_eq_or_refused (hrank : rank.Injective) {l l' : List α} (h : l'.Perm l) :
    let sorted := sortByKey fun a ↦ rank (ident a)
    let refuse : List α → Outcome GraphError PUnit :=
      refuseRepeat.{0} (fun a b ↦ ident a = ident b) (fun a ↦ f (ident a))
    sorted l' = sorted l ∨ ∃ e, refuse (sorted l') = .error e ∧ refuse (sorted l) = .error e := by
  intro sorted refuse
  have hperm : l'.Perm (sorted l) := h.trans (sortByKey_perm _ l).symm
  have hids : (sorted l').map ident = (sorted l).map ident :=
    Perm.eq_of_pairwise (fun _ _ _ _ hab hba ↦ hrank (Nat.le_antisymm hab hba))
      (pairwise_map.mpr (pairwise_sortByKey _ l')) (pairwise_map.mpr (pairwise_sortByKey _ l))
      (((sortByKey_perm _ l').trans hperm).map ident)
  have hsame : refuse (sorted l') = refuse (sorted l) := by
    show refuseRepeat _ _ _ = refuseRepeat _ _ _
    rw [refuseRepeat_map, hids, ← refuseRepeat_map]
  cases hrefuse : refuse (sorted l) with
  | ok =>
    refine .inl (sortByKey_eq_of_perm hperm ?_)
    exact pairwise_lt_of_findAdjacent_eq_none (fun a b hab ↦ decide_eq_true (hrank hab))
      (pairwise_sortByKey _ l) (findAdjacent_eq_none_of_refuseRepeat hrefuse)
  | error e => exact .inr ⟨e, hsame.trans hrefuse, rfl⟩

end Order

/-- **A build does not depend on the order of its records**: not the graph, not its bytes, and not
the error. -/
theorem buildEncoded_of_perm (b : GraphBuilder) {nodes : List NodeRecord} {edges : List EdgeRecord}
    (hnodes : nodes.Perm b.nodes) (hedges : edges.Perm b.edges) (schema : Schema)
    (compiled : CompiledSet) :
    ({ b with nodes, edges } : GraphBuilder).buildEncoded schema compiled =
      b.buildEncoded schema compiled := by
  have hnode : Function.Injective fun i : NodeId ↦ i.val.toNat := by
    rintro ⟨_⟩ ⟨_⟩ h
    exact congrArg NodeId.mk (UInt64.toNat_inj.mp h)
  have hedge : Function.Injective fun i : EdgeId ↦ i.val.toNat := by
    rintro ⟨_⟩ ⟨_⟩ h
    exact congrArg EdgeId.mk (UInt64.toNat_inj.mp h)
  rw [GraphBuilder.buildEncoded, GraphBuilder.buildEncoded]
  rcases sortByKey_eq_or_refused (f := .duplicateNodeId) hnode hnodes with heq | ⟨e, hl, hr⟩
  · rcases sortByKey_eq_or_refused (f := .duplicateEdgeId) hedge hedges with heq' | ⟨e, hl, hr⟩
    · rw [heq, heq']
    · rw [heq]
      simp only [buildSorted, checkRecords, hl, hr, bind_assoc, Except.error_bind]
  · simp only [buildSorted, checkRecords, hl, hr, Except.error_bind]

theorem buildEncoded_of_perm_admin :
    ({ adminBuilder with nodes := adminBuilder.nodes.reverse } : GraphBuilder).buildEncoded
      adminSchema ⟨[]⟩ = adminBuilder.buildEncoded adminSchema ⟨[]⟩ :=
  buildEncoded_of_perm adminBuilder (reverse_perm _) (.refl _) adminSchema ⟨[]⟩

end Maknae.StateGraph
