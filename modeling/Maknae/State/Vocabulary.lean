import Maknae.State.Store
import Maknae.StateGraph.Hostile
import Maknae.StateGraph.Queries

/-!
# The vocabulary of a store

A store can be opened against the compiled nodes it holds itself, or against those of the binary.
The boot opens it in the first way and judges the nodes it found by a digest. This file proves that
the digest tells as much as the second way of opening would (`decode_eq_ok_iff`).

The digest is of the canonical bytes of a compiled set, in which a kind and a key stand once. The
bytes are those of the nodes in order, so they forget how the set was listed and nothing else
(`canonicalBytes_of_perm`, `perm_of_canonicalBytes`). They are not written when a text or a list
does not fit its length field: the writer panics there. No set that came out of a store is that
large.

No function to 32 bytes is injective. What is assumed of the hash is that it does not confuse the
two sets that are compared.
-/

namespace Maknae.StateGraph

open Except List Option Outcome

/-! ### The canonical bytes tell the nodes apart -/

theorem prefixFreeWhere_encodeString :
    PrefixFreeWhere (encodeString : String → Outcome GraphError (List UInt8)) := by
  intro a b x y r s hx hy h
  obtain ⟨m, hm, hx⟩ := bind_eq_ok.mp hx
  obtain ⟨n, hn, hy⟩ := bind_eq_ok.mp hy
  obtain ⟨hmlt, rfl⟩ := narrow_eq_ok.mp hm
  obtain ⟨hnlt, rfl⟩ := narrow_eq_ok.mp hn
  obtain rfl := pure_eq_ok.mp hx
  obtain rfl := pure_eq_ok.mp hy
  rw [append_assoc] at h
  obtain ⟨hlength, h⟩ := leBytes_append_inj hmlt hnlt h
  obtain ⟨htext, hrest⟩ := append_inj h hlength
  exact ⟨utf8Bytes_injective htext, hrest⟩

theorem prefixFreeWhere_canonicalValue : PrefixFreeWhere canonicalValue := by
  intro a b x y r s hx hy h
  cases a with
  | str a =>
    obtain ⟨x', hx', rfl⟩ := bind_pure_eq_ok.mp hx
    cases b with
    | str b =>
      obtain ⟨y', hy', rfl⟩ := bind_pure_eq_ok.mp hy
      obtain ⟨rfl, hrest⟩ := prefixFreeWhere_encodeString r s hx' hy' (cons.inj h).2
      exact ⟨rfl, hrest⟩
    | u64 n =>
      cases hy
      exact absurd (cons.inj h).1 (by decide)
  | u64 m =>
    cases hx
    cases b with
    | str b =>
      obtain ⟨y', -, rfl⟩ := bind_pure_eq_ok.mp hy
      exact absurd (cons.inj h).1 (by decide)
    | u64 n =>
      cases hy
      obtain ⟨hmn, hrest⟩ := leBytes_append_inj m.toNat_lt n.toNat_lt (cons.inj h).2
      exact ⟨congrArg AttrValue.u64 (UInt64.toNat_inj.mp hmn), hrest⟩

theorem prefixFreeWhere_canonicalAttr : PrefixFreeWhere canonicalAttr := by
  rintro ⟨k, v⟩ ⟨k', v'⟩ x y r s hx hy h
  obtain ⟨key, hkey, value, hvalue, hx⟩ := bind₂_eq_ok.mp hx
  obtain ⟨key', hkey', value', hvalue', hy⟩ := bind₂_eq_ok.mp hy
  obtain rfl := pure_eq_ok.mp hx
  obtain rfl := pure_eq_ok.mp hy
  rw [append_assoc, append_assoc] at h
  obtain ⟨rfl, h⟩ := prefixFreeWhere_encodeString _ _ hkey hkey' h
  obtain ⟨rfl, hrest⟩ := prefixFreeWhere_canonicalValue _ _ hvalue hvalue' h
  exact ⟨rfl, hrest⟩

variable {bytes : List UInt8} {g : Graph}

/-- The parts of a node's bytes. -/
theorem canonicalNode_eq_ok {c} (h : canonicalNode c = .ok bytes) :
    ∃ key label attrs, (encodeString c.key : Outcome GraphError _) = .ok key ∧
      (encodeString c.label : Outcome GraphError _) = .ok label ∧ c.attrs.size < 2 ^ 32 ∧
      c.attrs.toList.mapM canonicalAttr = .ok attrs ∧
      bytes = leBytes 2 c.kind.val.toNat ++
        (key ++ (label ++ (leBytes 4 c.attrs.size ++ attrs.flatten))) := by
  obtain ⟨key, hkey, label, hlabel, count, hcount, h⟩ := bind₃_eq_ok.mp h
  obtain ⟨attrs, hattrs, h⟩ := bind_eq_ok.mp h
  obtain ⟨hlt, rfl⟩ := narrow_eq_ok.mp hcount
  obtain rfl := pure_eq_ok.mp h
  exact ⟨key, label, attrs, hkey, hlabel, hlt, hattrs, by simp only [append_assoc]⟩

theorem prefixFreeWhere_canonicalNode : PrefixFreeWhere canonicalNode := by
  rintro ⟨kind, key, label, attrs⟩ ⟨kind', key', label', attrs'⟩ x y r s hx hy h
  obtain ⟨k, l, as, hk, hl, hlt, has, rfl⟩ := canonicalNode_eq_ok hx
  obtain ⟨k', l', as', hk', hl', hlt', has', rfl⟩ := canonicalNode_eq_ok hy
  simp only [append_assoc] at h
  obtain ⟨hkind, h⟩ := leBytes_append_inj kind.val.toNat_lt kind'.val.toNat_lt h
  obtain ⟨rfl, h⟩ := prefixFreeWhere_encodeString _ _ hk hk' h
  obtain ⟨rfl, h⟩ := prefixFreeWhere_encodeString _ _ hl hl' h
  obtain ⟨hsize, h⟩ := leBytes_append_inj hlt hlt' h
  obtain ⟨hattrs, hrest⟩ := prefixFreeWhere_canonicalAttr.mapM
    (by rw [Std.ExtTreeMap.length_toList, Std.ExtTreeMap.length_toList, hsize]) has has' h
  have hkind : kind = kind' := congrArg NodeKind.mk (UInt16.toNat_inj.mp hkind)
  have hattrs : attrs = attrs' := by rw [← ofList_toList attrs, hattrs, ofList_toList]
  exact ⟨by rw [hkind, hattrs], hrest⟩

/-! ### Sets without duplicates -/

/-- The order of the nodes in the canonical bytes. -/
def CompiledNode.order (c : CompiledNode) : ℕ ×ₗ String := toLex (c.kind.val.toNat, c.key)

theorem CompiledNode.order_inj {c d : CompiledNode} :
    c.order = d.order ↔ c.kind = d.kind ∧ c.key = d.key := by
  rw [order, order, toLex_inj, Prod.mk.injEq, UInt16.toNat_inj]
  exact and_congr_left' ⟨congrArg NodeKind.mk, congrArg NodeKind.val⟩

/-- A kind and a key stand once in the set. -/
def CompiledSet.DuplicateFree (set : CompiledSet) : Prop :=
  set.nodes.Pairwise fun c d ↦ ¬(c.kind = d.kind ∧ c.key = d.key)

namespace CompiledSet

variable {c d : CompiledSet}

theorem DuplicateFree.pairwise_order (h : c.DuplicateFree) :
    c.nodes.Pairwise fun m n ↦ m.order ≠ n.order :=
  h.imp fun hne heq ↦ hne (CompiledNode.order_inj.mp heq)

theorem DuplicateFree.nodup (h : c.DuplicateFree) : c.nodes.Nodup :=
  h.imp fun {m n} hne (heq : m = n) ↦ hne ⟨heq ▸ rfl, heq ▸ rfl⟩

theorem DuplicateFree.of_perm (h : c.DuplicateFree) (hperm : c.nodes.Perm d.nodes) :
    d.DuplicateFree :=
  (hperm.pairwise_iff fun hne heq ↦ hne ⟨heq.1.symm, heq.2.symm⟩).mp h

theorem DuplicateFree.pairwise_lt (h : c.DuplicateFree) :
    (sortByKey CompiledNode.order c.nodes).Pairwise fun m n ↦ m.order < n.order := by
  have hne : (sortByKey CompiledNode.order c.nodes).Pairwise fun m n ↦ m.order ≠ n.order :=
    ((sortByKey_perm _ _).pairwise_iff Ne.symm).mpr h.pairwise_order
  exact (pairwise_sortByKey CompiledNode.order c.nodes).imp₂ (fun m n ↦ lt_of_le_of_ne) hne

/-- The bytes are written for sets without duplicates, of nodes that fit their length fields. -/
theorem canonicalBytes_eq (h : c.DuplicateFree) :
    c.canonicalBytes = (do
      let count ← indexU32 (sortByKey CompiledNode.order c.nodes).length
      let nodes ← (sortByKey CompiledNode.order c.nodes).mapM canonicalNode
      return leBytes 4 count ++ nodes.flatten) := by
  have hunique : findAdjacent (fun m n : CompiledNode ↦ m.kind = n.kind ∧ m.key = n.key)
      (sortByKey CompiledNode.order c.nodes) = none :=
    findAdjacent_eq_none (h.pairwise_lt.imp fun hlt heq ↦
      hlt.ne (CompiledNode.order_inj.mpr (of_decide_eq_true heq)))
  show (refuseRepeat _ _ (sortByKey CompiledNode.order c.nodes) >>= _) = _
  rw [refuseRepeat, hunique]
  rfl

/-- A set without duplicates is not refused. -/
theorem DuplicateFree.silent_canonicalBytes (h : c.DuplicateFree) : Silent c.canonicalBytes := by
  have hstring : ∀ s, Silent (encodeString s : Outcome GraphError _) := fun s ↦
    silent_bind (silent_narrow 32 _) fun _ ↦ silent_pure _
  have hvalue : ∀ v, Silent (canonicalValue v) := by
    intro v
    cases v with
    | str s => exact silent_bind (hstring s) fun _ ↦ silent_pure _
    | u64 n => exact silent_pure _
  have hattr : ∀ a, Silent (canonicalAttr a) := fun a ↦
    silent_bind (hstring a.1) fun _ ↦ silent_bind (hvalue a.2) fun _ ↦ silent_pure _
  have hnode : ∀ n, Silent (canonicalNode n) := fun n ↦
    silent_bind (hstring n.key) fun _ ↦ silent_bind (hstring n.label) fun _ ↦
      silent_bind (silent_narrow 32 _) fun _ ↦ silent_bind (silent_mapM hattr _)
        fun _ ↦ silent_pure _
  rw [canonicalBytes_eq h]
  exact silent_bind (silent_narrow 32 _) fun _ ↦ silent_bind (silent_mapM hnode _) fun _ ↦
    silent_pure _

/-- Bytes are written for no other sets. -/
theorem duplicateFree_of_canonicalBytes {bytes : List UInt8} (h : c.canonicalBytes = .ok bytes) :
    c.DuplicateFree := by
  obtain ⟨⟨⟩, hunique, -⟩ := bind_eq_ok.mp h
  have hnone := findAdjacent_eq_none_of_refuseRepeat hunique
  have hlt : (sortByKey CompiledNode.order c.nodes).Pairwise fun m n ↦ m.order < n.order := by
    refine pairwise_lt_of_findAdjacent_eq_none (fun m n hmn ↦ ?_) (pairwise_sortByKey _ _) hnone
    exact decide_eq_true (CompiledNode.order_inj.mp hmn)
  refine ((sortByKey_perm CompiledNode.order c.nodes).pairwise_iff
    fun hne heq ↦ hne ⟨heq.1.symm, heq.2.symm⟩).mp (hlt.imp fun hlt heq ↦ ?_)
  exact hlt.ne (CompiledNode.order_inj.mpr heq)

/-- **The bytes forget how the set was listed.** -/
theorem canonicalBytes_of_perm (h : c.DuplicateFree) (hperm : c.nodes.Perm d.nodes) :
    c.canonicalBytes = d.canonicalBytes := by
  have hsorted : sortByKey CompiledNode.order d.nodes = sortByKey CompiledNode.order c.nodes :=
    sortByKey_eq_of_perm (hperm.symm.trans (sortByKey_perm _ _).symm) h.pairwise_lt
  rw [canonicalBytes_eq h, canonicalBytes_eq (h.of_perm hperm), hsorted]

/-- **The bytes forget nothing else.** -/
theorem perm_of_canonicalBytes {bytes} (hc : c.canonicalBytes = .ok bytes)
    (hd : d.canonicalBytes = .ok bytes) : c.nodes.Perm d.nodes := by
  rw [canonicalBytes_eq (duplicateFree_of_canonicalBytes hc)] at hc
  rw [canonicalBytes_eq (duplicateFree_of_canonicalBytes hd)] at hd
  obtain ⟨count, hcount, nodes, hnodes, hc⟩ := bind₂_eq_ok.mp hc
  obtain ⟨count', hcount', nodes', hnodes', hd⟩ := bind₂_eq_ok.mp hd
  obtain ⟨hlt, rfl⟩ := narrow_eq_ok.mp hcount
  obtain ⟨hlt', rfl⟩ := narrow_eq_ok.mp hcount'
  have hbytes := (pure_eq_ok.mp hc).trans (pure_eq_ok.mp hd).symm
  obtain ⟨hlength, hflatten⟩ := leBytes_append_inj hlt hlt' hbytes
  obtain ⟨hsorted, -⟩ := prefixFreeWhere_canonicalNode.mapM hlength hnodes hnodes'
    (congrArg (· ++ []) hflatten)
  exact (sortByKey_perm CompiledNode.order c.nodes).symm.trans
    (hsorted ▸ sortByKey_perm CompiledNode.order d.nodes)

/-- Where a kind and a key stand once, the node that is found is the one that has them. -/
theorem DuplicateFree.get_eq_some_iff (h : c.DuplicateFree) {kind : NodeKind} {key : String}
    {n : CompiledNode} : c.get kind key = some n ↔ n ∈ c.nodes ∧ n.kind = kind ∧ n.key = key := by
  constructor
  · intro hn
    have hsame := find?_some hn
    rw [Bool.and_eq_true, decide_eq_true_iff, decide_eq_true_iff] at hsame
    exact ⟨mem_of_find?_eq_some hn, hsame⟩
  · rintro ⟨hn, rfl, rfl⟩
    obtain ⟨m, hm⟩ : ∃ m, c.get n.kind n.key = some m :=
      isSome_iff_exists.mp (find?_isSome.mpr ⟨n, hn, by simp⟩)
    have hsame := find?_some hm
    rw [Bool.and_eq_true, decide_eq_true_iff, decide_eq_true_iff] at hsame
    rw [hm, eq_of_key_eq h.pairwise_order (mem_of_find?_eq_some hm) hn
      (CompiledNode.order_inj.mpr hsame)]

theorem DuplicateFree.get_of_perm (h : c.DuplicateFree) (hperm : c.nodes.Perm d.nodes)
    (kind : NodeKind) (key : String) : c.get kind key = d.get kind key := by
  refine ext fun n ↦ ?_
  rw [h.get_eq_some_iff, (h.of_perm hperm).get_eq_some_iff, hperm.mem_iff]

end CompiledSet

/-! ### Opening a store against another set -/

section Checks

variable {space : GraphSpace} {nodes : List NodeRecord} {edges : List EdgeRecord} {schema : Schema}
  {c d : CompiledSet} {keys : List KeyEntry}

theorem duplicateFree_compiledOf (h : checkRecords space nodes edges schema c = .ok keys)
    (hnodup : nodes.Nodup) : (compiledOf nodes).DuplicateFree := by
  obtain ⟨-, -, hkeys, hunique, -⟩ := checkRecords_eq_ok.mp h
  refine pairwise_map.mpr ((hnodup.filter _).imp_of_mem fun {m n} hm hn hne heq ↦ hne ?_)
  exact node_eq_of_kind_key hkeys hunique (mem_of_mem_filter hm) (mem_of_mem_filter hn)
    heq.1 heq.2

/-- A compiled node that is in the index has the kind and the key of a node. -/
theorem exists_node_of_checkCompiled (hkeys : keyIndex nodes = .ok keys) {n}
    (h : checkCompiled schema keys n = .ok ()) :
    schema.isCompiled n.kind = true ∧ ∃ m ∈ nodes, m.kind = n.kind ∧ m.key = n.key := by
  rw [checkCompiled] at h
  split_ifs at h with hkind hfound
  · cases h
  · refine ⟨hkind, ?_⟩
    obtain ⟨i, hi⟩ := ne_none_iff_exists'.mp (mt isNone_iff_eq_none.mpr hfound)
    obtain ⟨entry, hentry, heq⟩ := exists_of_binarySearchBy_eq_some hi
    have hmem := mem_of_getElem? hentry
    rw [(keyIndex_eq_ok hkeys).2, mem_sortByKey] at hmem
    obtain ⟨⟨m, j⟩, hm, rfl⟩ := mem_map.mp hmem
    obtain ⟨hmkind, hmkey⟩ := Prod.mk.inj (compareKey_eq_eq.mp heq)
    exact ⟨m, mem_of_getElem? (mem_zipIdx_iff_getElem?.mp hm), hmkind, hmkey⟩
  · cases h

theorem CompiledSet.DuplicateFree.matchesCompiled_iff (h : c.DuplicateFree) {n} :
    matchesCompiled n c = true ↔
      ⟨n.kind, n.key, n.label, n.attrs⟩ ∈ c.nodes ∧ n.revision = 0 ∧
        n.provenance.transition = 0 := by
  rw [matchesCompiled]
  split
  · next m hm =>
    obtain ⟨hmem, hkind, hkey⟩ := h.get_eq_some_iff.mp hm
    rw [decide_eq_true_iff]
    constructor
    · rintro ⟨hattrs, hlabel, hrest⟩
      rw [← hkind, ← hkey, ← hlabel, ← hattrs]
      exact ⟨hmem, hrest⟩
    · rintro ⟨hn, hrest⟩
      have hsame := h.get_eq_some_iff.mpr ⟨hn, rfl, rfl⟩
      cases hm.symm.trans hsame
      exact ⟨rfl, rfl, hrest⟩
  · next hnone =>
    refine iff_of_false (by simp) fun hn ↦ ?_
    cases hnone.symm.trans (h.get_eq_some_iff.mpr ⟨hn.1, rfl, rfl⟩)

/-- **Records pass the checks against exactly the sets that list their compiled nodes.** -/
theorem checkRecords_iff_perm (h : checkRecords space nodes edges schema d = .ok keys)
    (hnodup : nodes.Nodup) (hc : c.DuplicateFree) :
    checkRecords space nodes edges schema c = .ok keys ↔ c.nodes.Perm (compiledOf nodes).nodes := by
  have hown := duplicateFree_compiledOf h hnodup
  constructor
  · intro hchecks
    obtain ⟨-, hnodes, hkeys, -, hcompiled, -⟩ := checkRecords_eq_ok.mp hchecks
    have hlisted : ∀ n ∈ nodes, schema.isCompiled n.kind = true →
        n.provenance.kind = .compiled ∧ ⟨n.kind, n.key, n.label, n.attrs⟩ ∈ c.nodes := by
      intro n hn hkind
      obtain ⟨-, hprov, hmatch⟩ := checkNode_eq_ok.mp (hnodes n hn)
      exact ⟨hprov.mpr hkind, (hc.matchesCompiled_iff.mp (hmatch hkind)).1⟩
    refine (perm_ext_iff_of_nodup hc.nodup hown.nodup).mpr fun m ↦ ⟨fun hm ↦ ?_, fun hm ↦ ?_⟩
    · obtain ⟨hkind, n, hn, hnkind, hnkey⟩ := exists_node_of_checkCompiled hkeys (hcompiled m hm)
      obtain ⟨hprov, hmem⟩ := hlisted n hn (hnkind ▸ hkind)
      -- the set has one node of this kind and key
      obtain rfl : ⟨n.kind, n.key, n.label, n.attrs⟩ = m :=
        eq_of_key_eq hc.pairwise_order hmem hm (CompiledNode.order_inj.mpr ⟨hnkind, hnkey⟩)
      exact mem_map.mpr ⟨n, mem_filter.mpr ⟨hn, decide_eq_true hprov⟩, rfl⟩
    · obtain ⟨n, hn, rfl⟩ := mem_map.mp hm
      obtain ⟨hn, hprov⟩ := mem_filter.mp hn
      obtain ⟨-, hkind, -⟩ := checkNode_eq_ok.mp (hnodes n hn)
      exact (hlisted n hn (hkind.mp (of_decide_eq_true hprov))).2
  · intro hperm
    obtain ⟨hids, hnodes, hkeys, hunique, hcompiled, hedges⟩ :=
      checkRecords_eq_ok.mp (checkRecords_compiledOf h)
    refine checkRecords_eq_ok.mpr ⟨hids, fun n hn ↦ ?_, hkeys, hunique,
      fun m hm ↦ hcompiled m (hperm.mem_iff.mp hm), hedges⟩
    have hcheck := hnodes n hn
    rw [checkNode_eq_ok] at hcheck ⊢
    rwa [matchesCompiled, hc.get_of_perm hperm, ← matchesCompiled]

end Checks

/-! ### The set a store reports -/

/-- Every string of a graph whose sections were written fits its length field. -/
theorem exists_encodeString {sections : List (List UInt8)}
    (h : (encodeSections g : Outcome GraphError _) = .ok sections) {s} (hs : s ∈ g.strings) :
    ∃ out, (encodeString s : Outcome GraphError _) = .ok out := by
  obtain ⟨nodeCount, -, nodes, -, edgeCount, -, h⟩ := bind₃_eq_ok.mp h
  obtain ⟨edges, -, keys, -, stringCount, -, h⟩ := bind₃_eq_ok.mp h
  obtain ⟨texts, htexts, -⟩ := bind_eq_ok.mp h
  exact exists_mapM_eq_ok.mp ⟨texts, htexts⟩ s (mem_stringTable.mpr hs)

theorem exists_canonicalAttr {a : String × AttrValue}
    (h : ∀ s ∈ pairStrings a, ∃ out, (encodeString s : Outcome GraphError _) = .ok out) :
    ∃ out, canonicalAttr a = .ok out := by
  obtain ⟨k, v⟩ := a
  obtain ⟨key, hkey⟩ := h k mem_cons_self
  cases v with
  | str s =>
    obtain ⟨value, hvalue⟩ := h s (mem_cons_of_mem _ mem_cons_self)
    simp only [canonicalAttr, hkey, canonicalValue, hvalue]
    exact ⟨_, rfl⟩
  | u64 n =>
    simp only [canonicalAttr, hkey]
    exact ⟨_, rfl⟩

/-- Every node of a graph that was encoded has canonical bytes. -/
theorem exists_canonicalNode (h : (encode g : Outcome GraphError _) = .ok bytes) {n}
    (hn : n ∈ g.nodes) :
    ∃ out, canonicalNode ⟨n.kind, n.key, n.label, n.attrs⟩ = .ok out := by
  obtain ⟨sections, hsections, -⟩ := bind_eq_ok.mp h
  obtain ⟨_, _, _, _, _, _, _, -, hstored⟩ := stored_of_encodeSections hsections
  have hstring : ∀ s ∈ nodeStrings n, ∃ out, (encodeString s : Outcome GraphError _) = .ok out :=
    fun s hs ↦ exists_encodeString hsections
      (mem_append_left _ (mem_flatMap.mpr ⟨n, hn, hs⟩))
  have hsize : n.attrs.size < 2 ^ 32 := by
    obtain ⟨before, after, hnodes⟩ := append_of_mem hn
    have hlt := hstored.attrs.1
    rw [Graph.allAttrs, recordAttrs, hnodes] at hlt
    simp only [allAttrs, flatMap_append, flatMap_cons, length_append,
      Std.ExtTreeMap.length_toList] at hlt
    omega
  obtain ⟨key, hkey⟩ := hstring n.key mem_cons_self
  obtain ⟨label, hlabel⟩ := hstring n.label (mem_cons_of_mem _ mem_cons_self)
  obtain ⟨attrs, hattrs⟩ : ∃ out, n.attrs.toList.mapM canonicalAttr = .ok out :=
    exists_mapM_eq_ok.mpr fun a ha ↦ exists_canonicalAttr fun s hs ↦
      hstring s (mem_cons_of_mem _ (mem_cons_of_mem _ (mem_flatMap.mpr ⟨a, ha, hs⟩)))
  have hcount : (indexU32 n.attrs.size : Outcome GraphError ℕ) = .ok n.attrs.size :=
    narrow_eq_ok.mpr ⟨hsize, rfl⟩
  simp only [canonicalNode, hkey, hlabel, hcount, hattrs]
  exact ⟨_, rfl⟩

section Stores

variable {bytes : List UInt8} {expected : GraphSpace} {schema : Schema} {g : Graph}
  {stored : CompiledSet}

theorem nodup_nodes {b : GraphBuilder} {compiled : CompiledSet}
    (h : b.buildEncoded schema compiled = .ok (g, bytes)) : g.nodes.Nodup := by
  have hbuilt := b.builtFrom h
  rw [hbuilt.nodes_eq]
  exact hbuilt.nodes_lt.imp fun {m n} hlt (heq : m = n) ↦ absurd hlt (heq ▸ lt_irrefl _)

variable (h : decodeStoredCompiled bytes expected schema = .ok (g, stored))

include h

/-- What was built for a store that was opened against its own nodes. -/
theorem exists_built :
    ∃ b, parse bytes expected schema = .ok b ∧ b.buildEncoded schema stored = .ok (g, bytes) ∧
      stored.nodes.Perm (compiledOf g.nodes).nodes := by
  obtain ⟨b, hb, graph, hgraph, ⟨⟩⟩ := bind₂_eq_ok.mp h
  have hbuild := rebuildCanonical_eq_ok.mp hgraph
  refine ⟨b, hb, hbuild, ?_⟩
  rw [(b.builtFrom hbuild).nodes_eq]
  exact ((sortByKey_perm _ _).symm.filter _).map _

theorem duplicateFree_stored : stored.DuplicateFree := by
  obtain ⟨b, -, hbuild, hperm⟩ := exists_built h
  exact (duplicateFree_compiledOf (b.checked hbuild) (nodup_nodes hbuild)).of_perm hperm.symm

/-- The set that a store reports has canonical bytes. -/
theorem exists_canonicalBytes : ∃ out, stored.canonicalBytes = .ok out := by
  obtain ⟨b, -, hbuild, hperm⟩ := exists_built h
  have hencode := (b.builtFrom hbuild).encode_eq
  have hnode : ∀ m ∈ sortByKey CompiledNode.order stored.nodes, ∃ out,
      canonicalNode m = .ok out := by
    intro m hm
    obtain ⟨n, hn, rfl⟩ := mem_map.mp (hperm.mem_iff.mp (mem_sortByKey.mp hm))
    exact exists_canonicalNode hencode (mem_of_mem_filter hn)
  have hlength : (sortByKey CompiledNode.order stored.nodes).length < 2 ^ 32 := by
    obtain ⟨sections, hsections, -⟩ := bind_eq_ok.mp hencode
    obtain ⟨_, _, _, _, _, _, _, -, hstored⟩ := stored_of_encodeSections hsections
    rw [(sortByKey_perm _ _).length_eq, hperm.length_eq, compiledOf, length_map]
    exact (length_filter_le _ _).trans_lt hstored.nodes.1
  obtain ⟨nodes, hnodes⟩ := exists_mapM_eq_ok.mpr hnode
  have hcount : (indexU32 (sortByKey CompiledNode.order stored.nodes).length :
      Outcome GraphError ℕ) = .ok _ := narrow_eq_ok.mpr ⟨hlength, rfl⟩
  rw [CompiledSet.canonicalBytes_eq (duplicateFree_stored h), hcount, hnodes]
  exact ⟨_, rfl⟩

/-- A store that was opened against its own nodes opens against the sets that list them. -/
theorem decode_iff_perm {c : CompiledSet} (hc : c.DuplicateFree) :
    decode bytes expected schema c = .ok g ↔ c.nodes.Perm stored.nodes := by
  obtain ⟨b, hparse, hbuild, hperm⟩ := exists_built h
  have hiff := checkRecords_iff_perm (b.checked hbuild) (nodup_nodes hbuild) hc
  have hsame : c.nodes.Perm stored.nodes ↔ c.nodes.Perm (compiledOf g.nodes).nodes :=
    ⟨fun hp ↦ hp.trans hperm, fun hp ↦ hp.trans hperm.symm⟩
  rw [hsame, ← hiff, decode, hparse, ok_bind, rebuildCanonical_eq_ok]
  refine ⟨fun hc ↦ b.checked hc, fun hchecks ↦ ?_⟩
  -- after the checks, nothing of a build depends on the compiled set
  have hbuilt := b.builtFrom hbuild
  rw [hbuilt.space_eq, hbuilt.nodes_eq] at hchecks
  obtain ⟨keys, hkeys, hrest⟩ := bind_eq_ok.mp hbuild
  have hchecked := b.checked hbuild
  rw [hbuilt.space_eq, hbuilt.nodes_eq, hkeys] at hchecked
  cases hchecked
  exact bind_eq_ok.mpr ⟨_, hchecks, hrest⟩

/-- **Opening a store against a set is comparing canonical bytes.** -/
theorem decode_eq_ok_iff {c} (hc : c.DuplicateFree) :
    decode bytes expected schema c = .ok g ↔ c.canonicalBytes = stored.canonicalBytes := by
  rw [decode_iff_perm h hc]
  refine ⟨CompiledSet.canonicalBytes_of_perm hc, fun heq ↦ ?_⟩
  obtain ⟨out, hout⟩ := exists_canonicalBytes h
  exact CompiledSet.perm_of_canonicalBytes (heq.trans hout) hout

end Stores

end Maknae.StateGraph

namespace Maknae.State

open StateGraph

/-- Nodes that are current hash to the digest of the binary. -/
theorem assessVocabulary_eq_current {crypto claimed stored binary}
    (h : assessVocabulary crypto claimed stored binary = .ok .current) :
    ∃ bytes, stored.canonicalBytes = .ok bytes ∧ crypto.sha256 bytes = binary := by
  rw [assessVocabulary] at h
  cases hbytes : stored.canonicalBytes with
  | error e => cases e <;> simp [hbytes, Outcome.panicked] at h
  | ok bytes =>
    rw [hbytes] at h
    refine ⟨bytes, rfl, ?_⟩
    cases claimed with
    | none =>
      split_ifs at h <;> simp at h
    | some digest =>
      dsimp only at h
      split_ifs at h with _ hnodes hbinary
      · cases h
      · cases h
      · exact (not_not.mp hnodes).trans hbinary
      · cases h

/-- **The digest of the vocabulary is as good as the vocabulary.** A store that was opened against
its own compiled nodes opens against exactly the sets with the same canonical bytes. These bytes do
not depend on the order of the set and depend on all else. So a store whose vocabulary is judged
current opens against the set of the binary, unless the hash confuses the two. -/
theorem stored_vocabulary_sound {bytes : List UInt8} {expected : GraphSpace} {schema : Schema}
    {g : Graph} {stored : CompiledSet}
    (h : decodeStoredCompiled bytes expected schema = .ok (g, stored)) :
    (∀ c : CompiledSet, c.DuplicateFree →
      (decode bytes expected schema c = .ok g ↔ c.canonicalBytes = stored.canonicalBytes)) ∧
    (∀ c d : CompiledSet, c.DuplicateFree → c.nodes.Perm d.nodes →
      c.canonicalBytes = d.canonicalBytes) ∧
    (∀ c d : CompiledSet, c.DuplicateFree → c.canonicalBytes = d.canonicalBytes →
      c.canonicalBytes = Outcome.panicked ∨ c.nodes.Perm d.nodes) ∧
    ∀ (crypto : Crypto) (claimed : Option Digest) (binary : CompiledSet) (own : List UInt8),
      binary.canonicalBytes = .ok own →
      (∀ out, stored.canonicalBytes = .ok out → crypto.sha256 out = crypto.sha256 own → out = own) →
      assessVocabulary crypto claimed stored (crypto.sha256 own) = .ok .current →
      decode bytes expected schema binary = .ok g := by
  refine ⟨fun c hc ↦ decode_eq_ok_iff h hc, fun c d hc ↦ CompiledSet.canonicalBytes_of_perm hc,
    fun c d hc heq ↦ ?_, fun crypto claimed binary own hown hhash hcurrent ↦ ?_⟩
  · cases hbytes : c.canonicalBytes with
    | ok out => exact .inr (CompiledSet.perm_of_canonicalBytes hbytes (heq ▸ hbytes))
    | error e =>
      cases e with
      | error e => exact absurd hbytes (hc.silent_canonicalBytes e)
      | panicked => exact .inl rfl
  · obtain ⟨out, hout, hsame⟩ := assessVocabulary_eq_current hcurrent
    rw [decode_eq_ok_iff h (CompiledSet.duplicateFree_of_canonicalBytes hown), hown, hout,
      hhash out hout hsame]

/-! ### A store with one role -/

def oneRole : CompiledSet := ⟨[⟨roleKind, "admin", "U", ∅⟩]⟩

/-- The bytes of a store with this role. -/
def oneRoleBytes : List UInt8 :=
  match GraphBuilder.buildEncoded
    ⟨.kernel, 1, [⟨⟨1⟩, .kernel, roleKind, "admin", "U", ⟨.compiled, 0⟩, 0, ∅⟩], []⟩
    kernelSchema oneRole with
  | .ok (_, bytes) => bytes
  | .error _ => []

/-- The canonical bytes of the role: a count, its kind, key, label and the number of attributes. -/
def oneRoleOwn : List UInt8 :=
  [1, 0, 0, 0, 4, 0, 5, 0, 0, 0, 97, 100, 109, 105, 110, 1, 0, 0, 0, 85, 0, 0, 0, 0]

theorem stored_vocabulary_sound_role :
    ∃ g stored, decodeStoredCompiled oneRoleBytes .kernel kernelSchema = .ok (g, stored) ∧
      assessVocabulary Crypto.plain (some (Crypto.plain.sha256 oneRoleOwn)) stored
        (Crypto.plain.sha256 oneRoleOwn) = .ok .current ∧
      decode oneRoleBytes .kernel kernelSchema oneRole = .ok g := by
  have hstored : (decodeStoredCompiled oneRoleBytes .kernel kernelSchema).map (·.2.nodes) =
      .ok oneRole.nodes := by
    decide +kernel
  have hown : oneRole.canonicalBytes = .ok oneRoleOwn := by decide +kernel
  have hcurrent : assessVocabulary Crypto.plain (some (Crypto.plain.sha256 oneRoleOwn)) oneRole
      (Crypto.plain.sha256 oneRoleOwn) = .ok .current := by
    decide +kernel
  cases hdecode : decodeStoredCompiled oneRoleBytes .kernel kernelSchema with
  | error e => cases hdecode ▸ hstored
  | ok r =>
    obtain ⟨g, stored⟩ := r
    obtain rfl : stored = oneRole := by
      rw [hdecode] at hstored
      exact congrArg CompiledSet.mk (Except.ok.inj hstored)
    refine ⟨g, oneRole, rfl, hcurrent, ?_⟩
    exact (stored_vocabulary_sound hdecode).2.2.2 Crypto.plain _ oneRole oneRoleOwn hown
      (fun out hout _ ↦ Except.ok.inj (hout.symm.trans hown)) hcurrent

end Maknae.State
