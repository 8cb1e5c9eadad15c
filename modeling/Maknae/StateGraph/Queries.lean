import Maknae.StateGraph.RoundTrip

/-!
# Queries on a graph that was built

The queries of a graph search its indexes. This file says what they answer on a graph the builder
made, in terms of its records alone: at most one node has a given kind and key, and `lookup` finds
it.

That kinds and keys are unique also settles a question about stores. A store is decoded against the
compiled nodes it holds itself, before they are judged. A graph that was built against the compiled
set of a binary passes that check too (`decodeStoredCompiled_of_build`).
-/

namespace Maknae.StateGraph

open Except List Outcome

/-! ### The key index -/

/-- The entries of the key index before they are ordered. -/
def keyEntries (nodes : List NodeRecord) : List KeyEntry :=
  nodes.zipIdx.map fun p ↦ (p.1.kind, p.1.key, UInt32.ofNat p.2)

theorem mapM_eq_map {ε α β : Type} {f : α → Except ε β} {g : α → β} {l : List α} {out : List β}
    (hf : ∀ a b, f a = .ok b → b = g a) (h : l.mapM f = .ok out) : out = l.map g := by
  rw [← filterMap_eq_map]
  exact (filterMap_eq_of_mapM (fun a b hb ↦ congrArg some (hf a b hb).symm) h).symm

/-- A list with positions that fit. -/
theorem zipIdx_mapM_eq_ok {α β : Type} {f : α → ℕ → β} {l : List α} {out : List β}
    (h : (l.zipIdx.mapM fun p ↦ do return f p.1 (← indexU32 p.2) : Outcome GraphError _) =
      .ok out) :
    l.length ≤ 2 ^ 32 ∧ out = l.zipIdx.map fun p ↦ f p.1 p.2 := by
  refine ⟨?_, mapM_eq_map (fun p b hb ↦ ?_) h⟩
  · by_contra hlong
    obtain ⟨a, ha⟩ : ∃ a, l[2 ^ 32]? = some a :=
      ⟨_, getElem?_eq_getElem (Nat.lt_of_not_le hlong)⟩
    have hmem : (a, 2 ^ 32) ∈ l.zipIdx := mem_zipIdx_iff_getElem?.mpr ha
    obtain ⟨b, hb⟩ := exists_mapM_eq_ok.mp ⟨_, h⟩ _ hmem
    obtain ⟨i, hi, -⟩ := bind_eq_ok.mp hb
    exact absurd (narrow_eq_ok.mp hi).1 (lt_irrefl _)
  · obtain ⟨i, hi, hb⟩ := bind_eq_ok.mp hb
    obtain ⟨-, rfl⟩ := narrow_eq_ok.mp hi
    exact (pure_eq_ok.mp hb).symm

variable {nodes : List NodeRecord} {keys : List KeyEntry} {x y : NodeKind × String}
  {space : GraphSpace} {schema : Schema} {compiled : CompiledSet} {g : Graph} {b : GraphBuilder}
  {bytes : List UInt8} {out next : List ℕ} {i : ℕ} {offs : List UInt32} {α : Type}
  {entries : List α} {n : NodeRecord}

theorem keyIndex_eq_ok (h : keyIndex nodes = .ok keys) :
    nodes.length ≤ 2 ^ 32 ∧ keys = sortByKey keyOrder (keyEntries nodes) := by
  obtain ⟨entries, hentries, rfl⟩ := bind_pure_eq_ok.mp h
  obtain ⟨hlength, rfl⟩ :=
    zipIdx_mapM_eq_ok (f := fun (n : NodeRecord) i ↦ (n.kind, n.key, UInt32.ofNat i)) hentries
  exact ⟨hlength, rfl⟩

/-- The kind and the key of an index entry, in the order of the index. -/
def kindKey (entry : KeyEntry) : ℕ ×ₗ String := toLex (entry.1.val.toNat, entry.2.1)

theorem kindKey_le_of_keyOrder_le {a b} (h : keyOrder a ≤ keyOrder b) :
    kindKey a ≤ kindKey b := by
  rcases Prod.Lex.le_iff.mp h with hlt | ⟨heq, hle⟩
  · exact Prod.Lex.le_iff.mpr (.inl hlt)
  · refine Prod.Lex.le_iff.mpr (.inr ⟨heq, ?_⟩)
    rcases Prod.Lex.le_iff.mp hle with hlt | ⟨heq, -⟩
    · exact hlt.le
    · exact heq.le

theorem kindKey_inj {a b} : kindKey a = kindKey b ↔ a.1 = b.1 ∧ a.2.1 = b.2.1 := by
  constructor
  · intro h
    obtain ⟨hkind, hkey⟩ := Prod.mk.inj (toLex.injective h)
    exact ⟨congrArg NodeKind.mk (UInt16.toNat_inj.mp hkind), hkey⟩
  · rintro ⟨hkind, hkey⟩
    rw [kindKey, kindKey, hkind, hkey]

theorem compareKey_eq_eq : compareKey x y = .eq ↔ x = y := by
  rw [compareKey, Ordering.then_eq_eq, Std.compare_eq_iff_eq, Std.compare_eq_iff_eq]
  constructor
  · rintro ⟨hkind, hkey⟩
    exact Prod.ext (congrArg NodeKind.mk hkind) hkey
  · rintro rfl
    exact ⟨rfl, rfl⟩

theorem compareKey_eq_lt :
    compareKey x y = .lt ↔ toLex (x.1.val.toNat, x.2) < toLex (y.1.val.toNat, y.2) := by
  have hkind : compare x.1.val y.1.val = .lt ↔ x.1.val < y.1.val := Std.compare_eq_lt
  rw [compareKey, Ordering.then_eq_lt, hkind, compare_lt_iff_lt, Std.compare_eq_iff_eq,
    Prod.Lex.toLex_lt_toLex, UInt16.lt_iff_toNat_lt, UInt16.toNat_inj]

/-! ### What the checks establish -/

/-- The checks of a build, one by one. -/
theorem checkRecords_eq_ok {edges} :
    checkRecords space nodes edges schema compiled = .ok keys ↔
      refuseRepeat (fun m n ↦ m.id = n.id) (fun n ↦ .duplicateNodeId n.id) nodes = .ok () ∧
      (∀ n ∈ nodes, checkNode space schema compiled n = .ok ()) ∧
      keyIndex nodes = .ok keys ∧
      refuseRepeat (fun a b ↦ a.1 = b.1 ∧ a.2.1 = b.2.1) (fun a ↦ .duplicateKey a.1 a.2.1) keys =
        .ok () ∧
      (∀ c ∈ compiled.nodes, checkCompiled schema keys c = .ok ()) ∧
      refuseRepeat (fun d e ↦ d.id = e.id) (fun e ↦ .duplicateEdgeId e.id) edges = .ok () ∧
      ∀ e ∈ edges, checkEdge space schema nodes e = .ok () := by
  rw [← forM_eq_ok, ← forM_eq_ok, ← forM_eq_ok]
  constructor
  · intro h
    obtain ⟨⟨⟩, hids, ⟨⟩, hnodes, keys', hkeys, h⟩ := bind₃_eq_ok.mp h
    obtain ⟨⟨⟩, hunique, ⟨⟩, hcompiled, ⟨⟩, hedgeIds, h⟩ := bind₃_eq_ok.mp h
    obtain ⟨⟨⟩, hedges, rfl⟩ := bind_pure_eq_ok.mp h
    exact ⟨hids, hnodes, hkeys, hunique, hcompiled, hedgeIds, hedges⟩
  · rintro ⟨hids, hnodes, hkeys, hunique, hcompiled, hedgeIds, hedges⟩
    rw [checkRecords, hids, ok_bind, hnodes, ok_bind, hkeys, ok_bind, hunique,
      hcompiled, hedgeIds, hedges]
    rfl

section Keys

variable (hkeys : keyIndex nodes = .ok keys)
  (hunique : refuseRepeat (fun a b ↦ a.1 = b.1 ∧ a.2.1 = b.2.1) (fun a ↦ .duplicateKey a.1 a.2.1)
    keys = .ok ())

include hkeys hunique

theorem pairwise_kindKey : keys.Pairwise fun a b ↦ kindKey a < kindKey b := by
  refine pairwise_lt_of_findAdjacent_eq_none (fun a b hab ↦ ?_) ?_
    (findAdjacent_eq_none_of_refuseRepeat hunique)
  · exact decide_eq_true (kindKey_inj.mp hab)
  · rw [(keyIndex_eq_ok hkeys).2]
    exact (pairwise_sortByKey keyOrder _).imp kindKey_le_of_keyOrder_le

/-- At most one node has a kind and a key. -/
theorem node_eq_of_kind_key {m n} (hm : m ∈ nodes) (hn : n ∈ nodes)
    (hkind : m.kind = n.kind) (hkey : m.key = n.key) : m = n := by
  obtain ⟨hlength, hsorted⟩ := keyIndex_eq_ok hkeys
  obtain ⟨i, hi⟩ := mem_iff_getElem?.mp hm
  obtain ⟨j, hj⟩ := mem_iff_getElem?.mp hn
  have hentry {k : ℕ} {r : NodeRecord} (hk : nodes[k]? = some r) :
      (r.kind, r.key, UInt32.ofNat k) ∈ keys := by
    rw [hsorted, mem_sortByKey]
    exact mem_map.mpr ⟨(r, k), mem_zipIdx_iff_getElem?.mpr hk, rfl⟩
  have hlt {k : ℕ} {r : NodeRecord} (hk : nodes[k]? = some r) : k < 2 ^ 32 :=
    (List.getElem?_eq_some_iff.mp hk).1.trans_le hlength
  have heq : (m.kind, m.key, UInt32.ofNat i) = (n.kind, n.key, UInt32.ofNat j) :=
    eq_of_key_eq ((pairwise_kindKey hkeys hunique).imp ne_of_lt) (hentry hi) (hentry hj)
      (kindKey_inj.mpr ⟨hkind, hkey⟩)
  have hindex : UInt32.ofNat i = UInt32.ofNat j := (Prod.mk.inj (Prod.mk.inj heq).2).2
  have hij : i = j := by
    have := congrArg UInt32.toNat hindex
    rwa [UInt32.toNat_ofNat_of_lt' (hlt hi), UInt32.toNat_ofNat_of_lt' (hlt hj)] at this
  rw [hij, hj] at hi
  exact (Option.some.inj hi).symm

/-- The node of a kind and a key is in the index. -/
theorem isSome_search_keys {n} (hn : n ∈ nodes) :
    (binarySearchBy (fun entry : KeyEntry ↦ compareKey (entry.1, entry.2.1) (n.kind, n.key))
      keys).isSome := by
  obtain ⟨i, hi⟩ := mem_iff_getElem?.mp hn
  have hentry : (n.kind, n.key, UInt32.ofNat i) ∈ keys := by
    rw [(keyIndex_eq_ok hkeys).2, mem_sortByKey]
    exact mem_map.mpr ⟨(n, i), mem_zipIdx_iff_getElem?.mpr hi, rfl⟩
  refine isSome_binarySearchBy ((pairwise_kindKey hkeys hunique).imp ?_) hentry
    (compareKey_eq_eq.mpr rfl)
  intro a b hab heq
  refine compareKey_eq_lt.mpr ?_
  rw [← compareKey_eq_eq.mp heq]
  exact hab

end Keys

/-! ### A store against its own compiled nodes -/

/-- A graph of a builder, with the checks it passed. -/
theorem GraphBuilder.checked (h : b.buildEncoded schema compiled = .ok (g, bytes)) :
    checkRecords g.space g.nodes (sortByKey (fun e ↦ e.id.val.toNat) b.edges) schema compiled =
      .ok g.keys := by
  obtain ⟨keys, hchecks, graph, hindexed, h⟩ := bind₂_eq_ok.mp h
  obtain ⟨rfl, -⟩ := encodeWithin_eq_ok h
  obtain ⟨outOffsets, -, inEdges, -, inOffsets, -, ⟨⟩⟩ := bind₃_eq_ok.mp hindexed
  exact hchecks

section OwnCompiled

variable {edges : List EdgeRecord}

/-- A node of a compiled kind has the compiled provenance and agrees with the compiled set. -/
theorem checkNode_eq_ok {n} :
    checkNode space schema compiled n = .ok () ↔
      (schema.nodeKindName n.kind ≠ none ∧ n.space = space ∧ n.key ≠ "" ∧ n.label ≠ "") ∧
      (n.provenance.kind = .compiled ↔ schema.isCompiled n.kind = true) ∧
      (schema.isCompiled n.kind = true → matchesCompiled n compiled = true) := by
  rw [checkNode]
  by_cases hkind : schema.nodeKindName n.kind = none
  · simp [hkind, fail]
  by_cases hspace : n.space = space
  swap
  · simp [hkind, hspace, fail]
  by_cases hkey : n.key = ""
  · simp [hkind, hspace, hkey, fail]
  by_cases hlabel : n.label = ""
  · simp [hkind, hspace, hkey, hlabel, fail]
  by_cases hcompiled : schema.isCompiled n.kind = true <;>
    by_cases hprov : n.provenance.kind = .compiled <;>
      by_cases hmatch : matchesCompiled n compiled = true <;>
        simp [hkind, hspace, hkey, hlabel, hcompiled, hprov, fail]

/-- The checks passed against a compiled set are passed against the nodes' own. -/
theorem checkRecords_compiledOf (h : checkRecords space nodes edges schema compiled = .ok keys) :
    checkRecords space nodes edges schema (compiledOf nodes) = .ok keys := by
  obtain ⟨hids, hnodes, hkeys, hunique, -, hedges⟩ := checkRecords_eq_ok.mp h
  refine checkRecords_eq_ok.mpr ⟨hids, fun n hn ↦ ?_, hkeys, hunique, fun c hc ↦ ?_, hedges⟩
  · obtain ⟨hfields, hprov, hmatch⟩ := checkNode_eq_ok.mp (hnodes n hn)
    refine checkNode_eq_ok.mpr ⟨hfields, hprov, fun hcompiled ↦ ?_⟩
    obtain ⟨hrevision, htransition⟩ : n.revision = 0 ∧ n.provenance.transition = 0 := by
      have hn := hmatch hcompiled
      rw [matchesCompiled] at hn
      split at hn
      · exact (of_decide_eq_true hn).2.2
      · cases hn
    -- the compiled set finds a node of this kind and key, and there is only this one
    have hown : (⟨n.kind, n.key, n.label, n.attrs⟩ : CompiledNode) ∈ (compiledOf nodes).nodes :=
      mem_map.mpr ⟨n, mem_filter.mpr ⟨hn, decide_eq_true (hprov.mpr hcompiled)⟩, rfl⟩
    have hget : ((compiledOf nodes).get n.kind n.key).isSome := by
      rw [CompiledSet.get, find?_isSome]
      exact ⟨_, hown, by simp⟩
    obtain ⟨c, hc⟩ := Option.isSome_iff_exists.mp hget
    obtain ⟨m, hm, rfl⟩ := mem_map.mp (mem_of_find?_eq_some hc)
    have hsame : m.kind = n.kind ∧ m.key = n.key := by simpa using find?_some hc
    obtain rfl := node_eq_of_kind_key hkeys hunique (mem_of_mem_filter hm) hn hsame.1 hsame.2
    rw [matchesCompiled, hc]
    simp [hrevision, htransition]
  · obtain ⟨n, hn, rfl⟩ := mem_map.mp hc
    obtain ⟨hmem, hcompiled⟩ := mem_filter.mp hn
    obtain ⟨-, hprov, -⟩ := checkNode_eq_ok.mp (hnodes n hmem)
    have hfound := isSome_search_keys hkeys hunique hmem
    rw [checkCompiled, if_neg (by simpa using hprov.mp (of_decide_eq_true hcompiled)),
      if_neg (by simpa using Option.isSome_iff_ne_none.mp hfound)]

end OwnCompiled

/-- **A graph that was built is decoded against its own compiled nodes.** -/
theorem decodeStoredCompiled_of_build (h : b.build schema compiled = .ok g)
    (hbytes : (encode g : Outcome GraphError _) = .ok bytes) :
    decodeStoredCompiled bytes g.space schema = .ok (g, compiledOf g.nodes) := by
  obtain ⟨⟨g', bytes'⟩, hbuild, rfl⟩ := bind_pure_eq_ok.mp h
  have hbuilt := b.builtFrom hbuild
  obtain rfl : bytes' = bytes := ok.inj (hbuilt.encode_eq.symm.trans hbytes)
  have hagain : GraphBuilder.buildEncoded ⟨g'.space, g'.revision, g'.nodes, g'.edges⟩ schema
      (compiledOf g'.nodes) = .ok (g', bytes') := by
    have hnodes : sortByKey (fun n ↦ n.id.val.toNat) g'.nodes = g'.nodes :=
      sortByKey_eq_of_perm (List.Perm.refl _) (hbuilt.nodes_eq ▸ hbuilt.nodes_lt)
    obtain ⟨keys, hchecks, hrest⟩ :=
      bind_eq_ok.mp (buildEncoded_of_buildEncoded hbuild)
    rw [hnodes] at hchecks hrest
    rw [GraphBuilder.buildEncoded, hnodes]
    exact bind_eq_ok.mpr ⟨keys, checkRecords_compiledOf hchecks, hrest⟩
  rw [decodeStoredCompiled, parse, parseBudget_of_buildEncoded hbuild]
  show (rebuildCanonical _ bytes' schema (compiledOf g'.nodes) >>= _) = _
  rw [rebuildCanonical_eq_ok.mpr hagain]
  rfl

/-! ### Rows of edges -/

theorem countOwner_eq_ok {owner} (h : countOwner out owner = .ok next) :
    ∃ count, out[owner + 1]? = some count ∧ next = out.set (owner + 1) (count + 1) := by
  rw [countOwner] at h
  split at h
  · rename_i count hcount
    obtain ⟨sum, hsum, h⟩ := bind_eq_ok.mp h
    obtain ⟨-, rfl⟩ := narrow_eq_ok.mp hsum
    exact ⟨count, hcount, (pure_eq_ok.mp h).symm⟩
  · cases h

/-- Counting owners adds to each entry the number of times its owner occurs. -/
theorem getElem?_of_foldlM_countOwner {owners : List ℕ}
    (h : owners.foldlM countOwner out = .ok next) :
    next[0]? = out[0]? ∧ ∀ j, next[j + 1]? = out[j + 1]?.map (· + owners.count j) := by
  induction owners generalizing out with
  | nil =>
    obtain rfl := pure_eq_ok.mp h
    simp
  | cons owner owners ih =>
    obtain ⟨mid, hmid, h⟩ := bind_eq_ok.mp h
    obtain ⟨count, hcount, rfl⟩ := countOwner_eq_ok hmid
    obtain ⟨hfirst, hrest⟩ := ih h
    refine ⟨hfirst.trans (getElem?_set_ne (Nat.succ_ne_zero owner)), fun j ↦ ?_⟩
    rw [hrest j, getElem?_set]
    by_cases hj : owner = j
    · subst hj
      have hlt : owner + 1 < out.length := (List.getElem?_eq_some_iff.mp hcount).1
      rw [if_pos rfl, if_pos hlt, hcount, Option.map_some, Option.map_some, count_cons_self]
      congr 1
      omega
    · rw [if_neg (by omega), count_cons_of_ne hj]

theorem runningSums_eq_ok {sum counts sums} (h : runningSums sum counts = .ok sums) :
    sums.length = counts.length ∧ ∀ i < counts.length,
      sums[i]? = some (sum + (counts.take (i + 1)).sum) ∧
        sum + (counts.take (i + 1)).sum < 2 ^ 32 := by
  induction counts generalizing sum sums with
  | nil =>
    cases h
    simp
  | cons count counts ih =>
    obtain ⟨next, hnext, rest, hrest, ⟨⟩⟩ := bind₂_eq_ok.mp h
    obtain ⟨hlt, rfl⟩ := narrow_eq_ok.mp hnext
    obtain ⟨hlength, hsums⟩ := ih hrest
    refine ⟨by simp [hlength], fun i hi ↦ ?_⟩
    cases i with
    | zero => simpa using hlt
    | succ i =>
      have := hsums i (by simpa using hi)
      rw [take_succ_cons, sum_cons, ← Nat.add_assoc]
      exact this

theorem countP_lt_succ (owners : List ℕ) (i : ℕ) :
    owners.countP (· < i + 1) = owners.countP (· < i) + owners.count i := by
  induction owners with
  | nil => rfl
  | cons owner owners ih =>
    simp only [countP_cons, count_cons, decide_eq_true_eq, beq_iff_eq]
    split_ifs <;> omega

/-- Row `i` starts after the owners before `i`. -/
theorem getElem?_offsets {nodes : ℕ} {owners : List (Option ℕ)}
    (h : offsets nodes owners = .ok offs) (hi : i ≤ nodes) :
    ∃ o : UInt32, offs[i]? = some o ∧ o.toNat = (owners.filterMap id).countP (· < i) := by
  obtain ⟨counts, hcounts, sums, hsums, ⟨⟩⟩ := bind₂_eq_ok.mp h
  obtain ⟨hfirst, hrest⟩ := getElem?_of_foldlM_countOwner hcounts
  obtain ⟨hlength, hsums⟩ := runningSums_eq_ok hsums
  have hget : ∀ j, j < nodes → counts[j + 1]? = some ((owners.filterMap id).count j) := by
    intro j hj
    rw [hrest j, getElem?_replicate, if_pos (by omega)]
    simp
  have hzero : counts[0]? = some 0 := by
    rw [hfirst, getElem?_replicate, if_pos (by omega)]
  have hbound : ∀ j, j ≤ nodes → j < counts.length := by
    intro j hj
    cases j with
    | zero => exact (List.getElem?_eq_some_iff.mp hzero).1
    | succ j => exact (List.getElem?_eq_some_iff.mp (hget j hj)).1
  have htake : ∀ j, j ≤ nodes →
      (counts.take (j + 1)).sum = (owners.filterMap id).countP (· < j) := by
    intro j
    induction j with
    | zero =>
      intro _
      obtain ⟨hpos, hval⟩ := List.getElem?_eq_some_iff.mp hzero
      rw [List.sum_take_succ _ _ hpos, hval]
      simp
    | succ j ih =>
      intro hj
      obtain ⟨hlt, hval⟩ := List.getElem?_eq_some_iff.mp (hget j hj)
      rw [List.sum_take_succ _ _ hlt, ih (by omega), hval, countP_lt_succ]
  obtain ⟨hsum, hlt⟩ := hsums i (hbound i hi)
  rw [Nat.zero_add, htake i hi] at hsum hlt
  exact ⟨_, by rw [getElem?_map, hsum, Option.map_some], UInt32.toNat_ofNat_of_lt' hlt⟩

/-- **A row of an index**, between two offsets that are there: the entries of its owner. -/
theorem row_eq_filter {owner : α → Option ℕ} {nodes}
    (hoffs : offsets nodes (entries.map owner) = .ok offs)
    (howner : ∀ a ∈ entries, ∃ i, owner a = some i)
    (hsorted : entries.Pairwise fun a b ↦ rank (owner a) ≤ rank (owner b)) (hi : i < nodes) :
    ∃ start stop : UInt32, offs[i]? = some start ∧ offs[i + 1]? = some stop ∧
      start.toNat ≤ stop.toNat ∧ stop.toNat ≤ entries.length ∧
      (entries.take stop.toNat).drop start.toNat = entries.filter fun a ↦ owner a = some i := by
  -- the position of the owner is the key the entries are ordered by
  let key : α → ℕ := fun a ↦ (owner a).getD 0
  have hkey : ∀ a ∈ entries, owner a = some (key a) := by
    intro a ha
    obtain ⟨j, hj⟩ := howner a ha
    show _ = some ((owner a).getD 0)
    rw [hj]
    rfl
  have howners : (entries.map owner).filterMap id = entries.map key := by
    rw [filterMap_map, ← filterMap_eq_map]
    exact filterMap_congr hkey
  have hkeys : entries.Pairwise fun a b ↦ key a ≤ key b := by
    refine hsorted.imp_of_mem fun {a b} ha hb hle ↦ ?_
    rw [hkey a ha, hkey b hb] at hle
    exact Nat.le_of_succ_le_succ hle
  have hcount (j : ℕ) (hj : j ≤ nodes) :
      ∃ o : UInt32, offs[j]? = some o ∧ o.toNat = entries.countP (key · < j) := by
    obtain ⟨o, ho, heq⟩ := getElem?_offsets hoffs hj
    rw [howners, countP_map] at heq
    exact ⟨o, ho, heq⟩
  obtain ⟨start, hstart, hstartCount⟩ := hcount i hi.le
  obtain ⟨stop, hstop, hstopCount⟩ := hcount (i + 1) hi
  simp only [Nat.lt_succ_iff] at hstopCount
  refine ⟨start, stop, hstart, hstop, ?_, hstopCount.trans_le countP_le_length, ?_⟩
  · rw [hstartCount, hstopCount]
    exact countP_mono_left fun a _ hlt ↦ decide_eq_true (of_decide_eq_true hlt).le
  · rw [hstartCount, hstopCount, drop_take_countP hkeys i]
    refine filter_congr fun a ha ↦ ?_
    rw [decide_eq_decide, hkey a ha, Option.some.injEq]

/-- The part of a row in kind order that is of one kind. -/
theorem drop_take_partitionPoint {kindOf : α → UInt16}
    (hsorted : entries.Pairwise fun a b ↦ (kindOf a).toNat ≤ (kindOf b).toNat) (kind : UInt16) :
    partitionPoint (fun a ↦ kindOf a < kind) entries ≤
        partitionPoint (fun a ↦ kindOf a ≤ kind) entries ∧
      (entries.take (partitionPoint (fun a ↦ kindOf a ≤ kind) entries)).drop
        (partitionPoint (fun a ↦ kindOf a < kind) entries) =
          entries.filter fun a ↦ kindOf a = kind := by
  have hbelow : partitionPoint (fun a ↦ decide (kindOf a < kind)) entries =
      entries.countP fun a ↦ (kindOf a).toNat < kind.toNat := by
    rw [partitionPoint_eq_countP]
    · exact countP_congr fun a _ ↦ by simp [UInt16.lt_iff_toNat_lt]
    · refine hsorted.imp fun {a b} hle hlt ↦ ?_
      simp only [decide_eq_true_eq, UInt16.lt_iff_toNat_lt] at hlt ⊢
      omega
  have hupto : partitionPoint (fun a ↦ decide (kindOf a ≤ kind)) entries =
      entries.countP fun a ↦ (kindOf a).toNat ≤ kind.toNat := by
    rw [partitionPoint_eq_countP]
    · exact countP_congr fun a _ ↦ by simp [UInt16.le_iff_toNat_le]
    · refine hsorted.imp fun {a b} hle hle' ↦ ?_
      simp only [decide_eq_true_eq, UInt16.le_iff_toNat_le] at hle' ⊢
      omega
  rw [hbelow, hupto]
  refine ⟨countP_mono_left fun a _ hlt ↦ decide_eq_true (of_decide_eq_true hlt).le, ?_⟩
  rw [drop_take_countP hsorted]
  exact filter_congr fun a _ ↦ by rw [decide_eq_decide, UInt16.toNat_inj]

/-- Where the first components agree, the second are in order. -/
theorem pairwise_second_le {α κ : Type} [LinearOrder κ] {order : α → ℕ ×ₗ ℕ ×ₗ κ} {l : List α}
    (hsorted : l.Pairwise fun a b ↦ order a ≤ order b)
    (hfirst : ∀ a ∈ l, ∀ b ∈ l, (ofLex (order a)).1 = (ofLex (order b)).1) :
    l.Pairwise fun a b ↦ (ofLex (ofLex (order a)).2).1 ≤ (ofLex (ofLex (order b)).2).1 := by
  refine hsorted.imp_of_mem fun {a b} ha hb hle ↦ ?_
  rcases Prod.Lex.le_iff.mp hle with hlt | ⟨-, hle⟩
  · exact absurd (hfirst a ha b hb) hlt.ne
  · exact (Prod.Lex.le_iff.mp hle).elim le_of_lt fun heq ↦ heq.1.le

/-! ### Queries -/

theorem compare_node_id {id} :
    compare n.id.val id.val = .eq ↔ n.id = id := by
  rw [Std.compare_eq_iff_eq]
  exact ⟨fun h ↦ congrArg NodeId.mk h, fun h ↦ congrArg NodeId.val h⟩

/-- Among nodes in identifier order, a node is found at its position. -/
theorem positionOf_eq_some (hlt : nodes.Pairwise fun m n ↦ m.id.val.toNat < n.id.val.toNat)
    (hi : nodes[i]? = some n) : positionOf nodes n.id = some i := by
  refine binarySearchBy_eq_some (hlt.imp fun {a b} hab heq ↦ ?_) hi (compare_node_id.mpr rfl)
  rw [compare_node_id] at heq
  rw [← heq]
  exact Std.compare_eq_lt.mpr (UInt64.lt_iff_toNat_lt.mpr hab)

theorem getElem?_of_positionOf {id} (h : positionOf nodes id = some i) :
    ∃ n, nodes[i]? = some n ∧ n.id = id := by
  obtain ⟨n, hn, heq⟩ := exists_of_binarySearchBy_eq_some h
  exact ⟨n, hn, compare_node_id.mp heq⟩

theorem checkEdge_positions {e} (h : checkEdge space schema nodes e = .ok ()) :
    (∃ i, positionOf nodes e.source = some i) ∧ ∃ i, positionOf nodes e.target = some i := by
  rw [checkEdge] at h
  split_ifs at h
  any_goals cases h
  split at h
  · rename_i hsource htarget
    exact ⟨⟨_, hsource⟩, ⟨_, htarget⟩⟩
  · cases h

theorem EdgeKind.val_inj {k k' : EdgeKind} : k.val = k'.val ↔ k = k' :=
  ⟨fun hk ↦ congrArg EdgeKind.mk hk, fun hk ↦ congrArg EdgeKind.val hk⟩

section Built

variable (h : b.buildEncoded schema compiled = .ok (g, bytes))

include h

theorem nodes_lt_of_build : g.nodes.Pairwise fun m n ↦ m.id.val.toNat < n.id.val.toNat :=
  (b.builtFrom h).nodes_eq ▸ (b.builtFrom h).nodes_lt

variable {key : String} {kind : NodeKind}

theorem position_of_build (hi : g.nodes[i]? = some n) :
    g.position n.id = some i :=
  positionOf_eq_some (nodes_lt_of_build h) hi

/-- A node is found by its identifier. -/
theorem node_of_build (hn : n ∈ g.nodes) : g.node n.id = some n := by
  obtain ⟨i, hi⟩ := mem_iff_getElem?.mp hn
  rw [Graph.node, position_of_build h hi]
  exact hi

theorem keys_of_build : keyIndex g.nodes = .ok g.keys ∧
    refuseRepeat (fun a b ↦ a.1 = b.1 ∧ a.2.1 = b.2.1) (fun a ↦ .duplicateKey a.1 a.2.1) g.keys =
      .ok () := by
  obtain ⟨-, -, hkeys, hunique, -⟩ := checkRecords_eq_ok.mp (b.checked h)
  exact ⟨hkeys, hunique⟩

theorem length_nodes_of_build : g.nodes.length ≤ 2 ^ 32 :=
  (keyIndex_eq_ok (keys_of_build h).1).1

/-- An entry of the key index is the position of a node of its kind and key. -/
theorem node_of_key {entry : KeyEntry} (hentry : entry ∈ g.keys) :
    ∃ n, g.nodes[entry.2.2.toNat]? = some n ∧ n.kind = entry.1 ∧ n.key = entry.2.1 := by
  obtain ⟨hlength, hsorted⟩ := keyIndex_eq_ok (keys_of_build h).1
  rw [hsorted, mem_sortByKey] at hentry
  obtain ⟨⟨n, i⟩, hmem, rfl⟩ := mem_map.mp hentry
  have hi : g.nodes[i]? = some n := mem_zipIdx_iff_getElem?.mp hmem
  have hlt : i < 2 ^ 32 := (List.getElem?_eq_some_iff.mp hi).1.trans_le hlength
  refine ⟨n, ?_, rfl, rfl⟩
  rwa [show (UInt32.ofNat i).toNat = i from UInt32.toNat_ofNat_of_lt' hlt]

/-- What is found by kind and key is a node of that kind and key. -/
theorem mem_of_lookup (hn : g.lookup kind key = some n) :
    n ∈ g.nodes ∧ n.kind = kind ∧ n.key = key := by
  obtain ⟨i, hi, hn⟩ := Option.bind_eq_some_iff.mp hn
  obtain ⟨entry, hentry, hn⟩ := Option.bind_eq_some_iff.mp hn
  obtain ⟨entry', hentry', heq⟩ := exists_of_binarySearchBy_eq_some hi
  obtain rfl : entry = entry' := Option.some.inj (hentry.symm.trans hentry')
  obtain ⟨m, hm, hkind, hkey⟩ := node_of_key h (mem_of_getElem? hentry)
  cases hm.symm.trans hn
  obtain ⟨hkind', hkey'⟩ := Prod.mk.inj (compareKey_eq_eq.mp heq)
  exact ⟨mem_of_getElem? hm, hkind.trans hkind', hkey.trans hkey'⟩

/-- A node is found by its kind and key. -/
theorem lookup_of_mem (hn : n ∈ g.nodes) : g.lookup n.kind n.key = some n := by
  obtain ⟨hkeys, hunique⟩ := keys_of_build h
  obtain ⟨i, hi⟩ := Option.isSome_iff_exists.mp (isSome_search_keys hkeys hunique hn)
  obtain ⟨entry, hentry, -⟩ := exists_of_binarySearchBy_eq_some hi
  obtain ⟨m, hm, -⟩ := node_of_key h (mem_of_getElem? hentry)
  have hfound : g.lookup n.kind n.key = some m := by
    rw [Graph.lookup, hi, Option.bind_some, hentry, Option.bind_some, hm]
  obtain ⟨hmem, hkind, hkey⟩ := mem_of_lookup h hfound
  rwa [node_eq_of_kind_key hkeys hunique hmem hn hkind hkey] at hfound

theorem lookup_eq_none (hnone : ∀ n ∈ g.nodes, n.kind = kind → n.key ≠ key) :
    g.lookup kind key = none := by
  rw [Option.eq_none_iff_forall_ne_some]
  intro n hn
  obtain ⟨hmem, hkind, hkey⟩ := mem_of_lookup h hn
  exact hnone n hmem hkind hkey

theorem edges_of_build : g.edges = sortByKey (outOrder g.nodes) (sortByKey (fun e ↦ e.id.val.toNat)
    b.edges) := by
  rw [(b.builtFrom h).edges_eq, (b.builtFrom h).nodes_eq]

theorem edges_perm_of_build : g.edges.Perm b.edges := by
  rw [edges_of_build h]
  exact (sortByKey_perm _ _).trans (sortByKey_perm _ _)

/-- Every edge joins two nodes. -/
theorem positions_of_build {e} (he : e ∈ g.edges) :
    (∃ i, positionOf g.nodes e.source = some i) ∧ ∃ i, positionOf g.nodes e.target = some i := by
  obtain ⟨-, -, -, -, -, -, hedges⟩ := checkRecords_eq_ok.mp (b.checked h)
  refine checkEdge_positions (hedges e ?_)
  rwa [edges_of_build h, mem_sortByKey] at he

theorem outOffsets_of_build :
    offsets g.nodes.length (g.edges.map fun e ↦ positionOf g.nodes e.source) =
      .ok g.outOffsets := by
  obtain ⟨keys, -, graph, hindexed, h⟩ := bind₂_eq_ok.mp h
  obtain ⟨rfl, -⟩ := encodeWithin_eq_ok h
  obtain ⟨outOffsets, hoffsets, inEdges, -, inOffsets, -, ⟨⟩⟩ := bind₃_eq_ok.mp hindexed
  exact hoffsets

theorem outOrder_of_build :
    g.edges.Pairwise fun d e ↦ outOrder g.nodes d ≤ outOrder g.nodes e := by
  rw [edges_of_build h]
  exact pairwise_sortByKey _ _

/-- An edge of a node is one with its identifier. -/
theorem positionOf_eq_some_iff (hi : g.nodes[i]? = some n) {id} :
    positionOf g.nodes id = some i ↔ id = n.id := by
  constructor
  · intro hposition
    obtain ⟨m, hm, rfl⟩ := getElem?_of_positionOf hposition
    rw [hi] at hm
    rw [Option.some.inj hm]
  · rintro rfl
    exact positionOf_eq_some (nodes_lt_of_build h) hi

/-- The row of a node is its edges, in the order of the graph. -/
theorem row_of_build (hi : g.nodes[i]? = some n) :
    ∃ start stop : UInt32, g.outOffsets[i]? = some start ∧ g.outOffsets[i + 1]? = some stop ∧
      start.toNat ≤ stop.toNat ∧ stop.toNat ≤ g.edges.length ∧
      (g.edges.take stop.toNat).drop start.toNat = g.edges.filter fun e ↦ e.source = n.id := by
  have hsorted : g.edges.Pairwise fun d e ↦
      rank (positionOf g.nodes d.source) ≤ rank (positionOf g.nodes e.source) :=
    (outOrder_of_build h).imp fun hle ↦ (Prod.Lex.le_iff.mp hle).elim le_of_lt fun heq ↦ heq.1.le
  obtain ⟨start, stop, hstart, hstop, hle, hlength, hrow⟩ :=
    row_eq_filter (outOffsets_of_build h) (fun e he ↦ (positions_of_build h he).1) hsorted
      (List.getElem?_eq_some_iff.mp hi).1
  refine ⟨start, stop, hstart, hstop, hle, hlength, hrow.trans (filter_congr fun e _ ↦ ?_)⟩
  rw [decide_eq_decide, positionOf_eq_some_iff h hi]

/-- Within the row of a node the edges are in kind order. -/
theorem row_kinds_of_build (id : NodeId) : (g.edges.filter fun e ↦ e.source = id).Pairwise
    fun d e ↦ d.kind.val.toNat ≤ e.kind.val.toNat := by
  refine pairwise_second_le ((outOrder_of_build h).filter _) fun d hd e he ↦ ?_
  have hsame : d.source = e.source :=
    (of_decide_eq_true (mem_filter.mp hd).2).trans
      (of_decide_eq_true (mem_filter.mp he).2).symm
  show rank (positionOf g.nodes d.source) = rank (positionOf g.nodes e.source)
  rw [hsame]

/-- **The outgoing edges of a node of one kind**, by their records. -/
theorem outEdges_of_build (hn : n ∈ g.nodes) (kind : EdgeKind) :
    g.outEdges n.id kind = g.edges.filter fun e ↦ e.source = n.id ∧ e.kind = kind := by
  obtain ⟨i, hi⟩ := mem_iff_getElem?.mp hn
  obtain ⟨start, stop, hstart, hstop, -, -, hrow⟩ := row_of_build h hi
  rw [Graph.outEdges, position_of_build h hi]
  dsimp only
  rw [Graph.row, hstart, hstop]
  show Graph.ofKind ((g.edges.take stop.toNat).drop start.toNat) _ _ = _
  rw [hrow, Graph.ofKind, (drop_take_partitionPoint (row_kinds_of_build h n.id) kind.val).2,
    filter_filter]
  refine filter_congr fun e _ ↦ ?_
  rw [← Bool.decide_and, decide_eq_decide, and_comm, EdgeKind.val_inj]

end Built

end Maknae.StateGraph
