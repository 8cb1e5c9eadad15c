import Maknae.StateGraph.Queries

/-!
# Queries as the code runs them

The queries of a graph index its lists and cut slices out of them. An index or a slice out of range
is a panic. Here the queries are written with these panics, and on a graph the builder made none of
them happens: `lookup` finds the one node of a kind and key, and the edges of a node are all of its
edges and no other, in either direction (`queries_exact`).

The incoming edges are kept as positions. A query reads the edge of each position of a row; here all
of them are read first, which panics whenever one of the code's own reads would.
-/

namespace Maknae.StateGraph

open Except List Outcome

namespace Graph

def index {α : Type} (l : List α) (i : ℕ) : Outcome Empty α :=
  match l[i]? with
  | some a => .ok a
  | none => panicked

def slice {α : Type} (l : List α) (start stop : ℕ) : Outcome Empty (List α) :=
  if start ≤ stop ∧ stop ≤ l.length then .ok ((l.take stop).drop start) else panicked

def tryLookup (g : Graph) (kind : NodeKind) (key : String) : Outcome Empty (Option NodeRecord) :=
  match binarySearchBy (fun entry ↦ compareKey (entry.1, entry.2.1) (kind, key)) g.keys with
  | some i => do
    let entry ← index g.keys i
    let n ← index g.nodes entry.2.2.toNat
    return some n
  | none => .ok none

/-- The row of a node, and no row for what is none. -/
def tryRow {α : Type} (entries : List α) (offsets : List UInt32) :
    Option ℕ → Outcome Empty (List α)
  | some i => do
    let start ← index offsets i
    let stop ← index offsets (i + 1)
    slice entries start.toNat stop.toNat
  | none => .ok []

/-- The edges of a row of one kind. -/
def tryOfKind (row : List EdgeRecord) (kind : EdgeKind) : Outcome Empty (List EdgeRecord) :=
  slice row (partitionPoint (fun e ↦ e.kind.val < kind.val) row)
    (partitionPoint (fun e ↦ e.kind.val ≤ kind.val) row)

def tryOutEdges (g : Graph) (id : NodeId) (kind : EdgeKind) : Outcome Empty (List EdgeRecord) := do
  let row ← tryRow g.edges g.outOffsets (g.position id)
  tryOfKind row kind

def tryInEdges (g : Graph) (id : NodeId) (kind : EdgeKind) : Outcome Empty (List EdgeRecord) := do
  let row ← tryRow g.inEdges g.inOffsets (g.position id)
  let row ← row.mapM fun j ↦ index g.edges j.toNat
  tryOfKind row kind

end Graph

open StateGraph.Graph

theorem index_eq_ok {α : Type} {l : List α} {i} {a} (h : l[i]? = some a) :
    index l i = .ok a := by
  rw [index, h]

theorem tryRow_eq_ok {α : Type} {entries : List α} {offsets} {i}
    {start stop} (hstart : offsets[i]? = some start) (hstop : offsets[i + 1]? = some stop)
    (hle : start.toNat ≤ stop.toNat) (hlength : stop.toNat ≤ entries.length) :
    tryRow entries offsets (some i) = .ok ((entries.take stop.toNat).drop start.toNat) := by
  show (index offsets i >>= fun start ↦ index offsets (i + 1) >>= fun stop ↦
    slice entries start.toNat stop.toNat) = _
  rw [index_eq_ok hstart, ok_bind, index_eq_ok hstop, ok_bind, slice, if_pos ⟨hle, hlength⟩]

theorem tryOfKind_eq_ok {row}
    (hsorted : row.Pairwise fun d e ↦ d.kind.val.toNat ≤ e.kind.val.toNat) (kind : EdgeKind) :
    tryOfKind row kind = .ok (row.filter fun e ↦ e.kind = kind) := by
  obtain ⟨hle, hpart⟩ := drop_take_partitionPoint hsorted kind.val
  rw [tryOfKind, slice, if_pos ⟨hle, (takeWhile_sublist _).length_le⟩, hpart]
  simp only [EdgeKind.val_inj]

/-! ### The index of incoming edges -/

/-- The positions of the edges with the edges, before they are ordered. -/
def edgeEntries (edges : List EdgeRecord) : List (ℕ × EdgeRecord) :=
  edges.zipIdx.map fun p ↦ (p.2, p.1)

theorem incoming_eq_ok {nodes edges}
    {pairs : List (ℕ × EdgeRecord)} (h : incoming nodes edges = .ok pairs) :
    edges.length ≤ 2 ^ 32 ∧ pairs = sortByKey (fun p ↦ inOrder nodes p.2) (edgeEntries edges) := by
  obtain ⟨entries, hentries, rfl⟩ := bind_pure_eq_ok.mp h
  obtain ⟨hlength, rfl⟩ := zipIdx_mapM_eq_ok (f := fun e i ↦ (i, e)) hentries
  exact ⟨hlength, rfl⟩

section Built

variable {b : GraphBuilder} {schema : Schema} {compiled : CompiledSet} {g : Graph}
  {bytes : List UInt8} (h : b.buildEncoded schema compiled = .ok (g, bytes))

include h

theorem inEdges_of_build : ∃ pairs, incoming g.nodes g.edges = .ok pairs ∧
    offsets g.nodes.length (pairs.map fun p ↦ positionOf g.nodes p.2.target) = .ok g.inOffsets ∧
    g.inEdges = pairs.map fun p ↦ UInt32.ofNat p.1 := by
  obtain ⟨keys, -, graph, hindexed, h⟩ := bind₂_eq_ok.mp h
  obtain ⟨rfl, -⟩ := encodeWithin_eq_ok h
  obtain ⟨outOffsets, -, pairs, hincoming, inOffsets, hoffsets, ⟨⟩⟩ := bind₃_eq_ok.mp hindexed
  exact ⟨pairs, hincoming, hoffsets, rfl⟩

/-- The entries of the index: each edge once, with its position. -/
theorem edgeEntries_of_build : ∃ pairs : List (ℕ × EdgeRecord),
    g.inEdges = pairs.map (fun p ↦ UInt32.ofNat p.1) ∧
    offsets g.nodes.length (pairs.map fun p ↦ positionOf g.nodes p.2.target) = .ok g.inOffsets ∧
    (pairs.Pairwise fun p q ↦ inOrder g.nodes p.2 ≤ inOrder g.nodes q.2) ∧
    (∀ p ∈ pairs, g.edges[(UInt32.ofNat p.1).toNat]? = some p.2) ∧
    (pairs.map Prod.snd).Perm g.edges := by
  obtain ⟨pairs, hincoming, hoffsets, hinEdges⟩ := inEdges_of_build h
  obtain ⟨hlength, rfl⟩ := incoming_eq_ok hincoming
  refine ⟨_, hinEdges, hoffsets, pairwise_sortByKey _ _, fun p hp ↦ ?_, ?_⟩
  · rw [mem_sortByKey] at hp
    obtain ⟨⟨e, i⟩, hmem, rfl⟩ := mem_map.mp hp
    have hi : g.edges[i]? = some e := mem_zipIdx_iff_getElem?.mp hmem
    have hlt : i < 2 ^ 32 := (List.getElem?_eq_some_iff.mp hi).1.trans_le hlength
    show g.edges[(UInt32.ofNat i).toNat]? = some e
    rwa [toNat_ofNat_u32 hlt]
  · refine ((sortByKey_perm _ _).map Prod.snd).trans ?_
    rw [edgeEntries, map_map]
    exact List.Perm.of_eq (zipIdx_map_fst ..)

theorem tryLookup_of_build (kind : NodeKind) (key : String) :
    tryLookup g kind key = .ok (g.lookup kind key) := by
  rw [tryLookup, Graph.lookup]
  cases hsearch : binarySearchBy (fun entry ↦ compareKey (entry.1, entry.2.1) (kind, key))
    g.keys with
  | none => rfl
  | some i =>
    obtain ⟨entry, hentry, -⟩ := exists_of_binarySearchBy_eq_some hsearch
    obtain ⟨n, hn, -⟩ := node_of_key h (mem_of_getElem? hentry)
    show (index g.keys i >>= fun entry ↦ index g.nodes entry.2.2.toNat >>= fun n ↦ pure (some n)) =
      .ok ((some i).bind fun i ↦ (g.keys[i]?).bind fun entry ↦ g.nodes[entry.2.2.toNat]?)
    rw [index_eq_ok hentry, ok_bind, index_eq_ok hn, Option.bind_some, hentry, Option.bind_some, hn]
    rfl

/-- The ends of an edge are nodes. -/
theorem ends_of_build {e} (he : e ∈ g.edges) :
    (∃ n ∈ g.nodes, n.id = e.source) ∧ ∃ n ∈ g.nodes, n.id = e.target := by
  obtain ⟨⟨i, hi⟩, ⟨j, hj⟩⟩ := positions_of_build h he
  obtain ⟨m, hm, hsource⟩ := getElem?_of_positionOf hi
  obtain ⟨n, hn, htarget⟩ := getElem?_of_positionOf hj
  exact ⟨⟨m, mem_of_getElem? hm, hsource⟩, ⟨n, mem_of_getElem? hn, htarget⟩⟩

omit h in
/-- What is no node has no row. -/
theorem position_eq_none {id} (hid : ∀ n ∈ g.nodes, n.id ≠ id) : g.position id = none := by
  rw [Option.eq_none_iff_forall_ne_some]
  intro i hi
  obtain ⟨n, hn, rfl⟩ := getElem?_of_positionOf hi
  exact hid n (mem_of_getElem? hn) rfl

theorem tryOutEdges_of_build (id : NodeId) (kind : EdgeKind) :
    tryOutEdges g id kind = .ok (g.edges.filter fun e ↦ e.source = id ∧ e.kind = kind) := by
  by_cases hid : ∃ n ∈ g.nodes, n.id = id
  · obtain ⟨n, hn, rfl⟩ := hid
    obtain ⟨i, hi⟩ := mem_iff_getElem?.mp hn
    obtain ⟨start, stop, hstart, hstop, hle, hlength, hrow⟩ := row_of_build h hi
    rw [tryOutEdges, position_of_build h hi, tryRow_eq_ok hstart hstop hle hlength, hrow,
      ok_bind, tryOfKind_eq_ok (row_kinds_of_build h n.id), filter_filter]
    simp only [Bool.decide_and, Bool.and_comm]
  · have hnone : ∀ n ∈ g.nodes, n.id ≠ id := fun n hn heq ↦ hid ⟨n, hn, heq⟩
    have hempty : (g.edges.filter fun e ↦ e.source = id ∧ e.kind = kind) = [] :=
      filter_eq_nil_iff.mpr fun e he hend ↦
        hid ((of_decide_eq_true hend).1 ▸ (ends_of_build h he).1)
    rw [tryOutEdges, position_eq_none hnone, hempty]
    rfl

/-- The row of incoming edges of a node, read from the edges. -/
theorem tryRow_inEdges {i n} (hi : g.nodes[i]? = some n) :
    ∃ row positions, tryRow g.inEdges g.inOffsets (some i) = .ok positions ∧
      (positions.mapM fun j ↦ index g.edges j.toNat) = .ok row ∧
      (row.Pairwise fun d e ↦ d.kind.val.toNat ≤ e.kind.val.toNat) ∧
      row.Perm (g.edges.filter fun e ↦ e.target = n.id) := by
  obtain ⟨pairs, hinEdges, hoffsets, hsorted, hindex, hperm⟩ := edgeEntries_of_build h
  have hmem : ∀ p ∈ pairs, p.2 ∈ g.edges := fun p hp ↦ mem_of_getElem? (hindex p hp)
  have hrank : pairs.Pairwise fun p q ↦
      rank (positionOf g.nodes p.2.target) ≤ rank (positionOf g.nodes q.2.target) :=
    hsorted.imp fun hle ↦ (Prod.Lex.le_iff.mp hle).elim le_of_lt fun heq ↦ heq.1.le
  obtain ⟨start, stop, hstart, hstop, hle, hlength, hrow⟩ :=
    row_eq_filter hoffsets (fun p hp ↦ (positions_of_build h (hmem p hp)).2) hrank
      (List.getElem?_eq_some_iff.mp hi).1
  have htarget : (pairs.filter fun p ↦ positionOf g.nodes p.2.target = some i) =
      pairs.filter fun p ↦ p.2.target = n.id :=
    filter_congr fun p _ ↦ by rw [decide_eq_decide, positionOf_eq_some_iff h hi]
  refine ⟨(pairs.filter fun p ↦ p.2.target = n.id).map Prod.snd,
    (pairs.filter fun p ↦ p.2.target = n.id).map fun p ↦ UInt32.ofNat p.1, ?_, ?_, ?_, ?_⟩
  · rw [tryRow_eq_ok hstart hstop hle (by rwa [hinEdges, length_map]), hinEdges,
      ← map_take, ← map_drop, hrow, htarget]
  · rw [mapM_map]
    exact mapM_eq_ok_map fun p hp ↦ index_eq_ok (hindex p (mem_of_mem_filter hp))
  · refine pairwise_map.mpr (pairwise_second_le (hsorted.filter _) fun p hp q hq ↦ ?_)
    have hsame : p.2.target = q.2.target :=
      (of_decide_eq_true (mem_filter.mp hp).2).trans
        (of_decide_eq_true (mem_filter.mp hq).2).symm
    show rank (positionOf g.nodes p.2.target) = rank (positionOf g.nodes q.2.target)
    rw [hsame]
  · refine List.Perm.trans (List.Perm.of_eq ?_) (hperm.filter _)
    rw [filter_map]
    rfl

theorem tryInEdges_of_build (id : NodeId) (kind : EdgeKind) :
    ∃ edges, tryInEdges g id kind = .ok edges ∧
      edges.Perm (g.edges.filter fun e ↦ e.target = id ∧ e.kind = kind) := by
  by_cases hid : ∃ n ∈ g.nodes, n.id = id
  · obtain ⟨n, hn, rfl⟩ := hid
    obtain ⟨i, hi⟩ := mem_iff_getElem?.mp hn
    obtain ⟨row, positions, hpositions, hread, hkinds, hperm⟩ := tryRow_inEdges h hi
    refine ⟨row.filter fun e ↦ e.kind = kind, ?_, ?_⟩
    · rw [tryInEdges, position_of_build h hi, hpositions, ok_bind, hread, ok_bind,
        tryOfKind_eq_ok hkinds]
    · refine (hperm.filter _).trans (List.Perm.of_eq ?_)
      rw [filter_filter]
      simp only [Bool.decide_and, Bool.and_comm]
  · have hnone : ∀ n ∈ g.nodes, n.id ≠ id := fun n hn heq ↦ hid ⟨n, hn, heq⟩
    have hempty : (g.edges.filter fun e ↦ e.target = id ∧ e.kind = kind) = [] :=
      filter_eq_nil_iff.mpr fun e he hend ↦
        hid ((of_decide_eq_true hend).1 ▸ (ends_of_build h he).2)
    refine ⟨[], ?_, by rw [hempty]⟩
    rw [tryInEdges, position_eq_none hnone]
    rfl

/-- No edge occurs twice. -/
theorem edges_nodup_of_build : b.edges.Nodup := by
  have hsorted : (sortByKey (fun e : EdgeRecord ↦ e.id.val.toNat) b.edges).Nodup :=
    (b.builtFrom h).edges_lt.imp fun hlt heq ↦ hlt.ne (by rw [heq])
  exact (sortByKey_perm _ _).nodup_iff.mp hsorted

theorem mem_nodes_of_build {n} : n ∈ g.nodes ↔ n ∈ b.nodes := by
  rw [(b.builtFrom h).nodes_eq, mem_sortByKey]

end Built

/-- **Queries are exact.** On a graph made by the builder no query panics. A lookup gives the node
of a kind and key, which is one, and the edges of a node are those that leave it, or enter it, each
once. -/
theorem queries_exact {b : GraphBuilder} {schema : Schema} {compiled : CompiledSet} {g : Graph}
    (h : b.build schema compiled = .ok g) :
    (∀ kind key, ∃ found, tryLookup g kind key = .ok found ∧
      ∀ n, found = some n ↔ n ∈ b.nodes ∧ n.kind = kind ∧ n.key = key) ∧
    (∀ id kind, ∃ edges, tryOutEdges g id kind = .ok edges ∧ edges.Nodup ∧
      edges.Perm (b.edges.filter fun e ↦ e.source = id ∧ e.kind = kind)) ∧
    (∀ id kind, ∃ edges, tryInEdges g id kind = .ok edges ∧ edges.Nodup ∧
      edges.Perm (b.edges.filter fun e ↦ e.target = id ∧ e.kind = kind)) ∧
    ∀ id kind, (∀ n ∈ b.nodes, n.id ≠ id) →
      tryOutEdges g id kind = .ok [] ∧ tryInEdges g id kind = .ok [] := by
  obtain ⟨⟨g', bytes⟩, hbuild, rfl⟩ := bind_pure_eq_ok.mp h
  have hnodup (p : EdgeRecord → Bool) {edges : List EdgeRecord}
      (hperm : edges.Perm (g'.edges.filter p)) : edges.Nodup ∧ edges.Perm (b.edges.filter p) := by
    have hperm := hperm.trans ((edges_perm_of_build hbuild).filter p)
    exact ⟨hperm.nodup_iff.mpr ((edges_nodup_of_build hbuild).filter p), hperm⟩
  refine ⟨fun kind key ↦ ⟨_, tryLookup_of_build hbuild kind key, fun n ↦ ?_⟩,
    fun id kind ↦ ⟨_, tryOutEdges_of_build hbuild id kind, hnodup _ (List.Perm.refl _)⟩,
    fun id kind ↦ ?_, fun id kind hid ↦ ?_⟩
  · rw [← mem_nodes_of_build hbuild]
    constructor
    · exact mem_of_lookup hbuild
    · rintro ⟨hn, rfl, rfl⟩
      exact lookup_of_mem hbuild hn
  · obtain ⟨edges, hedges, hperm⟩ := tryInEdges_of_build hbuild id kind
    exact ⟨edges, hedges, hnodup _ hperm⟩
  · have hnone : g'.position id = none :=
      position_eq_none fun n hn ↦ hid n ((mem_nodes_of_build hbuild).mp hn)
    rw [tryOutEdges, tryInEdges, hnone]
    exact ⟨rfl, rfl⟩

theorem queries_exact_admin :
    ∃ g, adminBuilder.build adminSchema ⟨[]⟩ = .ok g ∧
      (∃ edges, tryInEdges g ⟨20⟩ ⟨1⟩ = .ok edges ∧ edges.Perm adminBuilder.edges) ∧
      tryInEdges g ⟨30⟩ ⟨1⟩ = .ok [] := by
  obtain ⟨g, hbuild⟩ := exists_build_admin
  obtain ⟨-, -, hin, hnone⟩ := queries_exact hbuild
  obtain ⟨edges, hedges, -, hperm⟩ := hin ⟨20⟩ ⟨1⟩
  exact ⟨g, hbuild, ⟨edges, hedges, hperm⟩, (hnone ⟨30⟩ ⟨1⟩ (by decide)).2⟩

end Maknae.StateGraph
