import Maknae.Authz.Compile

/-!
# The role of a uid, from the layer

Roles are resolved by hops over a compiled graph: a subject node is found by its key, and its
`contained` and `binds` edges are followed. The reader of the identity layer follows the same edges.
So the role a graph gives is the role its layer lists (`roleFor_eq_layerRole`), for every graph the
layer can be read from, whether it was built or decoded.

A snapshot's graph is not the persisted graph but extends it. The two give the same roles since what
the compiler appended is apart from identity (`SameIdentity`).
-/

namespace Maknae.Authz

open Except List Option StateGraph

/-! ### Graphs with one identity -/

/-- The second graph answers about identity as the first one does. -/
structure SameIdentity (g g' : Graph) : Prop where
  lookup_subject : ∀ key, g'.lookup subjectKind key = g.lookup subjectKind key
  lookup_bindings : ∀ source, g'.lookup sectionKind (bindingsSectionKey source) =
    g.lookup sectionKind (bindingsSectionKey source)
  edges_perm : ∀ n ∈ g.nodes, ∀ kind, kind = binds ∨ kind = contained →
    (g'.outEdges n.id kind).Perm (g.outEdges n.id kind)
  node_eq : ∀ n ∈ g.nodes, g'.node n.id = some n

section Extends

variable {b b' : GraphBuilder} {schema : Schema} {compiled vocabulary : CompiledSet} {g g' : Graph}
  {bytes bytes' : List UInt8}

/-- A lookup that the new nodes cannot answer is answered as before. -/
theorem lookup_eq_of_append (h : b.buildEncoded schema compiled = .ok (g, bytes))
    (h' : b'.buildEncoded kernelSchema vocabulary = .ok (g', bytes')) {ns}
    (hnodes : b'.nodes = g.nodes ++ ns) {kind} {key}
    (hapart : ∀ n ∈ ns, n.kind = kind → n.key ≠ key) : g'.lookup kind key = g.lookup kind key := by
  have hmem : ∀ n, n ∈ g'.nodes ↔ n ∈ g.nodes ∨ n ∈ ns := fun n ↦ by
    rw [(b'.builtFrom h').nodes_eq, mem_sortByKey, hnodes, mem_append]
  cases hlookup : g.lookup kind key with
  | some n =>
    obtain ⟨hn, rfl, rfl⟩ := mem_of_lookup h hlookup
    exact lookup_of_mem h' ((hmem n).mpr (.inl hn))
  | none =>
    refine lookup_eq_none h' fun n hn hkind hkey ↦ ?_
    rcases (hmem n).mp hn with hn | hn
    · rw [← hkind, ← hkey, lookup_of_mem h hn] at hlookup
      cases hlookup
    · exact hapart n hn hkind hkey

/-- The vocabulary of a built graph has compiled kinds only. -/
theorem kind_mem_compiledKinds (h' : b'.buildEncoded kernelSchema vocabulary = .ok (g', bytes'))
    {v} (hv : v ∈ vocabulary.nodes) : v.kind ∈ kernelSchema.compiledKinds := by
  obtain ⟨-, -, -, -, hcompiled, -⟩ := checkRecords_eq_ok.mp (b'.checked h')
  have hcheck := hcompiled v hv
  rw [checkCompiled] at hcheck
  by_contra hnot
  rw [if_pos (by simpa [Schema.isCompiled] using hnot)] at hcheck
  cases hcheck

theorem sameIdentity_of_grew (h : b.buildEncoded schema compiled = .ok (g, bytes))
    {label source} {c} (hgrew : Grew vocabulary (.start g label source) c)
    {revision} (h' : GraphBuilder.buildEncoded ⟨.kernel, revision, c.nodes, c.edges⟩
      kernelSchema vocabulary = .ok (g', bytes')) : SameIdentity g g' := by
  obtain ⟨⟨ns, hns, hapart⟩, es, hes, hkinds⟩ := hgrew
  have hes : c.edges = g.edges ++ es := hes
  have hsubject : ∀ n ∈ ns, n.kind ≠ subjectKind := by
    rintro n hn hkind
    rcases hapart n hn with hk | hk | ⟨hk, -⟩ | ⟨v, hv, hk⟩
    · exact absurd (hk.symm.trans hkind) (by decide)
    · exact absurd (hk.symm.trans hkind) (by decide)
    · exact absurd (hk.symm.trans hkind) (by decide)
    · have hcompiled := kind_mem_compiledKinds h' hv
      rw [← hk, hkind] at hcompiled
      exact absurd hcompiled (by decide)
  have hsection : ∀ n ∈ ns, n.kind = sectionKind → ∀ source, n.key ≠ bindingsSectionKey source := by
    intro n hn hkind
    rcases hapart n hn with hk | hk | ⟨-, hkey⟩ | ⟨v, hv, hk⟩
    · exact absurd (hk.symm.trans hkind) (by decide)
    · exact absurd (hk.symm.trans hkind) (by decide)
    · exact hkey
    · have hcompiled := kind_mem_compiledKinds h' hv
      rw [← hk, hkind] at hcompiled
      exact absurd hcompiled (by decide)
  have hmem : ∀ n ∈ g.nodes, n ∈ g'.nodes := fun n hn ↦ by
    rw [(GraphBuilder.builtFrom h').nodes_eq, mem_sortByKey]
    exact hns ▸ mem_append_left ns hn
  refine ⟨fun key ↦ ?_, fun source ↦ ?_, fun n hn kind hkind ↦ ?_, fun n hn ↦ ?_⟩
  · exact lookup_eq_of_append h h' hns fun n hn hk ↦ absurd hk (hsubject n hn)
  · exact lookup_eq_of_append h h' hns fun n hn hk ↦ hsection n hn hk source
  · rw [outEdges_of_build h' (hmem n hn), outEdges_of_build h hn]
    refine ((edges_perm_of_build h').filter _).trans ?_
    show (c.edges.filter _).Perm _
    rw [hes, filter_append]
    -- none of the new edges gives a role
    have hnone : (es.filter fun e ↦ e.source = n.id ∧ e.kind = kind) = [] := by
      refine filter_eq_nil_iff.mpr fun e he hsame ↦ ?_
      obtain ⟨hbinds, hcontained⟩ := hkinds e he
      obtain ⟨-, rfl⟩ := of_decide_eq_true hsame
      exact hkind.elim hbinds hcontained
    rw [hnone, append_nil]
  · exact node_of_build h' (hmem n hn)

end Extends

/-! ### What the reader of the layer read -/

/-- The role a subject node's edges give it. -/
def nodeRole (g : Graph) (n : NodeRecord) : Option String :=
  if !(g.outEdges n.id contained).isEmpty then some adversary
  else (g.outEdges n.id binds).head?.bind fun e ↦ (g.node e.target).map NodeRecord.key

/-- What was checked when a subject node was read. -/
structure SubjectRead (g : Graph) (n : NodeRecord) (uid : UInt32) : Prop where
  key_eq : n.key = subjectKey uid
  binds_le : (g.outEdges n.id binds).length ≤ 1

variable {n : NodeRecord} {g : Graph} {source : Option NodeRecord} {out out' : Identity.Subjects}

theorem key_of_subjectUid {uid} (h : Identity.subjectUid n = .ok uid) :
    n.key = subjectKey uid := by
  unfold Identity.subjectUid at h
  split at h
  · split_ifs at h with hkey
    rw [← ok.inj h]
    exact hkey.2
  · cases h

/-- Reading one subject adds the entry its edges give it, if they give it one. -/
theorem readSubject_eq_ok (h : Identity.readSubject g source out n = .ok out') :
    ∃ uid name, SubjectRead g n uid ∧
      out'.subjects = out.subjects ++ ((nodeRole g n).map fun role ↦ ⟨uid, name, role⟩).toList := by
  obtain ⟨uid, huid, h⟩ := bind_eq_ok.mp h
  split_ifs at h with hsource hbinds
  obtain ⟨name, -, aliases, -, h⟩ := bind₂_eq_ok.mp h
  refine ⟨uid, name, ⟨key_of_subjectUid huid, not_lt.mp hbinds⟩, ?_⟩
  cases hrole : nodeRole g n with
  | some role =>
    rw [nodeRole] at hrole
    rw [hrole] at h
    obtain rfl := pure_eq_ok.mp h
    rfl
  | none =>
    rw [nodeRole] at hrole
    rw [hrole] at h
    obtain rfl := pure_eq_ok.mp h
    simp

theorem foldlM_readSubject {nodes : List NodeRecord}
    (h : nodes.foldlM (Identity.readSubject g source) out = .ok out') :
    (∀ n ∈ nodes, ∃ uid, SubjectRead g n uid ∧
      ∀ role ∈ nodeRole g n, ∃ s ∈ out'.subjects, s.uid = uid ∧ s.role = role) ∧
    ∀ s ∈ out'.subjects, s ∈ out.subjects ∨
      ∃ n ∈ nodes, SubjectRead g n s.uid ∧ nodeRole g n = some s.role := by
  induction nodes generalizing out with
  | nil =>
    obtain rfl := pure_eq_ok.mp h
    exact ⟨nofun, fun s hs ↦ .inl hs⟩
  | cons n nodes ih =>
    obtain ⟨out₁, hread, h⟩ := bind_eq_ok.mp h
    obtain ⟨uid, name, hn, hout₁⟩ := readSubject_eq_ok hread
    obtain ⟨hnodes, hsubjects⟩ := ih h
    have hkeep : ∀ s ∈ out₁.subjects, s ∈ out'.subjects := by
      refine foldlM_invariant (P := fun o ↦ ∀ s ∈ out₁.subjects, s ∈ o.subjects) ?_
        (fun s hs ↦ hs) h
      intro o m o' ho hm s hs
      obtain ⟨_, _, -, heq⟩ := readSubject_eq_ok hm
      rw [heq]
      exact mem_append_left _ (ho s hs)
    refine ⟨forall_mem_cons.mpr ⟨⟨uid, hn, fun role hrole ↦ ?_⟩, hnodes⟩, fun s hs ↦ ?_⟩
    · refine ⟨⟨uid, name, role⟩, hkeep _ ?_, rfl, rfl⟩
      rw [hout₁, mem_def.mp hrole]
      simp
    · rcases hsubjects s hs with hs | ⟨m, hm, hread⟩
      · rw [hout₁] at hs
        rcases mem_append.mp hs with hs | hs
        · exact .inl hs
        · obtain ⟨role, hrole, rfl⟩ := map_eq_some_iff.mp (mem_toList.mp hs)
          exact .inr ⟨n, mem_cons_self, hn, hrole⟩
      · exact .inr ⟨m, mem_cons_of_mem n hm, hread⟩

/-- What a layer that was read says about the subject nodes of its graph. -/
structure LayerRead (g : Graph) (layer : IdentityLayer) : Prop where
  bindings_eq : (g.lookup sectionKind (bindingsSectionKey layer.source)).isSome =
    layer.bindingsSha256.isSome
  node : ∀ n ∈ g.nodes, n.kind = subjectKind → ∃ uid, SubjectRead g n uid ∧
    ∀ role ∈ nodeRole g n, ∃ s ∈ layer.subjects, s.uid = uid ∧ s.role = role
  subject : ∀ s ∈ layer.subjects, ∃ n ∈ g.nodes, n.kind = subjectKind ∧ SubjectRead g n s.uid ∧
    nodeRole g n = some s.role

theorem layerRead_of_extract {x : Extracted} (h : Identity.extract g = .ok x) :
    LayerRead g x.layer := by
  obtain ⟨⟨vocabulary, source⟩, -, bindings, hbindings, out, hout, h⟩ := bind₃_eq_ok.mp h
  dsimp only at h
  split at h
  · cases h
  obtain ⟨baseline, -, sync, -, ⟨⟩⟩ := bind₂_eq_ok.mp h
  obtain ⟨hnodes, hsubjects⟩ := foldlM_readSubject hout
  have hmem : ∀ n, n ∈ g.nodes.filter (fun n ↦ n.kind = subjectKind) ↔
      n ∈ g.nodes ∧ n.kind = subjectKind := fun n ↦ by
    rw [mem_filter, decide_eq_true_iff]
  refine ⟨?_, fun n hn hkind ↦ ?_, fun s hs ↦ ?_⟩
  · unfold Identity.readBindings at hbindings
    show (g.lookup sectionKind (bindingsSectionKey (source.elim "" NodeRecord.key))).isSome =
      bindings.isSome
    split at hbindings
    · rename_i sec hsec
      obtain ⟨d, -, hd⟩ := bind_eq_ok.mp hbindings
      rw [hsec, ← pure_eq_ok.mp hd]
      rfl
    · rename_i hsec
      rw [hsec, ← ok.inj hbindings]
      rfl
  · obtain ⟨uid, hread, hroles⟩ := hnodes n ((hmem n).mpr ⟨hn, hkind⟩)
    refine ⟨uid, hread, fun role hrole ↦ ?_⟩
    obtain ⟨s, hs, hentry⟩ := hroles role hrole
    exact ⟨s, mem_sortByKey.mpr hs, hentry⟩
  · rcases hsubjects s (mem_sortByKey.mp hs) with hs | ⟨n, hn, hread⟩
    · cases hs
    · exact ⟨n, ((hmem n).mp hn).1, ((hmem n).mp hn).2, hread⟩

/-! ### The role of the layer -/

theorem subjectKey_injective : Function.Injective subjectKey := fun u v h ↦ by
  have hrender : (Config.BindingEntry.uid u).render = (Config.BindingEntry.uid v).render := h
  have hlist := congrArg String.toList hrender
  rw [Config.BindingEntry.toList_render_uid, Config.BindingEntry.toList_render_uid] at hlist
  simp only [cons.injEq, true_and] at hlist
  exact UInt32.toNat_inj.mp (Config.repr_injective (String.toList_inj.mp hlist))

/-- The role a layer lists a uid under; without explicit bindings only the principal has one. -/
def layerRole (layer : IdentityLayer) (uid principalUid : UInt32) : Resolution :=
  if layer.bindingsSha256.isNone then if uid = principalUid then .role .admin else .noRole
  else
    match (layer.subjects.find? fun s ↦ s.uid = uid).bind fun s ↦ Role.fromKey s.role with
    | some r => .role r
    | none => .noRole

/-- The hops of a resolution are those of `nodeRole`. -/
theorem roleFor_eq_nodeRole (bindings : GraphBindings) (uid principalUid : UInt32) :
    bindings.roleFor uid principalUid =
      if !bindings.explicit then if uid = principalUid then .role .admin else .noRole
      else
        match ((bindings.graph.lookup subjectKind (subjectKey uid)).bind
          (nodeRole bindings.graph)).bind Role.fromKey with
        | some r => .role r
        | none => .noRole := by
  unfold GraphBindings.roleFor
  split_ifs with hexplicit
  · rfl
  · rfl
  · cases bindings.graph.lookup subjectKind (subjectKey uid) with
    | none => rfl
    | some n =>
      simp only [bind_some, nodeRole]
      cases bindings.graph.outEdges n.id contained with
      | cons e rest => rfl
      | nil =>
        cases (bindings.graph.outEdges n.id binds).head? with
        | none => rfl
        | some e =>
          simp only [bind_some]
          cases bindings.graph.node e.target <;> rfl

section Built

variable {b : GraphBuilder} {schema : Schema} {compiled : CompiledSet} {g g' : Graph}
  {bytes : List UInt8} (hbuilt : b.buildEncoded schema compiled = .ok (g, bytes))

include hbuilt

/-- The edges of a subject that was read give it one role in both graphs. -/
theorem SameIdentity.nodeRole_eq (hsame : SameIdentity g g') {n} (hn : n ∈ g.nodes)
    {uid} (hread : SubjectRead g n uid) : nodeRole g' n = nodeRole g n := by
  have hcontained := hsame.edges_perm n hn contained (.inr rfl)
  -- there is at most one edge, so its order is no matter
  have hbinds : g'.outEdges n.id binds = g.outEdges n.id binds := by
    have hperm := hsame.edges_perm n hn binds (.inl rfl)
    have hle := hread.binds_le
    match hedges : g.outEdges n.id binds with
    | [] => exact (hedges ▸ hperm).eq_nil
    | [e] => exact perm_singleton.mp (hedges ▸ hperm)
    | _ :: _ :: _ =>
      rw [hedges] at hle
      simp at hle
  have hempty : (g'.outEdges n.id contained).isEmpty = (g.outEdges n.id contained).isEmpty := by
    rw [Bool.eq_iff_iff, isEmpty_iff_length_eq_zero, isEmpty_iff_length_eq_zero,
      hcontained.length_eq]
  rw [nodeRole, nodeRole, hempty, hbinds]
  cases hhead : (g.outEdges n.id binds).head? with
  | none => rfl
  | some e =>
    have he := mem_of_mem_head? hhead
    rw [outEdges_of_build hbuilt hn] at he
    obtain ⟨i, hi⟩ := (positions_of_build hbuilt (mem_filter.mp he).1).2
    obtain ⟨m, hm, hid⟩ := getElem?_of_positionOf hi
    have hm := mem_of_getElem? hm
    rw [bind_some, bind_some, ← hid, hsame.node_eq m hm, node_of_build hbuilt hm]

/-- The layer lists a uid under the role of its node. -/
theorem LayerRead.find?_role {layer} (hread : LayerRead g layer) (uid : UInt32) :
    (layer.subjects.find? fun s ↦ s.uid = uid).map SubjectEntry.role =
      (g.lookup subjectKind (subjectKey uid)).bind (nodeRole g) := by
  have hlookup : ∀ s ∈ layer.subjects, s.uid = uid → ∃ n,
      g.lookup subjectKind (subjectKey uid) = some n ∧ nodeRole g n = some s.role := by
    rintro s hs rfl
    obtain ⟨n, hn, hkind, hsubject, hrole⟩ := hread.subject s hs
    refine ⟨n, ?_, hrole⟩
    rw [← hkind, ← hsubject.key_eq]
    exact lookup_of_mem hbuilt hn
  cases hfind : layer.subjects.find? fun s ↦ s.uid = uid with
  | some s =>
    obtain ⟨n, hn, hrole⟩ := hlookup s (mem_of_find?_eq_some hfind)
      (by simpa using find?_some hfind)
    rw [hn, bind_some, hrole, map_some]
  | none =>
    cases hn : g.lookup subjectKind (subjectKey uid) with
    | none => rfl
    | some n =>
      obtain ⟨hmem, hkind, hkey⟩ := mem_of_lookup hbuilt hn
      obtain ⟨uid', hsubject, hroles⟩ := hread.node n hmem hkind
      obtain rfl : uid' = uid := subjectKey_injective (hsubject.key_eq.symm.trans hkey)
      cases hrole : nodeRole g n with
      | none => rw [bind_some, hrole, map_none]
      | some role =>
        obtain ⟨s, hs, huid, -⟩ := hroles role hrole
        exact absurd (find?_eq_none.mp hfind s hs) (by simpa using huid)

/-- **The role a graph gives is the role its layer lists.** -/
theorem roleFor_eq_layerRole {layer} (hread : LayerRead g layer)
    (hsame : SameIdentity g g') (uid principalUid : UInt32) :
    (GraphBindings.new g' layer.source).roleFor uid principalUid =
      layerRole layer uid principalUid := by
  have hexplicit : (!(GraphBindings.new g' layer.source).explicit) =
      layer.bindingsSha256.isNone := by
    show (!(g'.lookup sectionKind (bindingsSectionKey layer.source)).isSome) = _
    rw [hsame.lookup_bindings, hread.bindings_eq, not_isSome]
  have hhops : (g'.lookup subjectKind (subjectKey uid)).bind (nodeRole g') =
      (layer.subjects.find? fun s ↦ s.uid = uid).map SubjectEntry.role := by
    rw [hread.find?_role hbuilt, hsame.lookup_subject]
    cases hn : g.lookup subjectKind (subjectKey uid) with
    | none => rfl
    | some n =>
      obtain ⟨hmem, hkind, -⟩ := mem_of_lookup hbuilt hn
      obtain ⟨uid', hsubject, -⟩ := hread.node n hmem hkind
      rw [bind_some, bind_some, hsame.nodeRole_eq hbuilt hmem hsubject]
  rw [roleFor_eq_nodeRole, hexplicit]
  show (if _ then _ else match ((g'.lookup subjectKind (subjectKey uid)).bind (nodeRole g')).bind
    Role.fromKey with | some r => _ | none => _) = _
  rw [hhops, bind_map]
  rfl

end Built

end Maknae.Authz
