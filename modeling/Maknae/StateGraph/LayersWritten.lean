import Maknae.StateGraph.Layers
import Maknae.StateGraph.Queries

/-!
# The records of the layers

`Identity.build` writes the records of the layers in one pass and lets the graph builder check and
index them. This file follows the records: what each step of the pass writes (a `Chunk`), and what
the finished graph answers when it is asked for them (`Written`).

Every chunk is **local**: its edges start at its own nodes. Identifiers differ, so the outgoing
edges of a node are those of its own chunk, and no part of the graph can disturb another.
-/

namespace Maknae.StateGraph

open List

/-! ### Chunks of records -/

variable {α β : Type} {l' : List β} {l : List α} {d d' : Draft} {baseline : Option BaselineLayer}
  {u : Unit} {sync : Option SyncBase} {compiled : CompiledSet} {vocabularySha256 : Digest}
  {layer : IdentityLayer} {g : Graph} {initiator : ProvenanceKind} {revision : UInt64}

theorem forall₂_imp_of_mem {R S : α → β → Prop} (h : List.Forall₂ R l l')
    (himp : ∀ a, ∀ b ∈ l', R a b → S a b) : List.Forall₂ S l l' := by
  induction h with
  | nil => exact .nil
  | cons hab _ ih =>
    exact .cons (himp _ _ mem_cons_self hab) (ih fun a b hb ↦ himp a b (mem_cons_of_mem _ hb))

/-- Records that one step writes. -/
structure Chunk where
  nodes : List NodeRecord
  edges : List EdgeRecord

namespace Chunk

def append (c c' : Chunk) : Chunk := ⟨c.nodes ++ c'.nodes, c.edges ++ c'.edges⟩

instance : Append Chunk := ⟨append⟩

theorem append_def (c c' : Chunk) : c ++ c' = ⟨c.nodes ++ c'.nodes, c.edges ++ c'.edges⟩ := rfl

@[simp] theorem nodes_append (c c' : Chunk) : (c ++ c').nodes = c.nodes ++ c'.nodes := rfl

@[simp] theorem edges_append (c c' : Chunk) : (c ++ c').edges = c.edges ++ c'.edges := rfl

/-- The edges start at the chunk's own nodes. -/
def Local (c : Chunk) : Prop := ∀ e ∈ c.edges, ∃ n ∈ c.nodes, e.source = n.id

theorem Local.append {c c' : Chunk} (h : c.Local) (h' : c'.Local) : (c ++ c').Local := by
  intro e he
  rcases mem_append.mp he with he | he
  · obtain ⟨n, hn, heq⟩ := h e he
    exact ⟨n, mem_append_left _ hn, heq⟩
  · obtain ⟨n, hn, heq⟩ := h' e he
    exact ⟨n, mem_append_right _ hn, heq⟩

/-- Chunks one after the other. -/
def concat (chunks : List Chunk) : Chunk :=
  ⟨chunks.flatMap Chunk.nodes, chunks.flatMap Chunk.edges⟩

theorem Local.concat {chunks} (h : ∀ c ∈ chunks, c.Local) : (concat chunks).Local := by
  intro e he
  obtain ⟨c, hc, he⟩ := mem_flatMap.mp he
  obtain ⟨n, hn, heq⟩ := h c hc e he
  exact ⟨n, mem_flatMap.mpr ⟨c, hc, hn⟩, heq⟩

end Chunk

/-- Where the edges of one kind lead from a node. -/
def targets (edges : List EdgeRecord) (id : NodeId) (kind : EdgeKind) : List NodeId :=
  (edges.filter fun e ↦ e.source = id ∧ e.kind = kind).map EdgeRecord.target

section Targets

variable {id : NodeId} {kind : EdgeKind}

@[simp] theorem targets_nil : targets [] id kind = [] := rfl

theorem targets_append (edges edges' : List EdgeRecord) :
    targets (edges ++ edges') id kind = targets edges id kind ++ targets edges' id kind := by
  rw [targets, filter_append, map_append]
  rfl

theorem targets_cons (e : EdgeRecord) (edges : List EdgeRecord) :
    targets (e :: edges) id kind =
      if e.source = id ∧ e.kind = kind then e.target :: targets edges id kind
      else targets edges id kind := by
  rw [targets, filter_cons]
  split_ifs with h h' h'
  · rfl
  · exact absurd (of_decide_eq_true h) h'
  · exact absurd (decide_eq_true h') h
  · rfl

/-- Edges of other kinds lead nowhere. -/
theorem targets_of_kind {edges} (h : ∀ e ∈ edges, e.kind ≠ kind) :
    targets edges id kind = [] := by
  rw [targets, filter_eq_nil_iff.mpr, map_nil]
  intro e he hsame
  exact h e he (of_decide_eq_true hsame).2

/-- No edge of a local chunk starts at another node. -/
theorem targets_of_local {c : Chunk} (hlocal : c.Local) (hid : ∀ n ∈ c.nodes, n.id ≠ id) :
    targets c.edges id kind = [] := by
  rw [targets, filter_eq_nil_iff.mpr, map_nil]
  intro e he hsource
  obtain ⟨n, hn, heq⟩ := hlocal e he
  exact hid n hn (heq.symm.trans (of_decide_eq_true hsource).1)

/-- The edges of a node are those of its own chunk. -/
theorem targets_of_mem (kind : EdgeKind) (before : Chunk) {c after : Chunk} {n : NodeRecord}
    (hn : n ∈ c.nodes)
    (hnodup : ((before ++ c ++ after).nodes.map NodeRecord.id).Nodup) (hbefore : before.Local)
    (hafter : after.Local) :
    targets (before ++ c ++ after).edges n.id kind = targets c.edges n.id kind := by
  rw [Chunk.nodes_append, Chunk.nodes_append, map_append, map_append, nodup_append,
    nodup_append] at hnodup
  obtain ⟨⟨-, -, hdisjoint⟩, -, hdisjoint'⟩ := hnodup
  have hid : n.id ∈ c.nodes.map NodeRecord.id := mem_map_of_mem hn
  rw [Chunk.edges_append, Chunk.edges_append, targets_append, targets_append,
    targets_of_local hbefore fun m hm ↦ hdisjoint _ (mem_map_of_mem hm) _ hid,
    targets_of_local hafter fun m hm ↦
      (hdisjoint' _ (mem_append_right _ hid) _ (mem_map_of_mem hm)).symm,
    nil_append, append_nil]

theorem targets_concat {chunks c n} (hc : c ∈ chunks)
    (hn : n ∈ c.nodes) (hnodup : ((Chunk.concat chunks).nodes.map NodeRecord.id).Nodup)
    (hlocal : ∀ c ∈ chunks, c.Local) :
    targets (Chunk.concat chunks).edges n.id kind = targets c.edges n.id kind := by
  obtain ⟨before, after, rfl⟩ := append_of_mem hc
  have hsplit : Chunk.concat (before ++ c :: after) =
      Chunk.concat before ++ c ++ Chunk.concat after := by
    simp [Chunk.concat, Chunk.append_def]
  rw [hsplit] at hnodup ⊢
  exact targets_of_mem kind _ hn hnodup (.concat fun c' hc' ↦ hlocal c' (mem_append_left _ hc'))
    (.concat fun c' hc' ↦ hlocal c' (mem_append_right _ (mem_cons_of_mem c hc')))

end Targets

namespace Draft

/-- The draft with more records. -/
def add (d : Draft) (c : Chunk) : Draft :=
  { d with nodes := d.nodes ++ c.nodes, edges := d.edges ++ c.edges }

theorem add_add (d : Draft) (c c' : Chunk) : (d.add c).add c' = d.add (c ++ c') := by
  simp [add]

/-- The nodes of a chunk are numbered on from those of the draft. -/
def Numbers (d : Draft) (c : Chunk) : Prop :=
  c.nodes.map NodeRecord.id =
    (range' (d.nodes.length + 1) c.nodes.length).map fun i ↦ ⟨UInt64.ofNat i⟩

theorem Numbers.append {d : Draft} {c c' : Chunk} (h : d.Numbers c) (h' : (d.add c).Numbers c') :
    d.Numbers (c ++ c') := by
  rw [Numbers] at h h' ⊢
  have hlength : (d.add c).nodes.length + 1 = d.nodes.length + 1 + 1 * c.nodes.length := by
    rw [add, length_append]
    omega
  rw [Chunk.nodes_append, map_append, length_append, ← range'_append, map_append, h, h', hlength]

end Draft

/-! ### The steps -/

namespace Drafting

theorem bind_eq_ok {x : Drafting α} {f : α → Drafting β} {b} :
    (x >>= f) d = .ok (b, d') ↔ ∃ a mid, x d = .ok (a, mid) ∧ f a mid = .ok (b, d') := by
  show (x d >>= fun p ↦ f p.1 p.2) = _ ↔ _
  rw [Except.bind_eq_ok]
  exact ⟨fun ⟨p, hx, hf⟩ ↦ ⟨p.1, p.2, hx, hf⟩, fun ⟨a, mid, hx, hf⟩ ↦ ⟨(a, mid), hx, hf⟩⟩

theorem pure_eq_ok {a b} : (pure a : Drafting α) d = .ok (b, d') ↔ a = b ∧ d = d' := by
  show Except.ok (a, d) = _ ↔ _
  simp

theorem refuse_ne_ok {e a} : (refuse e : Drafting α) d ≠ .ok (a, d') := nofun

theorem liftM_eq_ok {x : Except IdentityError α} {a} :
    (liftM x : Drafting α) d = .ok (a, d') ↔ x = .ok a ∧ d = d' := by
  cases x with
  | error e => exact ⟨nofun, nofun⟩
  | ok b =>
    show Except.ok (b, d) = _ ↔ _
    simp

end Drafting

open Drafting

/-- What a step writes: a local chunk, numbered on from the draft. -/
structure Wrote (d d' : Draft) (c : Chunk) : Prop where
  eq_add : d' = d.add c
  numbers : d.Numbers c
  isLocal : c.Local

namespace Wrote

variable {d d' d'' : Draft} {c c' : Chunk}

theorem nil (d : Draft) : Wrote d d ⟨[], []⟩ :=
  ⟨by simp [Draft.add], rfl, nofun⟩

theorem append (h : Wrote d d' c) (h' : Wrote d' d'' c') : Wrote d d'' (c ++ c') := by
  obtain ⟨rfl, hnumbers, hlocal⟩ := h
  obtain ⟨rfl, hnumbers', hlocal'⟩ := h'
  exact ⟨Draft.add_add d c c', hnumbers.append hnumbers', hlocal.append hlocal'⟩

/-- Edges that start at nodes already written. -/
theorem addEdges (h : Wrote d d' c) {edges : List EdgeRecord}
    (hedges : ∀ e ∈ edges, ∃ n ∈ c.nodes, e.source = n.id) :
    Wrote d (d'.add ⟨[], edges⟩) (c ++ ⟨[], edges⟩) := by
  obtain ⟨rfl, hnumbers, hlocal⟩ := h
  refine ⟨Draft.add_add d c _, hnumbers.append rfl, fun e he ↦ ?_⟩
  have hnodes : (c ++ ⟨[], edges⟩ : Chunk).nodes = c.nodes := append_nil _
  rw [hnodes]
  exact forall_mem_append.mpr ⟨hlocal, hedges⟩ e he

end Wrote

namespace Drafting

/-- What `addNode` writes. -/
structure NewNode (d : Draft) (kind : NodeKind) (key : String) (attrs : Attrs) (n : NodeRecord) :
    Prop where
  kind_eq : n.kind = kind
  key_eq : n.key = key
  attrs_eq : n.attrs = attrs
  label_eq : n.label = d.label

variable {id : NodeId} {u : Unit}

theorem addNode_spec {kind key attrs}
    (h : addNode kind key attrs d = .ok (id, d')) :
    ∃ n, Wrote d d' ⟨[n], []⟩ ∧ n.id = id ∧ NewNode d kind key attrs n := by
  cases h
  exact ⟨⟨⟨UInt64.ofNat (d.nodes.length + 1)⟩, .kernel, kind, key, d.label, d.prov, d.revision,
    attrs⟩, ⟨by simp [Draft.add], rfl, nofun⟩, rfl, rfl, rfl, rfl, rfl⟩

theorem addEdge_spec {source target kind}
    (h : addEdge source kind target d = .ok (u, d')) :
    ∃ e, d' = d.add ⟨[], [e]⟩ ∧ e.source = source ∧ e.kind = kind ∧ e.target = target := by
  cases h
  exact ⟨⟨⟨UInt64.ofNat (d.edges.length + 1)⟩, .kernel, source, target, kind, d.label, d.prov,
    d.revision, ∅⟩, by simp [Draft.add], rfl, rfl, rfl⟩

theorem declare_spec {sectionId} (h : declare id sectionId d = .ok (u, d')) :
    ∃ edges, d' = d.add ⟨[], edges⟩ ∧ ∀ e ∈ edges, e.source = id ∧ e.kind = declaredBy := by
  cases sectionId with
  | none =>
    obtain ⟨-, rfl⟩ := pure_eq_ok.mp h
    exact ⟨[], by simp [Draft.add], nofun⟩
  | some sec =>
    obtain ⟨e, rfl, hsource, hkind, -⟩ := addEdge_spec h
    exact ⟨[e], rfl, fun f hf ↦ mem_singleton.mp hf ▸ ⟨hsource, hkind⟩⟩

theorem refuseIf_eq_ok {c : Prop} [Decidable c] {e}
    (h : refuseIf c e d = .ok (u, d')) : ¬c ∧ d = d' := by
  rw [refuseIf] at h
  split_ifs at h with hc
  · exact absurd h refuse_ne_ok
  · exact ⟨hc, (pure_eq_ok.mp h).2⟩

end Drafting

namespace Identity

/-! ### Compiled nodes -/

/-- The node of a compiled node. -/
structure CompiledRecord (c : CompiledNode) (n : NodeRecord) : Prop where
  kind_eq : n.kind = c.kind
  key_eq : n.key = c.key

variable {source : NodeId} {sectionId cid cid' : Option NodeId} {aliases : AliasNames}
  {s : SubjectEntry} {roles : RoleIds}

/-- The roles are the nodes of role kind, the last of each key. -/
theorem addCompiled_spec {compiled roles roles'}
    (h : compiled.foldlM addCompiled roles d = .ok (roles', d')) :
    ∃ c : Chunk, Wrote d d' c ∧ c.edges = [] ∧ List.Forall₂ CompiledRecord compiled c.nodes ∧
      ∀ role id, roles'[role]? = some id →
        roles[role]? = some id ∨ ∃ n ∈ c.nodes, n.kind = roleKind ∧ n.key = role ∧ n.id = id := by
  induction compiled generalizing roles d with
  | nil =>
    obtain ⟨rfl, rfl⟩ := pure_eq_ok.mp h
    exact ⟨_, .nil d, rfl, .nil, fun _ _ ↦ .inl⟩
  | cons entry compiled ih =>
    obtain ⟨mid, dmid, hstep, h⟩ := bind_eq_ok.mp h
    obtain ⟨id, dnode, hnode, hstep⟩ := bind_eq_ok.mp hstep
    obtain ⟨rfl, rfl⟩ := pure_eq_ok.mp hstep
    cases hnode
    obtain ⟨c, hwrote, hedges, hrecords, hroles⟩ := ih h
    let n : NodeRecord := ⟨⟨UInt64.ofNat (d.nodes.length + 1)⟩, .kernel, entry.kind, entry.key,
      entry.label, ⟨.compiled, 0⟩, 0, entry.attrs⟩
    have hfirst : Wrote d { d with nodes := d.nodes ++ [n] } ⟨[n], []⟩ :=
      ⟨by simp [Draft.add], rfl, nofun⟩
    refine ⟨⟨[n], []⟩ ++ c, hfirst.append hwrote, by simp [hedges], .cons ⟨rfl, rfl⟩ hrecords, ?_⟩
    intro role id hid
    rcases hroles role id hid with hid | ⟨m, hm, hkind, hkey, hid⟩
    · split_ifs at hid with hkind
      · rw [Std.ExtTreeMap.getElem?_insert] at hid
        split_ifs at hid with hkey
        · refine .inr ⟨n, mem_append_left _ (mem_singleton_self n), hkind, ?_, Option.some.inj hid⟩
          exact Std.LawfulEqOrd.eq_of_compare hkey
        · exact .inl hid
      · exact .inl hid
    · exact .inr ⟨m, mem_append_right _ hm, hkind, hkey, hid⟩

/-! ### The section of the bindings -/

/-- The section node of the bindings. -/
structure SectionRecord (layer : IdentityLayer) (digest : Digest) (n : NodeRecord) : Prop where
  kind_eq : n.kind = sectionKind
  key_eq : n.key = bindingsSectionKey layer.source
  attrs_eq : n.attrs = strAttrs [(attrSha256, hex digest)]

theorem addBindingsSection_spec {id}
    (h : addBindingsSection layer source d = .ok (id, d')) :
    ∃ c : Chunk, Wrote d d' c ∧ List.Forall₂ (SectionRecord layer) layer.bindingsSha256.toList
      c.nodes := by
  rw [addBindingsSection] at h
  cases hdigest : layer.bindingsSha256 with
  | none =>
    rw [hdigest] at h
    obtain ⟨rfl, rfl⟩ := pure_eq_ok.mp h
    exact ⟨_, .nil d, .nil⟩
  | some digest =>
    rw [hdigest] at h
    obtain ⟨id', mid, hnode, h⟩ := bind_eq_ok.mp h
    obtain ⟨n, hwrote, rfl, hn⟩ := addNode_spec hnode
    obtain ⟨⟨⟩, mid', hedge, h⟩ := bind_eq_ok.mp h
    obtain ⟨e, rfl, hsource, -⟩ := addEdge_spec hedge
    obtain ⟨rfl, rfl⟩ := pure_eq_ok.mp h
    refine ⟨_, hwrote.addEdges fun f hf ↦ ?_, .cons ⟨hn.kind_eq, hn.key_eq, hn.attrs_eq⟩ .nil⟩
    exact ⟨n, mem_singleton_self n, mem_singleton.mp hf ▸ hsource⟩

/-! ### Subjects -/

/-- The node of a subject and where its edges lead. -/
structure SubjectRecord (roles : RoleIds) (aliases : AliasNames) (edges : List EdgeRecord)
    (s : SubjectEntry) (n : NodeRecord) : Prop where
  kind_eq : n.kind = subjectKind
  key_eq : n.key = subjectKey s.uid
  attrs_eq : n.attrs = subjectAttrs aliases s
  contained_of : s.role = adversary →
    (∃ cid, targets edges n.id contained = [cid]) ∧ targets edges n.id binds = []
  bound_of : s.role ≠ adversary → targets edges n.id contained = [] ∧
    ∃ id, roles[s.role]? = some id ∧ targets edges n.id binds = [id]

theorem containmentNode_spec {sectionId cid id}
    (h : containmentNode layer sectionId cid d = .ok (id, d')) :
    ∃ c : Chunk, Wrote d d' c ∧ (∀ n ∈ c.nodes, n.kind = containment) ∧
      ∀ owner kind, kind ≠ declaredBy → targets c.edges owner kind = [] := by
  cases cid with
  | some cid =>
    obtain ⟨-, rfl⟩ := pure_eq_ok.mp h
    exact ⟨_, .nil d, nofun, fun _ _ _ ↦ rfl⟩
  | none =>
    obtain ⟨id', mid, hnode, h⟩ := bind_eq_ok.mp h
    obtain ⟨n, hwrote, rfl, hn⟩ := addNode_spec hnode
    obtain ⟨⟨⟩, mid', hdeclare, h⟩ := bind_eq_ok.mp h
    obtain ⟨edges, rfl, hedges⟩ := declare_spec hdeclare
    obtain ⟨rfl, rfl⟩ := pure_eq_ok.mp h
    refine ⟨_, hwrote.addEdges fun e he ↦ ⟨n, mem_singleton_self n, (hedges e he).1⟩,
      fun m hm ↦ ?_, fun owner kind hkind ↦ targets_of_kind fun e he heq ↦ ?_⟩
    · rw [mem_singleton.mp hm]
      exact hn.kind_eq
    · exact hkind (heq.symm.trans (hedges e he).2)

/-- What the role of a subject adds. -/
theorem addRole_spec {role sid roleId}
    (h : addRole layer sectionId cid role sid roleId d = .ok (cid', d')) :
    ∃ (c : Chunk) (dmid : Draft) (e : EdgeRecord), Wrote d dmid c ∧ d' = dmid.add ⟨[], [e]⟩ ∧
      (∀ n ∈ c.nodes, n.kind = containment) ∧
      (∀ owner kind, kind ≠ declaredBy → targets c.edges owner kind = []) ∧ e.source = sid ∧
      (role = adversary → e.kind = contained) ∧
      (role ≠ adversary → e.kind = binds ∧ e.target = roleId) := by
  rw [addRole] at h
  split_ifs at h with hrole
  · obtain ⟨id, mid, hnode, h⟩ := bind_eq_ok.mp h
    obtain ⟨c, hwrote, hkinds, htargets⟩ := containmentNode_spec hnode
    obtain ⟨⟨⟩, mid', hedge, h⟩ := bind_eq_ok.mp h
    obtain ⟨e, rfl, hsource, hkind, -⟩ := addEdge_spec hedge
    obtain ⟨-, rfl⟩ := pure_eq_ok.mp h
    exact ⟨c, mid, e, hwrote, rfl, hkinds, htargets, hsource, fun _ ↦ hkind,
      fun hne ↦ absurd hrole hne⟩
  · obtain ⟨⟨⟩, mid, hedge, h⟩ := bind_eq_ok.mp h
    obtain ⟨e, rfl, hsource, hkind, htarget⟩ := addEdge_spec hedge
    obtain ⟨-, rfl⟩ := pure_eq_ok.mp h
    exact ⟨_, d, e, .nil d, rfl, nofun, fun _ _ _ ↦ rfl, hsource, fun heq ↦ absurd heq hrole,
      fun _ ↦ ⟨hkind, htarget⟩⟩

theorem addSubject_spec (h : addSubject layer roles aliases sectionId cid s d = .ok (cid', d')) :
    ∃ (n : NodeRecord) (c : Chunk), Wrote d d' c ∧ n ∈ c.nodes ∧
      c.nodes.filter (fun m ↦ m.kind = subjectKind) = [n] ∧
      (∀ m ∈ c.nodes, m.kind = subjectKind ∨ m.kind = containment) ∧
      SubjectRecord roles aliases c.edges s n := by
  rw [addSubject] at h
  cases hrole : roles[s.role]? with
  | none =>
    rw [hrole] at h
    exact absurd h refuse_ne_ok
  | some roleId =>
    rw [hrole] at h
    obtain ⟨sid, mid, hnode, h⟩ := bind_eq_ok.mp h
    obtain ⟨n, hfirst, rfl, hn⟩ := addNode_spec hnode
    obtain ⟨cid'', mid', hadd, h⟩ := bind_eq_ok.mp h
    obtain ⟨c, dmid, e, hwrote, rfl, hkinds, htargets, hsource, hcontained, hbound⟩ :=
      addRole_spec hadd
    obtain ⟨⟨⟩, mid'', hdeclare, h⟩ := bind_eq_ok.mp h
    obtain ⟨edges, rfl, hedges⟩ := declare_spec hdeclare
    obtain ⟨-, rfl⟩ := pure_eq_ok.mp h
    let own : Chunk := ⟨[n], []⟩ ++ c ++ ⟨[], [e]⟩ ++ ⟨[], edges⟩
    have hown : ∀ kind, kind ≠ declaredBy → targets own.edges n.id kind =
        if e.kind = kind then [e.target] else [] := by
      intro kind hkind
      show targets ([] ++ c.edges ++ [e] ++ edges) n.id kind = _
      rw [targets_append, targets_append, targets_append, htargets _ _ hkind,
        targets_of_kind fun e he heq ↦ hkind (heq.symm.trans (hedges e he).2), targets_cons,
        hsource]
      simp
    have hnodes : own.nodes = n :: c.nodes := by simp [own]
    have hkept : Wrote d ((dmid.add ⟨[], [e]⟩).add ⟨[], edges⟩) own := by
      refine ((hfirst.append hwrote).addEdges fun f hf ↦ ⟨n, ?_, ?_⟩).addEdges
        fun f hf ↦ ⟨n, ?_, (hedges f hf).1⟩
      · exact mem_cons_self
      · rw [mem_singleton.mp hf, hsource]
      · simp
    refine ⟨n, own, hkept, hnodes ▸ mem_cons_self, ?_, ?_,
      ⟨hn.kind_eq, hn.key_eq, hn.attrs_eq, ?_, ?_⟩⟩
    · have hnone : c.nodes.filter (fun m ↦ m.kind = subjectKind) = [] :=
        filter_eq_nil_iff.mpr fun m hm ↦ by
          rw [hkinds m hm]
          decide
      rw [hnodes, filter_cons_of_pos (by simp [hn.kind_eq]), hnone]
    · intro m hm
      rw [hnodes] at hm
      rcases mem_cons.mp hm with rfl | hm
      · exact .inl hn.kind_eq
      · exact .inr (hkinds m hm)
    · intro hadv
      rw [hown _ (by decide), hown _ (by decide), hcontained hadv]
      exact ⟨⟨_, rfl⟩, rfl⟩
    · intro hadv
      rw [hown _ (by decide), hown _ (by decide), (hbound hadv).1, (hbound hadv).2]
      exact ⟨rfl, roleId, hrole, rfl⟩

theorem SubjectRecord.of_targets {edges edges' n}
    (h : SubjectRecord roles aliases edges s n)
    (hsame : ∀ kind, targets edges' n.id kind = targets edges n.id kind) :
    SubjectRecord roles aliases edges' s n where
  kind_eq := h.kind_eq
  key_eq := h.key_eq
  attrs_eq := h.attrs_eq
  contained_of hrole := by rw [hsame, hsame]; exact h.contained_of hrole
  bound_of hrole := by rw [hsame, hsame]; exact h.bound_of hrole

/-- The subjects, in the order they are written. -/
theorem addSubjects_spec {subjects}
    (h : subjects.foldlM (addSubject layer roles aliases sectionId) cid d = .ok (cid', d')) :
    ∃ c : Chunk, Wrote d d' c ∧ (∀ n ∈ c.nodes, n.kind = subjectKind ∨ n.kind = containment) ∧
      ((c.nodes.map NodeRecord.id).Nodup →
        List.Forall₂ (SubjectRecord roles aliases c.edges) subjects
          (c.nodes.filter fun n ↦ n.kind = subjectKind)) := by
  induction subjects generalizing cid d with
  | nil =>
    obtain ⟨-, rfl⟩ := pure_eq_ok.mp h
    exact ⟨_, .nil d, nofun, fun _ ↦ .nil⟩
  | cons s subjects ih =>
    obtain ⟨mid, dmid, hstep, h⟩ := bind_eq_ok.mp h
    obtain ⟨n, own, hown, hn, hfilter, hkinds, hrecord⟩ := addSubject_spec hstep
    obtain ⟨c, hwrote, hkinds', hrecords⟩ := ih h
    refine ⟨own ++ c, hown.append hwrote, forall_mem_append.mpr ⟨hkinds, hkinds'⟩, fun hnodup ↦ ?_⟩
    · have hnodup' : (((⟨[], []⟩ : Chunk) ++ own ++ c).nodes.map NodeRecord.id).Nodup := hnodup
      have hnodup'' : ((own ++ c ++ (⟨[], []⟩ : Chunk)).nodes.map NodeRecord.id).Nodup := by
        simpa using hnodup
      have hrest : (c.nodes.map NodeRecord.id).Nodup := by
        rw [Chunk.nodes_append, map_append] at hnodup
        exact hnodup.of_append_right
      rw [Chunk.nodes_append, filter_append, hfilter]
      refine .cons (hrecord.of_targets fun kind ↦ ?_) (forall₂_imp_of_mem (hrecords hrest)
        fun s' m hm hrecord' ↦ hrecord'.of_targets fun kind ↦ ?_)
      · exact targets_of_mem kind ⟨[], []⟩ hn hnodup' nofun hwrote.isLocal
      · have := targets_of_mem kind _ (mem_of_mem_filter hm) hnodup'' hown.isLocal nofun
        simpa using this

/-! ### The sync state -/

/-- The node of the sync state. -/
structure SyncRecord (source : NodeId) (sourceKey : String) (edges : List EdgeRecord) (s : SyncBase)
    (n : NodeRecord) : Prop where
  kind_eq : n.kind = syncBaseKind
  key_eq : n.key = Sync.syncKey sourceKey
  attrs_eq : n.attrs = strAttrs [(attrBase, s.base), (attrLive, s.live),
    (attrConflicts, s.conflicts)]
  base_ne : s.base ≠ ""
  live_ne : s.live ≠ ""
  conflicts_ne : s.conflicts ≠ ""
  part_of : targets edges n.id partOf = [source]

theorem Sync.build_spec {sourceKey sync u}
    (h : Sync.build source sourceKey sync d = .ok (u, d')) :
    ∃ c : Chunk, Wrote d d' c ∧
      List.Forall₂ (SyncRecord source sourceKey c.edges) sync.toList c.nodes := by
  cases sync with
  | none =>
    obtain ⟨-, rfl⟩ := pure_eq_ok.mp h
    exact ⟨_, .nil d, .nil⟩
  | some s =>
    obtain ⟨⟨⟩, mid, hfields, h⟩ := bind_eq_ok.mp h
    obtain ⟨⟨⟩, mid₁, hbase, hfields⟩ := bind_eq_ok.mp hfields
    obtain ⟨⟨⟩, mid₂, hlive, hfields⟩ := bind_eq_ok.mp hfields
    obtain ⟨⟨⟩, mid₃, hconflicts, hfields⟩ := bind_eq_ok.mp hfields
    obtain ⟨hbase_ne, rfl⟩ := refuseIf_eq_ok hbase
    obtain ⟨hlive_ne, rfl⟩ := refuseIf_eq_ok hlive
    obtain ⟨hconflicts_ne, rfl⟩ := refuseIf_eq_ok hconflicts
    obtain ⟨-, rfl⟩ := pure_eq_ok.mp hfields
    obtain ⟨id, mid, hnode, h⟩ := bind_eq_ok.mp h
    obtain ⟨n, hwrote, rfl, hn⟩ := addNode_spec hnode
    obtain ⟨e, rfl, hsource, hkind, htarget⟩ := addEdge_spec h
    refine ⟨_, hwrote.addEdges fun f hf ↦ ?_, .cons
      ⟨hn.kind_eq, hn.key_eq, hn.attrs_eq, hbase_ne, hlive_ne, hconflicts_ne, ?_⟩ .nil⟩
    · exact ⟨n, mem_singleton_self n, mem_singleton.mp hf ▸ hsource⟩
    · show targets [e] n.id partOf = [source]
      rw [targets_cons, if_pos ⟨hsource, hkind⟩, htarget, targets_nil]

end Identity

/-! ### The baseline -/

namespace Baseline

open Identity

/-- The node of a section of the baseline. -/
structure SectionRecord (source : NodeId) (edges : List EdgeRecord) (entry : String × String)
    (n : NodeRecord) : Prop where
  kind_eq : n.kind = sectionKind
  key_eq : n.key = sectionKey entry.1
  attrs_eq : n.attrs = strAttrs [(attrValue, entry.2)]
  name_ne : entry.1 ≠ ""
  part_of : targets edges n.id partOf = [source]

theorem addSections_spec {source : NodeId} {entries : List (String × String)}
    {core core' : Option NodeId} {d d' : Draft}
    (h : entries.foldlM (addSection source) core d = .ok (core', d')) :
    ∃ c : Chunk, Wrote d d' c ∧ (∀ e ∈ c.edges, e.kind = partOf) ∧
      ((c.nodes.map NodeRecord.id).Nodup →
        List.Forall₂ (SectionRecord source c.edges) entries c.nodes) := by
  induction entries generalizing core d with
  | nil =>
    obtain ⟨-, rfl⟩ := pure_eq_ok.mp h
    exact ⟨_, .nil d, nofun, fun _ ↦ .nil⟩
  | cons entry entries ih =>
    obtain ⟨mid, dmid, hstep, h⟩ := bind_eq_ok.mp h
    obtain ⟨id, dnode, hnode, hstep⟩ := bind_eq_ok.mp hstep
    obtain ⟨n, hfirst, rfl, hn⟩ := addNode_spec hnode
    obtain ⟨⟨⟩, dname, hname, hstep⟩ := bind_eq_ok.mp hstep
    obtain ⟨hname_ne, rfl⟩ := refuseIf_eq_ok hname
    obtain ⟨⟨⟩, dedge, hedge, hstep⟩ := bind_eq_ok.mp hstep
    obtain ⟨e, rfl, hsource, hkind, htarget⟩ := addEdge_spec hedge
    obtain ⟨-, rfl⟩ := pure_eq_ok.mp hstep
    obtain ⟨c, hwrote, hkinds, hrecords⟩ := ih h
    have hown : Wrote d _ ⟨[n], [e]⟩ := hfirst.addEdges fun f hf ↦
      ⟨n, mem_singleton_self n, mem_singleton.mp hf ▸ hsource⟩
    refine ⟨⟨[n], [e]⟩ ++ c, hown.append hwrote, fun f hf ↦ ?_, fun hnodup ↦ ?_⟩
    · rcases mem_cons.mp hf with rfl | hf
      · exact hkind
      · exact hkinds f hf
    · have hnodup' : ((⟨[n], [e]⟩ ++ c ++ (⟨[], []⟩ : Chunk)).nodes.map NodeRecord.id).Nodup := by
        simpa using hnodup
      have hnot : n.id ∉ c.nodes.map NodeRecord.id := (nodup_cons.mp hnodup).1
      refine .cons ⟨hn.kind_eq, hn.key_eq, hn.attrs_eq, hname_ne, ?_⟩
        (forall₂_imp_of_mem (hrecords (nodup_cons.mp hnodup).2) fun entry' m hm hrecord ↦
          { hrecord with part_of := ?_ })
      · show targets (e :: c.edges) n.id partOf = [source]
        rw [targets_cons, if_pos ⟨hsource, hkind⟩, htarget,
          targets_of_local hwrote.isLocal fun m hm heq ↦
            hnot (mem_map.mpr ⟨m, hm, heq⟩)]
      · have := targets_of_mem partOf _ hm hnodup' hown.isLocal nofun
        rw [← hrecord.part_of]
        simpa using this

/-- The nodes of a baseline. -/
structure Nodes where
  source : NodeRecord
  sections : List NodeRecord
  inst : NodeRecord
  system : NodeRecord
  level : NodeRecord

/-- The nodes, in the order they are written. -/
def Nodes.toList (n : Nodes) : List NodeRecord :=
  n.source :: n.sections ++ [n.inst, n.system, n.level]

/-- The records of a baseline. -/
structure Records (bl : BaselineLayer) (edges : List EdgeRecord) (n : Nodes) : Prop where
  source_kind : n.source.kind = configSource
  source_key : n.source.key = baselineSourceKey
  source_attrs : n.source.attrs = strAttrs ((attrSha256, hex bl.sha256) ::
    bl.movedFrom.toList.map fun path ↦ (attrMovedFrom, path))
  sections_ne : bl.sections.isEmpty = false
  sections : List.Forall₂ (SectionRecord n.source.id edges) bl.sections.toList n.sections
  inst_kind : n.inst.kind = instanceKind
  inst_key : n.inst.key = instanceKey
  system_kind : n.system.kind = classificationSystem
  system_key : n.system.key = bl.system
  level_kind : n.level.kind = level
  level_key : n.level.key = levelKey bl.system bl.ceiling
  declares_system : targets edges n.inst.id declares = [n.system.id]
  level_of_system : targets edges n.level.id levelOf = [n.system.id]

theorem add_spec {bl u d d'} (h : add bl d = .ok (u, d')) :
    ∃ (n : Nodes) (edges : List EdgeRecord), Wrote d d' ⟨n.toList, edges⟩ ∧
      ((n.toList.map NodeRecord.id).Nodup → Records bl edges n) := by
  obtain ⟨sid, d₁, hnode, h⟩ := bind_eq_ok.mp h
  obtain ⟨source, hwrote₁, rfl, hsource⟩ := addNode_spec hnode
  obtain ⟨⟨⟩, d₂, hempty, h⟩ := bind_eq_ok.mp h
  obtain ⟨hsections_ne, rfl⟩ := refuseIf_eq_ok hempty
  obtain ⟨core, d₃, hfold, h⟩ := bind_eq_ok.mp h
  obtain ⟨⟨sections, edges₂⟩, hwrote₂, hkinds, hrecords⟩ := addSections_spec hfold
  obtain ⟨iid, d₄, hnode₄, h⟩ := bind_eq_ok.mp h
  obtain ⟨inst, hwrote₄, rfl, hinst⟩ := addNode_spec hnode₄
  obtain ⟨yid, d₅, hnode₅, h⟩ := bind_eq_ok.mp h
  obtain ⟨system, hwrote₅, rfl, hsystem⟩ := addNode_spec hnode₅
  obtain ⟨lid, d₆, hnode₆, h⟩ := bind_eq_ok.mp h
  obtain ⟨lvl, hwrote₆, rfl, hlevel⟩ := addNode_spec hnode₆
  obtain ⟨⟨⟩, d₇, hedge₇, h⟩ := bind_eq_ok.mp h
  obtain ⟨e₇, rfl, hsource₇, hkind₇, htarget₇⟩ := addEdge_spec hedge₇
  obtain ⟨⟨⟩, d₈, hedge₈, h⟩ := bind_eq_ok.mp h
  obtain ⟨e₈, rfl, hsource₈, hkind₈, htarget₈⟩ := addEdge_spec hedge₈
  obtain ⟨⟨⟩, d₉, hdeclare₉, h⟩ := bind_eq_ok.mp h
  obtain ⟨edges₉, rfl, hedges₉⟩ := declare_spec hdeclare₉
  obtain ⟨⟨⟩, d₁₀, hdeclare₁₀, h⟩ := bind_eq_ok.mp h
  obtain ⟨edges₁₀, rfl, hedges₁₀⟩ := declare_spec hdeclare₁₀
  obtain ⟨edges₁₁, rfl, hedges₁₁⟩ := declare_spec h
  have hnodes := (((hwrote₁.append hwrote₂).append hwrote₄).append hwrote₅).append hwrote₆
  simp only [Chunk.append_def, append_assoc] at hnodes
  let n : Nodes := ⟨source, sections, inst, system, lvl⟩
  let rest := [e₇, e₈] ++ (edges₉ ++ (edges₁₀ ++ edges₁₁))
  -- the edges after those of the sections start at the last three nodes
  have hrest : ∀ e ∈ rest, ∃ m ∈ n.toList, e.source = m.id := by
    intro e he
    have hlast : ∀ m ∈ [inst, system, lvl], m ∈ n.toList := fun m ↦ mem_append_right _
    simp only [rest, mem_append, mem_cons, not_mem_nil, or_false] at he
    rcases he with (rfl | rfl) | he | he | he
    · exact ⟨inst, hlast _ (by simp), hsource₇⟩
    · exact ⟨lvl, hlast _ (by simp), hsource₈⟩
    · exact ⟨inst, hlast _ (by simp), (hedges₉ e he).1⟩
    · exact ⟨system, hlast _ (by simp), (hedges₁₀ e he).1⟩
    · exact ⟨lvl, hlast _ (by simp), (hedges₁₁ e he).1⟩
  refine ⟨n, edges₂ ++ rest, ?_, fun hnodup ↦ ?_⟩
  · have hall := hnodes.addEdges hrest
    simpa [Draft.add_add, Chunk.append_def, n, Nodes.toList, rest] using hall
  · have hdeclared : ∀ kind id, kind ≠ declaredBy →
        targets (edges₉ ++ (edges₁₀ ++ edges₁₁)) id kind = [] := by
      refine fun kind id hkind ↦ targets_of_kind fun e he heq ↦ hkind (heq.symm.trans ?_)
      rw [mem_append, mem_append] at he
      exact he.elim (fun he ↦ (hedges₉ e he).2) fun he ↦
        he.elim (fun he ↦ (hedges₁₀ e he).2) fun he ↦ (hedges₁₁ e he).2
    have hothers : ∀ kind id, kind ≠ partOf → kind ≠ declaredBy →
        targets (edges₂ ++ rest) id kind = targets [e₇, e₈] id kind := by
      intro kind id hpart hkind
      rw [targets_append, targets_append, hdeclared kind id hkind, append_nil,
        targets_of_kind fun e he heq ↦ hpart (heq.symm.trans (hkinds e he)), nil_append]
    refine {
      source_kind := hsource.kind_eq, source_key := hsource.key_eq, source_attrs := hsource.attrs_eq
      sections_ne := by simpa using hsections_ne
      inst_kind := hinst.kind_eq, inst_key := hinst.key_eq
      system_kind := hsystem.kind_eq, system_key := hsystem.key_eq
      level_kind := hlevel.kind_eq, level_key := hlevel.key_eq
      sections := ?_, declares_system := ?_, level_of_system := ?_ }
    · have hsections : (sections.map NodeRecord.id).Nodup := by
        rw [Nodes.toList, cons_append, map_cons, map_append] at hnodup
        exact (nodup_cons.mp hnodup).2.of_append_left
      refine (hrecords hsections).imp fun entry m hrecord ↦ { hrecord with part_of := ?_ }
      have hnone : targets rest m.id partOf = [] := by
        rw [targets_append, hdeclared _ _ (by decide), append_nil]
        refine targets_of_kind fun e he ↦ ?_
        rcases mem_cons.mp he with rfl | he
        · rw [hkind₇]
          decide
        · rw [mem_singleton.mp he, hkind₈]
          decide
      rw [targets_append, hnone, append_nil]
      exact hrecord.part_of
    · rw [hothers _ _ (by decide) (by decide), targets_cons, if_pos ⟨hsource₇, hkind₇⟩, htarget₇,
        targets_cons, if_neg fun hsame ↦ absurd (hkind₈.symm.trans hsame.2) (by decide)]
      rfl
    · rw [hothers _ _ (by decide) (by decide), targets_cons,
        if_neg fun hsame ↦ absurd (hkind₇.symm.trans hsame.2) (by decide), targets_cons,
        if_pos ⟨hsource₈, hkind₈⟩, htarget₈]
      rfl

end Baseline

/-! ### All layers -/

/-- The parts of a written graph. -/
structure Parts where
  source : NodeRecord
  vocabulary : NodeRecord
  compiled : Chunk
  bindings : Chunk
  subjects : Chunk
  sync : Chunk
  baseline : Option Baseline.Nodes
  baselineEdges : List EdgeRecord
  /-- Where the roles are. -/
  roles : Identity.RoleIds
  /-- The aliases of each uid. -/
  aliases : Identity.AliasNames

namespace Parts

def chunks (p : Parts) : List Chunk :=
  [⟨[p.source, p.vocabulary], []⟩, p.compiled, p.bindings, p.subjects, p.sync,
    ⟨p.baseline.elim [] Baseline.Nodes.toList, p.baselineEdges⟩]

def chunk (p : Parts) : Chunk := .concat p.chunks

end Parts

open Identity in
/-- What the parts hold. -/
structure Holds (layer : IdentityLayer) (baseline : Option BaselineLayer) (sync : Option SyncBase)
    (compiled : CompiledSet) (vocabularySha256 : Digest) (p : Parts) : Prop where
  source_kind : p.source.kind = configSource
  source_key : p.source.key = layer.source
  source_label : p.source.label = layer.label
  vocabulary_kind : p.vocabulary.kind = configSource
  vocabulary_key : p.vocabulary.key = vocabularySourceKey
  vocabulary_attrs : p.vocabulary.attrs = strAttrs [(attrSha256, hex vocabularySha256)]
  compiled_eq : List.Forall₂ CompiledRecord compiled.nodes p.compiled.nodes
  roles_eq : ∀ role id, p.roles[role]? = some id →
    ∃ n ∈ p.compiled.nodes, n.kind = roleKind ∧ n.key = role ∧ n.id = id
  bindings_eq : List.Forall₂ (SectionRecord layer) layer.bindingsSha256.toList p.bindings.nodes
  aliases_eq : aliasNames layer = .ok p.aliases
  subjects_kind : ∀ n ∈ p.subjects.nodes, n.kind = subjectKind ∨ n.kind = containment
  subjects_eq : List.Forall₂ (SubjectRecord p.roles p.aliases p.subjects.edges)
    (sortByKey (fun s ↦ s.uid.toNat) layer.subjects)
    (p.subjects.nodes.filter fun n ↦ n.kind = subjectKind)
  sync_eq : List.Forall₂ (SyncRecord p.source.id layer.source p.sync.edges) sync.toList p.sync.nodes
  baseline_eq : List.Forall₂ (fun bl ↦ Baseline.Records bl p.baselineEdges) baseline.toList
    p.baseline.toList

theorem Baseline.build_spec (h : Baseline.build baseline d = .ok (u, d')) :
    ∃ (n : Option Nodes) (edges : List EdgeRecord), Wrote d d' ⟨n.elim [] Nodes.toList, edges⟩ ∧
      (((n.elim [] Nodes.toList).map NodeRecord.id).Nodup →
        List.Forall₂ (fun bl ↦ Records bl edges) baseline.toList n.toList) := by
  cases baseline with
  | none =>
    obtain ⟨-, rfl⟩ := pure_eq_ok.mp h
    exact ⟨none, [], .nil d, fun _ ↦ .nil⟩
  | some bl =>
    obtain ⟨n, edges, hwrote, hrecords⟩ := Baseline.add_spec h
    exact ⟨some n, edges, hwrote, fun hnodup ↦ .cons (hrecords hnodup) .nil⟩

/-- What the pass writes. -/
theorem Identity.draft_spec (hlabel : d.label = layer.label)
    (h : draft layer baseline sync compiled vocabularySha256 d = .ok (u, d')) :
    ∃ p : Parts, Wrote d d' p.chunk ∧ (∀ c ∈ p.chunks, c.Local) ∧
      ((p.chunk.nodes.map NodeRecord.id).Nodup →
        Holds layer baseline sync compiled vocabularySha256 p) := by
  obtain ⟨sid, d₁, hnode₁, h⟩ := bind_eq_ok.mp h
  obtain ⟨source, hwrote₁, rfl, hsource⟩ := addNode_spec hnode₁
  obtain ⟨vid, d₂, hnode₂, h⟩ := bind_eq_ok.mp h
  obtain ⟨vocabulary, hwrote₂, -, hvocabulary⟩ := addNode_spec hnode₂
  obtain ⟨roles, d₃, hcompiled, h⟩ := bind_eq_ok.mp h
  obtain ⟨comp, hwrote₃, -, hcompiled, hroles⟩ := addCompiled_spec hcompiled
  obtain ⟨sectionId, d₄, hsection, h⟩ := bind_eq_ok.mp h
  obtain ⟨bindings, hwrote₄, hbindings⟩ := addBindingsSection_spec hsection
  obtain ⟨aliases, d₅, hlift, h⟩ := bind_eq_ok.mp h
  obtain ⟨haliases, rfl⟩ := liftM_eq_ok.mp hlift
  obtain ⟨cid, d₆, hsubjects, h⟩ := bind_eq_ok.mp h
  obtain ⟨subjects, hwrote₆, hkinds, hsubjects⟩ := addSubjects_spec hsubjects
  obtain ⟨⟨⟩, d₇, hsync, h⟩ := bind_eq_ok.mp h
  obtain ⟨syncChunk, hwrote₇, hsync⟩ := Sync.build_spec hsync
  obtain ⟨n, edges, hwrote₈, hbaseline⟩ := Baseline.build_spec h
  let p : Parts := ⟨source, vocabulary, comp, bindings, subjects, syncChunk, n, edges, roles,
    aliases⟩
  have hchunk : ⟨[source], []⟩ ++ ⟨[vocabulary], []⟩ ++ comp ++ bindings ++ subjects ++ syncChunk ++
      ⟨n.elim [] Baseline.Nodes.toList, edges⟩ = p.chunk := by
    simp [Parts.chunk, Chunk.concat, Parts.chunks, Chunk.append_def, p]
  have hwrote := (((((hwrote₁.append hwrote₂).append hwrote₃).append hwrote₄).append hwrote₆).append
    hwrote₇).append hwrote₈
  rw [hchunk] at hwrote
  refine ⟨p, hwrote, fun c hc ↦ ?_, fun hnodup ↦ ?_⟩
  · simp only [Parts.chunks, mem_cons, not_mem_nil, or_false] at hc
    rcases hc with rfl | rfl | rfl | rfl | rfl | rfl
    · nofun
    · exact hwrote₃.isLocal
    · exact hwrote₄.isLocal
    · exact hwrote₆.isLocal
    · exact hwrote₇.isLocal
    · exact hwrote₈.isLocal
  · have hpart : ∀ c ∈ p.chunks, (c.nodes.map NodeRecord.id).Nodup := by
      rw [Parts.chunk, Chunk.concat, map_flatMap, nodup_flatMap] at hnodup
      exact hnodup.1
    exact {
      source_kind := hsource.kind_eq, source_key := hsource.key_eq
      source_label := hsource.label_eq.trans hlabel
      vocabulary_kind := hvocabulary.kind_eq, vocabulary_key := hvocabulary.key_eq
      vocabulary_attrs := hvocabulary.attrs_eq
      compiled_eq := hcompiled
      roles_eq := fun role id hid ↦ (hroles role id hid).resolve_left (by simp)
      bindings_eq := hbindings
      aliases_eq := haliases
      subjects_kind := hkinds
      subjects_eq := hsubjects (hpart subjects (by simp [Parts.chunks, p]))
      sync_eq := hsync
      baseline_eq := hbaseline (hpart ⟨n.elim [] Baseline.Nodes.toList, edges⟩
        (by simp [Parts.chunks, p])) }

/-! ### The finished graph -/

/-- The graph of the parts, and what it answers. -/
structure Written (layer : IdentityLayer) (baseline : Option BaselineLayer) (sync : Option SyncBase)
    (compiled : CompiledSet) (vocabularySha256 : Digest) (p : Parts) (g : Graph) : Prop
    extends Holds layer baseline sync compiled vocabularySha256 p where
  nodes_eq : g.nodes = p.chunk.nodes
  nodes_nodup : g.nodes.Nodup
  compiled_kind : ∀ n ∈ p.compiled.nodes, n.kind ∈ kernelSchema.compiledKinds
  node_eq : ∀ n ∈ g.nodes, g.node n.id = some n
  lookup_eq : ∀ n ∈ g.nodes, g.lookup n.kind n.key = some n
  mem_of_lookup : ∀ kind key n, g.lookup kind key = some n → n ∈ g.nodes ∧
    n.kind = kind ∧ n.key = key
  /-- The edges of a node are those of its part. -/
  out_perm : ∀ c ∈ p.chunks, ∀ n ∈ c.nodes, ∀ kind,
    ((g.outEdges n.id kind).map EdgeRecord.target).Perm (targets c.edges n.id kind)

/-- Numbered nodes are in order. -/
theorem Draft.Numbers.pairwise {d : Draft} {c : Chunk} (h : d.Numbers c) (hd : d.nodes = [])
    (hlength : c.nodes.length < 2 ^ 64) :
    c.nodes.Pairwise fun m n ↦ m.id.val.toNat < n.id.val.toNat := by
  have hids : (c.nodes.map NodeRecord.id).Pairwise fun a b ↦ a.val.toNat < b.val.toNat := by
    rw [h, hd, pairwise_map]
    refine (pairwise_lt_range').imp_of_mem fun {i j} hi hj hlt ↦ ?_
    have hi' := mem_range'_1.mp hi
    have hj' := mem_range'_1.mp hj
    have hsize : ∀ k < 1 + c.nodes.length, k < UInt64.size := fun k hk ↦ by
      rw [show UInt64.size = 2 ^ 64 from rfl]
      omega
    rw [UInt64.toNat_ofNat_of_lt' (hsize i hi'.2), UInt64.toNat_ofNat_of_lt' (hsize j hj'.2)]
    exact hlt
  rwa [pairwise_map] at hids

theorem Identity.ofGraphError_eq_ok {α : Type} {x : Outcome GraphError α} {a}
    (h : Identity.ofGraphError x = .ok a) : x = .ok a := by
  rcases x with (_ | _) | b
  · cases h
  · cases h
  · cases h
    rfl

section

variable (h : Identity.build layer baseline sync compiled vocabularySha256 revision initiator =
    .ok g)

include h

/-- **What the graph of the layers holds.** -/
theorem exists_written :
    (∃ b : GraphBuilder, b.space = .kernel ∧ b.revision = revision ∧
      b.build kernelSchema compiled = .ok g) ∧
    ∃ p, Written layer baseline sync compiled vocabularySha256 p g := by
  rw [Identity.build] at h
  split at h
  · cases h
  rename_i u d hdraft
  obtain ⟨p, hwrote, hlocal, hholds⟩ := Identity.draft_spec rfl hdraft
  obtain ⟨g', hgraph, h⟩ := Except.bind_eq_ok.mp h
  obtain rfl : g' = g := by
    split at h
    · cases h
    · exact Except.pure_eq_ok.mp h
  have hbuild : GraphBuilder.build ⟨.kernel, revision, d.nodes, d.edges⟩ kernelSchema compiled =
      .ok g' := Identity.ofGraphError_eq_ok hgraph
  refine ⟨⟨_, rfl, rfl, hbuild⟩, p, ?_⟩
  obtain ⟨⟨g, bytes⟩, hencoded, rfl⟩ := Except.bind_pure_eq_ok.mp hbuild
  have hchunk : d.nodes = p.chunk.nodes ∧ d.edges = p.chunk.edges := by
    rw [hwrote.eq_add]
    exact ⟨rfl, rfl⟩
  have hperm : g.nodes.Perm p.chunk.nodes := by
    rw [(GraphBuilder.builtFrom hencoded).nodes_eq, ← hchunk.1]
    exact sortByKey_perm _ _
  have hlength : p.chunk.nodes.length < 2 ^ 64 := by
    have := length_nodes_of_build hencoded
    rw [hperm.length_eq] at this
    omega
  have hlt := hwrote.numbers.pairwise rfl hlength
  have hnodes : g.nodes = p.chunk.nodes := by
    rw [(GraphBuilder.builtFrom hencoded).nodes_eq]
    exact sortByKey_eq_of_perm (.of_eq hchunk.1) hlt
  have hnodup : (p.chunk.nodes.map NodeRecord.id).Nodup :=
    pairwise_map.mpr (hlt.imp fun hab heq ↦ by simp [heq] at hab)
  have hheld := hholds hnodup
  exact {
    hheld with
    nodes_eq := hnodes
    nodes_nodup := hnodes ▸ .of_map _ hnodup
    compiled_kind := fun n hn ↦ by
      obtain ⟨c, hc, hrecord⟩ := hheld.compiled_eq.exists_mem_left hn
      obtain ⟨-, -, -, -, hcompiled, -⟩ := checkRecords_eq_ok.mp (GraphBuilder.checked hencoded)
      rw [hrecord.kind_eq]
      have := hcompiled c hc
      rw [checkCompiled] at this
      by_contra hnot
      rw [if_pos (by simpa [Schema.isCompiled] using hnot)] at this
      cases this
    node_eq := fun n hn ↦ node_of_build hencoded hn
    lookup_eq := fun n hn ↦ lookup_of_mem hencoded hn
    mem_of_lookup := fun kind key n hn ↦ mem_of_lookup hencoded hn
    out_perm := fun c hc n hn kind ↦ by
      have hmem : n ∈ g.nodes := hnodes ▸ mem_flatMap.mpr ⟨c, hc, hn⟩
      rw [← targets_concat hc hn hnodup hlocal, outEdges_of_build hencoded hmem]
      have hedges : g.edges.Perm (Chunk.concat p.chunks).edges :=
        hchunk.2 ▸ edges_perm_of_build hencoded
      exact (hedges.filter _).map _ }

theorem revision_of_build : g.revision = revision := by
  obtain ⟨⟨b, -, hrevision, hbuild⟩, -⟩ := exists_written h
  obtain ⟨⟨g, bytes⟩, hencoded, rfl⟩ := Except.bind_pure_eq_ok.mp hbuild
  rw [(b.builtFrom hencoded).revision_eq, hrevision]

end

end Maknae.StateGraph
