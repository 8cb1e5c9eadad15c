import Maknae.Kernel.MutationExchange
import Mathlib.Logic.Function.Basic
import Mathlib.Logic.Relation

/-!
# The exchanges of a service

A daemon has many exchanges open at once, and the client of each sends what it likes. A
`PendingReport` is the one thing that crosses between them: it is handed out by `validateReport`,
held while the report goes to the audit trail, and handed in again by `acknowledge`. It can also be
lost, or handed to another exchange.

A `Service` is the open exchanges with the pendings that are held. A pending keeps the identity of
its exchange alive, so a new exchange never has the identity of one whose pending is still held.
That is what the invariant rests on: a held pending is the answer to a report that its exchange, as
it is now, accepts (`ServiceInv.held`), so handing it in can be judged as if the report had just
been checked. `Ledger` is what an exchange and its acknowledged reports satisfy along the way.
-/

namespace Maknae.Kernel

open Except List Option Text

/-! ### What an accepted report says -/

/-- The path is canonical and one the scope covers, not too deep below the root of a deletion. -/
structure Within (scope : MutationScope) (limits : MutationLimits) (path : String) : Prop where
  canonical : IsCanonical path
  holds : scope.Holds path
  depth : ∀ root, scope = .recursiveDelete root →
    (components path).length ≤ (components root).length + limits.maxDepth.toNat

/-- The components of a path are those of the root and of what is below. -/
theorem components_of_suffixBelow {root path suffix} (habsolute : startsWithChar '/' path)
    (h : suffixBelow root path = some suffix) :
    components path = components root ++ components suffix := by
  unfold suffixBelow at h
  split_ifs at h with heq hroot
  · cases h
    rw [heq, components_empty, append_nil]
  · cases h
    rw [hroot]
    conv_lhs => rw [eq_slash_append_drop habsolute]
    exact components_slash_append _
  · obtain ⟨rest, hrest, hslash⟩ := bind_eq_some_iff.mp h
    rw [stripPrefix_eq_some] at hrest hslash
    rw [hrest, hslash, ← String.append_assoc, components_append_slash]

variable {scope : MutationScope} {limits : MutationLimits} {x : MutationExchange}
  {effects : List EffectEntry}

theorem within_of_validatePath {path} (h : validatePath scope limits path = .ok ()) :
    Within scope limits path := by
  obtain ⟨hcanon, hholds⟩ := holds_of_validatePath h
  refine ⟨hcanon, hholds, ?_⟩
  rintro root rfl
  obtain ⟨⟨⟩, -, h⟩ := bind_eq_ok.mp h
  dsimp only at h
  split at h
  · cases h
  · rename_i suffix hsuffix
    split_ifs at h with hsize hdeep hdeep
    · rw [components_of_suffixBelow hcanon.absolute hsuffix, hsize]
      simp
    · rw [components_of_suffixBelow hcanon.absolute hsuffix, length_append]
      have hpieces : (components suffix).length ≤ (split '/' suffix).length :=
        length_filter_le _ _
      omega

theorem within_of_validateEntry {entry} (h : validateEntry x entry = .ok ()) :
    Within x.scope x.limits entry.path ∧ entry.effect = x.scope.expected := by
  obtain ⟨⟨⟩, hpath, -⟩ := bind_eq_ok.mp h
  exact ⟨within_of_validatePath hpath, (holds_of_validateEntry h).2.2⟩

/-- The paths of a batch are those of its effects, none seen before and none twice. -/
theorem freshPaths_eq_ok {seen : Std.ExtTreeSet String compare} {before paths}
    (hbefore : before.Nodup) (h : freshPaths seen before effects = .ok paths) :
    paths = before ++ effects.map EffectEntry.path ∧ paths.Nodup ∧
      ∀ entry ∈ effects, entry.path ∉ seen := by
  induction effects generalizing before with
  | nil =>
    cases h
    exact ⟨by simp, hbefore, nofun⟩
  | cons entry rest ih =>
    rw [freshPaths] at h
    split_ifs at h with hseen
    obtain ⟨hnew, hnot⟩ := not_or.mp hseen
    have hnodup : (before ++ [entry.path]).Nodup :=
      nodup_append.mpr ⟨hbefore, nodup_singleton _, fun a ha b hb heq ↦
        hnot (mem_singleton.mp hb ▸ heq ▸ ha)⟩
    obtain ⟨hpaths, hall, hfresh⟩ := ih hnodup h
    refine ⟨by simpa using hpaths, hall, forall_mem_cons.mpr ⟨fun hmem ↦ hnew ?_, hfresh⟩⟩
    exact Std.ExtTreeSet.contains_iff_mem.mpr hmem

/-- What an accepted batch is. -/
structure BatchOk (x : MutationExchange) (effects : List EffectEntry) (next : UInt32)
    (paths : List String) : Prop where
  nonempty : effects ≠ []
  next_eq : next.toNat = x.nextIndex.toNat + effects.length
  next_le : next ≤ x.limits.maxEffects
  within : ∀ entry ∈ effects, Within x.scope x.limits entry.path ∧ entry.effect = x.scope.expected
  /-- The root of a deletion goes last. -/
  root_last : ∀ root, x.scope = .recursiveDelete root →
    root ∉ x.seen ∧ ∀ entry ∈ effects.dropLast, entry.path ≠ root
  paths_eq : paths = effects.map EffectEntry.path
  nodup : (effects.map EffectEntry.path).Nodup
  fresh : ∀ entry ∈ effects, entry.path ∉ x.seen

theorem batchOk_of_validateBatch {next paths}
    (h : validateBatch x effects = .ok (next, paths)) :
    BatchOk x effects next paths := by
  unfold validateBatch at h
  dsimp only at h
  split_ifs at h with hsize hwide hmax
  obtain ⟨⟨⟩, hall, ⟨⟩, hroot, paths', hpaths, ⟨⟩⟩ := bind₃_eq_ok.mp h
  obtain ⟨heq, hnodup, hfresh⟩ := freshPaths_eq_ok nodup_nil hpaths
  rw [nil_append] at heq
  refine ⟨fun hnil ↦ hsize (.inl (by simp [hnil])), ?_, UInt32.not_lt.mp hmax,
    fun entry hentry ↦ ?_,
    fun root hscope ↦ ?_, heq, heq ▸ hnodup, hfresh⟩
  · rw [UInt32.toNat_add, UInt32.toNat_ofNat']
    omega
  · exact within_of_validateEntry (forM_eq_ok.mp hall entry hentry)
  · rw [rootLast, hscope] at hroot
    dsimp only at hroot
    split_ifs at hroot with hseen hany
    refine ⟨fun hmem ↦ hseen (Std.ExtTreeSet.contains_iff_mem.mpr hmem), fun entry hentry heq ↦ ?_⟩
    exact hany (any_eq_true.mpr ⟨entry, hentry, by simpa using heq⟩)

/-- What an accepted report is: a batch, or a final report the progress supports. -/
structure ReportOk (x : MutationExchange) (report : MutationReport) (pending : PendingReport) :
    Prop where
  not_terminal : x.terminal = false
  not_outstanding : x.outstanding = false
  owner_eq : pending.owner = x.owner
  cases : (∃ id first effects, report = .batch id first effects ∧ pending.terminal = false ∧
      BatchOk x effects pending.nextIndex pending.paths) ∨
    ∃ id next outcome stopped, report = .finished id next outcome stopped ∧
      pending.terminal = true ∧ pending.nextIndex = x.nextIndex ∧ pending.paths = [] ∧
      (outcome = .success → supportsSuccess x = true)

theorem validateReport_eq_ok {x x' report pending}
    (h : validateReport x report = .ok (x', pending)) :
    x' = { x with outstanding := true } ∧ ReportOk x report pending := by
  unfold validateReport at h
  split_ifs at h with hterminal houtstanding hid hindex
  have hterminal : x.terminal = false := by simpa using hterminal
  have houtstanding : x.outstanding = false := by simpa using houtstanding
  cases report with
  | batch id first effects =>
    obtain ⟨⟨next, paths⟩, hbatch, ⟨⟩⟩ := bind_pure_eq_ok.mp h
    exact ⟨rfl, hterminal, houtstanding, rfl,
      .inl ⟨id, first, effects, rfl, rfl, batchOk_of_validateBatch hbatch⟩⟩
  | finished id next outcome stopped =>
    obtain ⟨⟨⟩, hfinish, ⟨⟩⟩ := bind_pure_eq_ok.mp h
    refine ⟨rfl, hterminal, houtstanding, rfl,
      .inr ⟨id, next, outcome, stopped, rfl, rfl, rfl, rfl, fun hsuccess ↦ ?_⟩⟩
    by_contra hnot
    have hrefused : (if outcome = .success ∧ !supportsSuccess x then
        error ReportError.inconsistentClaim else .ok ()) = .ok () := by
      cases stopped with
      | none => exact hfinish
      | some path =>
        obtain ⟨⟨⟩, -, h⟩ := bind_eq_ok.mp hfinish
        exact h
    rw [if_pos ⟨hsuccess, by simpa using hnot⟩] at hrefused
    cases hrefused

/-! ### The ledger of one exchange -/

/-- The effects of a list of reports, in order. -/
def effectsOf (reports : List MutationReport) : List EffectEntry :=
  reports.flatMap MutationReport.effects

/-- The paths of a list of reports, in order. -/
def pathsOf (reports : List MutationReport) : List String :=
  (effectsOf reports).map EffectEntry.path

def MutationReport.isFinished : MutationReport → Bool
  | batch _ _ _ => false
  | finished _ _ _ _ => true

/-- An exchange and the reports it acknowledged. -/
structure Ledger (x : MutationExchange) (acked : List MutationReport) : Prop where
  nodup : (pathsOf acked).Nodup
  within : ∀ entry ∈ effectsOf acked,
    Within x.scope x.limits entry.path ∧ entry.effect = x.scope.expected
  seen_iff : ∀ path, path ∈ x.seen ↔ path ∈ pathsOf acked
  count : x.nextIndex.toNat = (effectsOf acked).length
  bound : x.nextIndex ≤ x.limits.maxEffects
  root_last : ∀ root, x.scope = .recursiveDelete root →
    ∀ entry ∈ (effectsOf acked).dropLast, entry.path ≠ root
  terminal_iff : x.terminal = acked.any MutationReport.isFinished

/-- An exchange that was just opened. -/
theorem ledger_of_open {id page owner}
    (h : MutationExchange.open id scope limits page owner = .ok x) :
    Ledger x [] ∧ x.owner = owner := by
  unfold MutationExchange.open at h
  split_ifs at h
  obtain ⟨-, -, rfl⟩ := bind_pure_eq_ok.mp h
  exact ⟨⟨nodup_nil, nofun, fun path ↦ by simp [pathsOf, effectsOf], rfl, UInt32.zero_le,
    nofun, rfl⟩, rfl⟩

section Ledger

variable {x x' : MutationExchange} {acked : List MutationReport} {report : MutationReport}
  {pending : PendingReport} {ack : MutationAck}

theorem acknowledge_eq_ok : acknowledge x pending = .ok (x', ack) ↔ x.owner = pending.owner ∧
    x' = { x with
      seen := x.seen.insertMany pending.paths
      nextIndex := pending.nextIndex
      terminal := pending.terminal
      outstanding := false } ∧ ack = ⟨x.id, pending.nextIndex⟩ := by
  unfold Kernel.acknowledge
  split_ifs with howner
  · exact ⟨nofun, fun h ↦ absurd h.1 howner⟩
  · rw [ok.injEq, Prod.mk.injEq]
    exact ⟨fun ⟨hx, hack⟩ ↦ ⟨not_not.mp howner, hx.symm, hack.symm⟩,
      fun ⟨_, hx, hack⟩ ↦ ⟨hx.symm, hack.symm⟩⟩

theorem effectsOf_append_singleton (acked : List MutationReport) (report : MutationReport) :
    effectsOf (acked ++ [report]) = effectsOf acked ++ report.effects := by
  simp [effectsOf]

/-- **An acknowledged report extends the ledger.** -/
theorem Ledger.acknowledge (h : Ledger x acked)
    (hreport : ReportOk { x with outstanding := false } report pending)
    (hack : Kernel.acknowledge x pending = .ok (x', ack)) : Ledger x' (acked ++ [report]) := by
  obtain ⟨-, rfl, -⟩ := acknowledge_eq_ok.mp hack
  have hterminal : x.terminal = false := hreport.not_terminal
  have hopen : acked.any MutationReport.isFinished = false := h.terminal_iff.symm.trans hterminal
  rcases hreport.cases with ⟨id, first, effects, rfl, hfalse, hbatch⟩ |
    ⟨id, next, outcome, stopped, rfl, htrue, hnext, hpaths, -⟩
  · have heffects : effectsOf (acked ++ [.batch id first effects]) = effectsOf acked ++ effects :=
      effectsOf_append_singleton acked _
    have hpaths : pathsOf (acked ++ [.batch id first effects]) =
        pathsOf acked ++ effects.map EffectEntry.path := by
      rw [pathsOf, heffects, map_append]
      rfl
    refine ⟨?_, ?_, fun path ↦ ?_, ?_, hbatch.next_le, fun root hscope ↦ ?_, ?_⟩
    · rw [hpaths]
      refine nodup_append.mpr ⟨h.nodup, hbatch.nodup, fun a ha b hb heq ↦ ?_⟩
      obtain ⟨entry, hentry, rfl⟩ := mem_map.mp hb
      exact hbatch.fresh entry hentry ((h.seen_iff _).mpr (heq ▸ ha))
    · rw [heffects]
      intro entry hentry
      rcases mem_append.mp hentry with hold | hnew
      · exact h.within entry hold
      · exact hbatch.within entry hnew
    · show path ∈ x.seen.insertMany pending.paths ↔ _
      rw [Std.ExtTreeSet.mem_insertMany_list, h.seen_iff, hpaths, mem_append, hbatch.paths_eq,
        contains_iff_mem]
    · show pending.nextIndex.toNat = _
      rw [hbatch.next_eq, heffects, length_append, ← h.count]
    · obtain ⟨hunseen, hlast⟩ := hbatch.root_last root hscope
      rw [heffects, dropLast_append_of_ne_nil hbatch.nonempty]
      intro entry hentry
      rcases mem_append.mp hentry with hold | hnew
      · rintro rfl
        exact hunseen ((h.seen_iff _).mpr (mem_map_of_mem hold))
      · exact hlast entry hnew
    · show pending.terminal = _
      rw [hfalse, any_append, hopen]
      rfl
  · have heffects : effectsOf (acked ++ [.finished id next outcome stopped]) = effectsOf acked := by
      rw [effectsOf_append_singleton]
      exact append_nil _
    have hsame : pathsOf (acked ++ [.finished id next outcome stopped]) = pathsOf acked := by
      rw [pathsOf, heffects]
      rfl
    refine ⟨hsame ▸ h.nodup, heffects ▸ h.within, fun path ↦ ?_, ?_, ?_, heffects ▸ h.root_last, ?_⟩
    · show path ∈ x.seen.insertMany pending.paths ↔ _
      rw [hpaths, hsame]
      exact h.seen_iff path
    · show pending.nextIndex.toNat = _
      rw [hnext, heffects]
      exact h.count
    · show pending.nextIndex ≤ _
      rw [hnext]
      exact h.bound
    · show pending.terminal = _
      rw [htrue]
      simp [MutationReport.isFinished]

/-- A flag that is no part of the ledger. -/
theorem Ledger.outstanding (h : Ledger x acked) (b : Bool) :
    Ledger { x with outstanding := b } acked :=
  ⟨h.nodup, h.within, h.seen_iff, h.count, h.bound, h.root_last, h.terminal_iff⟩

end Ledger

/-! ### The service -/

/-- An exchange with the reports it acknowledged. -/
structure Session where
  exchange : MutationExchange
  acked : List MutationReport

/-- A pending, with the report it answers. -/
structure Held where
  report : MutationReport
  pending : PendingReport

/-- The open exchanges by their identity, and the pendings that are held. -/
structure Service where
  sessions : ℕ → Option Session
  held : List Held

/-- A service that has just started. -/
def Service.idle : Service := ⟨fun _ ↦ none, []⟩

/-- What can happen to a service. A report that is refused changes nothing, so there is no step for
it; a pending that is handed to another exchange is refused and lost. -/
inductive Service.Step : Service → Service → Prop
  | opened {s : Service} {id : MutationId} {scope : MutationScope} {limits : MutationLimits}
      {page : Option PageRequest} {owner : ℕ} {x : MutationExchange}
      (hnew : s.sessions owner = none) (hfree : ∀ p ∈ s.held, p.pending.owner ≠ owner)
      (h : MutationExchange.open id scope limits page owner = .ok x) :
      Step s { s with sessions := Function.update s.sessions owner (some ⟨x, []⟩) }
  | validated {s : Service} {owner : ℕ} {ses : Session} {report : MutationReport}
      {x' : MutationExchange} {pending : PendingReport} (hses : s.sessions owner = some ses)
      (h : validateReport ses.exchange report = .ok (x', pending)) :
      Step s ⟨Function.update s.sessions owner (some ⟨x', ses.acked⟩), ⟨report, pending⟩ :: s.held⟩
  | acknowledged {s : Service} {owner : ℕ} {ses : Session} {before after : List Held} {p : Held}
      {x' : MutationExchange} {ack : MutationAck} (hses : s.sessions owner = some ses)
      (hheld : s.held = before ++ p :: after)
      (h : acknowledge ses.exchange p.pending = .ok (x', ack)) :
      Step s ⟨Function.update s.sessions owner (some ⟨x', ses.acked ++ [p.report]⟩),
        before ++ after⟩
  | lost {s : Service} {before after : List Held} {p : Held}
      (hheld : s.held = before ++ p :: after) :
      Step s { s with held := before ++ after }
  | closed (s : Service) (owner : ℕ) :
      Step s { s with sessions := Function.update s.sessions owner none }

/-- The states of a service. -/
def Service.Reachable (s : Service) : Prop := Relation.ReflTransGen Service.Step .idle s

/-- A pending is the answer its exchange would give to the report now. -/
def Held.Answers (p : Held) (x : MutationExchange) : Prop :=
  x.outstanding = true ∧ ReportOk { x with outstanding := false } p.report p.pending

/-- What every state of a service satisfies. -/
structure ServiceInv (s : Service) : Prop where
  session : ∀ o ses, s.sessions o = some ses →
    ses.exchange.owner = o ∧ Ledger ses.exchange ses.acked
  /-- No two pendings of one exchange are held. -/
  single : (s.held.map fun p ↦ p.pending.owner).Nodup
  held : ∀ p ∈ s.held, ∀ ses, s.sessions p.pending.owner = some ses → p.Answers ses.exchange

section Service

variable {s s' : Service} {owner : ℕ} {ses : Session}

/-- One session changes: the other ones and their pendings are as they were. -/
theorem ServiceInv.update (h : ServiceInv s) {new} {held}
    (hnew : ∀ ses, new = some ses → ses.exchange.owner = owner ∧ Ledger ses.exchange ses.acked)
    (hsingle : (held.map fun p ↦ p.pending.owner).Nodup)
    (hothers : ∀ p ∈ held, p.pending.owner ≠ owner → p ∈ s.held)
    (hown : ∀ p ∈ held, p.pending.owner = owner → ∀ ses, new = some ses → p.Answers ses.exchange) :
    ServiceInv ⟨Function.update s.sessions owner new, held⟩ := by
  refine ⟨fun o ses hses ↦ ?_, hsingle, fun p hp ses hses ↦ ?_⟩
  · rcases eq_or_ne o owner with rfl | hne
    · exact hnew ses (by simpa using hses)
    · exact h.session o ses (by simpa [Function.update_of_ne hne] using hses)
  · rcases eq_or_ne p.pending.owner owner with heq | hne
    · exact hown p hp heq ses (by simpa [heq] using hses)
    · exact h.held p (hothers p hp hne) ses (by simpa [Function.update_of_ne hne] using hses)

/-- An exchange that takes a report has no pending yet. -/
theorem ServiceInv.owner_ne (h : ServiceInv s) (hses : s.sessions owner = some ses)
    (hfree : ses.exchange.outstanding = false) : ∀ p ∈ s.held, p.pending.owner ≠ owner := by
  rintro p hp rfl
  have hbusy := (h.held p hp ses hses).1
  rw [hfree] at hbusy
  cases hbusy

theorem ServiceInv.validated (h : ServiceInv s) {report} {x'}
    {pending} (hses : s.sessions owner = some ses)
    (hvalid : validateReport ses.exchange report = .ok (x', pending)) :
    ServiceInv
      ⟨Function.update s.sessions owner (some ⟨x', ses.acked⟩), ⟨report, pending⟩ :: s.held⟩ := by
  obtain ⟨rfl, hreport⟩ := validateReport_eq_ok hvalid
  obtain ⟨howner, hledger⟩ := h.session owner ses hses
  have hnone := h.owner_ne hses hreport.not_outstanding
  have hpending : pending.owner = owner := hreport.owner_eq.trans howner
  refine h.update ?_ ?_ ?_ ?_
  · rintro _ ⟨⟩
    exact ⟨howner, hledger.outstanding true⟩
  · refine nodup_cons.mpr ⟨fun hmem ↦ ?_, h.single⟩
    obtain ⟨p, hp, heq⟩ := mem_map.mp hmem
    exact hnone p hp (heq.trans hpending)
  · rintro p hp hne
    rcases mem_cons.mp hp with rfl | hp
    · exact absurd hpending hne
    · exact hp
  · rintro p hp heq _ ⟨⟩
    rcases mem_cons.mp hp with rfl | hp
    · have hsame : ({ ses.exchange with outstanding := false } : MutationExchange) =
        ses.exchange := by
        rw [← hreport.not_outstanding]
      exact ⟨rfl, hsame.symm ▸ hreport⟩
    · exact absurd heq (hnone p hp)

theorem ServiceInv.acknowledged (h : ServiceInv s) {before after} {p}
    {x'} {ack} (hses : s.sessions owner = some ses)
    (hheld : s.held = before ++ p :: after)
    (hack : acknowledge ses.exchange p.pending = .ok (x', ack)) :
    ServiceInv
      ⟨Function.update s.sessions owner (some ⟨x', ses.acked ++ [p.report]⟩), before ++ after⟩ := by
  obtain ⟨howner, hledger⟩ := h.session owner ses hses
  obtain ⟨hsame, hx', -⟩ := acknowledge_eq_ok.mp hack
  have hpending : p.pending.owner = owner := hsame.symm.trans howner
  have hmem : p ∈ s.held := hheld ▸ mem_append_right _ mem_cons_self
  have hanswers := h.held p hmem ses (hpending ▸ hses)
  have hsub : (before ++ after).Sublist s.held := by
    rw [hheld]
    exact (List.Sublist.refl before).append (sublist_cons_self p after)
  -- the pending was the only one of its exchange
  have hnone : ∀ q ∈ before ++ after, q.pending.owner ≠ owner := by
    have hsingle := h.single
    rw [hheld, (perm_middle.map _).nodup_iff, map_cons, nodup_cons] at hsingle
    rintro q hq heq
    exact hsingle.1 (mem_map.mpr ⟨q, hq, heq.trans hpending.symm⟩)
  refine h.update ?_ ((hsub.map _).nodup h.single) (fun q hq _ ↦ hsub.subset hq) ?_
  · rintro _ ⟨⟩
    exact ⟨hx' ▸ howner, hledger.acknowledge hanswers.2 hack⟩
  · exact fun q hq heq ↦ absurd heq (hnone q hq)

theorem ServiceInv.step (h : ServiceInv s) (hstep : Service.Step s s') : ServiceInv s' := by
  cases hstep with
  | opened hnew hfree hopen =>
    obtain ⟨hledger, howner⟩ := ledger_of_open hopen
    refine h.update ?_ h.single (fun p hp _ ↦ hp) fun p hp heq ↦ absurd heq (hfree p hp)
    rintro _ ⟨⟩
    exact ⟨howner, hledger⟩
  | validated hses hvalid => exact h.validated hses hvalid
  | acknowledged hses hheld hack => exact h.acknowledged hses hheld hack
  | @lost before after p hheld =>
    have hsub : (before ++ after).Sublist s.held := by
      rw [hheld]
      exact (List.Sublist.refl before).append (sublist_cons_self p after)
    exact ⟨h.session, (hsub.map _).nodup h.single, fun q hq ↦ h.held q (hsub.subset hq)⟩
  | closed owner => exact h.update nofun h.single (fun p hp _ ↦ hp) fun p _ _ _ ↦ nofun

/-- **The invariant holds in every state of a service.** -/
theorem serviceInv_of_reachable (h : s.Reachable) : ServiceInv s := by
  induction h with
  | refl => exact ⟨nofun, nodup_nil, nofun⟩
  | tail _ hstep ih => exact ih.step hstep

/-- What a claim of success rests on. -/
def Accomplished (scope : MutationScope) (effects : List EffectEntry) : Prop :=
  match scope with
  | .exact path effect => ∃ entry ∈ effects, entry.path = path ∧ entry.effect = effect
  | .recursiveDelete root => ∃ entry ∈ effects, entry.path = root ∧ entry.effect = .deletedEntry
  | .directories _ => True

theorem Ledger.accomplished {x acked} (h : Ledger x acked)
    (hsupports : supportsSuccess x = true) : Accomplished x.scope (effectsOf acked) := by
  unfold supportsSuccess at hsupports
  split at hsupports
  · rename_i path effect hscope
    -- the one effect is on the path and of the kind of the scope
    have hlength : (effectsOf acked).length = 1 := by
      rw [← h.count, eq_of_beq hsupports]
      rfl
    obtain ⟨entry, hentry⟩ := length_eq_one_iff.mp hlength
    have hmem : entry ∈ effectsOf acked := by
      rw [hentry]
      exact mem_singleton_self entry
    obtain ⟨hwithin, heffect⟩ := h.within entry hmem
    have hholds := hwithin.holds
    rw [hscope] at hholds heffect
    rw [hscope]
    exact ⟨entry, hmem, hholds, heffect⟩
  · rename_i root hscope
    have hseen := (h.seen_iff root).mp (Std.ExtTreeSet.contains_iff_mem.mp hsupports)
    obtain ⟨entry, hentry, hpath⟩ := mem_map.mp hseen
    have heffect := (h.within entry hentry).2
    rw [hscope] at heffect
    rw [hscope]
    exact ⟨entry, hentry, hpath, heffect⟩
  · rename_i paths hscope
    rw [hscope]
    trivial

/-- **The invariant of the exchanges of a service**, whatever the clients report and however
pendings are used. The acknowledged effects are distinct, in scope and of its kind, as many as the
index says and not more than allowed; the root of a deletion is the last of them; after a final
report nothing is accepted; a success is accepted only when it was accomplished; at most one report
is outstanding; and a pending is honoured only by its exchange, as the answer to its report. -/
theorem mutation_exchange_invariant (h : s.Reachable) (hses : s.sessions owner = some ses) :
    (pathsOf ses.acked).Nodup ∧
    (∀ entry ∈ effectsOf ses.acked, Within ses.exchange.scope ses.exchange.limits entry.path ∧
      entry.effect = ses.exchange.scope.expected) ∧
    (effectsOf ses.acked).length = ses.exchange.nextIndex.toNat ∧
    ses.exchange.nextIndex ≤ ses.exchange.limits.maxEffects ∧
    (∀ root, ses.exchange.scope = .recursiveDelete root →
      ∀ entry ∈ (effectsOf ses.acked).dropLast, entry.path ≠ root) ∧
    ((∃ report ∈ ses.acked, report.isFinished) → ∀ report,
      validateReport ses.exchange report = .error .terminal) ∧
    (∀ id next stopped x' pending,
      validateReport ses.exchange (.finished id next .success stopped) = .ok (x', pending) →
        Accomplished ses.exchange.scope (effectsOf ses.acked)) ∧
    s.held.countP (fun p ↦ p.pending.owner == owner) ≤ 1 ∧
    ((∃ p ∈ s.held, p.pending.owner = owner) → ∀ report x' pending,
      validateReport ses.exchange report ≠ .ok (x', pending)) ∧
    (∀ p ∈ s.held, ∀ x' ack, acknowledge ses.exchange p.pending = .ok (x', ack) →
      p.pending.owner = owner ∧ p.Answers ses.exchange) := by
  have hinv := serviceInv_of_reachable h
  obtain ⟨howner, hledger⟩ := hinv.session owner ses hses
  refine ⟨hledger.nodup, hledger.within, hledger.count.symm, hledger.bound, hledger.root_last,
    ?_, ?_, ?_, ?_, ?_⟩
  · rintro ⟨report, hreport, hfinished⟩ report'
    have hterminal : ses.exchange.terminal = true := by
      rw [hledger.terminal_iff]
      exact any_eq_true.mpr ⟨report, hreport, hfinished⟩
    exact if_pos hterminal
  · intro id next stopped x' pending hvalid
    obtain ⟨-, hreport⟩ := validateReport_eq_ok hvalid
    rcases hreport.cases with ⟨_, _, _, heq, -⟩ | ⟨_, _, _, _, heq, -, -, -, hsuccess⟩
    · cases heq
    · obtain ⟨-, -, rfl, -⟩ := MutationReport.finished.inj heq
      exact hledger.accomplished (hsuccess rfl)
  · have hcount := nodup_iff_count_le_one.mp hinv.single owner
    rwa [count_eq_countP, countP_map] at hcount
  · rintro ⟨p, hp, hpowner⟩ report x' pending hvalid
    obtain ⟨-, hreport⟩ := validateReport_eq_ok hvalid
    exact hinv.owner_ne hses hreport.not_outstanding p hp hpowner
  · intro p hp x' ack hack
    obtain ⟨hsame, -, -⟩ := acknowledge_eq_ok.mp hack
    have hpowner : p.pending.owner = owner := hsame.symm.trans howner
    exact ⟨hpowner, hinv.held p hp ses (hpowner ▸ hses)⟩

/-- A deletion of `/a`, just opened. -/
def deletion : MutationExchange :=
  ⟨⟨1, 1⟩, .recursiveDelete "/a", ⟨4, 2, 1, 0⟩, none, 0, 0, false, false, ∅⟩

/-- The report of the two entries it deleted. -/
def deletionReport : MutationReport :=
  .batch ⟨1, 1⟩ 0 [⟨"/a/b", .deletedEntry, none, none, none⟩,
    ⟨"/a", .deletedEntry, none, none, none⟩]

/-- What acknowledges it. -/
def deletionPending : PendingReport := ⟨0, 2, false, ["/a/b", "/a"]⟩

/-- A service with this exchange, after the report is acknowledged. -/
def deletionSession : Session where
  exchange := { deletion with seen := deletion.seen.insertMany ["/a/b", "/a"], nextIndex := 2 }
  acked := [deletionReport]

def deletionService : Service where
  sessions := Function.update (Function.update (Function.update (fun _ ↦ none) 0
    (some ⟨deletion, []⟩))
    0 (some ⟨{ deletion with outstanding := true }, []⟩)) 0 (some deletionSession)
  held := []

theorem deletionService_reachable : deletionService.Reachable := by
  have hopen : MutationExchange.open ⟨1, 1⟩ (.recursiveDelete "/a") ⟨4, 2, 1, 0⟩ none 0 =
    .ok deletion := rfl
  have hvalid : validateReport (Session.exchange ⟨deletion, []⟩) deletionReport =
    .ok ({ deletion with outstanding := true }, deletionPending) := rfl
  have hack : acknowledge (Session.exchange ⟨{ deletion with outstanding := true }, []⟩)
    (Held.pending ⟨deletionReport, deletionPending⟩) =
      .ok (deletionSession.exchange, ⟨⟨1, 1⟩, 2⟩) := rfl
  have h₁ : Service.Reachable ⟨Function.update (fun _ ↦ none) 0 (some ⟨deletion, []⟩), []⟩ :=
    .single (.opened rfl nofun hopen)
  have h₂ := h₁.tail (@Service.Step.validated _ 0 _ _ _ _ rfl hvalid)
  exact h₂.tail (@Service.Step.acknowledged _ 0 _ [] [] _ _ _ rfl rfl hack)

theorem mutation_exchange_invariant_deletion :
    deletionService.sessions 0 = some deletionSession ∧
      pathsOf deletionSession.acked = ["/a/b", "/a"] ∧ (pathsOf deletionSession.acked).Nodup :=
  have hses : deletionService.sessions 0 = some deletionSession := rfl
  ⟨hses, rfl, (mutation_exchange_invariant deletionService_reachable hses).1⟩

end Service

end Maknae.Kernel
