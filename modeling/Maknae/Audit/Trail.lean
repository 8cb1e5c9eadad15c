import Maknae.Audit.Sink

/-!
# What the audit sink leaves in its file

`lockOrder` is the order in which the workers had the writer. In every run it is cut in two: the
workers that succeeded, and behind them at most the one that has the writer, or the one that failed
and those that found its flag. `Sound` says so and says what the file holds, `Sound.step` is one
event, and `audit_trail_integrity` a whole run.

A worker's result never changes once it is there (`CallsMove.ended`), which is why nothing that
failed is repaired later on.
-/

namespace Maknae.Audit

open List Option

variable {ν ρ : Type}

/-! ### What a worker has come to -/

inductive Progress
  | queued
  | holding
  | ended (r : Joined)

def Worker.progress : Worker → Progress
  | .queued => .queued
  | .holding => .holding
  | .returned r | .joined r => .ended r

/-- The bytes of complete lines. -/
def trail (lines : List (List UInt8)) : List UInt8 := lines.flatMap (· ++ [newline])

def Event.locks : Event ρ → Option ℕ
  | .lock i _ => some i
  | _ => none

/-- The workers in the order in which they had the writer. -/
def lockOrder (events : List (Event ρ)) : List ℕ := events.filterMap Event.locks

namespace AuditSink

def progress (s : AuditSink ρ) (i : ℕ) : Option Progress := s.calls[i]?.map (·.worker.progress)

def lineOf (s : AuditSink ρ) (i : ℕ) : List UInt8 := (s.calls[i]?.map Call.line).getD []

/-- The worker finished without error. -/
def Succeeded (s : AuditSink ρ) (i : ℕ) : Prop := s.progress i = some (.ended (.ok (.ok ())))

/-- The worker finished otherwise. -/
def Failed (s : AuditSink ρ) (i : ℕ) : Prop :=
  ∃ r, s.progress i = some (.ended r) ∧ r ≠ .ok (.ok ())

variable {s s' : AuditSink ρ} {i j : ℕ}

@[simp] theorem lineOf_setWorker (w : Worker) : (s.setWorker i w).lineOf j = s.lineOf j := by
  by_cases hij : i = j <;> simp [lineOf, setWorker, hij, Function.comp_def]

variable {w : Worker} {r : Joined} {c : Call ρ} {bytes part : List UInt8}

theorem lineOf_of_calls (h : s'.calls = (s.setWorker i w).calls) :
    s'.lineOf = s.lineOf := by
  funext j
  rw [← lineOf_setWorker (s := s) w, lineOf, h, ← lineOf]

@[simp] theorem lineOf_setCaller (caller : Caller) :
    (s.setCaller i caller).lineOf j = s.lineOf j := by
  by_cases hij : i = j <;> simp [lineOf, setCaller, hij, Function.comp_def]

@[simp] theorem progress_setCaller (caller : Caller) :
    (s.setCaller i caller).progress j = s.progress j := by
  by_cases hij : i = j <;> simp [progress, setCaller, hij, Function.comp_def]

theorem progress_setWorker_self {p} (h : s.progress i = some p) :
    (s.setWorker i w).progress i = some w.progress := by
  obtain ⟨c, hc, -⟩ := map_eq_some_iff.mp h
  simp [progress, setWorker, hc]

theorem progress_setWorker_of_ne (h : i ≠ j) :
    (s.setWorker i w).progress j = s.progress j := by
  simp [progress, setWorker, h]

theorem put_nil : s.put [] = s := by
  rw [put, append_nil]

/-! ### What stands in the file -/

/-- Behind `base`, what the workers of `rest` have put into the file. -/
inductive Standing (s : AuditSink ρ) (base : List UInt8) : List ℕ → Prop
  | ready (hholder : s.holder = none) (hfailed : s.failed = false) (hpoisoned : s.poisoned = false)
      (hfile : s.file = base) : Standing s base []
  | writing {i : ℕ} {part left : List UInt8} (hholder : s.holder = some ⟨i, .writing left⟩)
      (hfailed : s.failed = true) (hpoisoned : s.poisoned = false)
      (hi : s.progress i = some .holding) (hline : s.lineOf i = part ++ left)
      (hfile : s.file = base ++ part) : Standing s base [i]
  | syncing {i : ℕ} (hholder : s.holder = some ⟨i, .syncing⟩) (hfailed : s.failed = true)
      (hpoisoned : s.poisoned = false) (hi : s.progress i = some .holding)
      (hfile : s.file = base ++ s.lineOf i) : Standing s base [i]
  | broken {i : ℕ} {more : List ℕ} {part : List UInt8} (hholder : s.holder = none)
      (hfailed : s.failed = true) (hrest : ∀ j ∈ i :: more, s.Failed j)
      (hpart : part <+: s.lineOf i) (hfile : s.file = base ++ part) : Standing s base (i :: more)

/-- The workers of `good` succeeded, and those of `rest` had the writer after them. -/
structure Sound (initial : List UInt8) (s : AuditSink ρ) (good rest : List ℕ) : Prop where
  nodup : (good ++ rest).Nodup
  succeeded_iff : ∀ i, s.Succeeded i ↔ i ∈ good
  standing : s.Standing (initial ++ good.flatMap s.lineOf) rest
  synced : s.synced = initial ++ good.flatMap s.lineOf

variable {initial : List UInt8} {good rest : List ℕ}

theorem Standing.progress_ne_queued {base} (h : s.Standing base rest)
    (hi : i ∈ rest) : s.progress i ≠ some .queued := by
  cases h with
  | ready => cases hi
  | writing _ _ _ hhold | syncing _ _ _ hhold =>
    obtain rfl := mem_singleton.mp hi
    rw [hhold]
    exact fun h ↦ nomatch h
  | broken _ _ hrest =>
    obtain ⟨r, hr, -⟩ := hrest i hi
    rw [hr]
    exact fun h ↦ nomatch h

section

variable (h : Sound initial s good rest)

include h

theorem Sound.not_mem_of_queued (hi : s.progress i = some .queued) : i ∉ good ++ rest := by
  intro hmem
  rcases mem_append.mp hmem with hmem | hmem
  · have hs : s.progress i = _ := (h.succeeded_iff i).mpr hmem
    rw [hi] at hs
    exact nomatch hs
  · exact h.standing.progress_ne_queued hmem hi

/-- What the file holds is a matter of the writer and of the workers that had it. -/
theorem Sound.congr (hfile : s'.file = s.file)
    (hsynced : s'.synced = s.synced) (hfailed : s'.failed = s.failed)
    (hpoisoned : s'.poisoned = s.poisoned) (hholder : s'.holder = s.holder)
    (hline : ∀ i ∈ good ++ rest, s'.lineOf i = s.lineOf i)
    (hprogress : ∀ i ∈ good ++ rest, s'.progress i = s.progress i)
    (hnew : ∀ i, s'.Succeeded i → s.Succeeded i) : Sound initial s' good rest := by
  have hgood : good.flatMap s'.lineOf = good.flatMap s.lineOf :=
    flatMap_congr fun i hi ↦ hline i (mem_append_left _ hi)
  have hl : ∀ i ∈ rest, s'.lineOf i = s.lineOf i := fun i hi ↦
    hline i (mem_append_right _ hi)
  have hp : ∀ i ∈ rest, s'.progress i = s.progress i := fun i hi ↦
    hprogress i (mem_append_right _ hi)
  refine ⟨h.nodup, fun i ↦ ⟨fun hi ↦ (h.succeeded_iff i).mp (hnew i hi), fun hi ↦ ?_⟩, ?_, ?_⟩
  · show s'.progress i = _
    rw [hprogress i (mem_append_left _ hi)]
    exact (h.succeeded_iff i).mpr hi
  · rw [hgood]
    cases h.standing with
    | ready h1 h2 h3 h4 =>
      exact .ready (hholder.trans h1) (hfailed.trans h2) (hpoisoned.trans h3) (hfile.trans h4)
    | @writing i _ _ h1 h2 h3 h4 h5 h6 =>
      have hi : i ∈ [i] := mem_singleton_self i
      exact .writing (hholder.trans h1) (hfailed.trans h2) (hpoisoned.trans h3)
        ((hp i hi).trans h4) ((hl i hi).trans h5) (hfile.trans h6)
    | @syncing i h1 h2 h3 h4 h5 =>
      have hi : i ∈ [i] := mem_singleton_self i
      exact .syncing (hholder.trans h1) (hfailed.trans h2) (hpoisoned.trans h3)
        ((hp i hi).trans h4) (by rw [hl i hi, hfile, h5])
    | @broken i _ _ h1 h2 h3 h4 h5 =>
      refine .broken (hholder.trans h1) (hfailed.trans h2) (fun j hj ↦ ?_)
        (by rwa [hl i mem_cons_self]) (hfile.trans h5)
      obtain ⟨r, hr, hne⟩ := h3 j hj
      exact ⟨r, (hp j hj).trans hr, hne⟩
  · rw [hsynced, hgood]
    exact h.synced

theorem Sound.of_eq (hfile : s'.file = s.file)
    (hsynced : s'.synced = s.synced) (hfailed : s'.failed = s.failed)
    (hpoisoned : s'.poisoned = s.poisoned) (hholder : s'.holder = s.holder)
    (hline : ∀ i, s'.lineOf i = s.lineOf i) (hprogress : ∀ i, s'.progress i = s.progress i) :
    Sound initial s' good rest :=
  h.congr hfile hsynced hfailed hpoisoned hholder (fun i _ ↦ hline i) (fun i _ ↦ hprogress i)
    fun i hi ↦ (hprogress i).symm.trans hi

/-- A queued worker gives up. -/
theorem Sound.setWorker_queued (hi : s.progress i = some .queued) (hr : r ≠ .ok (.ok ())) :
    Sound initial (s.setWorker i (.returned r)) good rest := by
  have hmem := h.not_mem_of_queued hi
  refine h.congr rfl rfl rfl rfl rfl (fun _ _ ↦ lineOf_setWorker _) (fun j hj ↦ ?_) fun j hj ↦ ?_
  · exact progress_setWorker_of_ne (ne_of_mem_of_not_mem hj hmem).symm
  · by_cases hij : i = j
    · subst hij
      rw [Succeeded, progress_setWorker_self hi] at hj
      exact absurd (Progress.ended.inj (some.inj hj)) hr
    · exact (progress_setWorker_of_ne hij).symm.trans hj

end

/-! ### The events -/

variable {serde : SerdeJson ν} {toValue : ρ → Except String (Json ν)}

section

variable (h : Sound initial s good rest)

include h

theorem Sound.exists_progress (hi : i ∈ good ++ rest) : ∃ p, s.progress i = some p := by
  rcases mem_append.mp hi with hi | hi
  · exact ⟨_, (h.succeeded_iff i).mpr hi⟩
  · cases h.standing with
    | ready => cases hi
    | writing _ _ _ hhold | syncing _ _ _ hhold =>
      obtain rfl := mem_singleton.mp hi
      exact ⟨_, hhold⟩
    | broken _ _ hrest =>
      obtain ⟨r, hr, -⟩ := hrest i hi
      exact ⟨_, hr⟩

/-- A call that was admitted. -/
theorem Sound.push (hc : c.worker = .queued) {breaker} :
    Sound initial { s with breaker := breaker, calls := s.calls ++ [c] } good rest := by
  have hold : ∀ i ∈ good ++ rest, (s.calls ++ [c])[i]? = s.calls[i]? := by
    intro i hi
    obtain ⟨p, hp⟩ := h.exists_progress hi
    obtain ⟨d, hd, -⟩ := map_eq_some_iff.mp hp
    exact List.getElem?_append_left (List.getElem?_eq_some_iff.mp hd).1
  refine h.congr rfl rfl rfl rfl rfl (fun i hi ↦ ?_) (fun i hi ↦ ?_) fun i hi ↦ ?_
  · simp only [lineOf, hold i hi]
  · simp only [progress, hold i hi]
  · obtain ⟨d, hd, hended⟩ := map_eq_some_iff.mp hi
    rw [getElem?_append] at hd
    split_ifs at hd with hlt
    · exact map_eq_some_iff.mpr ⟨d, hd, hended⟩
    · obtain rfl := mem_singleton.mp (mem_of_getElem? hd)
      rw [hc] at hended
      exact nomatch hended

theorem Sound.appendInner {record} {bound}
    {now} : Sound initial (s.appendInner serde toValue record bound now) good rest := by
  unfold AuditSink.appendInner
  split
  · exact h.of_eq rfl rfl rfl rfl rfl (fun _ ↦ rfl) fun _ ↦ rfl
  · dsimp only
    split_ifs
    · exact h.of_eq rfl rfl rfl rfl rfl (fun _ ↦ rfl) fun _ ↦ rfl
    · split
      · exact h.push rfl
      all_goals exact h.of_eq rfl rfl rfl rfl rfl (fun _ ↦ rfl) fun _ ↦ rfl

/-- A worker takes the writer: it begins to write, or finds the flag of the one that failed. -/
theorem Sound.lock (hholder : s.holder = none) (hi : s.progress i = some .queued) (now : ℕ) :
    Sound initial (s.lock i (s.lineOf i) now) good (rest ++ [i]) := by
  have hnodup : (good ++ (rest ++ [i])).Nodup := by
    rw [← append_assoc]
    exact nodup_append.mpr ⟨h.nodup, nodup_singleton i, fun a ha b hb ↦
      (mem_singleton.mp hb) ▸ ne_of_mem_of_not_mem ha (h.not_mem_of_queued hi)⟩
  -- with the flag up, the worker joins those behind the one that failed
  have hgivesUp : ∀ r : Joined, r ≠ .ok (.ok ()) → s.failed = true ∨ s.poisoned = true →
      Sound initial (s.setWorker i (.returned r)) good (rest ++ [i]) := by
    intro r hr hflag
    have h' := h.setWorker_queued hi hr
    refine ⟨hnodup, h'.succeeded_iff, ?_, h'.synced⟩
    have hfailed : (s.setWorker i (.returned r)).Failed i :=
      ⟨r, progress_setWorker_self hi, hr⟩
    cases h'.standing with
    | ready _ hf hp =>
      rcases hflag with hflag | hflag
      · exact absurd (hflag.symm.trans hf) (by decide)
      · exact absurd (hflag.symm.trans hp) (by decide)
    | writing hh | syncing hh => exact nomatch hholder.symm.trans hh
    | broken h1 h2 h3 h4 h5 =>
      exact .broken h1 h2 (forall_mem_concat.mpr ⟨h3, hfailed⟩) h4 h5
  unfold AuditSink.lock
  split_ifs with hpoisoned hflag
  · exact hgivesUp _ (fun h ↦ nomatch h) (.inr hpoisoned)
  · exact hgivesUp _ (fun h ↦ nomatch h) (.inl hflag)
  · have hne : ∀ j ∈ good, i ≠ j := fun j hj ↦
      (ne_of_mem_of_not_mem (mem_append_left rest hj) (h.not_mem_of_queued hi)).symm
    have hlines : { s.setWorker i .holding with
        failed := true
        busy := s.busy.holdFrom now
        holder := some ⟨i, .writing (s.lineOf i)⟩ : AuditSink ρ }.lineOf = s.lineOf :=
      lineOf_of_calls rfl
    refine ⟨hnodup, fun j ↦ ?_, ?_, ?_⟩
    · rw [← h.succeeded_iff j]
      by_cases hij : i = j
      · subst hij
        exact iff_of_false (fun hs ↦ nomatch (progress_setWorker_self hi).symm.trans hs) fun hs ↦
          nomatch hi.symm.trans hs
      · exact ⟨(progress_setWorker_of_ne hij).symm.trans, (progress_setWorker_of_ne hij).trans⟩
    · rw [hlines]
      cases h.standing with
      | ready _ _ _ hfile =>
        have hpart : s.file = (initial ++ good.flatMap s.lineOf) ++ [] := by
          rw [hfile, append_nil]
        exact .writing rfl rfl (Bool.eq_false_iff.mpr hpoisoned) (progress_setWorker_self hi)
          (congrFun hlines i) hpart
      | writing hh | syncing hh => exact nomatch hholder.symm.trans hh
      | broken _ hf => exact absurd hf hflag
    · rw [hlines]
      exact h.synced

end

/-- The holder fails, and what it has written so far stays behind. -/
theorem Sound.unlock_failed (h : Sound initial s good [i]) (hi : s.progress i = some .holding)
    (hfailed : s.failed = true) (hfile : s.file ++ bytes = initial ++ good.flatMap s.lineOf ++ part)
    (hpart : part <+: s.lineOf i) (hr : r ≠ .ok (.ok ())) :
    Sound initial ((s.put bytes).unlock i r) good [i] := by
  have hlines : ((s.put bytes).unlock i r).lineOf = s.lineOf :=
    lineOf_of_calls rfl
  have hself : ((s.put bytes).unlock i r).progress i = some (.ended r) :=
    progress_setWorker_self hi
  refine ⟨h.nodup, fun j ↦ ?_, ?_, ?_⟩
  · rw [← h.succeeded_iff j]
    by_cases hij : i = j
    · subst hij
      exact iff_of_false
        (fun hs ↦ hr (Progress.ended.inj (some.inj (hself.symm.trans hs)))) fun hs ↦
          nomatch hi.symm.trans hs
    · exact ⟨(progress_setWorker_of_ne hij).symm.trans, (progress_setWorker_of_ne hij).trans⟩
  · rw [hlines]
    exact .broken rfl hfailed (forall_mem_singleton.mpr ⟨r, hself, hr⟩) (by rwa [hlines]) hfile
  · rw [hlines]
    exact h.synced

/-- A panic is a failure that poisons the mutex too. -/
theorem Sound.unwind (h : Sound initial s good [i]) (hi : s.progress i = some .holding)
    (hfailed : s.failed = true) (hfile : s.file ++ bytes = initial ++ good.flatMap s.lineOf ++ part)
    (hpart : part <+: s.lineOf i) (detail : String) :
    Sound initial ((s.put bytes).unwind i detail) good [i] := by
  have hu := h.unlock_failed hi hfailed hfile hpart (r := .error detail) (fun h ↦ nomatch h)
  refine ⟨hu.nodup, hu.succeeded_iff, ?_, hu.synced⟩
  cases hu.standing with
  | writing hh | syncing hh => exact nomatch hh
  | broken h1 h2 h3 h4 h5 => exact .broken h1 h2 h3 h4 h5

section

variable (h : Sound initial s good rest)

include h

theorem Sound.write {left} (hholder : s.holder = some ⟨i, .writing left⟩) (a : WriteAnswer) :
    Sound initial (s.write i left a) good rest := by
  cases h.standing with
  | ready hh | broken hh | syncing hh => exact nomatch hholder.symm.trans hh
  | @writing _ part _ hh hfailed hpoisoned hi hline hfile =>
    obtain ⟨rfl, hphase⟩ := Hold.mk.inj (some.inj (hholder.symm.trans hh))
    obtain rfl := Phase.writing.inj hphase
    -- whatever part of the rest gets into the file, it is a part of the line
    have hput : ∀ n, s.file ++ left.take n =
        initial ++ good.flatMap s.lineOf ++ (part ++ left.take n) := by
      intro n
      rw [hfile, append_assoc]
    have hpart : ∀ n, part ++ left.take n <+: s.lineOf i := by
      intro n
      rw [hline]
      exact (prefix_append_right_inj part).mpr ( take_prefix n left)
    cases a with
    | wrote n =>
      unfold AuditSink.write
      dsimp only
      split_ifs with hzero hover hlast
      · have := h.unlock_failed hi hfailed (hput 0) (hpart 0)
          (r := .ok (.error (.writePrimary "failed to write whole buffer"))) (fun h ↦ nomatch h)
        rwa [take_zero, put_nil] at this
      · have hall : left.take n = left := take_of_length_le hover.le
        exact hall ▸ h.unwind hi hfailed (hput n) (hpart n) _
      · have hall : left.take n = left := take_of_length_le (drop_eq_nil_iff.mp hlast)
        refine ⟨h.nodup, h.succeeded_iff, ?_, h.synced⟩
        refine .syncing rfl hfailed hpoisoned hi ((hput n).trans ?_)
        rw [hall, ← hline]
        rfl
      · refine ⟨h.nodup, h.succeeded_iff, ?_, h.synced⟩
        refine .writing rfl hfailed hpoisoned hi ?_ (hput n)
        rw [append_assoc, take_append_drop]
        exact hline
    | interrupted => exact h
    | failed n detail => exact h.unlock_failed hi hfailed (hput n) (hpart n) (fun h ↦ nomatch h)
    | panicked n detail => exact h.unwind hi hfailed (hput n) (hpart n) detail

/-- The end of a write: the holder succeeds, or fails with its whole line in the file. -/
theorem Sound.sync (hholder : s.holder = some ⟨i, .syncing⟩)
    (a : SyncAnswer) : ∃ good' rest', Sound initial (s.sync i a) good' rest' ∧
      good' ++ rest' = good ++ rest := by
  cases h.standing with
  | ready hh | broken hh | writing hh => exact nomatch hholder.symm.trans hh
  | syncing hh hfailed hpoisoned hi hfile =>
    obtain ⟨rfl, -⟩ := Hold.mk.inj (some.inj (hholder.symm.trans hh))
    have hput : s.file ++ [] = initial ++ good.flatMap s.lineOf ++ s.lineOf i := by
      rw [append_nil, hfile]
    cases a with
    | failed detail =>
      have := h.unlock_failed hi hfailed hput (prefix_refl _)
        (r := .ok (.error (.writePrimary detail))) (fun h ↦ nomatch h)
      rw [put_nil] at this
      exact ⟨good, [i], this, rfl⟩
    | panicked detail =>
      have := h.unwind hi hfailed hput (prefix_refl _) detail
      rw [put_nil] at this
      exact ⟨good, [i], this, rfl⟩
    | synced =>
      have hlines : (s.sync i .synced).lineOf = s.lineOf :=
        lineOf_of_calls rfl
      have hself : (s.sync i .synced).Succeeded i := progress_setWorker_self hi
      have hfile' : s.file = initial ++ (good ++ [i]).flatMap s.lineOf := by
        rw [hfile, flatMap_append, flatMap_singleton, append_assoc]
      refine ⟨good ++ [i], [], ⟨?_, fun j ↦ ?_, ?_, ?_⟩, append_nil _⟩
      · rw [append_nil]
        exact h.nodup
      · rw [mem_append, mem_singleton, ← h.succeeded_iff j]
        by_cases hij : i = j
        · subst hij
          exact iff_of_true hself (.inr rfl)
        · exact ⟨fun hs ↦ .inl ((progress_setWorker_of_ne hij).symm.trans hs), fun hs ↦
            (progress_setWorker_of_ne hij).trans (hs.resolve_right (Ne.symm hij))⟩
      · rw [hlines]
        exact .ready rfl rfl hpoisoned hfile'
      · rw [hlines]
        exact hfile'

end

theorem progress_of_getElem? (h : s.calls[i]? = some c) :
    s.progress i = some c.worker.progress := by
  rw [progress, h]
  rfl

theorem lineOf_of_getElem? (h : s.calls[i]? = some c) : s.lineOf i = c.line := by
  rw [lineOf, h]
  rfl

theorem Sound.step (h : Sound initial s good rest) {e : Event ρ}
    (hstep : s.step serde toValue e = some s') :
    ∃ good' rest', Sound initial s' good' rest' ∧
      good' ++ rest' = good ++ rest ++ e.locks.toList := by
  have hsame : Sound initial s' good rest → e.locks = none → ∃ good' rest',
      Sound initial s' good' rest' ∧ good' ++ rest' = good ++ rest ++ e.locks.toList := by
    intro h hlocks
    exact ⟨good, rest, h, by rw [hlocks, toList_none, append_nil]⟩
  cases e with
  | append record bound now =>
    cases hstep
    exact hsame h.appendInner rfl
  | lock i now =>
    simp only [AuditSink.step] at hstep
    split at hstep
    · next hholder hc =>
      cases hstep
      have hl := h.lock hholder (progress_of_getElem? hc) now
      rw [lineOf_of_getElem? hc] at hl
      exact ⟨good, rest ++ [i], hl, (append_assoc ..).symm⟩
    · cases hstep
  | write a =>
    simp only [AuditSink.step] at hstep
    split at hstep
    · next hholder =>
      cases hstep
      exact hsame (h.write hholder a) rfl
    · cases hstep
  | sync a =>
    simp only [AuditSink.step] at hstep
    split at hstep
    · next hholder =>
      cases hstep
      obtain ⟨good', rest', h', horder⟩ := h.sync hholder a
      exact ⟨good', rest', h', horder.trans (append_nil _).symm⟩
    · cases hstep
  | release i =>
    simp only [AuditSink.step] at hstep
    split at hstep
    · next hc =>
      cases hstep
      refine hsame (h.of_eq rfl rfl rfl rfl rfl (fun j ↦ lineOf_setWorker _) fun j ↦ ?_) rfl
      by_cases hij : i = j
      · subst hij
        exact (progress_setWorker_self (progress_of_getElem? hc)).trans
          (progress_of_getElem? hc).symm
      · exact progress_setWorker_of_ne hij
    · cases hstep
  | cancel i detail =>
    simp only [AuditSink.step] at hstep
    split at hstep
    · next hc =>
      cases hstep
      exact hsame (h.setWorker_queued (progress_of_getElem? hc) (fun h ↦ nomatch h)) rfl
    · cases hstep
  | answer i | elapse i | abandon i =>
    simp only [AuditSink.step] at hstep
    split at hstep
    · cases hstep
      exact hsame (h.of_eq rfl rfl rfl rfl rfl (fun j ↦ lineOf_setCaller _) fun j ↦
        progress_setCaller _) rfl
    · cases hstep

/-! ### The calls -/

end AuditSink

/-- The line is the one of the record. -/
def Call.Canonical (serde : SerdeJson ν) (toValue : ρ → Except String (Json ν)) (c : Call ρ) :
    Prop :=
  ∃ text, canonicalJson serde toValue c.record = .ok text ∧ c.line = utf8Bytes text ++ [newline]

/-- What an event makes of a call: a worker that ended has ended, and a caller is told so much only
of a worker that succeeded. -/
structure Call.Becomes (c c' : Call ρ) : Prop where
  record_eq : c'.record = c.record
  line_eq : c'.line = c.line
  ended : ∀ r, c.worker.progress = .ended r → c'.worker.progress = .ended r
  answered : c'.caller = .answered (.ok ()) →
    c.caller = .answered (.ok ()) ∨ c'.worker.progress = .ended (.ok (.ok ()))

/-- What an event makes of the calls. -/
inductive CallsMove (serde : SerdeJson ν) (toValue : ρ → Except String (Json ν))
    (calls : List (Call ρ)) : List (Call ρ) → Prop
  | same : CallsMove serde toValue calls calls
  | modify {i : ℕ} {f : Call ρ → Call ρ} {c : Call ρ} (hc : calls[i]? = some c)
      (hf : c.Becomes (f c)) : CallsMove serde toValue calls (calls.modify i f)
  | push {c : Call ρ} (hc : c.Canonical serde toValue) (hcaller : c.caller = .waiting) :
      CallsMove serde toValue calls (calls ++ [c])

namespace AuditSink

variable {s s' : AuditSink ρ} {i j : ℕ} {initial : List UInt8} {good rest : List ℕ}
  {serde : SerdeJson ν} {toValue : ρ → Except String (Json ν)}

theorem callsMove_appendInner {record bound now} :
    CallsMove serde toValue s.calls (s.appendInner serde toValue record bound now).calls := by
  unfold appendInner
  split
  · exact .same
  · next text htext =>
    split_ifs
    · exact .same
    · split
      · exact .push ⟨text, htext, utf8Bytes_push text '\n'⟩ rfl
      all_goals exact .same

/-- A worker that has not ended yet moves on. -/
theorem callsMove_setWorker {c : Call ρ} (hc : s.calls[i]? = some c)
    (hopen : ∀ r, c.worker.progress ≠ .ended r) (w : Worker) :
    CallsMove serde toValue s.calls (s.setWorker i w).calls :=
  .modify hc ⟨rfl, rfl, fun r hr ↦ absurd hr (hopen r), .inl⟩

theorem callsMove_setCaller {c : Call ρ} (hc : s.calls[i]? = some c) {caller}
    (h : caller = .answered (.ok ()) → c.worker.progress = .ended (.ok (.ok ()))) :
    CallsMove serde toValue s.calls (s.setCaller i caller).calls :=
  .modify hc ⟨rfl, rfl, fun _ hr ↦ hr, fun hc ↦ .inr (h hc)⟩

theorem Sound.callsMove (h : Sound initial s good rest) {e : Event ρ}
    (hstep : s.step serde toValue e = some s') : CallsMove serde toValue s.calls s'.calls := by
  -- the holder has not ended
  have hhold : ∀ hold, s.holder = some hold → ∀ w, CallsMove serde toValue s.calls
      (s.setWorker hold.call w).calls := by
    intro hold hholder w
    have hi : s.progress hold.call = some .holding := by
      cases h.standing with
      | ready hh | broken hh => exact nomatch hholder.symm.trans hh
      | writing hh _ _ hi | syncing hh _ _ hi =>
        cases hholder.symm.trans hh
        exact hi
    obtain ⟨c, hc, hp⟩ := map_eq_some_iff.mp hi
    exact callsMove_setWorker hc (fun r hr ↦ nomatch hp.symm.trans hr) w
  cases e with
  | append record bound now =>
    cases hstep
    exact callsMove_appendInner
  | lock i now =>
    simp only [AuditSink.step] at hstep
    split at hstep
    · next hc =>
      cases hstep
      unfold AuditSink.lock
      split_ifs <;> exact callsMove_setWorker hc (fun r hr ↦ nomatch hr) _
    · cases hstep
  | write a =>
    simp only [AuditSink.step] at hstep
    split at hstep
    · next hholder =>
      cases hstep
      cases a with
      | wrote n =>
        unfold AuditSink.write
        dsimp only
        split_ifs
        · exact hhold _ hholder _
        · exact hhold _ hholder _
        · exact .same
        · exact .same
      | interrupted => exact .same
      | failed n detail | panicked n detail => exact hhold _ hholder _
    · cases hstep
  | sync a =>
    simp only [AuditSink.step] at hstep
    split at hstep
    · next hholder =>
      cases hstep
      cases a <;> exact hhold _ hholder _
    · cases hstep
  | release i =>
    simp only [AuditSink.step] at hstep
    split at hstep
    · next hc =>
      cases hstep
      exact .modify hc ⟨rfl, rfl, fun _ hr ↦ hr, .inl⟩
    · cases hstep
  | cancel i detail =>
    simp only [AuditSink.step] at hstep
    split at hstep
    · next hc =>
      cases hstep
      exact callsMove_setWorker hc (fun r hr ↦ nomatch hr) _
    · cases hstep
  | answer i =>
    simp only [AuditSink.step] at hstep
    split at hstep
    · next r hc =>
      cases hstep
      refine callsMove_setCaller hc fun h ↦ ?_
      cases r with
      | error e => exact nomatch h
      | ok a =>
        obtain rfl : a = .ok () := Caller.answered.inj h
        rfl
    · cases hstep
  | elapse i | abandon i =>
    simp only [AuditSink.step] at hstep
    split at hstep
    · next hc =>
      cases hstep
      exact callsMove_setCaller hc fun h ↦ nomatch h
    · cases hstep

/-! ### Runs -/

end AuditSink

/-- The line is the record's, and the caller is told of success only when there was one. -/
def Call.Honest (serde : SerdeJson ν) (toValue : ρ → Except String (Json ν)) (c : Call ρ) :
    Prop :=
  c.Canonical serde toValue ∧
    (c.caller = .answered (.ok ()) → c.worker.progress = .ended (.ok (.ok ())))

namespace CallsMove

variable {serde : SerdeJson ν} {toValue : ρ → Except String (Json ν)} {calls calls' : List (Call ρ)}

theorem ended (h : CallsMove serde toValue calls calls') {i : ℕ} {c : Call ρ} {r : Joined}
    (hc : calls[i]? = some c) (hr : c.worker.progress = .ended r) :
    ∃ c', calls'[i]? = some c' ∧ c'.worker.progress = .ended r := by
  cases h with
  | same => exact ⟨c, hc, hr⟩
  | @modify j f d hd hf =>
    by_cases hij : j = i
    · subst hij
      cases hc.symm.trans hd
      exact ⟨f c, by simp [hc], hf.ended r hr⟩
    · exact ⟨c, by simp [hij, hc], hr⟩
  | push =>
    exact ⟨c, by rw [List.getElem?_append_left (List.getElem?_eq_some_iff.mp hc).1, hc], hr⟩

theorem honest (h : CallsMove serde toValue calls calls')
    (hcalls : ∀ c ∈ calls, c.Honest serde toValue) : ∀ c ∈ calls', c.Honest serde toValue := by
  cases h with
  | same => exact hcalls
  | @modify j f d hd hf =>
    intro c' hc'
    obtain ⟨i, hi⟩ := mem_iff_getElem?.mp hc'
    rw [getElem?_modify] at hi
    obtain ⟨c, hc, rfl⟩ := map_eq_some_iff.mp hi
    have hhonest := hcalls c (mem_of_getElem? hc)
    split_ifs with hij
    · subst hij
      cases hc.symm.trans hd
      obtain ⟨text, htext, hline⟩ := hhonest.1
      refine ⟨⟨text, by rwa [hf.record_eq], by rwa [hf.line_eq]⟩, fun hanswered ↦ ?_⟩
      rcases hf.answered hanswered with hanswered | hdone
      · exact hf.ended _ (hhonest.2 hanswered)
      · exact hdone
    · exact hhonest
  | @push d hd hcaller =>
    exact forall_mem_concat.mpr ⟨hcalls, hd, fun h ↦ nomatch hcaller.symm.trans h⟩

end CallsMove

namespace AuditSink

variable {s s' : AuditSink ρ} {i j : ℕ} {initial : List UInt8} {good rest : List ℕ}
  {serde : SerdeJson ν} {toValue : ρ → Except String (Json ν)} {events : List (Event ρ)}

theorem sound_fromFile (epoch : ℕ) (file : List UInt8) :
    Sound file (fromFile epoch file : AuditSink ρ) [] [] where
  nodup := nodup_nil
  succeeded_iff _ := ⟨fun h ↦ (nomatch h), nofun⟩
  standing := .ready rfl rfl rfl (append_nil file).symm
  synced := (append_nil file).symm

theorem Sound.run (h : Sound initial s good rest)
    (hcalls : ∀ c ∈ s.calls, c.Honest serde toValue)
    (hrun : s.run serde toValue events = some s') :
    (∃ good' rest', Sound initial s' good' rest' ∧
      good' ++ rest' = good ++ rest ++ lockOrder events) ∧
    (∀ c ∈ s'.calls, c.Honest serde toValue) ∧
    ∀ i r, s.progress i = some (.ended r) → s'.progress i = some (.ended r) := by
  induction events generalizing s good rest with
  | nil =>
    cases hrun
    exact ⟨⟨good, rest, h, (append_nil _).symm⟩, hcalls, fun _ _ hr ↦ hr⟩
  | cons e events ih =>
    obtain ⟨t, hstep, hrest⟩ := bind_eq_some_iff.mp hrun
    have hmove := h.callsMove hstep
    obtain ⟨good₁, rest₁, h₁, horder₁⟩ := h.step hstep
    obtain ⟨⟨good', rest', h', horder⟩, hcalls', hended⟩ := ih h₁ (hmove.honest hcalls) hrest
    refine ⟨⟨good', rest', h', ?_⟩, hcalls', fun i r hr ↦ hended i r ?_⟩
    · rw [horder, horder₁]
      cases hlocks : e.locks <;> simp [lockOrder, hlocks]
    · obtain ⟨c, hc, hr⟩ := map_eq_some_iff.mp hr
      obtain ⟨c', hc', hr'⟩ := hmove.ended hc hr
      exact hr' ▸ progress_of_getElem? hc'

/-- Behind a worker that failed, none succeeds any more. -/
theorem Sound.succeeded_of_failed {more} (h : Sound initial s good (i :: more))
    (hcalls : ∀ c ∈ s.calls, c.Honest serde toValue) (hi : s.Failed i)
    (hrun : s.run serde toValue events = some s') (hj : s'.Succeeded j) : s.Succeeded j := by
  obtain ⟨⟨good', rest', h', horder⟩, -, hended⟩ := h.run hcalls hrun
  obtain ⟨r, hr, hne⟩ := hi
  have hnot : i ∉ good' := by
    intro hmem
    have hs : s'.progress i = _ := (h'.succeeded_iff i).mpr hmem
    exact hne (Progress.ended.inj (some.inj ((hended i r hr).symm.trans hs)))
  rw [h'.succeeded_iff] at hj
  rw [h.succeeded_iff]
  rw [append_assoc] at horder
  rcases append_eq_append_iff.mp horder with ⟨as, hgood, -⟩ | ⟨bs, hgood, hbs⟩
  · rw [hgood]
    exact mem_append_left as hj
  · cases bs with
    | nil => rwa [hgood, append_nil] at hj
    | cons b bs =>
      obtain ⟨rfl, -⟩ := cons_eq_cons.mp hbs
      rw [hgood] at hnot
      exact absurd (mem_append_right good mem_cons_self) hnot

/-- **The audit trail under failures.** In every run from a file of complete lines, with any number
of callers, each call carries the one line of its record, and the workers that succeeded are an
initial part of the order in which they had the writer. The file is the initial lines and theirs,
synchronized, and a tail. While no write is in progress the tail is empty or was left by the one
worker behind them, which failed, and from then on no worker succeeds. A caller is told of success
only when its worker succeeded. -/
theorem audit_trail_integrity (serde : SerdeJson ν) (toValue : ρ → Except String (Json ν))
    (epoch : ℕ) (initial : List (List UInt8)) {events : List (Event ρ)} {s : AuditSink ρ}
    (hrun : (fromFile epoch (trail initial)).run serde toValue events = some s) :
    (∀ c ∈ s.calls, ∃ text, canonicalJson serde toValue c.record = .ok text ∧
      c.line = utf8Bytes text ++ [newline] ∧ newline ∉ utf8Bytes text) ∧
    (∀ i c, s.calls[i]? = some c → c.caller = .answered (.ok ()) → s.Succeeded i) ∧
    ∃ good rest tail, lockOrder events = good ++ rest ∧ (lockOrder events).Nodup ∧
      (∀ i, s.Succeeded i ↔ i ∈ good) ∧
      s.synced = trail initial ++ good.flatMap s.lineOf ∧ s.file = s.synced ++ tail ∧
      (s.holder = none → (rest = [] ∧ tail = []) ∨
        ∃ i more, rest = i :: more ∧ s.Failed i ∧ tail <+: s.lineOf i ∧
          ∀ later s', s.run serde toValue later = some s' →
            ∀ j, s'.Succeeded j → s.Succeeded j) := by
  obtain ⟨⟨good, rest, h, horder⟩, hcalls, -⟩ :=
    (sound_fromFile epoch (trail initial)).run nofun hrun
  refine ⟨fun c hc ↦ ?_, fun i c hc hanswered ↦ ?_, good, rest, ?_⟩
  · obtain ⟨text, htext, hline⟩ := (hcalls c hc).1
    exact ⟨text, htext, hline, newline_not_mem_canonicalJson htext⟩
  · show s.progress i = _
    rw [progress_of_getElem? hc, (hcalls c (mem_of_getElem? hc)).2 hanswered]
  · have hfixed : ∀ tail, s.file = trail initial ++ good.flatMap s.lineOf ++ tail →
        s.file = s.synced ++ tail := fun tail hfile ↦ by rw [hfile, h.synced]
    have horder : good ++ rest = lockOrder events := horder
    have hnodup : (lockOrder events).Nodup := horder ▸ h.nodup
    cases h.standing with
    | ready hholder _ _ hfile =>
      exact ⟨[], horder.symm, hnodup, h.succeeded_iff, h.synced,
        hfixed [] (by rw [hfile, append_nil]), fun _ ↦ .inl ⟨rfl, rfl⟩⟩
    | writing hholder _ _ _ _ hfile | syncing hholder _ _ _ hfile =>
      exact ⟨_, horder.symm, hnodup, h.succeeded_iff, h.synced, hfixed _ hfile, fun hidle ↦
        nomatch hholder.symm.trans hidle⟩
    | broken _ _ hrest hpart hfile =>
      have hfailed := hrest _ mem_cons_self
      exact ⟨_, horder.symm, hnodup, h.succeeded_iff, h.synced, hfixed _ hfile, fun _ ↦
        .inr ⟨_, _, rfl, hfailed, hpart, fun later s' hlater j hj ↦
          h.succeeded_of_failed hcalls hfailed hlater hj⟩⟩

end AuditSink

/-! ### A run in which a write fails -/

/-- Texts in quotes, with every newline left out. -/
def plainJson : SerdeJson Empty where
  string s := "\"" ++ String.ofList (s.toList.filter (· ≠ '\n')) ++ "\""
  number := Empty.elim
  newline_not_mem_string s := by simp
  newline_not_mem_number n := n.elim

/-- Three appends: the first is written in two parts, the second fails half way after its caller has
gone, and the third finds the flag. -/
def tornWrite : List (Event String) :=
  [.append "a" none 1, .append "bc" (some 5000000) 2, .lock 0 3, .write (.wrote 1),
    .append "d" none 4, .write .interrupted, .write (.wrote 3), .sync .synced, .release 0,
    .answer 0, .elapse 1, .lock 1 5, .write (.failed 2 "no space left on device"), .lock 2 6,
    .release 2, .answer 2]

theorem audit_trail_integrity_tornWrite :
    ∃ s, (AuditSink.fromFile 0 (trail [])).run plainJson (fun r ↦ .ok (.string r)) tornWrite =
        some s ∧
      (∀ i c, s.calls[i]? = some c → c.caller = .answered (.ok ()) → s.Succeeded i) ∧
      s.file = utf8Bytes "\"a\"\n\"b" := by
  obtain ⟨s, hs⟩ : ∃ s, (AuditSink.fromFile 0 (trail [])).run plainJson
      (fun r ↦ .ok (.string r)) tornWrite = some s :=
    isSome_iff_exists.mp (by decide +kernel)
  have hfile : ((AuditSink.fromFile 0 (trail [])).run plainJson (fun r ↦ .ok (.string r))
      tornWrite).map AuditSink.file = some (utf8Bytes "\"a\"\n\"b") := by decide +kernel
  rw [hs] at hfile
  exact ⟨s, hs, (AuditSink.audit_trail_integrity plainJson _ 0 [] hs).2.1, some.inj hfile⟩

end Maknae.Audit
