import Maknae.State.Store
import Maknae.StateGraph.LayersRoundTrip

/-!
# Rules for code that works on the store

One triple for each operation of `State.Store`, so that larger operations are judged by sequencing
the rules and never by looking at how writes go. A condition that looks at the store, the trail, the
revision floor and the boot flag only is **framed** (`Framed`), and most operations keep it. Two do
not: appending a record and persisting a graph.

The file also says that a store file can be read back: what was sealed from a graph of the kernel's
builder decodes to that graph (`decodeStore_of_seal`).
-/

namespace Maknae.State

open Except Job Run StateGraph

/-! ### Worlds -/

/-- The store, the trail and what the process knows of them are the same. -/
structure World.Same (w w' : World) : Prop where
  store_eq : w'.store = w.store
  history_eq : w'.history = w.history
  floor_eq : w'.floor = w.floor
  booted_eq : w'.booted = w.booted

/-- The condition looks at the store, the trail, the floor and the boot flag only. -/
def Framed (P : World → Prop) : Prop := ∀ w w' : World, w.Same w' → P w → P w'

/-- The world with one more record in the trail. -/
def World.appended (w : World) (r : Record) : World :=
  { w with history := w.history ++ [.appended r] }

/-- The world with another store in place, which the process knows of. -/
def World.placed (w : World) (g : Graph) (file : List UInt8) : World :=
  { w with store := some file, history := w.history ++ [.placed g file], floor := g.revision }

/-! ### Reading back -/

variable {ε α : Type} {a : α} {f : ε → StoreError} {file : List UInt8} {setting : Setting}

theorem mapError_eq_ok {x : Outcome ε α} :
    mapError f x = .ok a ↔ x = .ok a := by
  rcases x with (_ | _) | b
  · exact ⟨nofun, nofun⟩
  · exact ⟨nofun, nofun⟩
  · exact ⟨fun h ↦ congrArg _ (ok.inj h), fun h ↦ congrArg _ (ok.inj h)⟩

theorem reported_eq_ok {x : Except ε α} :
    reported f x = .ok a ↔ x = .ok a := by
  cases x with
  | error e => exact ⟨nofun, nofun⟩
  | ok b => exact ⟨fun h ↦ congrArg _ (ok.inj h), fun h ↦ congrArg _ (ok.inj h)⟩

/-- A graph of the kernel's builder. -/
def KernelGraph (g : Graph) : Prop :=
  ∃ (b : GraphBuilder) (compiled : CompiledSet), b.space = .kernel ∧
    b.build kernelSchema compiled = .ok g

/-- The file was sealed from the graph. -/
def Sealed (setting : Setting) (g : Graph) (file : List UInt8) : Prop :=
  ∃ (draws : Draws) (bytes : List UInt8), (encode g : Outcome GraphError _) = .ok bytes ∧
    sealFile setting.crypto draws bytes setting.key = .ok file

/-- **A store file decodes to the graph it was sealed from.** -/
theorem decodeStore_of_seal (hcrypto : setting.crypto.Lawful) {g} (hg : KernelGraph g)
    {x} (hx : Identity.extract g = .ok x) (hsealed : Sealed setting g file) :
    decodeStore setting file =
      .ok ⟨g, compiledOf g.nodes, x, g.revision, setting.crypto.sha256 file⟩ := by
  obtain ⟨b, compiled, hspace, hbuild⟩ := hg
  obtain ⟨draws, bytes, hbytes, hfile⟩ := hsealed
  have hdecode := decodeStoredCompiled_of_build hbuild hbytes
  have hkernel : g.space = .kernel := by
    obtain ⟨⟨g, bytes'⟩, hencoded, rfl⟩ := bind_pure_eq_ok.mp hbuild
    rw [(b.builtFrom hencoded).space_eq, hspace]
  rw [hkernel] at hdecode
  rw [decodeStore, openFile_sealFile hcrypto hfile]
  show (mapError classifyFormat (decodeStoredCompiled bytes .kernel kernelSchema) >>= _) = _
  rw [hdecode]
  show (reported _ (Identity.extract g) >>= _) = _
  rw [hx]
  rfl

theorem facts_of_decodeStore {d} (h : decodeStore setting file = .ok d) :
    d.facts = ⟨d.graph.revision, setting.crypto.sha256 file⟩ := by
  obtain ⟨plain, -, ⟨graph, stored⟩, -, extracted, -, ⟨⟩⟩ := bind₃_eq_ok.mp h
  rfl

/-! ### Rules -/

/-- The run did not stop because the anchor refused the store. -/
def Stop.Fair (e : Stop) : Prop :=
  ∀ reason, e = .failed (.refused reason) → reason = .revisionExhausted

theorem fair_died : Stop.died.Fair := nofun

/-- The computation never reports that the anchor refuses a store. -/
def FairOutcome {α : Type} (x : Outcome StoreError α) : Prop :=
  ∀ e, x = Outcome.fail e → (Stop.failed e).Fair

section FairOutcome

variable {α β : Type}

theorem fairOutcome_ok (a : α) : FairOutcome (.ok a : Outcome StoreError α) := nofun

theorem fairOutcome_fail {e} (h : (Stop.failed e).Fair) :
    FairOutcome (Outcome.fail e : Outcome StoreError α) := fun e' he ↦ by
  obtain rfl : e = e' := by simpa [Outcome.fail] using he
  exact h

theorem FairOutcome.bind {x : Outcome StoreError α} {f : α → Outcome StoreError β}
    (hx : FairOutcome x) (hf : ∀ a, FairOutcome (f a)) : FairOutcome (x >>= f) := by
  rcases x with (e | _) | a
  · intro e' he
    obtain rfl : e = e' := by simpa [Outcome.fail] using he
    exact hx e rfl
  · intro e he
    cases he
  · exact hf a

theorem fairOutcome_mapError {ε : Type} {error : ε → StoreError} {x : Outcome ε α}
    (h : ∀ e, (Stop.failed (error e)).Fair) : FairOutcome (mapError error x) := by
  rcases x with (e | _) | a
  · exact fairOutcome_fail (h e)
  · nofun
  · exact fairOutcome_ok a

end FairOutcome

section Rules

variable {P : World → Prop} {E : Stop → World → Prop} {α : Type}

theorem triple_lift {x : Outcome StoreError α}
    (hE : ∀ e w, (∀ e', e = .failed e' → x = Outcome.fail e') → P w → E e w) :
    Triple P (lift x) (fun a w ↦ x = .ok a ∧ P w) E := by
  rcases x with (_ | _) | a
  · exact triple_stop fun w ↦ hE _ w fun e he ↦ congrArg Outcome.fail (Stop.failed.inj he)
  · exact triple_stop fun w ↦ hE _ w nofun
  · exact triple_pure fun w hP ↦ ⟨rfl, hP⟩

theorem FairOutcome.triple_lift {x : Outcome StoreError α} (hx : FairOutcome x)
    (hE : ∀ e w, e.Fair → P w → E e w) : Triple P (lift x) (fun a w ↦ x = .ok a ∧ P w) E :=
  State.triple_lift fun e w he ↦ hE e w fun _ hr ↦ hx _ (he _ hr) _ rfl

variable {Q : World → Prop} {effect : World → World} {error : String → StoreError}
  {setting : Setting} {g : Graph}

theorem triple_onlyIf {c} {x : Run Unit} (h : c = true → Triple P x (fun _ ↦ Q) E)
    (hQ : c = false → ∀ w, P w → Q w) :
    Triple P (onlyIf c x) (fun _ ↦ Q) E := by
  rw [onlyIf]
  split_ifs with hc
  · exact h hc
  · exact triple_pure (hQ (by simpa using hc))

theorem framed_floor (hP : Framed P) (floor : UInt64) : Framed fun w ↦ w.floor = floor ∧ P w :=
  fun _ _ hsame hw ↦ ⟨hsame.floor_eq.trans hw.1, hP _ _ hsame hw.2⟩

-- The rules below say of every operation that the anchor's refusal is not what stops it.
variable (hP : Framed P) (hE : ∀ e w, e.Fair → P w → E e w)
include hP hE

theorem triple_chance : Triple P chance (fun _ ↦ P) E := by
  intro w hPw
  rw [chance]
  cases w.chances with
  | nil => exact hE _ _ fair_died hPw
  | cons c rest => exact hP w _ ⟨rfl, rfl, rfl, rfl⟩ hPw

/-- A write, by what it does to the world when it takes effect. -/
theorem triple_write (herror : ∀ cause, (Stop.failed (error cause)).Fair)
    (h : ∀ w, P w → Q (effect w) ∧ ∀ cause, E (.failed (error cause)) (effect w)) :
    Triple P (write error effect) (fun _ ↦ Q) E := by
  refine (triple_chance hP hE).bind fun c ↦ ?_
  cases c.fate with
  | done => exact triple_change fun w hPw ↦ (h w hPw).1
  | failed => exact triple_stop fun w ↦ hE _ w (herror _)
  | landed =>
    exact (triple_change (R := fun _ w ↦ ∀ cause, E (.failed (error cause)) w)
      fun w hPw ↦ (h w hPw).2).bind fun _ ↦ triple_stop fun w hw ↦ hw _

/-- A write beside the store and the trail. -/
theorem triple_write_same (herror : ∀ cause, (Stop.failed (error cause)).Fair)
    (h : ∀ w : World, w.Same (effect w)) :
    Triple P (write error effect) (fun _ ↦ P) E :=
  triple_write hP hE herror fun w hPw ↦
    ⟨hP _ _ (h w) hPw, fun _ ↦ hE _ _ (herror _) (hP _ _ (h w) hPw)⟩

theorem triple_append {r}
    (h : ∀ w, P w → Q (w.appended r) ∧ ∀ e, e.Fair → E e (w.appended r)) :
    Triple P (append r) (fun _ ↦ Q) E :=
  triple_write hP hE (fun _ ↦ nofun) fun w hPw ↦ ⟨(h w hPw).1, fun _ ↦ (h w hPw).2 _ nofun⟩

theorem triple_readStore : Triple P readStore (fun file w ↦ w.store = file ∧ P w) E := by
  refine (triple_chance hP hE).bind fun c ↦ triple_state.bind fun w ↦ ?_
  split
  · rename_i hstore
    exact triple_pure fun w' ⟨heq, hPw⟩ ↦ ⟨heq ▸ hstore, hPw⟩
  · rename_i hstore
    split_ifs
    · exact triple_stop fun w' hw ↦ hE _ _ nofun hw.2
    · exact triple_pure fun w' ⟨heq, hPw⟩ ↦ ⟨heq ▸ hstore, hPw⟩
  · exact triple_stop fun w' hw ↦ hE _ _ nofun hw.2

theorem triple_reseedMarker : Triple P reseedMarker (fun _ ↦ P) E := by
  refine (triple_chance hP hE).bind fun c ↦ triple_state.bind fun w ↦ ?_
  split <;> exact triple_pure fun w' ⟨_, hPw⟩ ↦ hPw

theorem triple_removeMirror : Triple P removeMirror (fun _ ↦ P) E :=
  triple_write_same hP hE (fun _ ↦ nofun) fun _ ↦ ⟨rfl, rfl, rfl, rfl⟩

theorem triple_removeMarker : Triple P removeMarker (fun _ ↦ P) E :=
  triple_write_same hP hE (fun _ ↦ nofun) fun _ ↦ ⟨rfl, rfl, rfl, rfl⟩

theorem triple_preserve {name bytes} :
    Triple P (preserve name bytes) (fun _ ↦ P) E := by
  refine (triple_chance hP hE).bind fun c ↦ triple_state.bind fun w ↦ ?_
  refine Triple.of_imp ?_ fun _ h ↦ h.2
  split
  · have hwrite : Triple P (write .io fun w ↦ { w with copies := w.copies.insert name bytes })
        (fun _ ↦ P) E := triple_write_same hP hE (fun _ ↦ nofun) fun w ↦ ⟨rfl, rfl, rfl, rfl⟩
    exact hwrite.bind fun _ ↦ triple_pure fun _ hPw ↦ hPw
  · split_ifs
    · exact triple_pure fun _ hPw ↦ hPw
    · exact triple_stop fun _ hPw ↦ hE _ _ nofun hPw
  · exact triple_stop fun _ hPw ↦ hE _ _ nofun hPw

theorem triple_preservePrior {prior} :
    Triple P (preservePrior setting prior) (fun _ ↦ P) E := by
  cases prior with
  | absent => exact triple_pure fun _ hPw ↦ hPw
  | readable file now =>
    exact (triple_preserve hP hE).bind fun _ ↦ triple_pure fun _ hPw ↦ hPw

/-- A file is put in place and the floor is set in one go. -/
theorem triple_publish {file} {β : Type} {k : Option String → β} {Q : β → World → Prop}
    (h : ∀ w e, P w → Q (k e) (w.placed g file)) :
    Triple P (publishStore g file >>= fun e ↦ setStoreRevision g.revision >>= fun _ ↦ pure (k e)) Q
      E := by
  -- between the two writes the floor is behind the store
  let behind (e : Option String) (w : World) : Prop := Q (k e) { w with floor := g.revision }
  have hpublish : Triple P (publishStore g file) behind E := by
    refine (triple_chance hP hE).bind fun c ↦ ?_
    cases c.fate with
    | done =>
      exact (triple_change fun w hPw ↦ h w none hPw).bind fun _ ↦
        triple_pure fun _ hw ↦ hw
    | failed => exact triple_stop fun w hPw ↦ hE _ w nofun hPw
    | landed =>
      exact (triple_change fun w hPw ↦
        h w (some c.cause) hPw).bind fun _ ↦ triple_pure fun _ hw ↦ hw
  exact hpublish.bind fun e ↦ (triple_change (R := fun _ ↦ Q (k e)) fun w hw ↦ hw).bind fun _ ↦
    triple_pure fun _ hw ↦ hw

/-- Persisting, by what a file in place does to the world. The revision is above the floor. -/
theorem triple_persist {Q : Persisted → World → Prop}
    (h : ∀ w file durabilityError, P w → w.floor < g.revision → Sealed setting g file →
    Q ⟨setting.crypto.sha256 file, durabilityError⟩ (w.placed g file)) :
    Triple P (persist setting g) Q E := by
  refine triple_state.bind fun w₀ ↦ ?_
  split_ifs with hfloor
  · exact triple_stop fun w hw ↦ hE _ w nofun hw.2
  let P' : World → Prop := fun w ↦ w.floor = w₀.floor ∧ P w
  have hP' : Framed P' := framed_floor hP w₀.floor
  have hE' : ∀ e w, e.Fair → P' w → E e w := fun e w he hw ↦ hE e w he hw.2
  refine Triple.of_imp (P := P') ?_ fun w hw ↦ ⟨by rw [hw.1], hw.2⟩
  refine (triple_removeMirror hP' hE').bind fun _ ↦ Triple.bind
    (FairOutcome.triple_lift (fairOutcome_mapError fun _ ↦ nofun) hE') fun bytes ↦ ?_
  refine Triple.of_fact (fun _ hw ↦ mapError_eq_ok.mp hw.1) fun hbytes ↦ ?_
  refine Triple.of_imp ?_ fun w hw ↦ hw.2
  refine (triple_chance hP' hE').bind fun c ↦ ?_
  split
  · exact triple_stop fun w hw ↦ hE' _ w nofun hw
  rename_i file hfile
  exact triple_publish hP' hE' fun w e hw ↦ h w file e hw.2 (hw.1 ▸ UInt64.not_le.mp hfloor)
    ⟨c.draws, bytes, hbytes, hfile⟩

end Rules

end Maknae.State
