import Maknae.Config.CanonicalText

/-!
# The form of the accepted baseline

The accepted configuration is kept as the canonical text of each section. Its texts are read by the
JSON reader, which is not part of the source. What is asked of it here (`ReadsMembers`) is what a
reader does that reads a member of a map as it reads it anywhere else: the map comes with its keys
in order, and a map of members it has read before is read too.

That is enough for taking members from several texts and writing one of them
(`valueFromCanonicalJson_map`).
-/

namespace Maknae.Config

/-- Section names and their canonical texts. -/
abbrev BaselineSections := Std.ExtTreeMap String String compare

/-- The reader reads maps by their members. -/
structure ReadsMembers (parseJson : String → Option Value) : Prop where
  ordered : ∀ {s entries}, valueFromCanonicalJson parseJson s = some (.map entries) →
    entries.Pairwise fun a b ↦ a.1 < b.1
  members : ∀ {entries : List (String × Value)}, entries.Pairwise (fun a b ↦ a.1 < b.1) →
    (∀ e ∈ entries, ∃ s es, valueFromCanonicalJson parseJson s = some (.map es) ∧ e ∈ es) →
    parseJson (canonicalJson (.map entries)) = some (.map entries)

theorem readsMembers_canonicalReader : ReadsMembers canonicalReader := by
  have hread : ∀ {s entries}, valueFromCanonicalJson canonicalReader s = some (.map entries) →
      (Value.map entries).Ordered := fun h ↦
    (canonicalReader_eq_some.mp (Option.filter_eq_some_iff.mp h).1).1
  refine ⟨fun h ↦ ?_, fun hordered hmembers ↦ canonicalReader_eq_some.mpr ⟨.map hordered ?_, rfl⟩⟩
  · cases hread h with
    | map hkeys _ => exact hkeys
  · intro e he
    obtain ⟨s, es, hs, hmem⟩ := hmembers e he
    cases hread hs with
    | map _ h => exact h e hmem

variable {parseJson : String → Option Value}

/-- **Members from several texts, written as one map and read back.** -/
theorem valueFromCanonicalJson_map (hreader : ReadsMembers parseJson)
    {entries : List (String × Value)} (hnodup : (entries.map Prod.fst).Nodup)
    (hmembers : ∀ e ∈ entries, ∃ s es,
      valueFromCanonicalJson parseJson s = some (.map es) ∧ e ∈ es) :
    valueFromCanonicalJson parseJson (canonicalJson (.map entries)) =
      some (.map (sortByKey Prod.fst entries)) := by
  have hordered := pairwise_lt_sortByKey hnodup
  rw [canonicalJson_map_of_perm (sortByKey_perm Prod.fst entries).symm hordered]
  refine valueFromCanonicalJson_of_eq (hreader.members hordered fun e he ↦ ?_)
  exact hmembers e (mem_sortByKey.mp he)

end Maknae.Config
