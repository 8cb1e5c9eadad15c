import Maknae.Audit.Scan
import Maknae.Foundation.ByteScan
import Maknae.Foundation.OrderedList

/-!
# The line of an audit record

A record is turned into a JSON value and written with the members of every object in key order. The
line that goes to the trail is that text and a newline.

Strings and numbers are written by the JSON library. All that is assumed of it is that it escapes
the newline (`SerdeJson`), and then the newline at its end is the only one of a line
(`newline_not_mem_canonicalJson`): what the writer adds of its own is punctuation.
-/

namespace Maknae.Audit

open List

/-- A JSON value with numbers `ν`. -/
inductive Json (ν : Type)
  | null
  | bool (b : Bool)
  | number (n : ν)
  | string (s : String)
  | array (items : List (Json ν))
  | object (members : List (String × Json ν))

/-- What the writer takes from the JSON library: the texts of strings and numbers, on one line. -/
structure SerdeJson (ν : Type) where
  string : String → String
  number : ν → String
  newline_not_mem_string : ∀ s, '\n' ∉ (string s).toList
  newline_not_mem_number : ∀ n, '\n' ∉ (number n).toList

inductive AuditError
  | openPrimary (path detail : String)
  | writePrimary (message : String)
  | readPrimary (message : String)
  | serialize (message : String)
  | missing (path : String)

variable {ν ρ : Type}

mutual

def writeCanonical (serde : SerdeJson ν) : Json ν → String
  | .null => "null"
  | .bool b => if b then "true" else "false"
  | .number n => serde.number n
  | .string s => serde.string s
  | .array items => "[" ++ ",".intercalate (writeItems serde items) ++ "]"
  | .object members =>
    "\x7b" ++ ",".intercalate ((sortByKey Prod.fst (writeMembers serde members)).map Prod.snd) ++
      "\x7d"

/-- The texts of the items of an array. -/
def writeItems (serde : SerdeJson ν) : List (Json ν) → List String
  | [] => []
  | v :: rest => writeCanonical serde v :: writeItems serde rest

/-- The texts of the members of an object, with their keys. -/
def writeMembers (serde : SerdeJson ν) : List (String × Json ν) → List (String × String)
  | [] => []
  | (k, v) :: rest =>
    (k, serde.string k ++ ":" ++ writeCanonical serde v) :: writeMembers serde rest

end

/-- The text of a record, from the value it is serialized to. -/
def canonicalJson (serde : SerdeJson ν) (toValue : ρ → Except String (Json ν)) (record : ρ) :
    Except AuditError String :=
  match toValue record with
  | .error e => .error (.serialize e)
  | .ok value => .ok (writeCanonical serde value)

/-- The texts with a comma between them are on one line when each is. -/
theorem newline_not_mem_intercalate {texts} (h : ∀ t ∈ texts, '\n' ∉ t.toList) :
    '\n' ∉ (",".intercalate texts).toList := by
  rw [String.toList_intercalate]
  intro hmem
  induction texts with
  | nil => simp at hmem
  | cons t rest ih =>
    cases rest with
    | nil => exact h t mem_cons_self (by simpa [List.intercalate] using hmem)
    | cons u rest =>
      rw [map_cons, map_cons, intercalate_cons_cons] at hmem
      rw [mem_append, mem_append] at hmem
      rcases hmem with (hmem | hmem) | hmem
      · exact h t mem_cons_self hmem
      · simp at hmem
      · exact ih (fun t ht ↦ h t (mem_cons_of_mem _ ht)) hmem

mutual

theorem newline_not_mem_writeCanonical (serde : SerdeJson ν) :
    ∀ v, '\n' ∉ (writeCanonical serde v).toList
  | .null => by simp [writeCanonical]
  | .bool b => by cases b <;> simp [writeCanonical]
  | .number n => serde.newline_not_mem_number n
  | .string s => serde.newline_not_mem_string s
  | .array items => by
    have := newline_not_mem_intercalate (newline_not_mem_writeItems serde items)
    simpa [writeCanonical] using this
  | .object members => by
    have hmembers : ∀ t ∈ (sortByKey Prod.fst (writeMembers serde members)).map Prod.snd,
        '\n' ∉ t.toList := by
      intro t ht
      obtain ⟨m, hm, rfl⟩ := mem_map.mp ht
      exact newline_not_mem_writeMembers serde members m ((mem_sortByKey ..).mp hm)
    have := newline_not_mem_intercalate hmembers
    simpa [writeCanonical] using this

theorem newline_not_mem_writeItems (serde : SerdeJson ν) :
    ∀ items, ∀ t ∈ writeItems serde items, '\n' ∉ t.toList
  | [], _, ht => absurd ht not_mem_nil
  | v :: rest, t, ht => by
    rcases mem_cons.mp ht with rfl | ht
    · exact newline_not_mem_writeCanonical serde v
    · exact newline_not_mem_writeItems serde rest t ht

theorem newline_not_mem_writeMembers (serde : SerdeJson ν) :
    ∀ members, ∀ m ∈ writeMembers serde members, '\n' ∉ m.2.toList
  | [], _, hm => absurd hm not_mem_nil
  | (k, v) :: rest, m, hm => by
    rcases mem_cons.mp hm with rfl | hm
    · have hkey := serde.newline_not_mem_string k
      have hvalue := newline_not_mem_writeCanonical serde v
      simp [hkey, hvalue]
    · exact newline_not_mem_writeMembers serde rest m hm

end

theorem newline_not_mem_canonicalJson {serde : SerdeJson ν} {toValue : ρ → Except String (Json ν)}
    {record} {text} (h : canonicalJson serde toValue record = .ok text) :
    newline ∉ utf8Bytes text := by
  intro hmem
  obtain ⟨c, hc, hnat⟩ := exists_of_mem_utf8Bytes (by decide) hmem
  obtain rfl : c = '\n' := Char.toNat_inj.mp hnat
  unfold canonicalJson at h
  split at h
  · cases h
  · cases h
    exact newline_not_mem_writeCanonical serde _ hc

end Maknae.Audit
