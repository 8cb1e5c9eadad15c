import Maknae.Audit.Record
import Maknae.Config.Error
import Maknae.Config.ValueOrder
import Mathlib.Data.ENat.Basic

/-!
# Reading canonical JSON

A canonical text is read by the JSON library, turned into a configuration value, and refused unless
it is the text of that value. Of the library it is assumed that it reads each form of JSON the
canonical writer uses (`ReadsJson`): strings as they were before they were escaped, arrays and
objects by their parts, objects with their keys in order. The library stops at a depth of nesting,
which is a parameter; there may be none.

What was written from a value is then read as the value with its keys in order
(`decode_canonicalJson`), up to that depth.
-/

namespace Maknae.Config

open List

open Audit (Json)

/-- A number of the JSON library. A negative one is of 64 bits. -/
inductive Number
  | posInt (n : UInt64)
  | negInt (n : ℤ)
  /-- A float, by the shortest decimal text that reads back as it. -/
  | float (text : String)

def Number.asI64 : Number → Option ℤ
  | .posInt n => if n.toNat < 2 ^ 63 then some n.toNat else none
  | .negInt n => some n
  | .float _ => none

/-- The float, of a number that is one. -/
def Number.asF64 : Number → Option String
  | .float text => some text
  | _ => none

mutual

def convert : Json Number → Except String Value
  | .null => .ok .null
  | .bool b => .ok (.bool b)
  | .number n =>
    match n.asI64, n.asF64 with
    | some i, _ => .ok (.int i)
    | none, some f => .ok (.float f)
    | none, none => .error "a number is out of range"
  | .string s => .ok (.str s)
  | .array items => do return .seq (← convertItems items)
  | .object entries => do return .map (← convertMembers entries)

def convertItems : List (Json Number) → Except String (List Value)
  | [] => .ok []
  | j :: rest => do
    let v ← convert j
    let vs ← convertItems rest
    return v :: vs

def convertMembers : List (String × Json Number) → Except String (List (String × Value))
  | [] => .ok []
  | (k, j) :: rest => do
    let v ← convert j
    let vs ← convertMembers rest
    return (k, v) :: vs

end

section Decode

variable (fromStr : String → Except String (Json Number))

def decode (s : String) : Except String Value := do
  let parsed ← (fromStr s).mapError ("not JSON: " ++ ·)
  let value ← convert parsed
  if canonicalJson value ≠ s then .error "not in canonical form" else return value

/-- The value of a canonical text, or why it has none. -/
def readCanonicalJson (s : String) : Except ConfigError Value :=
  (decode fromStr s).mapError .baselineValue

end Decode

/-! ### The JSON library -/

mutual

/-- How deep arrays and objects are nested. -/
def depth : Json Number → ℕ
  | .array items => depthItems items + 1
  | .object entries => depthMembers entries + 1
  | _ => 0

def depthItems : List (Json Number) → ℕ
  | [] => 0
  | j :: rest => max (depth j) (depthItems rest)

def depthMembers : List (String × Json Number) → ℕ
  | [] => 0
  | (_, j) :: rest => max (depth j) (depthMembers rest)

end

/-- The number an integer is read as. -/
def Number.ofInt (n : ℤ) : Number := if 0 ≤ n then .posInt (.ofNat n.toNat) else .negInt n

/-- **What is assumed of the JSON library.** It reads the texts of scalars, and texts of arrays and
objects by the texts of their parts, as long as they are nested less deep than its limit. -/
structure ReadsJson (limit : ℕ∞) (fromStr : String → Except String (Json Number)) : Prop where
  null : fromStr "null" = .ok .null
  bool (b : Bool) : fromStr (if b then "true" else "false") = .ok (.bool b)
  int {n : ℤ} (hn : -2 ^ 63 ≤ n ∧ n < 2 ^ 63) : fromStr (toString n) = .ok (.number (.ofInt n))
  /-- Escaping and reading a string are inverse. -/
  string (s : String) : fromStr (writeJsonString s) = .ok (.string s)
  array {items : List (String × Json Number)} (hitems : ∀ p ∈ items, fromStr p.1 = .ok p.2)
    (hdepth : (depth (.array (items.map Prod.snd)) : ℕ∞) < limit) :
    fromStr ("[" ++ ",".intercalate (items.map Prod.fst) ++ "]") = .ok (.array (items.map Prod.snd))
  object {members : List (String × String × Json Number)}
    (hkeys : members.Pairwise fun a b ↦ a.1 < b.1)
    (hmembers : ∀ p ∈ members, fromStr p.2.1 = .ok p.2.2)
    (hdepth : (depth (.object (members.map fun p ↦ (p.1, p.2.2))) : ℕ∞) < limit) :
    fromStr ("\x7b" ++ ",".intercalate
        (members.map fun p ↦ writeJsonString p.1 ++ ":" ++ p.2.1) ++ "\x7d") =
      .ok (.object (members.map fun p ↦ (p.1, p.2.2)))

/-! ### Values as JSON -/

mutual

/-- The JSON value of a configuration value. -/
def Value.toJson : Value → Json Number
  | .null => .null
  | .bool b => .bool b
  | .int n => .number (.ofInt n)
  | .float text => .number (.float text)
  | .str s => .string s
  | .seq items => .array (toJsonItems items)
  | .map entries => .object (toJsonMembers entries)

def Value.toJsonItems : List Value → List (Json Number)
  | [] => []
  | v :: rest => v.toJson :: toJsonItems rest

def Value.toJsonMembers : List (String × Value) → List (String × Json Number)
  | [] => []
  | (k, v) :: rest => (k, v.toJson) :: toJsonMembers rest

end

open Value

theorem toJsonItems_eq_map (l : List Value) : toJsonItems l = l.map toJson := by
  induction l with
  | nil => rw [toJsonItems, map_nil]
  | cons v l ih => rw [toJsonItems, ih, map_cons]

theorem toJsonMembers_eq_map (l : List (String × Value)) :
    toJsonMembers l = l.map fun p ↦ (p.1, p.2.toJson) := by
  induction l with
  | nil => rw [toJsonMembers, map_nil]
  | cons p l ih => rw [toJsonMembers, ih, map_cons]

theorem convertItems_eq_mapM (l : List (Json Number)) : convertItems l = l.mapM convert := by
  induction l with
  | nil => rw [convertItems]; rfl
  | cons j l ih => rw [convertItems, ih, mapM_cons]

theorem convertMembers_eq_mapM (l : List (String × Json Number)) :
    convertMembers l = l.mapM fun p ↦ do return (p.1, ← convert p.2) := by
  induction l with
  | nil => rw [convertMembers]; rfl
  | cons p l ih =>
    rw [convertMembers, ih, mapM_cons]
    cases convert p.2 <;> rfl

variable {n : ℕ} {j : Json Number} {v : Value}

theorem depthItems_le {l : List (Json Number)} :
    depthItems l ≤ n ↔ ∀ j ∈ l, depth j ≤ n := by
  induction l with
  | nil => exact iff_of_true (Nat.zero_le n) nofun
  | cons j l ih => rw [depthItems, max_le_iff, ih, forall_mem_cons]

theorem depthMembers_le {l : List (String × Json Number)} :
    depthMembers l ≤ n ↔ ∀ p ∈ l, depth p.2 ≤ n := by
  induction l with
  | nil => exact iff_of_true (Nat.zero_le n) nofun
  | cons p l ih => rw [depthMembers, max_le_iff, ih, forall_mem_cons]

theorem depth_lt_array {items : List (Json Number)} (h : j ∈ items) :
    depth j < depth (.array items) := by
  exact Nat.lt_succ_of_le (depthItems_le.mp le_rfl j h)

theorem depth_lt_object {p : String × Json Number} {entries : List (String × Json Number)}
    (h : p ∈ entries) : depth p.2 < depth (.object entries) := by
  exact Nat.lt_succ_of_le (depthMembers_le.mp le_rfl p h)

theorem depth_toJson_sortKeys (h : v.Plain) :
    depth v.sortKeys.toJson ≤ depth v.toJson := by
  induction h with
  | @seq items _ ih =>
    rw [sortKeys, toJson, toJson, depth, depth, sortItems_eq_map, toJsonItems_eq_map,
      toJsonItems_eq_map, map_map, Nat.add_le_add_iff_right, depthItems_le]
    refine forall_mem_map.mpr fun v hv ↦ (ih v hv).trans ?_
    exact depthItems_le.mp le_rfl _ (mem_map_of_mem hv)
  | @map entries _ _ ih =>
    rw [sortKeys, toJson, toJson, depth, depth, sortMembers_eq_map, toJsonMembers_eq_map,
      toJsonMembers_eq_map, Nat.add_le_add_iff_right, depthMembers_le]
    refine forall_mem_map.mpr fun p hp ↦ ?_
    obtain ⟨q, hq, rfl⟩ := mem_map.mp (mem_sortByKey.mp hp)
    exact (ih q hq).trans (depthMembers_le.mp le_rfl (q.1, q.2.toJson) (mem_map.mpr ⟨q, hq, rfl⟩))
  | _ => exact le_rfl

theorem asI64_ofInt {n} (hn : -2 ^ 63 ≤ n ∧ n < 2 ^ 63) : (Number.ofInt n).asI64 = some n := by
  unfold Number.ofInt
  split_ifs with hsign
  · have hlt : n.toNat < 2 ^ 63 := by omega
    have hword : (UInt64.ofNat n.toNat).toNat = n.toNat :=
      UInt64.toNat_ofNat_of_lt' (hlt.trans (by decide))
    rw [Number.asI64, hword, if_pos hlt, Int.toNat_of_nonneg hsign]
  · rfl

theorem convert_toJson (h : v.Ordered) : convert v.toJson = .ok v := by
  induction h with
  | int hn =>
    rw [toJson, convert, asI64_ofInt hn]
  | @seq items _ ih =>
    have hitems : items.mapM (convert ∘ toJson) = .ok items :=
      (Except.mapM_eq_ok_map ih).trans (congrArg _ (map_id items))
    rw [toJson, toJsonItems_eq_map, convert, convertItems_eq_mapM, mapM_map, hitems]
    rfl
  | @map entries _ _ ih =>
    have hmember (p : String × Value) (hp : p ∈ entries) :
        (do return (p.1, ← convert p.2.toJson) : Except String (String × Value)) = .ok p := by
      rw [ih p hp]
      rfl
    rw [toJson, toJsonMembers_eq_map, convert, convertMembers_eq_mapM, mapM_map]
    exact (congrArg (fun r ↦ r >>= fun members ↦ pure (Value.map members))
      (Except.mapM_eq_ok_map (g := id) hmember)).trans (by rw [map_id]; rfl)
  | _ => rw [toJson, convert]

section Reads

variable {limit : ℕ∞} {fromStr : String → Except String (Json Number)}

/-- The text of a value is read as its JSON value. -/
theorem ReadsJson.canonicalJson (hreader : ReadsJson limit fromStr) {v} (h : v.Ordered)
    (hdepth : (depth v.toJson : ℕ∞) < limit) :
    fromStr (canonicalJson v) = .ok v.toJson := by
  induction h with
  | null => exact hreader.null
  | bool b => exact hreader.bool b
  | int hn => exact hreader.int hn
  | str s => exact hreader.string s
  | @seq items _ ih =>
    have hitems : toJson (.seq items) =
        .array ((items.map fun v ↦ (Config.canonicalJson v, v.toJson)).map Prod.snd) := by
      rw [toJson, toJsonItems_eq_map, map_map]
      rfl
    have htext : Config.canonicalJson (.seq items) = "[" ++ ",".intercalate
        ((items.map fun v ↦ (Config.canonicalJson v, v.toJson)).map Prod.fst) ++ "]" := by
      rw [Config.canonicalJson, canonicalItems_eq_map, map_map]
      rfl
    rw [hitems] at hdepth ⊢
    rw [htext]
    refine hreader.array (forall_mem_map.mpr fun v hv ↦ ih v hv ?_) hdepth
    refine (Nat.cast_lt.mpr (depth_lt_array ?_)).trans hdepth
    rw [map_map]
    exact mem_map_of_mem hv
  | @map entries hkeys _ ih =>
    let members := entries.map fun p ↦ (p.1, Config.canonicalJson p.2, p.2.toJson)
    have hobject : toJson (.map entries) = .object (members.map fun p ↦ (p.1, p.2.2)) := by
      rw [toJson, toJsonMembers_eq_map, map_map]
      rfl
    have htext : Config.canonicalJson (.map entries) = "\x7b" ++ ",".intercalate
        (members.map fun p ↦ writeJsonString p.1 ++ ":" ++ p.2.1) ++ "\x7d" := by
      rw [canonicalJson_map_of_ordered hkeys, map_map]
      rfl
    rw [hobject] at hdepth ⊢
    rw [htext]
    refine hreader.object (pairwise_map.mpr hkeys)
      (forall_mem_map.mpr fun p hp ↦ ih p hp ?_) hdepth
    refine (Nat.cast_lt.mpr (depth_lt_object (p := (p.1, p.2.toJson)) ?_)).trans hdepth
    rw [map_map]
    exact mem_map.mpr ⟨p, hp, rfl⟩

/-- **A canonical text is read as the value with its keys in order.** -/
theorem decode_canonicalJson (hreader : ReadsJson limit fromStr) {v} (h : v.Plain)
    (hdepth : (depth v.toJson : ℕ∞) < limit) :
    decode fromStr (Config.canonicalJson v) = .ok v.sortKeys := by
  have hread := hreader.canonicalJson h.ordered_sortKeys
    ((Nat.cast_le.mpr (depth_toJson_sortKeys h)).trans_lt hdepth)
  rw [canonicalJson_sortKeys h] at hread
  rw [decode, hread]
  show (convert v.sortKeys.toJson >>= fun value ↦
    if Config.canonicalJson value ≠ Config.canonicalJson v then
    .error "not in canonical form" else .ok value) = _
  rw [convert_toJson h.ordered_sortKeys, Except.ok_bind, canonicalJson_sortKeys h,
    if_neg (not_not_intro rfl)]

/-- **Canonical JSON identifies values.** Two values have one text exactly when they are equal up to
the order of map keys, and a text is read back as the value with its keys in order. -/
theorem canonicalJson_identifies (hreader : ReadsJson limit fromStr) {v w : Value} (hv : v.Plain)
    (hw : w.Plain) :
    (canonicalJson v = canonicalJson w ↔ v.Agrees w) ∧
      ((depth v.toJson : ℕ∞) < limit →
        readCanonicalJson fromStr (canonicalJson v) = .ok v.sortKeys) := by
  refine ⟨canonicalJson_eq_iff hv hw, fun hdepth ↦ ?_⟩
  rw [readCanonicalJson, decode_canonicalJson hreader hv hdepth]
  rfl

end Reads

/-! ### A library that reads so -/

/-- A reader that knows the texts of values with their keys in order. -/
noncomputable def orderedReader (s : String) : Except String (Json Number) :=
  match canonicalReader s with
  | some v => .ok v.toJson
  | none => .error "expected value"

theorem orderedReader_canonicalJson (hv : v.Ordered) :
    orderedReader (canonicalJson v) = .ok v.toJson := by
  rw [orderedReader, canonicalReader_eq_some.mpr ⟨hv, rfl⟩]

theorem exists_of_orderedReader {s} (h : orderedReader s = .ok j) :
    ∃ v : Value, v.Ordered ∧ canonicalJson v = s ∧ v.toJson = j := by
  rw [orderedReader] at h
  split at h
  · next v hv =>
    obtain ⟨hordered, htext⟩ := canonicalReader_eq_some.mp hv
    exact ⟨v, hordered, htext, Except.ok.inj h⟩
  · cases h

/-- **There is such a library**, since no two values with their keys in order have one text. -/
theorem readsJson_orderedReader : ReadsJson ⊤ orderedReader where
  null := orderedReader_canonicalJson .null
  bool b := orderedReader_canonicalJson (.bool b)
  int hn := orderedReader_canonicalJson (.int hn)
  string s := orderedReader_canonicalJson (.str s)
  array {items} hitems _ := by
    choose! value hvalue using fun p hp ↦ exists_of_orderedReader (hitems p hp)
    have hread := orderedReader_canonicalJson
      (.seq (forall_mem_map.mpr fun p hp ↦ (hvalue p hp).1))
    rw [toJson, toJsonItems_eq_map, canonicalJson, canonicalItems_eq_map, map_map, map_map] at hread
    have htexts : items.map (canonicalJson ∘ value) = items.map Prod.fst :=
      map_congr_left fun p hp ↦ (hvalue p hp).2.1
    have hjson : items.map (toJson ∘ value) = items.map Prod.snd :=
      map_congr_left fun p hp ↦ (hvalue p hp).2.2
    rwa [htexts, hjson] at hread
  object {members} hkeys hmembers _ := by
    choose! value hvalue using fun p hp ↦ exists_of_orderedReader (hmembers p hp)
    have hordered : (members.map fun p ↦ (p.1, value p)).Pairwise fun a b ↦ a.1 < b.1 :=
      pairwise_map.mpr hkeys
    have hread := orderedReader_canonicalJson
      (.map hordered (forall_mem_map.mpr fun p hp ↦ (hvalue p hp).1))
    rw [toJson, toJsonMembers_eq_map, canonicalJson_map_of_ordered hordered, map_map,
      map_map] at hread
    have htexts : members.map ((fun p ↦ writeJsonString p.1 ++ ":" ++ canonicalJson p.2) ∘
        fun p ↦ (p.1, value p)) = members.map fun p ↦ writeJsonString p.1 ++ ":" ++ p.2.1 :=
      map_congr_left fun p hp ↦ by rw [Function.comp_apply, (hvalue p hp).2.1]
    have hjson : members.map ((fun p ↦ (p.1, p.2.toJson)) ∘ fun p ↦ (p.1, value p)) =
        members.map fun p ↦ (p.1, p.2.2) :=
      map_congr_left fun p hp ↦ by rw [Function.comp_apply, (hvalue p hp).2.2]
    rwa [htexts, hjson] at hread

/-- A map in two orders. -/
def listed : Value := .map [("b", .seq [.int 1]), ("a", .str "\n")]

def relisted : Value := .map [("a", .str "\n"), ("b", .seq [.int 1])]

theorem plain_listed : listed.Plain ∧ relisted.Plain := by
  have hitems : (Value.seq [.int 1]).Plain := .seq (by simpa using .int (by decide))
  have htext : (Value.str "\n").Plain := .str _
  exact ⟨.map (by decide) (by simpa using ⟨hitems, htext⟩),
    .map (by decide) (by simpa using ⟨htext, hitems⟩)⟩

theorem canonicalJson_identifies_listed :
    canonicalJson listed = canonicalJson relisted ∧
      readCanonicalJson orderedReader (canonicalJson listed) = .ok relisted := by
  obtain ⟨hiff, hread⟩ :=
    canonicalJson_identifies readsJson_orderedReader plain_listed.1 plain_listed.2
  refine ⟨hiff.mpr ?_, hread (ENat.natCast_lt_top _)⟩
  exact .map (List.Perm.swap _ _ []) rfl fun p q hpq ↦ by
    simp only [zip_cons_cons, zip_nil_right, mem_cons, not_mem_nil,
      or_false] at hpq
    rcases hpq with ⟨rfl, rfl⟩ | ⟨rfl, rfl⟩ <;> exact .refl _

end Maknae.Config
