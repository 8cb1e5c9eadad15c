import Maknae.Config.Value
import Maknae.Foundation.PrefixFree

/-!
# Values up to the order of their keys

The canonical text of a value is that of the value with its keys in order
(`canonicalJson_sortKeys`), and values with their keys in order have different texts
(`Value.Ordered.eq_of_canonicalJson`). So two values have one text when they agree up to the order
of their keys, and only then (`canonicalJson_eq_iff`).

This holds of values without floats in which no map has a key twice (`Value.Plain`). Integers are of
64 bits in the source.
-/

namespace Maknae.Config

open List

instance : Inhabited Value := ⟨.null⟩

namespace Value

/-- A value without floats in which no map has a key twice. -/
inductive Plain : Value → Prop
  | null : Plain .null
  | bool (b : Bool) : Plain (.bool b)
  | int {n : ℤ} (hn : -2 ^ 63 ≤ n ∧ n < 2 ^ 63) : Plain (.int n)
  | str (s : String) : Plain (.str s)
  | seq {items : List Value} (h : ∀ v ∈ items, Plain v) : Plain (.seq items)
  | map {entries : List (String × Value)} (hkeys : (entries.map Prod.fst).Nodup)
    (h : ∀ p ∈ entries, Plain p.2) : Plain (.map entries)

/-- A plain value with the keys of its maps in order. -/
inductive Ordered : Value → Prop
  | null : Ordered .null
  | bool (b : Bool) : Ordered (.bool b)
  | int {n : ℤ} (hn : -2 ^ 63 ≤ n ∧ n < 2 ^ 63) : Ordered (.int n)
  | str (s : String) : Ordered (.str s)
  | seq {items : List Value} (h : ∀ v ∈ items, Ordered v) : Ordered (.seq items)
  | map {entries : List (String × Value)} (hkeys : entries.Pairwise fun a b ↦ a.1 < b.1)
    (h : ∀ p ∈ entries, Ordered p.2) : Ordered (.map entries)

/-- Two values are equal up to the order of map keys: items agree in their places, and the members
of a map agree with those of the other in some order. -/
inductive Agrees : Value → Value → Prop
  | refl (v : Value) : Agrees v v
  | seq {items items' : List Value} (hlength : items.length = items'.length)
    (h : ∀ v w, (v, w) ∈ items.zip items' → Agrees v w) : Agrees (.seq items) (.seq items')
  | map {entries reordered entries' : List (String × Value)} (hperm : reordered.Perm entries')
    (hkeys : entries.map Prod.fst = reordered.map Prod.fst)
    (h : ∀ p q, (p, q) ∈ entries.zip reordered → Agrees p.2 q.2) :
    Agrees (.map entries) (.map entries')

mutual

/-- The value with the keys of its maps in order. -/
def sortKeys : Value → Value
  | .null => .null
  | .bool b => .bool b
  | .int n => .int n
  | .float text => .float text
  | .str s => .str s
  | .seq items => .seq (sortItems items)
  | .map entries => .map (sortByKey Prod.fst (sortMembers entries))

def sortItems : List Value → List Value
  | [] => []
  | v :: rest => sortKeys v :: sortItems rest

/-- The members with their values sorted, in their old order. -/
def sortMembers : List (String × Value) → List (String × Value)
  | [] => []
  | (k, v) :: rest => (k, sortKeys v) :: sortMembers rest

end

theorem sortItems_eq_map (l : List Value) : sortItems l = l.map sortKeys := by
  induction l with
  | nil => rw [sortItems, map_nil]
  | cons v l ih => rw [sortItems, ih, map_cons]

theorem sortMembers_eq_map (l : List (String × Value)) :
    sortMembers l = l.map fun p ↦ (p.1, p.2.sortKeys) := by
  induction l with
  | nil => rw [sortMembers, map_nil]
  | cons p l ih => rw [sortMembers, ih, map_cons]

theorem keys_sortMembers (l : List (String × Value)) :
    (sortMembers l).map Prod.fst = l.map Prod.fst := by
  rw [sortMembers_eq_map, map_map]
  rfl

end Value

/-! ### Strings -/

/-- The value of a lower-case hexadecimal digit. -/
def hexValue (c : Char) : ℕ := if c.isDigit then c.toNat - 48 else c.toNat - 87

/-- The character at the front of an escaped text, and the rest. -/
def unescape : List Char → Option (Char × List Char)
  | '\\' :: '"' :: r => some ('"', r)
  | '\\' :: '\\' :: r => some ('\\', r)
  | '\\' :: 'n' :: r => some ('\n', r)
  | '\\' :: 'r' :: r => some ('\r', r)
  | '\\' :: 't' :: r => some ('\t', r)
  | '\\' :: 'u' :: _ :: _ :: hi :: lo :: r =>
    some (Char.ofNat (16 * hexValue hi + hexValue lo), r)
  | c :: r => some (c, r)
  | [] => none

theorem toList_hex4 : ∀ n : Fin 32, (hex4 n.val).toList =
    ['0', '0', Nat.digitChar (n.val / 16), Nat.digitChar (n.val % 16)] := by
  decide

theorem hexValue_digitChar : ∀ d : Fin 16, hexValue (Nat.digitChar d.val) = d.val := by
  decide

theorem prefixFree_escapeChar : PrefixFree fun c ↦ (escapeChar c).toList := by
  refine prefixFree_of_decode unescape fun c r ↦ ?_
  unfold escapeChar
  split_ifs with h₁ h₂ h₃ h₄ h₅ h₆
  · rw [h₁]; rfl
  · rw [h₂]; rfl
  · rw [h₃]; rfl
  · rw [h₄]; rfl
  · rw [h₅]; rfl
  · have hhi := hexValue_digitChar ⟨c.toNat / 16, by omega⟩
    have hlo := hexValue_digitChar ⟨c.toNat % 16, by omega⟩
    rw [String.toList_append, toList_hex4 ⟨c.toNat, h₆⟩]
    show unescape ('\\' :: 'u' :: '0' :: '0' :: Nat.digitChar (c.toNat / 16) ::
      Nat.digitChar (c.toNat % 16) :: r) = _
    rw [unescape, hhi, hlo, Nat.div_add_mod, Char.ofNat_toNat]
  · rw [Char.toString]
    unfold unescape
    split <;> simp_all

theorem toList_writeJsonString (s : String) : (writeJsonString s).toList =
    ['"'] ++ (s.toList.flatMap (fun c ↦ (escapeChar c).toList) ++ ['"'] ++ []) := by
  rw [writeJsonString, String.toList_append, String.toList_append, String.toList_join,
    flatMap_map, append_nil]
  rfl

theorem startsBeside_escapeChar (c : Char) : StartsBeside '"' (escapeChar c).toList := by
  unfold escapeChar
  split_ifs with h₁ h₂ h₃ h₄ h₅ h₆
  · exact ⟨'\\', _, rfl, by decide⟩
  · exact ⟨'\\', _, rfl, by decide⟩
  · exact ⟨'\\', _, rfl, by decide⟩
  · exact ⟨'\\', _, rfl, by decide⟩
  · exact ⟨'\\', _, rfl, by decide⟩
  · exact ⟨'\\', 'u' :: (hex4 c.toNat).toList, by rw [String.toList_append]; rfl, by decide⟩
  · exact ⟨c, [], by rw [Char.toString, String.toList_singleton], h₁⟩

theorem prefixFree_writeJsonString : PrefixFree fun s ↦ (writeJsonString s).toList := by
  simp only [toList_writeJsonString]
  exact ((prefixFree_many prefixFree_escapeChar startsBeside_escapeChar).comp
    fun _ _ h ↦ String.toList_inj.mp h).wrap _ _

/-! ### Texts -/

theorem canonicalItems_eq_map (l : List Value) : canonicalItems l = l.map canonicalJson := by
  induction l with
  | nil => rw [canonicalItems, map_nil]
  | cons v l ih => rw [canonicalItems, ih, map_cons]

theorem canonicalMembers_eq_map (l : List (String × Value)) : canonicalMembers l =
    l.map fun p ↦ (p.1, writeJsonString p.1 ++ ":" ++ canonicalJson p.2) := by
  induction l with
  | nil => rw [canonicalMembers, map_nil]
  | cons p l ih => rw [canonicalMembers, ih, map_cons]

theorem canonicalJson_map_of_perm {l l' : List (String × Value)} (h : l.Perm l')
    (hordered : l'.Pairwise fun a b ↦ a.1 < b.1) :
    canonicalJson (.map l) = canonicalJson (.map l') := by
  have hmembers : (canonicalMembers l').Pairwise fun a b ↦ a.1 < b.1 := by
    rw [canonicalMembers_eq_map, pairwise_map]
    exact hordered
  have hperm : (canonicalMembers l).Perm (canonicalMembers l') := by
    rw [canonicalMembers_eq_map, canonicalMembers_eq_map]
    exact h.map _
  rw [canonicalJson, canonicalJson, sortByKey_eq_of_perm hperm hmembers,
    sortByKey_eq_of_perm (.refl _) hmembers]

theorem pairwise_lt_sortByKey {l : List (String × Value)} (h : (l.map Prod.fst).Nodup) :
    (sortByKey Prod.fst l).Pairwise fun a b ↦ a.1 < b.1 := by
  have hne : (sortByKey Prod.fst l).Pairwise fun a b ↦ a.1 ≠ b.1 :=
    pairwise_map.mp (((sortByKey_perm Prod.fst l).map Prod.fst).nodup_iff.mpr h)
  exact ((pairwise_sortByKey Prod.fst l).and hne).imp fun h ↦ lt_of_le_of_ne h.1 h.2

variable {entries : List (String × Value)} {c : Char} {n : ℤ} {v w : Value}

/-- The text of a map whose keys are in order. -/
theorem canonicalJson_map_of_ordered (hkeys : entries.Pairwise fun a b ↦ a.1 < b.1) :
    canonicalJson (.map entries) = "\x7b" ++ ",".intercalate
      (entries.map fun p ↦ writeJsonString p.1 ++ ":" ++ canonicalJson p.2) ++ "\x7d" := by
  have hsorted : (canonicalMembers entries).Pairwise fun a b ↦ a.1 < b.1 := by
    rw [canonicalMembers_eq_map, pairwise_map]
    exact hkeys
  rw [canonicalJson, sortByKey_eq_of_perm (.refl _) hsorted, canonicalMembers_eq_map, map_map]
  rfl

open Value

/-! ### Sorting keys -/

variable {v : Value} {w : Value}

theorem Value.Plain.ordered_sortKeys (h : v.Plain) : v.sortKeys.Ordered := by
  induction h with
  | null => exact .null
  | bool b => exact .bool b
  | int hn => exact .int hn
  | str s => exact .str s
  | seq _ ih =>
    rw [sortKeys, sortItems_eq_map]
    exact .seq (forall_mem_map.mpr ih)
  | map hkeys _ ih =>
    refine .map (pairwise_lt_sortByKey ((keys_sortMembers _).symm ▸ hkeys)) fun p hp ↦ ?_
    rw [mem_sortByKey, sortMembers_eq_map] at hp
    obtain ⟨q, hq, rfl⟩ := mem_map.mp hp
    exact ih q hq

theorem canonicalJson_sortKeys (h : v.Plain) :
    canonicalJson v.sortKeys = canonicalJson v := by
  induction h with
  | null | bool b | int hn | str s => rfl
  | seq _ ih =>
    rw [sortKeys, canonicalJson, canonicalJson, canonicalItems_eq_map, canonicalItems_eq_map,
      sortItems_eq_map, map_map]
    exact congrArg (fun texts ↦ "[" ++ ",".intercalate texts ++ "]") (map_congr_left ih)
  | @map entries hkeys _ ih =>
    have hmembers : canonicalMembers (sortMembers entries) = canonicalMembers entries := by
      rw [canonicalMembers_eq_map, canonicalMembers_eq_map, sortMembers_eq_map, map_map]
      exact map_congr_left fun p hp ↦ by rw [Function.comp_apply, ih p hp]
    have hordered := pairwise_lt_sortByKey ((keys_sortMembers entries).symm ▸ hkeys)
    rw [sortKeys, ← canonicalJson_map_of_perm (sortByKey_perm Prod.fst _).symm hordered,
      canonicalJson, canonicalJson, hmembers]

/-! ### Telling texts apart -/

/-- What can follow a value in a text. -/
def EndsValue (c : Char) : Prop := c = ',' ∨ c = ']' ∨ c = '\x7d'

/-- The form of a value, by the first character of its text. -/
def formOf (c : Char) : ℕ :=
  if c = 'n' then 0
  else if c = 't' then 1
  else if c = 'f' then 2
  else if c = '"' then 3
  else if c = '[' then 4
  else if c = '\x7b' then 5
  else if c.isDigit ∨ c = '-' then 6
  else 7

def Value.form : Value → ℕ
  | .null => 0
  | .bool b => if b then 1 else 2
  | .int _ => 6
  | .float _ => 6
  | .str _ => 3
  | .seq _ => 4
  | .map _ => 5

theorem isDigit_of_mem_repr {m} (h : c ∈ (Nat.repr m).toList) : c.isDigit := by
  rw [Nat.toList_repr] at h
  exact Nat.isDigit_of_mem_toDigits (by decide) (by decide) h

theorem toList_toString_negSucc (m : ℕ) :
    (toString (Int.negSucc m)).toList = '-' :: (Nat.repr (m + 1)).toList := by
  rw [show toString (Int.negSucc m) = "-" ++ Nat.repr (m + 1) from rfl, String.toList_append]
  rfl

theorem of_mem_toString_int (h : c ∈ (toString n).toList) :
    c.isDigit ∨ c = '-' := by
  cases n with
  | ofNat m => exact .inl (isDigit_of_mem_repr h)
  | negSucc m =>
    rw [toList_toString_negSucc] at h
    exact (mem_cons.mp h).symm.imp isDigit_of_mem_repr id

theorem toList_toString_int_ne_nil (n : ℤ) : (toString n).toList ≠ [] := by
  cases n with
  | ofNat m => exact fun h ↦ Nat.repr_ne_empty (String.toList_eq_nil_iff.mp h)
  | negSucc m =>
    rw [toList_toString_negSucc]
    exact cons_ne_nil _ _

theorem toString_int_inj {m n : ℤ} (h : (toString m).toList = (toString n).toList) : m = n := by
  -- a sign is no digit
  have hsign (k l : ℕ) : (toString (Int.ofNat k)).toList ≠ '-' :: (Nat.repr l).toList := fun h ↦ by
    have hmem : '-' ∈ (Nat.repr k).toList := h.symm ▸ mem_cons_self
    cases isDigit_of_mem_repr hmem
  cases m with
  | ofNat k =>
    cases n with
    | ofNat l => exact congrArg Int.ofNat (repr_injective (String.toList_inj.mp h))
    | negSucc l => exact absurd (h.trans (toList_toString_negSucc l)) (hsign k _)
  | negSucc k =>
    rw [toList_toString_negSucc] at h
    cases n with
    | ofNat l => exact absurd h.symm (hsign l _)
    | negSucc l =>
      rw [toList_toString_negSucc] at h
      have hrepr := repr_injective (String.toList_inj.mp (cons.inj h).2)
      exact congrArg Int.negSucc (Nat.succ.inj hrepr)

theorem not_endsValue_of_mem_toString_int (h : c ∈ (toString n).toList) :
    ¬EndsValue c := by
  rcases of_mem_toString_int h with hdigit | rfl
  · rintro (rfl | rfl | rfl) <;> cases hdigit
  · rintro (h | h | h) <;> cases h

theorem formOf_of_isDigit (h : c.isDigit ∨ c = '-') : formOf c = 6 := by
  have hne : c ≠ 'n' ∧ c ≠ 't' ∧ c ≠ 'f' ∧ c ≠ '"' ∧ c ≠ '[' ∧ c ≠ '\x7b' := by
    rcases h with hdigit | rfl
    · refine ⟨?_, ?_, ?_, ?_, ?_, ?_⟩ <;> rintro rfl <;> cases hdigit
    · decide
  obtain ⟨h₁, h₂, h₃, h₄, h₅, h₆⟩ := hne
  rw [formOf, if_neg h₁, if_neg h₂, if_neg h₃, if_neg h₄, if_neg h₅, if_neg h₆, if_pos h]

/-- A text starts as the form of its value says. -/
theorem Value.Ordered.exists_cons (h : v.Ordered) :
    ∃ c rest, (canonicalJson v).toList = c :: rest ∧ formOf c = v.form := by
  cases h with
  | null => exact ⟨'n', _, rfl, rfl⟩
  | bool b => cases b <;> exact ⟨_, _, rfl, rfl⟩
  | @int n hn =>
    obtain ⟨c, rest, hcons⟩ := exists_cons_of_ne_nil (toList_toString_int_ne_nil n)
    exact ⟨c, rest, hcons, formOf_of_isDigit (of_mem_toString_int (hcons ▸ mem_cons_self))⟩
  | str s =>
    rw [canonicalJson, toList_writeJsonString]
    exact ⟨'"', _, rfl, rfl⟩
  | seq _ =>
    rw [canonicalJson, String.toList_append, String.toList_append]
    exact ⟨'[', _, rfl, rfl⟩
  | map _ _ =>
    rw [canonicalJson, String.toList_append, String.toList_append]
    exact ⟨'\x7b', _, rfl, rfl⟩

theorem Value.Ordered.startsBeside (h : v.Ordered) {close} (hclose : formOf close = 7) :
    StartsBeside close (canonicalJson v).toList := by
  obtain ⟨c, rest, hcons, hform⟩ := h.exists_cons
  refine ⟨c, rest, hcons, ?_⟩
  rintro rfl
  rw [hclose] at hform
  cases h with
  | bool b => cases b <;> cases hform
  | _ => cases hform

/-- Values whose texts start alike are of one form. -/
theorem Value.Ordered.form_eq (hv : v.Ordered) (hw : w.Ordered) {r s}
    (h : (canonicalJson v).toList ++ r = (canonicalJson w).toList ++ s) : v.form = w.form := by
  obtain ⟨c, rest, hcons, hform⟩ := hv.exists_cons
  obtain ⟨c', rest', hcons', hform'⟩ := hw.exists_cons
  rw [hcons, hcons'] at h
  rw [← hform, ← hform', (cons.inj h).1]

theorem toList_canonicalJson_seq (items : List Value) (r : List Char) :
    (canonicalJson (.seq items)).toList ++ r =
      '[' :: ([','].intercalate (items.map fun v ↦ (canonicalJson v).toList) ++ ']' :: r) := by
  rw [canonicalJson, canonicalItems_eq_map]
  simp only [String.toList_append, String.toList_intercalate, map_map, append_assoc]
  rfl

/-- The text of one member of a map. -/
def memberText (p : String × Value) : List Char :=
  (writeJsonString p.1).toList ++ ':' :: (canonicalJson p.2).toList

theorem startsBeside_memberText (p : String × Value) : StartsBeside '\x7d' (memberText p) := by
  rw [memberText, toList_writeJsonString]
  exact ⟨'"', _, rfl, by decide⟩

theorem toList_canonicalJson_map (hkeys : entries.Pairwise fun a b ↦ a.1 < b.1) (r : List Char) :
    (canonicalJson (.map entries)).toList ++ r =
      '\x7b' :: ([','].intercalate (entries.map memberText) ++ '\x7d' :: r) := by
  have hmember (p : String × Value) :
      (writeJsonString p.1 ++ ":" ++ canonicalJson p.2).toList = memberText p := by
    rw [String.toList_append, String.toList_append, append_assoc]
    rfl
  rw [canonicalJson_map_of_ordered hkeys]
  simp only [String.toList_append, String.toList_intercalate, map_map, append_assoc,
    Function.comp_def]
  rfl

theorem toldApart_memberText {p : String × Value}
    (h : ToldApart EndsValue Ordered (fun v ↦ (canonicalJson v).toList) p.2) :
    ToldApart EndsValue (fun p ↦ p.2.Ordered) memberText p := by
  rintro ⟨k, w⟩ r s hw hr hs heq
  simp only [memberText, append_assoc] at heq
  obtain ⟨rfl, hvalues⟩ := prefixFree_writeJsonString _ _ heq
  obtain ⟨rfl, hrest⟩ := h hw hr hs (cons.inj hvalues).2
  exact ⟨rfl, hrest⟩

/-- **A text tells its value**, where another part of a text follows. -/
theorem Value.Ordered.toldApart (h : v.Ordered) :
    ToldApart EndsValue Ordered (fun v ↦ (canonicalJson v).toList) v := by
  induction h with
  | null =>
    intro w r s hw hr hs heq
    have hform := Ordered.form_eq .null hw heq
    cases hw with
    | null => exact ⟨rfl, append_cancel_left heq⟩
    | bool b => cases b <;> cases hform
    | _ => cases hform
  | bool b =>
    intro w r s hw hr hs heq
    have hform := Ordered.form_eq (.bool b) hw heq
    cases hw with
    | bool b' =>
      obtain rfl : b = b' := by cases b <;> cases b' <;> first | rfl | cases hform
      exact ⟨rfl, append_cancel_left heq⟩
    | _ => cases b <;> cases hform
  | @int n hn =>
    intro w r s hw hr hs heq
    have hform := Ordered.form_eq (.int hn) hw heq
    cases hw with
    | int hn' =>
      obtain ⟨htext, hrest⟩ := append_inj_of_head? (fun c hc ↦ not_endsValue_of_mem_toString_int hc)
        (fun c hc ↦ not_endsValue_of_mem_toString_int hc) hr hs heq
      exact ⟨congrArg _ (toString_int_inj htext), hrest⟩
    | bool b => cases b <;> cases hform
    | _ => cases hform
  | str t =>
    intro w r s hw hr hs heq
    have hform := Ordered.form_eq (.str t) hw heq
    cases hw with
    | str t' => exact (prefixFree_writeJsonString r s heq).imp (congrArg _) id
    | bool b => cases b <;> cases hform
    | _ => cases hform
  | @seq items hitems ih =>
    intro w r s hw hr hs heq
    have hform := Ordered.form_eq (.seq hitems) hw heq
    cases hw with
    | @seq items' hitems' =>
      rw [toList_canonicalJson_seq, toList_canonicalJson_seq] at heq
      obtain ⟨rfl, hrest⟩ := separated_inj (.inl rfl) (.inr (.inl rfl)) (by decide) ih hitems'
        (fun v hv ↦ (hv.elim (hitems v) (hitems' v)).startsBeside rfl) (cons.inj heq).2
      exact ⟨rfl, hrest⟩
    | bool b => cases b <;> cases hform
    | _ => cases hform
  | @map entries hkeys hentries ih =>
    intro w r s hw hr hs heq
    have hform := Ordered.form_eq (.map hkeys hentries) hw heq
    cases hw with
    | @map entries' hkeys' hentries' =>
      rw [toList_canonicalJson_map hkeys, toList_canonicalJson_map hkeys'] at heq
      obtain ⟨rfl, hrest⟩ := separated_inj (.inl rfl) (.inr (.inr rfl)) (by decide)
        (fun p hp ↦ toldApart_memberText (ih p hp)) hentries' (fun p _ ↦ startsBeside_memberText p)
        (cons.inj heq).2
      exact ⟨rfl, hrest⟩
    | bool b => cases b <;> cases hform
    | _ => cases hform

theorem Value.Ordered.eq_of_canonicalJson (hv : v.Ordered) (hw : w.Ordered)
    (h : canonicalJson v = canonicalJson w) : v = w :=
  (hv.toldApart (r := []) (s := []) hw nofun nofun (congrArg (·.toList ++ []) h)).1

/-! ### A reader of canonical texts -/

open Classical in
/-- The value with its keys in order that has this text. -/
noncomputable def canonicalReader (s : String) : Option Value :=
  if h : ∃ v : Value, v.Ordered ∧ canonicalJson v = s then some h.choose else none

/-- The reader reads each such value from its text, since no two have one text. -/
theorem canonicalReader_eq_some {s} :
    canonicalReader s = some v ↔ v.Ordered ∧ canonicalJson v = s := by
  rw [canonicalReader]
  split_ifs with h
  · obtain ⟨hordered, htext⟩ := h.choose_spec
    refine ⟨fun heq ↦ Option.some.inj heq ▸ h.choose_spec, fun ⟨hv, hs⟩ ↦ congrArg some ?_⟩
    exact hordered.eq_of_canonicalJson hv (htext.trans hs.symm)
  · exact ⟨nofun, fun hv ↦ absurd ⟨v, hv⟩ h⟩

/-! ### Agreement -/

theorem map_eq_map_iff_zip {α β γ : Type} {f : α → γ} {g : β → γ} {l : List α} {l' : List β} :
    l.map f = l'.map g ↔ l.length = l'.length ∧ ∀ a b, (a, b) ∈ l.zip l' → f a = g b := by
  rw [← forall₂_eq_eq_eq, forall₂_map_left_iff, forall₂_map_right_iff, forall₂_iff_zip]

theorem sortKeys_eq_seq {items} (h : w.sortKeys = .seq items) :
    ∃ items', w = .seq items' ∧ items = items'.map sortKeys := by
  cases w with
  | seq items' =>
    rw [sortKeys, sortItems_eq_map] at h
    exact ⟨items', rfl, (Value.seq.inj h).symm⟩
  | _ => rw [sortKeys] at h; cases h

theorem sortKeys_eq_map (h : w.sortKeys = .map entries) :
    ∃ entries', w = .map entries' ∧ entries = sortByKey Prod.fst (sortMembers entries') := by
  cases w with
  | map entries' =>
    exact ⟨entries', rfl, (Value.map.inj h).symm⟩
  | _ => rw [sortKeys] at h; cases h

theorem eq_of_sortKeys_eq (h : w.sortKeys = v) (hseq : ∀ items, v ≠ .seq items)
    (hmap : ∀ entries, v ≠ .map entries) : w = v := by
  cases w with
  | seq items => exact absurd h.symm (by rw [sortKeys]; exact hseq _)
  | map entries => exact absurd h.symm (by rw [sortKeys]; exact hmap _)
  | _ => rw [← h, sortKeys]

theorem Value.Plain.agrees_of_sortKeys (hv : v.Plain) (h : v.sortKeys = w.sortKeys) :
    v.Agrees w := by
  induction hv generalizing w with
  | null | bool b | int hn | str s => exact eq_of_sortKeys_eq h.symm nofun nofun ▸ .refl _
  | seq _ ih =>
    rw [sortKeys, sortItems_eq_map] at h
    obtain ⟨items', rfl, hmap⟩ := sortKeys_eq_seq h.symm
    obtain ⟨hlength, hitems⟩ := map_eq_map_iff_zip.mp hmap
    exact .seq hlength fun v w hvw ↦ ih v (of_mem_zip hvw).1 (hitems v w hvw)
  | @map entries _ _ ih =>
    obtain ⟨entries', rfl, hsorted⟩ := sortKeys_eq_map h.symm
    have hperm : (sortMembers entries).Perm (sortMembers entries') :=
      (sortByKey_perm Prod.fst _).symm.trans (hsorted ▸ sortByKey_perm Prod.fst _)
    -- the members of the other map, in the order of this one
    rw [sortMembers_eq_map, sortMembers_eq_map] at hperm
    obtain ⟨reordered, hmap, hperm⟩ :=
      (congrFun (congrFun (eq_map_comp_perm _) _) _).mpr hperm
    obtain ⟨hlength, hmembers⟩ := map_eq_map_iff_zip.mp hmap
    refine .map hperm (map_eq_map_iff_zip.mpr ⟨hlength, fun p q hpq ↦ ?_⟩) fun p q hpq ↦ ?_
    · exact (Prod.mk.inj (hmembers p q hpq)).1
    · exact ih p (of_mem_zip hpq).1 (Prod.mk.inj (hmembers p q hpq)).2

theorem Value.Agrees.sortKeys_eq (h : v.Agrees w) (hw : w.Plain) :
    v.sortKeys = w.sortKeys := by
  induction h with
  | refl v => rfl
  | @seq items items' hlength _ ih =>
    cases hw with | seq hw =>
    rw [sortKeys, sortKeys, sortItems_eq_map, sortItems_eq_map]
    refine congrArg Value.seq (map_eq_map_iff_zip.mpr ⟨hlength, fun v w hvw ↦ ?_⟩)
    exact ih v w hvw (hw w (of_mem_zip hvw).2)
  | @map entries reordered entries' hperm hkeys _ ih =>
    cases hw with | map hnodup hw =>
    have hlength : entries.length = reordered.length := by
      simpa using congrArg length hkeys
    have hmembers : sortMembers entries = sortMembers reordered := by
      rw [sortMembers_eq_map, sortMembers_eq_map]
      refine map_eq_map_iff_zip.mpr ⟨hlength, fun p q hpq ↦ Prod.ext ?_ ?_⟩
      · exact (map_eq_map_iff_zip.mp hkeys).2 p q hpq
      · exact ih p q hpq (hw q (hperm.mem_iff.mp (of_mem_zip hpq).2))
    have hsorted := pairwise_lt_sortByKey ((keys_sortMembers entries').symm ▸ hnodup)
    have hrearranged : (sortMembers reordered).Perm
        (sortByKey Prod.fst (sortMembers entries')) := by
      refine List.Perm.trans ?_ (sortByKey_perm _ _).symm
      rw [sortMembers_eq_map, sortMembers_eq_map]
      exact hperm.map _
    rw [sortKeys, sortKeys, hmembers, sortByKey_eq_of_perm hrearranged hsorted]

/-- **Two values have one text when they agree**, and only then. -/
theorem canonicalJson_eq_iff (hv : v.Plain) (hw : w.Plain) :
    canonicalJson v = canonicalJson w ↔ v.Agrees w := by
  rw [← canonicalJson_sortKeys hv, ← canonicalJson_sortKeys hw]
  constructor
  · intro h
    exact hv.agrees_of_sortKeys (hv.ordered_sortKeys.eq_of_canonicalJson hw.ordered_sortKeys h)
  · intro h
    rw [h.sortKeys_eq hw]

end Maknae.Config
