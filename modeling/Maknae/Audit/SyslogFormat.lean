import Maknae.Audit.Journal
import Maknae.Foundation.Occurrences
import Mathlib.Data.Nat.Digits.Defs

/-!
# The line in the unified log

On macOS a record is mirrored as one line of text, and the text is all there is to query. It has a
summary, some keys with their values, and the record itself behind the last key. A reader cuts the
line at the first place where that key stands, and finds each of the others before it.

The values of the record are not escaped but replaced, when they could be taken for a key
(`Scrubbed`). So no key starts in a value, and none ends in one that started before it: every key
stands once and where it was written (`line_unforgeable`). What follows the last key may be
anything.

A line that is too long is replaced by a short one without the record, in which every value is an
integer, a fixed text or at most 48 bytes of whole characters.
-/

namespace Maknae.Audit

open Except List Outcome

/-! ### Scrubbed values -/

/-- The text could be taken for part of the line, or cut it off. -/
def IsDirty (v : String) : Prop :=
  "MAKNAE_".toList <:+: v.toList ∨ '=' ∈ v.toList ∨ '\n' ∈ v.toList ∨ '\r' ∈ v.toList ∨
    '\x00' ∈ v.toList

instance (v : String) : Decidable (IsDirty v) := inferInstanceAs (Decidable (_ ∨ _))

/-- The fixed values of the lines. -/
theorem not_isDirty_of_mem : ∀ v ∈ ["invalid", syslogIdentifier, "ok", "refused-breaker-open",
    "refused-at-capacity", "write-failed", "write-unconfirmed"], ¬IsDirty v := by
  decide +kernel

/-- A value that has been scrubbed. -/
structure Scrubbed where
  val : String
  clean : ¬IsDirty val

def scrub (v : String) : Scrubbed :=
  if h : IsDirty v then ⟨"invalid", not_isDirty_of_mem _ mem_cons_self⟩ else ⟨v, h⟩

/-! ### The line -/

def macosSyslogMax : ℕ := 1015

def macosSummary (action outcome subject role : Scrubbed) (sessionId seq : UInt64) : String :=
  String.join ["maknae audit: ", action.val, " ", outcome.val, " subject=", subject.val, " role=",
    role.val, " session=", decimal sessionId, " seq=", decimal seq]

variable {ν ρ : Type}

/-- The line of a record, whatever its length. -/
def formatLineUnchecked (serde : SerdeJson ν) (toValue : AuditRecord ρ → Except String (Json ν))
    (rec : AuditRecord ρ) (primary : PrimaryOutcome) : Except AuditError String := do
  let canonical ← canonicalJson serde toValue rec
  let f := fieldsOf rec primary
  let action := scrub f.action
  let outcome := scrub f.outcome
  let subject := scrub f.subject
  let role := scrub f.role
  return String.join [macosSummary action outcome subject role f.sessionId f.seq,
    " SYSLOG_IDENTIFIER=", syslogIdentifier, " MAKNAE_ACTION=", action.val, " MAKNAE_OUTCOME=",
    outcome.val, " MAKNAE_ROLE=", role.val, " MAKNAE_SUBJECT=", subject.val, " MAKNAE_PRIMARY=",
    f.primary, " MAKNAE_RECORD=", canonical]

/-! ### The degraded line -/

def degradedTokenMax : ℕ := 48

/-- Whole characters for as long as they fit. -/
def clipChars {ε : Type} (max : ℕ) : List Char → String → Outcome ε String
  | [], out => .ok out
  | c :: rest, out => do
    let len ← checkedAdd 64 (utf8Bytes out).length c.utf8Size
    if max < len then return out else clipChars max rest (out.push c)

def clipAtBoundary {ε : Type} (v : String) (max : ℕ) : Outcome ε String := clipChars max v.toList ""

/-- Where a degraded line says to read. -/
def whereToRead : PrimaryOutcome → String
  | .ok => "read-primary-jsonl"
  | .writeUnconfirmed => "primary-unconfirmed"
  | .writeFailed => "primary-write-failed"
  | .refusedBreakerOpen | .refusedAtCapacity => "primary-did-not-write"

def degradedLine {ε : Type} (f : RecordFields) (primary : PrimaryOutcome) : Outcome ε String := do
  let action ← clipAtBoundary (scrub f.action).val degradedTokenMax
  let outcome ← clipAtBoundary (scrub f.outcome).val degradedTokenMax
  return String.join ["maknae audit: DEGRADED ", action, " ", outcome, " session=",
    decimal f.sessionId, " seq=", decimal f.seq, " SYSLOG_IDENTIFIER=", syslogIdentifier,
    " MAKNAE_SESSION=", decimal f.sessionId, " MAKNAE_SEQ=", decimal f.seq, " MAKNAE_PRIMARY=",
    f.primary, " MAKNAE_DEGRADED=", whereToRead primary]

inductive Mirrored
  | full (line : String)
  | degraded (line : String)

/-- The line of a record, and the number of degraded lines so far. -/
def formatRecord (serde : SerdeJson ν) (toValue : AuditRecord ρ → Except String (Json ν))
    (rec : AuditRecord ρ) (primary : PrimaryOutcome) (count : UInt64) :
    Outcome AuditError (Mirrored × UInt64) :=
  match formatLineUnchecked serde toValue rec primary with
  | .error e => fail e
  | .ok line =>
    if macosSyslogMax < (utf8Bytes line).length then do
      let degraded ← degradedLine (fieldsOf rec primary) primary
      return (.degraded degraded, count + 1)
    else .ok (.full line, count)

/-! ### Texts of clean values and separators -/

theorem not_isDirty_iff {v} : ¬IsDirty v ↔
    ¬"MAKNAE_".toList <:+: v.toList ∧ '=' ∉ v.toList ∧ '\n' ∉ v.toList ∧ '\r' ∉ v.toList ∧
      '\x00' ∉ v.toList := by
  rw [IsDirty, not_or, not_or, not_or, not_or]

/-- A key, with or without the equals sign behind it. -/
structure IsKey (pat : List Char) : Prop where
  starts : "MAKNAE_".toList <+: pat
  space : ' ' ∉ pat
  equals : '=' ∉ pat.dropLast

instance (pat : List Char) : Decidable (IsKey pat) :=
  decidable_of_iff ("MAKNAE_".toList <+: pat ∧ ' ' ∉ pat ∧ '=' ∉ pat.dropLast)
    ⟨fun h ↦ ⟨h.1, h.2.1, h.2.2⟩, fun h ↦ ⟨h.starts, h.space, h.equals⟩⟩

variable {pat : List Char} {rec : AuditRecord ρ} {primary : PrimaryOutcome} {ε : Type}

theorem IsKey.ne_nil (h : IsKey pat) : pat ≠ [] := by
  rintro rfl
  exact absurd h.starts (by decide)

/-- A text between two values: a space, and then possibly a key with an equals sign. -/
def isSeparator (lit : String) : Bool :=
  lit.toList.head? = some ' ' && (lit.toList.getLast? = some ' ' || lit.toList.getLast? = some '=')

/-- A value and the separator behind it. -/
abbrev Token := String × String

/-- The text of a token. -/
def Token.chars (t : Token) : List Char := t.1.toList ++ t.2.toList

def Token.Good (t : Token) : Prop := ¬IsDirty t.1 ∧ isSeparator t.2 = true

section Tokens

theorem closedTo_of_getLast? (hpat : IsKey pat) {l}
    (h : l.getLast? = some ' ' ∨ l.getLast? = some '=') : ClosedTo pat l := by
  rcases h with h | h
  · obtain ⟨q, rfl⟩ := getLast?_eq_some_iff.mp h
    exact ⟨q, ' ', rfl, fun hmem ↦ hpat.space (dropLast_subset pat hmem)⟩
  · obtain ⟨q, rfl⟩ := getLast?_eq_some_iff.mp h
    exact ⟨q, '=', rfl, hpat.equals⟩

theorem Token.Good.closed (hpat : IsKey pat) {t : Token} (h : t.Good) : ClosedTo pat t.chars := by
  have hsep := h.2
  simp only [isSeparator, Bool.and_eq_true, Bool.or_eq_true, decide_eq_true_eq] at hsep
  obtain ⟨q, c, hq, hc⟩ := closedTo_of_getLast? hpat hsep.2
  exact ⟨t.1.toList ++ q, c, by rw [Token.chars, hq, append_assoc], hc⟩

/-- A key occurs in a token as often as in its separator. -/
theorem Token.Good.occurrences_eq (hpat : IsKey pat) {t : Token} (h : t.Good) :
    occurrences pat t.chars = occurrences pat t.2.toList := by
  obtain ⟨v, lit⟩ := t
  obtain ⟨hclean, hsep⟩ := h
  simp only [isSeparator, Bool.and_eq_true, decide_eq_true_eq] at hsep
  obtain ⟨rest, hrest⟩ := head?_eq_some_iff.mp hsep.1
  have hvalue : occurrences pat v.toList = 0 := occurrences_eq_zero.mpr fun hwithin ↦
    (not_isDirty_iff.mp hclean).1 (hpat.starts.isInfix.trans hwithin)
  have hclosed : ∀ l : List Char, ClosedTo pat (l ++ [' ']) := fun l ↦
    closedTo_of_getLast? hpat (.inl (by simp))
  have hspace := fun l : List Char ↦ occurrences_concat hpat.ne_nil hpat.space l
  have hsplit : ∀ l : List Char, occurrences pat (l ++ ' ' :: rest) =
      occurrences pat l + occurrences pat rest := fun l ↦ by
    rw [← hspace l, ← occurrences_append_of_closed hpat.ne_nil (hclosed l), append_assoc,
      singleton_append]
  have hnil : occurrences pat [] = 0 := if_neg hpat.ne_nil
  show occurrences pat (v.toList ++ lit.toList) = occurrences pat lit.toList
  rw [hrest, hsplit, ← nil_append (' ' :: rest), hsplit, hvalue, hnil]

variable {start : List Char} {tokens : List Token}

/-- How often a key occurs in a line is told by its separators. -/
theorem occurrences_tokens (hpat : IsKey pat) (hstart : ClosedTo pat start)
    (htokens : ∀ t ∈ tokens, t.Good) (rest : List Char) :
    occurrences pat (start ++ (tokens.flatMap Token.chars ++ rest)) =
      occurrences pat start + (tokens.map fun t ↦ occurrences pat t.2.toList).sum +
        occurrences pat rest := by
  have hclosed : ∀ p ∈ tokens.map Token.chars, ClosedTo pat p := fun p hp ↦ by
    obtain ⟨t, ht, rfl⟩ := mem_map.mp hp
    exact (htokens t ht).closed hpat
  have hcount : (tokens.map Token.chars).map (occurrences pat) =
      tokens.map fun t ↦ occurrences pat t.2.toList := by
    rw [map_map]
    exact map_congr_left fun t ht ↦ (htokens t ht).occurrences_eq hpat
  rw [occurrences_append_of_closed hpat.ne_nil hstart, flatMap_def,
    occurrences_flatten_append hpat.ne_nil hclosed, hcount, Nat.add_assoc]

/-- A key that no separator has is found where it is written. -/
theorem dropInfix?_tokens (hpat : IsKey pat) (hstart : ClosedTo pat start)
    (hstartZero : occurrences pat start = 0) (htokens : ∀ t ∈ tokens, t.Good)
    (hzero : ∀ t ∈ tokens, occurrences pat t.2.toList = 0) (rest : List Char) :
    (start ++ tokens.flatMap Token.chars ++ (pat ++ rest)).dropInfix? pat =
      some (start ++ tokens.flatMap Token.chars, rest) := by
  have hpieces : start ++ tokens.flatMap Token.chars =
      (start :: tokens.map Token.chars).flatten := by
    rw [flatten_cons, flatMap_def]
  rw [hpieces]
  refine dropInfix?_flatten_append (fun p hp ↦ ?_) (fun p hp ↦ ?_) rest
  · rcases mem_cons.mp hp with rfl | hp
    · exact hstart
    · obtain ⟨t, ht, rfl⟩ := mem_map.mp hp
      exact (htokens t ht).closed hpat
  · rcases mem_cons.mp hp with rfl | hp
    · exact hstartZero
    · obtain ⟨t, ht, rfl⟩ := mem_map.mp hp
      rw [(htokens t ht).occurrences_eq hpat, hzero t ht]

end Tokens

/-! ### The tokens of a line -/

/-- The text at the front of a line. -/
def lineStart : String := "maknae audit: "

/-- The separators of a line. -/
def lineSeparators : List String :=
  [" ", " subject=", " role=", " session=", " seq=", " SYSLOG_IDENTIFIER=", " MAKNAE_ACTION=",
    " MAKNAE_OUTCOME=", " MAKNAE_ROLE=", " MAKNAE_SUBJECT=", " MAKNAE_PRIMARY=", " MAKNAE_RECORD="]

/-- The values of a line. -/
def lineValues (f : RecordFields) : List String :=
  let action := (scrub f.action).val
  let outcome := (scrub f.outcome).val
  let subject := (scrub f.subject).val
  let role := (scrub f.role).val
  [action, outcome, subject, role, decimal f.sessionId, decimal f.seq, syslogIdentifier, action,
    outcome, role, subject, f.primary]

/-- The values of a line with the separators behind them. -/
def lineTokens (f : RecordFields) : List Token := (lineValues f).zip lineSeparators

theorem map_snd_lineTokens (f : RecordFields) : (lineTokens f).map Prod.snd = lineSeparators := rfl

/-- The keys that a line has before the record. -/
def keyNames : List String :=
  ["MAKNAE_ACTION", "MAKNAE_OUTCOME", "MAKNAE_ROLE", "MAKNAE_SUBJECT", "MAKNAE_PRIMARY"]

/-- The keys with what they are the keys of. -/
def keyedFields (f : RecordFields) : List (String × String) :=
  keyNames.zip [f.action, f.outcome, f.role, f.subject, f.primary]

/-- The key is in the separator `i` and in no text before it, and another key follows it if any
separator does. -/
structure KeyAt (key : String) (i : ℕ) : Prop where
  isKey : IsKey (key ++ "=").toList
  written : lineSeparators[i]?.map String.toList = some (' ' :: (key ++ "=").toList)
  first : ∀ lit ∈ lineStart :: " " :: lineSeparators.take i,
    occurrences (key ++ "=").toList lit.toList = 0
  next : ∀ lit ∈ lineSeparators[i + 1]?, " MAKNAE_".toList <+: lit.toList

instance (key : String) (i : ℕ) : Decidable (KeyAt key i) :=
  decidable_of_iff (IsKey (key ++ "=").toList ∧
      lineSeparators[i]?.map String.toList = some (' ' :: (key ++ "=").toList) ∧
      (∀ lit ∈ lineStart :: " " :: lineSeparators.take i,
        occurrences (key ++ "=").toList lit.toList = 0) ∧
      ∀ lit ∈ lineSeparators[i + 1]?, " MAKNAE_".toList <+: lit.toList)
    ⟨fun h ↦ ⟨h.1, h.2.1, h.2.2.1, h.2.2.2⟩, fun h ↦ ⟨h.isKey, h.written, h.first, h.next⟩⟩

/-- What the fixed texts of a line are like. -/
theorem lineTexts : lineStart.toList.getLast? = some ' ' ∧
    (∀ lit ∈ lineSeparators, isSeparator lit = true) ∧
    (KeyAt "MAKNAE_ACTION" 6 ∧ KeyAt "MAKNAE_OUTCOME" 7 ∧ KeyAt "MAKNAE_ROLE" 8 ∧
      KeyAt "MAKNAE_SUBJECT" 9 ∧ KeyAt "MAKNAE_PRIMARY" 10 ∧ KeyAt "MAKNAE_RECORD" 11) ∧
    ∀ key ∈ keyNames, IsKey key.toList ∧ occurrences key.toList lineStart.toList +
      ((lineSeparators.take 11 ++ [" "]).map fun lit ↦ occurrences key.toList lit.toList).sum +
        occurrences key.toList [] = 1 := by
  decide +kernel

theorem formatLineUnchecked_eq_ok {serde : SerdeJson ν}
    {toValue : AuditRecord ρ → Except String (Json ν)} {line}
    (h : formatLineUnchecked serde toValue rec primary = .ok line) :
    ∃ canonical, canonicalJson serde toValue rec = .ok canonical ∧
      line.toList = lineStart.toList ++
        ((lineTokens (fieldsOf rec primary)).flatMap Token.chars ++ canonical.toList) := by
  obtain ⟨canonical, hcanonical, rfl⟩ := bind_pure_eq_ok.mp h
  refine ⟨canonical, hcanonical, ?_⟩
  simp only [lineTokens, lineValues, lineSeparators, zip_cons_cons, zip_nil_left, macosSummary,
    String.toList_join, flatMap_cons, flatMap_nil, Token.chars, append_assoc, append_nil, lineStart]

theorem toList_decimal (n : UInt64) : (decimal n).toList = Nat.toDigits 10 n.toNat := by
  simp [decimal]

theorem isDigit_of_mem_decimal {n c} (h : c ∈ (decimal n).toList) :
    c.isDigit = true := by
  rw [toList_decimal] at h
  exact Nat.isDigit_of_mem_toDigits (by decide) (by decide) h

theorem not_isDirty_decimal (n : UInt64) : ¬IsDirty (decimal n) := by
  have hnot : ∀ c : Char, c.isDigit = false → c ∉ (decimal n).toList := fun c hc hmem ↦
    nomatch hc.symm.trans (isDigit_of_mem_decimal hmem)
  exact not_isDirty_iff.mpr ⟨fun hwithin ↦ hnot 'M' rfl (hwithin.subset (by decide)),
    hnot _ rfl, hnot _ rfl, hnot _ rfl, hnot _ rfl⟩

theorem not_isDirty_asField (primary : PrimaryOutcome) : ¬IsDirty primary.asField :=
  not_isDirty_of_mem _ (by cases primary <;> simp [PrimaryOutcome.asField])

/-- Clean values with separators behind them are good tokens. -/
theorem good_zip {values separators : List String} (hvalues : ∀ v ∈ values, ¬IsDirty v)
    (hseparators : ∀ lit ∈ separators, isSeparator lit = true) :
    ∀ t ∈ values.zip separators, Token.Good t := by
  intro t ht
  obtain ⟨hv, hlit⟩ := of_mem_zip ht
  exact ⟨hvalues t.1 hv, hseparators t.2 hlit⟩

theorem good_lineTokens (rec : AuditRecord ρ) (primary : PrimaryOutcome) :
    ∀ t ∈ lineTokens (fieldsOf rec primary), t.Good := by
  have hidentifier := not_isDirty_of_mem syslogIdentifier (by simp)
  have hscrub := fun v : String ↦ (scrub v).clean
  refine good_zip ?_ lineTexts.2.1
  simp only [lineValues, forall_mem_cons, not_mem_nil, false_implies, implies_true, and_true]
  exact ⟨hscrub _, hscrub _, hscrub _, hscrub _, not_isDirty_decimal _, not_isDirty_decimal _,
    hidentifier, hscrub _, hscrub _, hscrub _, hscrub _, not_isDirty_asField primary⟩

/-- The value of a key: behind the first place where the key stands, up to the next key. -/
def fieldValue (key : String) (line : List Char) : Option (List Char) := do
  let (_, rest) ← line.dropInfix? (key ++ "=").toList
  let (value, _) ← rest.dropInfix? " MAKNAE_".toList
  return value

theorem closedTo_lineStart (hpat : IsKey pat) : ClosedTo pat lineStart.toList :=
  closedTo_of_getLast? hpat (.inl lineTexts.1)

section Line

variable {f : RecordFields} (hgood : ∀ t ∈ lineTokens f, t.Good)

include hgood

variable {v lit : String} {i : ℕ} {key : String}

/-- What stands before the key of a separator. -/
theorem good_before (hi : (lineTokens f)[i]? = some (v, lit)) :
    ∀ t ∈ (lineTokens f).take i ++ [(v, " ")], Token.Good t := by
  have hspace : isSeparator " " = true := lineTexts.2.1 " " mem_cons_self
  exact forall_mem_concat.mpr ⟨fun t ht ↦ hgood t (mem_of_mem_take ht),
    (hgood _ (mem_of_getElem? hi)).1, hspace⟩

/-- **A line is cut at its key.** -/
theorem dropInfix?_line (hkey : KeyAt key i) (hi : (lineTokens f)[i]? = some (v, lit))
    (tail : List Char) :
    (lineStart.toList ++ ((lineTokens f).flatMap Token.chars ++ tail)).dropInfix?
        (key ++ "=").toList =
      some (lineStart.toList ++ ((lineTokens f).take i ++ [(v, " ")]).flatMap Token.chars,
        ((lineTokens f).drop (i + 1)).flatMap Token.chars ++ tail) := by
  have hlit : lit.toList = ' ' :: (key ++ "=").toList := by
    have hwritten := hkey.written
    rw [← map_snd_lineTokens f, getElem?_map, hi] at hwritten
    exact Option.some.inj hwritten
  have hline : lineStart.toList ++ ((lineTokens f).flatMap Token.chars ++ tail) =
      lineStart.toList ++ ((lineTokens f).take i ++ [(v, " ")]).flatMap Token.chars ++
        ((key ++ "=").toList ++ (((lineTokens f).drop (i + 1)).flatMap Token.chars ++ tail)) := by
    obtain ⟨hlt, ht⟩ := List.getElem?_eq_some_iff.mp hi
    have hspace : " ".toList = [' '] := rfl
    conv_lhs => rw [← List.take_append_drop i (lineTokens f), List.drop_eq_getElem_cons hlt, ht]
    simp only [List.flatMap_append, List.flatMap_cons, List.flatMap_nil, Token.chars, hlit, hspace,
      List.append_assoc, List.cons_append, List.nil_append]
  rw [hline]
  refine dropInfix?_tokens hkey.isKey (closedTo_lineStart hkey.isKey)
    (hkey.first _ mem_cons_self) (good_before hgood hi)
    (fun t ht ↦ hkey.first _ (mem_cons_of_mem _ ?_)) _
  rcases mem_append.mp ht with ht | ht
  · rw [← map_snd_lineTokens f, ← map_take]
    exact mem_cons_of_mem _ (mem_map_of_mem ht)
  · rw [mem_singleton.mp ht]
    exact mem_cons_self

/-- **The value of a key is the token behind it.** -/
theorem fieldValue_line (hkey : KeyAt key i) {v v' lit lit'}
    (hi : (lineTokens f)[i]? = some (v, lit)) (hnext : (lineTokens f)[i + 1]? = some (v', lit'))
    (tail : List Char) :
    fieldValue key (lineStart.toList ++ ((lineTokens f).flatMap Token.chars ++ tail)) =
      some v'.toList := by
  obtain ⟨name, hname⟩ := hkey.next lit' (by
    rw [← map_snd_lineTokens f, getElem?_map, hnext]
    rfl)
  have hrest : ((lineTokens f).drop (i + 1)).flatMap Token.chars ++ tail = v'.toList ++
      (" MAKNAE_".toList ++ (name ++ (((lineTokens f).drop (i + 2)).flatMap Token.chars ++
        tail))) := by
    obtain ⟨hlt, ht⟩ := List.getElem?_eq_some_iff.mp hnext
    rw [List.drop_eq_getElem_cons hlt, ht, List.flatMap_cons, Token.chars, ← hname]
    simp only [append_assoc]
  have hclean : ¬(' ' :: "MAKNAE_".toList) <:+: v'.toList := fun hwithin ↦
    (not_isDirty_iff.mp (hgood _ (mem_of_getElem? hnext)).1).1
      ((suffix_cons ' ' "MAKNAE_".toList).isInfix.trans hwithin)
  have hvalue : ∀ rest : List Char,
      (v'.toList ++ (" MAKNAE_".toList ++ rest)).dropInfix? " MAKNAE_".toList =
        some (v'.toList, rest) := dropInfix?_append_cons (by decide) hclean
  simp only [fieldValue, dropInfix?_line hgood hkey hi, hrest, hvalue, Option.bind_eq_bind,
    Option.bind_some, Option.pure_def]

end Line

theorem fieldValue_of_mem {key raw} (h : (key, raw) ∈ keyedFields (fieldsOf rec primary))
    (tail : List Char) :
    fieldValue key (lineStart.toList ++
      ((lineTokens (fieldsOf rec primary)).flatMap Token.chars ++ tail)) =
        some (scrub raw).val.toList := by
  have hgood := good_lineTokens rec primary
  have hclean : (scrub (fieldsOf rec primary).primary).val = (fieldsOf rec primary).primary := by
    rw [scrub, dif_neg]
    exact not_isDirty_asField primary
  obtain ⟨haction, houtcome, hrole, hsubject, hprimary, -⟩ := lineTexts.2.2.1
  simp only [keyedFields, keyNames, zip_cons_cons, zip_nil_left, mem_cons, not_mem_nil, or_false,
    Prod.mk.injEq] at h
  rcases h with ⟨rfl, rfl⟩ | ⟨rfl, rfl⟩ | ⟨rfl, rfl⟩ | ⟨rfl, rfl⟩ | ⟨rfl, rfl⟩
  · exact fieldValue_line hgood haction rfl rfl tail
  · exact fieldValue_line hgood houtcome rfl rfl tail
  · exact fieldValue_line hgood hrole rfl rfl tail
  · exact fieldValue_line hgood hsubject rfl rfl tail
  · rw [hclean]
    exact fieldValue_line hgood hprimary rfl rfl tail

/-- What stands before the key of the record. -/
def structuredPart (f : RecordFields) : List Char :=
  lineStart.toList ++ ((lineTokens f).take 11 ++ [(f.primary, " ")]).flatMap Token.chars

theorem dropInfix?_record (rec : AuditRecord ρ) (primary : PrimaryOutcome) (tail : List Char) :
    (lineStart.toList ++ ((lineTokens (fieldsOf rec primary)).flatMap Token.chars ++
      tail)).dropInfix? "MAKNAE_RECORD=".toList =
        some (structuredPart (fieldsOf rec primary), tail) := by
  obtain ⟨-, -, -, -, -, hrecord⟩ := lineTexts.2.2.1
  exact dropInfix?_line (good_lineTokens rec primary) hrecord rfl tail

theorem occurrences_structuredPart {field : String × String}
    (h : field ∈ keyedFields (fieldsOf rec primary)) :
    occurrences field.1.toList (structuredPart (fieldsOf rec primary)) = 1 := by
  have hkeys := lineTexts.2.2.2
  obtain ⟨hkey, hcount⟩ := hkeys field.1 (mem_map_of_mem h)
  have htokens := occurrences_tokens hkey (closedTo_lineStart hkey)
    (good_before (good_lineTokens rec primary) (i := 11) rfl) []
  rw [append_nil] at htokens
  exact htokens.trans hcount

/-! ### The degraded line is short and has no record -/

theorem not_isDirty_of_prefix_clean {v w} (h : ¬IsDirty v) (hw : w.toList <+: v.toList) :
    ¬IsDirty w := by
  obtain ⟨hkey, hequals, hnewline, hreturn, hnul⟩ := not_isDirty_iff.mp h
  exact not_isDirty_iff.mpr ⟨fun hwithin ↦ hkey (hwithin.trans hw.isInfix),
    fun hc ↦ hequals (hw.subset hc), fun hc ↦ hnewline (hw.subset hc),
    fun hc ↦ hreturn (hw.subset hc), fun hc ↦ hnul (hw.subset hc)⟩

theorem clipChars_eq_ok {max} (hmax : max + 4 < 2 ^ 64) :
    ∀ (l : List Char) (out : String), (utf8Bytes out).length ≤ max →
      ∃ clipped, (clipChars max l out : Outcome ε String) = .ok clipped ∧
        clipped.toList <+: out.toList ++ l ∧ (utf8Bytes clipped).length ≤ max := by
  intro l
  induction l with
  | nil => exact fun out hout ↦ ⟨out, rfl, by rw [append_nil], hout⟩
  | cons c rest ih =>
    intro out hout
    have hsize : c.utf8Size ≤ 4 := c.utf8Size_le_four
    have hadd : (checkedAdd 64 (utf8Bytes out).length c.utf8Size : Outcome ε ℕ) =
        .ok ((utf8Bytes out).length + c.utf8Size) := narrow_eq_ok.mpr ⟨by omega, rfl⟩
    rw [clipChars, hadd]
    by_cases hfits : max < (utf8Bytes out).length + c.utf8Size
    · exact ⟨out, if_pos hfits, prefix_append _ _, hout⟩
    · have hpush : (utf8Bytes (out.push c)).length ≤ max := by
        rw [utf8Bytes_push, length_append, String.length_utf8EncodeChar]
        omega
      obtain ⟨clipped, hclip, hclipped, hlength⟩ := ih (out.push c) hpush
      rw [String.toList_push, append_assoc] at hclipped
      exact ⟨clipped, (if_neg hfits).trans hclip, hclipped, hlength⟩

theorem clipAtBoundary_eq_ok (v : String) :
    ∃ clipped, (clipAtBoundary v degradedTokenMax : Outcome ε String) = .ok clipped ∧
      clipped.toList <+: v.toList ∧ (utf8Bytes clipped).length ≤ degradedTokenMax :=
  clipChars_eq_ok (by decide) v.toList "" (by decide)

theorem length_decimal (n : UInt64) : (utf8Bytes (decimal n)).length ≤ 20 := by
  have hone : ∀ c ∈ (decimal n).toList, (String.utf8EncodeChar c).length = 1 := fun c hc ↦ by
    have hdigit := isDigit_of_mem_decimal hc
    simp only [Char.isDigit, Bool.and_eq_true, decide_eq_true_eq] at hdigit
    rw [String.length_utf8EncodeChar, Char.utf8Size_eq_one_iff]
    exact UInt32.le_trans hdigit.2 (by decide)
  have hlength : (utf8Bytes (decimal n)).length = (decimal n).toList.length := by
    rw [utf8Bytes_eq_flatMap, length_flatMap, map_congr_left hone, map_const',
      sum_replicate_nat, Nat.mul_one]
  rw [hlength, toList_decimal]
  exact Nat.toDigits_length 10 n.toNat 20 (by decide) (n.toNat_lt.trans (by decide))

/-- A text is no longer than the bounds of its pieces together. -/
theorem length_join_le {pieces bounds}
    (h : List.Forall₂ (fun piece n ↦ (utf8Bytes piece).length ≤ n) pieces bounds) :
    (utf8Bytes (String.join pieces)).length ≤ bounds.sum := by
  rw [utf8Bytes_join, length_flatMap]
  exact (forall₂_map_left_iff.mpr h).sum_le_sum

/-- The text at the front of a degraded line. -/
def degradedStart : String := "maknae audit: DEGRADED "

/-- The separators of a degraded line. -/
def degradedSeparators : List String :=
  [" ", " session=", " seq=", " SYSLOG_IDENTIFIER=", " MAKNAE_SESSION=", " MAKNAE_SEQ=",
    " MAKNAE_PRIMARY=", " MAKNAE_DEGRADED="]

/-- The values of a degraded line. -/
def degradedValues (f : RecordFields) (action outcome : String) : List String :=
  [action, outcome, decimal f.sessionId, decimal f.seq, syslogIdentifier, decimal f.sessionId,
    decimal f.seq, f.primary]

/-- The values of a degraded line with the separators behind them. -/
def degradedTokens (f : RecordFields) (action outcome : String) : List Token :=
  (degradedValues f action outcome).zip degradedSeparators

/-- What the fixed texts of a degraded line are like. -/
theorem degradedTexts : degradedStart.toList.getLast? = some ' ' ∧
    (∀ lit ∈ degradedSeparators, isSeparator lit = true) ∧ IsKey "MAKNAE_RECORD".toList ∧
    ∀ last ∈ ["read-primary-jsonl", "primary-unconfirmed", "primary-write-failed",
        "primary-did-not-write"],
      occurrences "MAKNAE_RECORD".toList degradedStart.toList + (degradedSeparators.map fun lit ↦
        occurrences "MAKNAE_RECORD".toList lit.toList).sum +
          occurrences "MAKNAE_RECORD".toList last.toList = 0 := by
  decide +kernel

section Degraded

variable (rec : AuditRecord ρ) (primary : PrimaryOutcome) {action outcome : String}

theorem good_degradedTokens (haction : ¬IsDirty action) (houtcome : ¬IsDirty outcome) :
    ∀ t ∈ degradedTokens (fieldsOf rec primary) action outcome, t.Good := by
  have hidentifier := not_isDirty_of_mem syslogIdentifier (by simp)
  refine good_zip ?_ degradedTexts.2.1
  simp only [degradedValues, forall_mem_cons, not_mem_nil, false_implies, implies_true, and_true]
  exact ⟨haction, houtcome, not_isDirty_decimal _, not_isDirty_decimal _, hidentifier,
    not_isDirty_decimal _, not_isDirty_decimal _, not_isDirty_asField primary⟩

theorem record_not_infix_degraded (haction : ¬IsDirty action)
    (houtcome : ¬IsDirty outcome) :
    ¬"MAKNAE_RECORD".toList <:+: degradedStart.toList ++
      ((degradedTokens (fieldsOf rec primary) action outcome).flatMap Token.chars ++
        (whereToRead primary).toList) := by
  obtain ⟨hlast, -, hkey, hzero⟩ := degradedTexts
  have hread := hzero (whereToRead primary) (by cases primary <;> simp [whereToRead])
  have htokens := occurrences_tokens hkey (closedTo_of_getLast? hkey (.inl hlast))
    (good_degradedTokens rec primary haction houtcome) (whereToRead primary).toList
  exact occurrences_eq_zero.mp (htokens.trans hread)

end Degraded

/-- **A degraded line always comes, is short and has no key of a record.** -/
theorem degradedLine_eq_ok (rec : AuditRecord ρ) (primary : PrimaryOutcome) :
    ∃ line, (degradedLine (fieldsOf rec primary) primary : Outcome ε String) = .ok line ∧
      (utf8Bytes line).length ≤ macosSyslogMax ∧ ¬"MAKNAE_RECORD".toList <:+: line.toList := by
  obtain ⟨action, haction, hactionOf, hactionLength⟩ :=
    clipAtBoundary_eq_ok (ε := ε) (scrub (fieldsOf rec primary).action).val
  obtain ⟨outcome, houtcome, houtcomeOf, houtcomeLength⟩ :=
    clipAtBoundary_eq_ok (ε := ε) (scrub (fieldsOf rec primary).outcome).val
  have hrecord := record_not_infix_degraded rec primary
    (not_isDirty_of_prefix_clean (scrub _).clean hactionOf)
    (not_isDirty_of_prefix_clean (scrub _).clean houtcomeOf)
  refine ⟨_, bind_eq_ok.mpr ⟨action, haction, bind_eq_ok.mpr ⟨outcome, houtcome, rfl⟩⟩, ?_, ?_⟩
  · have hsession := length_decimal (fieldsOf rec primary).sessionId
    have hseq := length_decimal (fieldsOf rec primary).seq
    have hprimary : (utf8Bytes primary.asField).length ≤ 20 := by cases primary <;> decide
    have hread : (utf8Bytes (whereToRead primary)).length ≤ 21 := by cases primary <;> decide
    have hsum : [23, 48, 1, 48, 9, 20, 5, 20, 19, 7, 16, 20, 12, 20, 16, 20, 17, 21].sum ≤
        macosSyslogMax := by decide
    refine (length_join_le ?_).trans hsum
    exact .cons (by decide) <| .cons hactionLength <| .cons (by decide) <| .cons houtcomeLength <|
      .cons (by decide) <| .cons hsession <| .cons (by decide) <| .cons hseq <| .cons (by decide) <|
      .cons (by decide) <| .cons (by decide) <| .cons hsession <| .cons (by decide) <| .cons hseq <|
      .cons (by decide) <| .cons hprimary <| .cons (by decide) <| .cons hread .nil
  · simpa only [degradedTokens, degradedValues, degradedSeparators, zip_cons_cons, zip_nil_left,
      String.toList_join, flatMap_cons, flatMap_nil, Token.chars, append_assoc, append_nil,
      degradedStart] using hrecord

/-- **No line can be forged.** Cut at the first key of a record, a full line ends in the record as
it is written in the trail; before that place every key stands once, and its value is the scrubbed
field. A line that is too long is replaced by one that is not and that has no key of a record, and
counted. No text makes the writer panic. -/
theorem line_unforgeable (serde : SerdeJson ν) (toValue : AuditRecord ρ → Except String (Json ν))
    (rec : AuditRecord ρ) (primary : PrimaryOutcome) (count : UInt64) :
    (∀ line, formatLineUnchecked serde toValue rec primary = .ok line →
      (∃ canonical before, canonicalJson serde toValue rec = .ok canonical ∧
        line.toList.dropInfix? "MAKNAE_RECORD=".toList = some (before, canonical.toList) ∧
        ∀ field ∈ keyedFields (fieldsOf rec primary), occurrences field.1.toList before = 1 ∧
          fieldValue field.1 line.toList = some (scrub field.2).val.toList) ∧
      ((utf8Bytes line).length ≤ macosSyslogMax →
        formatRecord serde toValue rec primary count = .ok (.full line, count)) ∧
      (macosSyslogMax < (utf8Bytes line).length →
        ∃ degraded, formatRecord serde toValue rec primary count =
            .ok (.degraded degraded, count + 1) ∧ (utf8Bytes degraded).length ≤ macosSyslogMax ∧
          ¬"MAKNAE_RECORD".toList <:+: degraded.toList)) ∧
    formatRecord serde toValue rec primary count ≠ panicked := by
  obtain ⟨degraded, hdegraded, hlength, hrecord⟩ := degradedLine_eq_ok (ε := AuditError) rec primary
  constructor
  · intro line hline
    have hformat : formatRecord serde toValue rec primary count =
        if macosSyslogMax < (utf8Bytes line).length then .ok (.degraded degraded, count + 1)
        else .ok (.full line, count) := by
      rw [formatRecord, hline, hdegraded]
      rfl
    refine ⟨?_, fun hfits ↦ ?_, fun hlong ↦ ⟨degraded, ?_, hlength, hrecord⟩⟩
    · obtain ⟨canonical, hcanonical, hchars⟩ := formatLineUnchecked_eq_ok hline
      rw [hchars]
      exact ⟨canonical, _, hcanonical, dropInfix?_record rec primary canonical.toList,
        fun field hfield ↦ ⟨occurrences_structuredPart hfield,
          fieldValue_of_mem hfield canonical.toList⟩⟩
    · rw [hformat, if_neg (not_lt.mpr hfits)]
    · rw [hformat, if_pos hlong]
  · rw [formatRecord, hdegraded]
    cases formatLineUnchecked serde toValue rec primary with
    | error e => exact nofun
    | ok line =>
      dsimp only
      split_ifs <;> exact nofun

/-- The role that the record claims for itself is not the one that a reader finds. -/
theorem line_unforgeable_forgedRole :
    ∃ line, formatLineUnchecked plainJson (fun r ↦ .ok (.string r.action)) forgedRole .ok =
      .ok line ∧ fieldValue "MAKNAE_ROLE" line.toList = some "none".toList ∧
      fieldValue "MAKNAE_SUBJECT" line.toList = some "invalid".toList := by
  obtain ⟨line, hline⟩ : ∃ line, formatLineUnchecked plainJson (fun r ↦ .ok (.string r.action))
      forgedRole .ok = .ok line := ⟨_, rfl⟩
  obtain ⟨_, _, _, _, hfields⟩ := ((line_unforgeable plainJson _ forgedRole .ok 0).1 line hline).1
  have hvalues : ("MAKNAE_ROLE", "none") ∈ keyedFields (fieldsOf forgedRole .ok) ∧
      ("MAKNAE_SUBJECT", "mallory\nMAKNAE_ROLE=admin") ∈ keyedFields (fieldsOf forgedRole .ok) ∧
      (scrub "none").val = "none" ∧ (scrub "mallory\nMAKNAE_ROLE=admin").val = "invalid" := by
    decide +kernel
  obtain ⟨hroleMem, hsubjectMem, hnone, hinvalid⟩ := hvalues
  have hrole := (hfields _ hroleMem).2
  have hsubject := (hfields _ hsubjectMem).2
  exact ⟨line, hline, hrole, hsubject⟩

end Maknae.Audit
