import Maknae.Audit.Trail

/-!
# The journald datagram

A record is mirrored to the journal as a datagram of named fields. A value without a newline is
written on a line with its name; any other is written behind its length. The names are the mirror's
own and the values are anything, so a reader of the datagram must not take part of a value for a
field.

The reader here is written against the format and not against the writer. Whatever was pushed is
what it reads (`parse_pushFields`): a name has neither a newline nor an equals sign, so the first of
the two tells how the value is written, and the value is then bounded by its line or by its length.
The names of a record's datagram are always the same nine, in the same order
(`datagram_parses_back`).

The length is written in eight bytes. No string in memory is longer than they can say, and a list in
the model can be, so this is asked of the one value that contains the others.
-/

namespace Maknae.Audit

open List Option

/-! ### What is mirrored of a record -/

/-- The text of the marker. -/
def PrimaryOutcome.asField : PrimaryOutcome → String
  | .ok => "ok"
  | .refusedBreakerOpen => "refused-breaker-open"
  | .refusedAtCapacity => "refused-at-capacity"
  | .writeFailed => "write-failed"
  | .writeUnconfirmed => "write-unconfirmed"

/-- Who a record is about. -/
structure RecordSubject where
  user : Option String
  role : Option String

/-- A record, with what is only serialized left to `ρ`. -/
structure AuditRecord (ρ : Type) where
  subject : RecordSubject
  action : String
  object : Option String
  /-- The result of the decision. -/
  result : String
  sessionId : UInt64
  seq : UInt64
  rest : ρ

/-- What a record shows to the log. -/
structure RecordFields where
  action : String
  outcome : String
  subject : String
  role : String
  object : String
  primary : String
  isDeny : Bool
  sessionId : UInt64
  seq : UInt64

variable {ν ρ : Type}

def fieldsOf (rec : AuditRecord ρ) (primary : PrimaryOutcome) : RecordFields where
  action := rec.action
  outcome := rec.result
  subject := rec.subject.user.getD "unknown"
  role := rec.subject.role.getD "none"
  object := rec.object.getD "-"
  primary := primary.asField
  isDeny := rec.result = "deny"
  sessionId := rec.sessionId
  seq := rec.seq

def syslogIdentifier : String := "maknaed"

/-- The text of an unsigned integer. -/
def decimal (n : UInt64) : String := toString n.toNat

/-- The summary that the operator sees. -/
def summaryLine (f : RecordFields) : String :=
  String.join ["maknae audit: ", f.action, " ", f.outcome, " subject=", f.subject, " role=", f.role,
    " object=", f.object, " session=", decimal f.sessionId, " seq=", decimal f.seq]

/-! ### The writer -/

def isNameChar (c : Char) : Bool := c.isUpper || c.isDigit || c = '_'

def isValidFieldName (name : String) : Bool :=
  match name.toList with
  | [] => false
  | first :: _ => if first = '_' || first.isDigit then false else name.toList.all isNameChar

/-- The byte between a name and its value. -/
def equals : UInt8 := 61

/-- Append a field. One with a name that is not valid is dropped. -/
def pushField (buf : List UInt8) (name : String) (value : List UInt8) : List UInt8 :=
  if !isValidFieldName name then buf
  else if value.contains newline then
    buf ++ utf8Bytes name ++ [newline] ++ leBytes 8 value.length ++ value ++ [newline]
  else buf ++ utf8Bytes name ++ [equals] ++ value ++ [newline]

/-- Append some fields in order. -/
def pushFields (buf : List UInt8) (fields : List (String × List UInt8)) : List UInt8 :=
  fields.foldl (fun buf field ↦ pushField buf field.1 field.2) buf

/-- The fields of a record. -/
def journalFields (f : RecordFields) (canonical : String) : List (String × List UInt8) :=
  let priority := if f.isDeny then "4" else "6"
  [("SYSLOG_IDENTIFIER", utf8Bytes syslogIdentifier),
    ("MESSAGE", utf8Bytes (summaryLine f)),
    ("PRIORITY", utf8Bytes priority),
    ("MAKNAE_ACTION", utf8Bytes f.action),
    ("MAKNAE_OUTCOME", utf8Bytes f.outcome),
    ("MAKNAE_SUBJECT", utf8Bytes f.subject),
    ("MAKNAE_ROLE", utf8Bytes f.role),
    ("MAKNAE_PRIMARY", utf8Bytes f.primary),
    ("MAKNAE_RECORD", utf8Bytes canonical)]

/-- The datagram of a record. -/
def encode (serde : SerdeJson ν) (toValue : AuditRecord ρ → Except String (Json ν))
    (rec : AuditRecord ρ) (primary : PrimaryOutcome) : Except AuditError (List UInt8) := do
  let canonical ← canonicalJson serde toValue rec
  return pushFields [] (journalFields (fieldsOf rec primary) canonical)

/-! ### The reader -/

/-- The field at the front of a datagram, and what follows it. -/
def parseField (buf : List UInt8) : Option ((String × List UInt8) × List UInt8) := do
  let nl ← buf.findIdx? (· = newline)
  let line := buf.take nl
  match line.findIdx? (· = equals) with
  | some eq =>
    let name ← ofUtf8Bytes (line.take eq)
    return ((name, line.drop (eq + 1)), buf.drop (nl + 1))
  | none =>
    let name ← ofUtf8Bytes line
    let sized := buf.drop (nl + 1)
    if sized.length < 8 then none
    else
      let len := ofLeBytes (sized.take 8)
      let value := sized.drop 8
      if value.length < len then none
      else return ((name, value.take len), value.drop (len + 1))

/-- The fields of a datagram. Each takes a byte at least, so the length is enough of a bound. -/
def parseFields : (fuel : ℕ) → List UInt8 → Option (List (String × List UInt8))
  | _, [] => some []
  | 0, _ :: _ => none
  | fuel + 1, b :: buf => do
    let (field, rest) ← parseField (b :: buf)
    let fields ← parseFields fuel rest
    return field :: fields

def parse (buf : List UInt8) : Option (List (String × List UInt8)) := parseFields buf.length buf

/-! ### One field -/

/-- The bytes of a field. -/
def fieldBytes (name : String) (value : List UInt8) : List UInt8 := pushField [] name value

theorem pushField_eq_append (buf : List UInt8) (name : String) (value : List UInt8) :
    pushField buf name value = buf ++ fieldBytes name value := by
  unfold fieldBytes pushField
  split_ifs
  · rw [append_nil]
  · simp only [nil_append, append_assoc]
  · simp only [nil_append, append_assoc]

variable {name : String} {p : List UInt8} {b : UInt8} {value : List UInt8}
  {fields : List (String × List UInt8)}

/-- A name has no newline and no equals sign. -/
theorem not_mem_name (h : isValidFieldName name = true) :
    newline ∉ utf8Bytes name ∧ equals ∉ utf8Bytes name := by
  have hchars : ∀ c ∈ name.toList, isNameChar c = true := by
    unfold isValidFieldName at h
    split at h
    · cases h
    · split_ifs at h
      exact all_eq_true.mp h
  have hnone : ∀ c, isNameChar c = true → c.toNat ≠ newline.toNat ∧ c.toNat ≠ equals.toNat := by
    intro c hc
    constructor
    · intro hnat
      obtain rfl : c = '\n' := Char.toNat_inj.mp hnat
      exact absurd hc (by decide)
    · intro hnat
      obtain rfl : c = '=' := Char.toNat_inj.mp hnat
      exact absurd hc (by decide)
  constructor
  · intro hmem
    obtain ⟨c, hc, hnat⟩ := exists_of_mem_utf8Bytes (by decide) hmem
    exact (hnone c (hchars c hc)).1 hnat
  · intro hmem
    obtain ⟨c, hc, hnat⟩ := exists_of_mem_utf8Bytes (by decide) hmem
    exact (hnone c (hchars c hc)).2 hnat

theorem findIdx?_append_cons (h : b ∉ p) (r : List UInt8) :
    (p ++ b :: r).findIdx? (· = b) = some p.length := by
  induction p with
  | nil => rw [nil_append, findIdx?_cons, if_pos (by simp), length_nil]
  | cons a p ih =>
    obtain ⟨ha, hp⟩ := not_or.mp (mem_cons.not.mp h)
    rw [cons_append, findIdx?_cons, if_neg (by simpa using Ne.symm ha), ih hp]
    rfl

theorem findIdx?_eq_none (h : b ∉ p) : p.findIdx? (· = b) = none :=
  findIdx?_eq_none_iff.mpr fun _ ha ↦ decide_eq_false fun heq ↦ h (heq ▸ ha)

theorem drop_length_succ (p : List UInt8) (b : UInt8) (r : List UInt8) :
    (p ++ b :: r).drop (p.length + 1) = r := by
  rw [← singleton_append, ← append_assoc]
  exact drop_left' (by rw [length_append, length_singleton])

/-- A value that is on a line with its name. -/
theorem parseField_line (hname : isValidFieldName name = true) (hvalue : newline ∉ value)
    (rest : List UInt8) :
    parseField (utf8Bytes name ++ equals :: (value ++ newline :: rest)) =
      some ((name, value), rest) := by
  obtain ⟨hnewline, hequals⟩ := not_mem_name hname
  have hline : newline ∉ utf8Bytes name ++ equals :: value := by
    rw [mem_append, mem_cons]
    rintro (hmem | heq | hmem)
    · exact hnewline hmem
    · exact absurd heq (by decide)
    · exact hvalue hmem
  have hbuf : utf8Bytes name ++ equals :: (value ++ newline :: rest) =
      (utf8Bytes name ++ equals :: value) ++ newline :: rest := by
    rw [append_assoc, cons_append]
  rw [hbuf, parseField, findIdx?_append_cons hline, bind_eq_bind, bind_some]
  dsimp only
  rw [take_left, findIdx?_append_cons hequals]
  dsimp only
  rw [take_left, ofUtf8Bytes_utf8Bytes, drop_length_succ, drop_length_succ]
  rfl

/-- A value that stands behind its length. -/
theorem parseField_sized (hname : isValidFieldName name = true) (hfits : value.length < 2 ^ 64)
    (rest : List UInt8) :
    parseField (utf8Bytes name ++
        newline :: (leBytes 8 value.length ++ (value ++ newline :: rest))) =
      some ((name, value), rest) := by
  obtain ⟨hnewline, hequals⟩ := not_mem_name hname
  have hlen : ofLeBytes (leBytes 8 value.length) = value.length := ofLeBytes_leBytes hfits
  have htake : (leBytes 8 value.length ++ (value ++ newline :: rest)).take 8 =
      leBytes 8 value.length := take_left' (length_leBytes 8 _)
  have hdrop : (leBytes 8 value.length ++ (value ++ newline :: rest)).drop 8 =
      value ++ newline :: rest := drop_left' (length_leBytes 8 _)
  rw [parseField, findIdx?_append_cons hnewline, bind_eq_bind, bind_some]
  dsimp only
  rw [take_left, findIdx?_eq_none hequals]
  rw [ofUtf8Bytes_utf8Bytes, bind_eq_bind, bind_some, drop_length_succ,
    if_neg (by simp), htake, hdrop, hlen, if_neg (by simp), take_left, drop_length_succ]
  rfl

/-- **A field is read back**, whatever follows it. -/
theorem parseField_append (hname : isValidFieldName name = true)
    (hfits : newline ∈ value → value.length < 2 ^ 64) (rest : List UInt8) :
    parseField (fieldBytes name value ++ rest) = some ((name, value), rest) := by
  rw [fieldBytes, pushField, if_neg (by simpa using hname)]
  split_ifs with hvalue
  · simpa only [nil_append, append_assoc, cons_append] using
      parseField_sized hname (hfits (by simpa using hvalue)) rest
  · simpa only [nil_append, append_assoc, cons_append] using
      parseField_line hname (by simpa using hvalue) rest

/-! ### A datagram -/

/-- The fields that a writer did not drop. -/
def validFields (fields : List (String × List UInt8)) : List (String × List UInt8) :=
  fields.filter fun field ↦ isValidFieldName field.1

theorem pushFields_eq (buf : List UInt8) (fields : List (String × List UInt8)) :
    pushFields buf fields =
      buf ++ (validFields fields).flatMap fun field ↦ fieldBytes field.1 field.2 := by
  induction fields generalizing buf with
  | nil => simp [pushFields, validFields]
  | cons field fields ih =>
    have hstep : pushFields buf (field :: fields) =
        pushFields (buf ++ fieldBytes field.1 field.2) fields := by
      rw [← pushField_eq_append]
      rfl
    rw [hstep, ih, validFields, validFields, filter_cons]
    split_ifs with hvalid
    · rw [flatMap_cons, append_assoc]
    · rw [fieldBytes, pushField, if_pos (by simpa using hvalid), append_nil]

theorem fieldBytes_ne_nil (hname : isValidFieldName name = true) (value : List UInt8) :
    fieldBytes name value ≠ [] := by
  rw [fieldBytes, pushField, if_neg (by simpa using hname)]
  split_ifs <;> simp

theorem parseFields_flatMap (hnames : ∀ field ∈ fields, isValidFieldName field.1 = true)
    (hfits : ∀ field ∈ fields, newline ∈ field.2 → field.2.length < 2 ^ 64) {fuel}
    (hfuel : fields.length ≤ fuel) :
    parseFields fuel (fields.flatMap fun field ↦ fieldBytes field.1 field.2) = some fields := by
  induction fields generalizing fuel with
  | nil => cases fuel <;> rfl
  | cons field fields ih =>
    obtain ⟨hname, hnames⟩ := forall_mem_cons.mp hnames
    obtain ⟨hfit, hfits⟩ := forall_mem_cons.mp hfits
    obtain ⟨fuel, rfl⟩ : ∃ n, fuel = n + 1 := Nat.exists_eq_succ_of_ne_zero (by
      rw [length_cons] at hfuel
      omega)
    rw [flatMap_cons]
    have hread := parseField_append hname hfit
      (fields.flatMap fun field ↦ fieldBytes field.1 field.2)
    obtain ⟨b, bytes, hbytes⟩ := exists_cons_of_ne_nil
      (append_ne_nil_of_left_ne_nil (fieldBytes_ne_nil hname field.2)
        (fields.flatMap fun field ↦ fieldBytes field.1 field.2))
    rw [hbytes] at hread ⊢
    rw [parseFields, hread, bind_eq_bind, bind_some]
    dsimp only
    rw [ih hnames hfits (Nat.le_of_succ_le_succ hfuel)]
    rfl

theorem length_le_length_flatMap (hnames : ∀ field ∈ fields, isValidFieldName field.1 = true) :
    fields.length ≤ (fields.flatMap fun field ↦ fieldBytes field.1 field.2).length := by
  induction fields with
  | nil => exact Nat.zero_le _
  | cons field fields ih =>
    obtain ⟨hname, hnames⟩ := forall_mem_cons.mp hnames
    have hpos := length_pos_iff.mpr (fieldBytes_ne_nil hname field.2)
    have := ih hnames
    rw [flatMap_cons, length_append, length_cons]
    omega

/-- **What was pushed is what is read**, for any values. -/
theorem parse_pushFields (hfits : ∀ field ∈ fields, newline ∈ field.2 → field.2.length < 2 ^ 64) :
    parse (pushFields [] fields) = some (validFields fields) := by
  have hnames : ∀ field ∈ validFields fields, isValidFieldName field.1 = true := fun field h ↦
    (mem_filter.mp h).2
  rw [pushFields_eq]
  exact parseFields_flatMap hnames (fun field h ↦ hfits field (mem_of_mem_filter h))
    (length_le_length_flatMap hnames)

/-! ### The datagram of a record -/

/-- The names of the fields of a record. -/
def journalNames : List String :=
  ["SYSLOG_IDENTIFIER", "MESSAGE", "PRIORITY", "MAKNAE_ACTION", "MAKNAE_OUTCOME", "MAKNAE_SUBJECT",
    "MAKNAE_ROLE", "MAKNAE_PRIMARY", "MAKNAE_RECORD"]

theorem map_fst_journalFields (f : RecordFields) (canonical : String) :
    (journalFields f canonical).map Prod.fst = journalNames := rfl

theorem validFields_journalFields (f : RecordFields) (canonical : String) :
    validFields (journalFields f canonical) = journalFields f canonical := by
  refine filter_eq_self.mpr fun field h ↦ ?_
  have hvalid : ∀ name ∈ journalNames, isValidFieldName name = true := by decide +kernel
  exact hvalid field.1 (mem_map_of_mem h)

theorem utf8Bytes_join (pieces : List String) :
    utf8Bytes (String.join pieces) = pieces.flatMap utf8Bytes := by
  rw [utf8Bytes_eq_flatMap, String.toList_join, flatMap_assoc]
  exact flatMap_congr fun s _ ↦ (utf8Bytes_eq_flatMap s).symm

theorem length_le_join {pieces s} (h : s ∈ pieces) :
    (utf8Bytes s).length ≤ (utf8Bytes (String.join pieces)).length := by
  obtain ⟨before, after, rfl⟩ := append_of_mem h
  rw [utf8Bytes_join, flatMap_append, flatMap_cons, length_append, length_append]
  omega

/-- No value with a newline is longer than the summary. -/
theorem length_le_summaryLine {f}
    (hprimary : ∃ primary : PrimaryOutcome, f.primary = primary.asField)
    {canonical} (hcanonical : newline ∉ utf8Bytes canonical) {field : String × List UInt8}
    (hfield : field ∈ journalFields f canonical) (hnewline : newline ∈ field.2) :
    field.2.length ≤ (utf8Bytes (summaryLine f)).length := by
  obtain ⟨primary, hprimary⟩ := hprimary
  have hlines : ∀ s ∈ [syslogIdentifier, "4", "6", "ok", "refused-breaker-open",
      "refused-at-capacity", "write-failed", "write-unconfirmed"],
      newline ∉ utf8Bytes s := by decide +kernel
  simp only [journalFields, mem_cons, not_mem_nil, or_false] at hfield
  rcases hfield with rfl | rfl | rfl | rfl | rfl | rfl | rfl | rfl | rfl
  · exact absurd hnewline (hlines _ (by simp))
  · exact le_rfl
  · refine absurd hnewline (hlines _ ?_)
    split_ifs <;> simp
  · exact length_le_join (by simp)
  · exact length_le_join (by simp)
  · exact length_le_join (by simp)
  · exact length_le_join (by simp)
  · refine absurd hnewline (hlines _ ?_)
    rw [hprimary]
    cases primary <;> simp [PrimaryOutcome.asField]
  · exact absurd hnewline hcanonical

/-- **The datagram of a record is read as what was pushed**: nine fields, always with the same
names, and with the values byte for byte. Whatever is pushed is read as it is, apart from names that
are not valid. -/
theorem datagram_parses_back :
    (∀ fields : List (String × List UInt8),
      (∀ field ∈ fields, newline ∈ field.2 → field.2.length < 2 ^ 64) →
      parse (pushFields [] fields) = some (validFields fields)) ∧
    ∀ (serde : SerdeJson ν) (toValue : AuditRecord ρ → Except String (Json ν)) (rec : AuditRecord ρ)
      (primary : PrimaryOutcome) (bytes : List UInt8), encode serde toValue rec primary =
      .ok bytes → (utf8Bytes (summaryLine (fieldsOf rec primary))).length < 2 ^ 64 →
      ∃ canonical, canonicalJson serde toValue rec = .ok canonical ∧
        parse bytes = some (journalFields (fieldsOf rec primary) canonical) ∧
        (journalFields (fieldsOf rec primary) canonical).map Prod.fst = journalNames := by
  refine ⟨fun fields ↦ parse_pushFields, fun serde toValue rec primary bytes h hfits ↦ ?_⟩
  obtain ⟨canonical, hcanonical, rfl⟩ := Except.bind_pure_eq_ok.mp h
  refine ⟨canonical, hcanonical, ?_, map_fst_journalFields _ _⟩
  rw [parse_pushFields fun field hfield hnewline ↦
    (length_le_summaryLine ⟨primary, rfl⟩ (newline_not_mem_canonicalJson hcanonical) hfield
      hnewline).trans_lt hfits, validFields_journalFields]

/-- A record whose subject looks like a field. -/
def forgedRole : AuditRecord Unit where
  subject := ⟨some "mallory\nMAKNAE_ROLE=admin", none⟩
  action := "fs.read"
  object := none
  result := "deny"
  sessionId := 7
  seq := 3
  rest := ()

theorem datagram_parses_back_forgedRole :
    ∃ bytes fields, encode plainJson (fun r ↦ .ok (.string r.action)) forgedRole .ok = .ok bytes ∧
      parse bytes = some fields ∧ fields.map Prod.fst = journalNames ∧
      fields[6]? = some ("MAKNAE_ROLE", utf8Bytes "none") := by
  obtain ⟨canonical, hcanonical, hparse, hnames⟩ := datagram_parses_back.2 plainJson
    (fun r ↦ .ok (.string r.action)) forgedRole .ok _ rfl (by decide +kernel)
  exact ⟨_, _, rfl, hparse, hnames, rfl⟩

end Maknae.Audit
