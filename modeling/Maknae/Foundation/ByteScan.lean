import Maknae.Foundation.Outcome

/-!
# Reading fixed-width integers from bytes

Little-endian integers, and a scanner that reads them from a buffer and spends from an allowance as
it goes. The scanner can fail (the buffer is too short, the allowance is used up) and, like the
slice it stands for, panics when its position is past the end.

Two notions of a correct scanner, each closed under sequencing and repetition:

* `Reads p bs cost a`: wherever the bytes `bs` come next and `cost` can be spent, `p` reads `a` from
  them. This is what a round trip is made of.
* `Scans p R`: on any bytes, `p` does not panic, and what it read, how many bytes it took and what
  it spent satisfy `R`. This is what safety on hostile bytes is made of.
-/

open List

universe u v

/-! ### Little-endian integers -/

/-- The lowest `w` bytes of a number, lowest first. -/
def leBytes : ℕ → ℕ → List UInt8
  | 0, _ => []
  | w + 1, n => UInt8.ofNat (n % 256) :: leBytes w (n / 256)

/-- The number with the given bytes, lowest first. -/
def ofLeBytes : List UInt8 → ℕ
  | [] => 0
  | b :: bs => b.toNat + 256 * ofLeBytes bs

@[simp] theorem length_leBytes (w n : ℕ) : (leBytes w n).length = w := by
  induction w generalizing n with
  | zero => rfl
  | succ w ih => rw [leBytes, length_cons, ih]

theorem ofLeBytes_leBytes {w n} (h : n < 256 ^ w) : ofLeBytes (leBytes w n) = n := by
  induction w generalizing n with
  | zero =>
    rw [leBytes, ofLeBytes]
    omega
  | succ w ih =>
    have hdiv : n / 256 < 256 ^ w := by
      rw [Nat.div_lt_iff_lt_mul (by decide)]
      exact h
    have hlow : (UInt8.ofNat (n % 256)).toNat = n % 256 := by
      rw [UInt8.toNat_ofNat']
      omega
    rw [leBytes, ofLeBytes, ih hdiv]
    omega

/-- The number of a field can be told from what follows the field. -/
theorem leBytes_append_inj {w m n} (hm : m < 256 ^ w) (hn : n < 256 ^ w) {r s}
    (h : leBytes w m ++ r = leBytes w n ++ s) : m = n ∧ r = s := by
  obtain ⟨hfield, hrest⟩ := append_inj h (by rw [length_leBytes, length_leBytes])
  exact ⟨by rw [← ofLeBytes_leBytes hm, hfield, ofLeBytes_leBytes hn], hrest⟩

theorem ofLeBytes_lt (bs : List UInt8) : ofLeBytes bs < 256 ^ bs.length := by
  induction bs with
  | nil => decide
  | cons b bs ih =>
    have hb : b.toNat < 256 := b.toNat_lt
    rw [ofLeBytes, length_cons]
    omega

/-! ### Text -/

/-- The bytes of a text. -/
def utf8Bytes (s : String) : List UInt8 := s.toByteArray.data.toList

/-- The text with the given bytes, when they are UTF-8. -/
def ofUtf8Bytes (bs : List UInt8) : Option String := String.fromUTF8? ⟨bs.toArray⟩

@[simp] theorem ofUtf8Bytes_utf8Bytes (s : String) : ofUtf8Bytes (utf8Bytes s) = some s :=
  dif_pos s.isValidUTF8

variable {s : String} {c : Char} {b : UInt8}

/-- A text that was read has the bytes it was read from. -/
theorem utf8Bytes_of_ofUtf8Bytes {bs} (h : ofUtf8Bytes bs = some s) :
    utf8Bytes s = bs := by
  rw [ofUtf8Bytes, String.fromUTF8?] at h
  split_ifs at h
  cases h
  rfl

theorem utf8Bytes_push (s : String) (c : Char) :
    utf8Bytes (s.push c) = utf8Bytes s ++ String.utf8EncodeChar c := by
  rw [utf8Bytes, String.toByteArray_push, utf8Encode]
  simp [utf8Bytes]

/-- A byte of the ASCII range stands for itself. -/
theorem toNat_of_mem_utf8EncodeChar (hb : b.toNat < 128) (h : b ∈ String.utf8EncodeChar c) :
    c.toNat = b.toNat := by
  -- the bytes of a longer encoding are all beyond the range
  have hmany : ∀ bytes : List ℕ, (∀ n ∈ bytes, 128 ≤ n ∧ n < 256) →
      b ∉ bytes.map UInt8.ofNat := by
    intro bytes hbytes hmem
    obtain ⟨n, hn, rfl⟩ := mem_map.mp hmem
    obtain ⟨hlow, hhigh⟩ := hbytes n hn
    rw [UInt8.toNat_ofNat'] at hb
    omega
  unfold String.utf8EncodeChar at h
  simp only at h
  split_ifs at h with h1 h2 h3
  · rw [mem_singleton] at h
    rw [h, UInt8.toNat_ofNat', Nat.mod_eq_of_lt (by omega)]
    rfl
  · exact absurd h (hmany [_, _] (by simp; omega))
  · exact absurd h (hmany [_, _, _] (by simp; omega))
  · exact absurd h (hmany [_, _, _, _] (by simp; omega))

theorem utf8Bytes_eq_flatMap (s : String) :
    utf8Bytes s = s.toList.flatMap String.utf8EncodeChar := by
  rw [utf8Bytes, ← String.ofList_toList (s := s), String.toByteArray_ofList, utf8Encode]
  simp

theorem exists_of_mem_utf8Bytes (hb : b.toNat < 128) (h : b ∈ utf8Bytes s) :
    ∃ c ∈ s.toList, c.toNat = b.toNat := by
  rw [utf8Bytes_eq_flatMap] at h
  obtain ⟨c, hc, hmem⟩ := mem_flatMap.mp h
  exact ⟨c, hc, toNat_of_mem_utf8EncodeChar hb hmem⟩

/-- Where all bytes are ASCII, they are those of the characters. -/
theorem exists_byte_of_mem (h : ∀ b ∈ utf8Bytes s, b.toNat < 128) (hc : c ∈ s.toList) :
    ∃ b ∈ utf8Bytes s, b.toNat = c.toNat := by
  have hmem : ∀ b ∈ String.utf8EncodeChar c, b ∈ utf8Bytes s := fun b hb ↦ by
    rw [utf8Bytes_eq_flatMap]
    exact mem_flatMap.mpr ⟨c, hc, hb⟩
  have hne : String.utf8EncodeChar c ≠ [] := by
    unfold String.utf8EncodeChar
    dsimp only
    split_ifs <;> simp
  obtain ⟨b, hb⟩ := exists_mem_of_ne_nil _ hne
  exact ⟨b, hmem b hb, (toNat_of_mem_utf8EncodeChar (h b (hmem b hb)) hb).symm⟩

theorem utf8Bytes_append (s t : String) : utf8Bytes (s ++ t) = utf8Bytes s ++ utf8Bytes t := by
  rw [utf8Bytes_eq_flatMap, String.toList_append, flatMap_append, ← utf8Bytes_eq_flatMap,
    ← utf8Bytes_eq_flatMap]

theorem utf8Bytes_injective : Function.Injective utf8Bytes := fun s t h ↦
  Option.some.inj ((ofUtf8Bytes_utf8Bytes s).symm.trans (h ▸ ofUtf8Bytes_utf8Bytes t))

/-! ### The scanner -/

/-- A buffer, the position in it, and what may still be spent. -/
structure Cursor where
  buf : List UInt8
  pos : ℕ
  allowance : ℕ

namespace Cursor

/-- The bytes that are left. -/
def rest (c : Cursor) : List UInt8 := c.buf.drop c.pos

/-- The position is in the buffer, and the buffer is addressable. -/
structure Good (c : Cursor) : Prop where
  pos_le : c.pos ≤ c.buf.length
  length_lt : c.buf.length < 2 ^ 64

/-- The cursor after `n` bytes and a cost. -/
def advance (c : Cursor) (n cost : ℕ) : Cursor := ⟨c.buf, c.pos + n, c.allowance - cost⟩

theorem Good.length_rest {c : Cursor} (h : c.Good) : c.rest.length + c.pos = c.buf.length := by
  have := h.pos_le
  rw [rest, length_drop]
  omega

theorem rest_advance (c : Cursor) (n cost : ℕ) : (c.advance n cost).rest = c.rest.drop n := by
  rw [rest, rest, drop_drop, advance]

theorem advance_advance (c : Cursor) (m n a b : ℕ) :
    (c.advance m a).advance n b = c.advance (m + n) (a + b) := by
  simp only [advance, Cursor.mk.injEq, true_and]
  omega

theorem Good.advance {c : Cursor} (h : c.Good) {n : ℕ} (hn : n ≤ c.rest.length) (cost : ℕ) :
    (c.advance n cost).Good := by
  have hlength := h.length_rest
  exact ⟨by rw [Cursor.advance]; dsimp only; omega, h.length_lt⟩

end Cursor

/-- A computation that reads from a cursor. -/
abbrev Scan (ε : Type u) := StateT Cursor (Except (Fault ε))

namespace Scan

open Outcome

variable {ε : Type u} {α β : Type}

/-- Report an error. -/
def fail (e : ε) : Scan ε α := fun _ ↦ Outcome.fail e

/-- Read `n` bytes. -/
def take (short : ε) (n : ℕ) : Scan ε (List UInt8) := fun c ↦
  if c.buf.length < c.pos then panicked
  else if c.rest.length < n then Outcome.fail short
  else do
    let pos ← checkedAdd 64 c.pos n
    return (c.rest.take n, { c with pos })

/-- Read an integer of `w` bytes. -/
def readLe (short : ε) (w : ℕ) : Scan ε ℕ := do
  let bs ← take short w
  return ofLeBytes bs

def readU8 (short : ε) : Scan ε UInt8 := do return UInt8.ofNat (← readLe short 1)

def readU16 (short : ε) : Scan ε UInt16 := do return UInt16.ofNat (← readLe short 2)

def readU32 (short : ε) : Scan ε UInt32 := do return UInt32.ofNat (← readLe short 4)

def readU64 (short : ε) : Scan ε UInt64 := do return UInt64.ofNat (← readLe short 8)

/-- Spend from the allowance. -/
def spend (exhausted : ε) (n : ℕ) : Scan ε Unit := fun c ↦
  if c.allowance < n then Outcome.fail exhausted
  else .ok ((), { c with allowance := c.allowance - n })

/-- Refuse bytes that are left. -/
def finish (trailing : ε) : Scan ε Unit := fun c ↦
  if c.pos = c.buf.length then .ok ((), c) else Outcome.fail trailing

/-- Refuse when a condition holds. -/
def refuse (c : Prop) [Decidable c] (e : ε) : Scan ε Unit := if c then fail e else pure ()

/-- The bytes of a range of some buffer, which need not be the one that is scanned. -/
def slice (bytes : List UInt8) (start stop : ℕ) : Scan ε (List UInt8) := fun c ↦
  if start ≤ stop ∧ stop ≤ bytes.length then .ok ((bytes.take stop).drop start, c) else panicked

/-- Repeat a scan. -/
def readMany (p : Scan ε α) : ℕ → Scan ε (List α)
  | 0 => pure []
  | n + 1 => do
    let a ← p
    let as ← readMany p n
    return a :: as

theorem readMany_add (p : Scan ε α) (m n : ℕ) :
    readMany p (m + n) = (do
      let as ← readMany p m
      let bs ← readMany p n
      return as ++ bs) := by
  induction m with
  | zero => simp [readMany]
  | succ m ih =>
    rw [Nat.succ_add, readMany, ih]
    simp [readMany]

/-! ### Round trips -/

/-- Wherever `bs` comes next and `cost` can be spent, `p` reads `a` from `bs`. -/
def Reads (p : Scan ε α) (bs : List UInt8) (cost : ℕ) (a : α) : Prop :=
  ∀ c : Cursor, c.Good → bs <+: c.rest → cost ≤ c.allowance →
    p c = .ok (a, c.advance bs.length cost)

theorem reads_pure (a : α) : Reads (pure a : Scan ε α) [] 0 a := fun _ _ _ _ ↦ rfl

variable {f : α → Scan ε β} {p : Scan ε α} {a : α} {b : β} {bs : List UInt8} {n : ℕ}
  {bytes : List UInt8} {start stop : ℕ} {R : α → ℕ → ℕ → Prop} {S : β → ℕ → ℕ → Prop}

variable {m n : ℕ} {bs bs' : List UInt8}

/-- Scans in sequence read what they read in turn. -/
theorem Reads.bind (hp : Reads p bs m a) (hf : Reads (f a) bs' n b) :
    Reads (p >>= f) (bs ++ bs') (m + n) b := by
  intro c hc hbs hcost
  obtain ⟨tail, htail⟩ := hbs
  have hfirst : bs <+: c.rest := ⟨bs' ++ tail, by rw [← htail, append_assoc]⟩
  have hrest : bs' <+: (c.advance bs.length m).rest := by
    refine ⟨tail, ?_⟩
    rw [Cursor.rest_advance, ← htail, append_assoc, drop_left]
  have hadvance : (c.advance bs.length m).Good := hc.advance hfirst.length_le m
  have hallowance : n ≤ (c.advance bs.length m).allowance := by
    show n ≤ c.allowance - m
    omega
  show (p c >>= fun r ↦ f r.1 r.2) = _
  rw [hp c hc hfirst (by omega), Except.ok_bind, hf _ hadvance hrest hallowance,
    Cursor.advance_advance, length_append]

theorem Reads.bind_nil (hp : Reads p bs m a) (hf : Reads (f a) [] n b) :
    Reads (p >>= f) bs (m + n) b := by
  have h := hp.bind hf
  rwa [append_nil] at h

theorem Reads.bind_free (hp : Reads p bs 0 a) (hf : Reads (f a) bs' n b) :
    Reads (p >>= f) (bs ++ bs') n b := by
  have h := hp.bind hf
  rwa [Nat.zero_add] at h

theorem Reads.bind_skip (hp : Reads p [] 0 a) (hf : Reads (f a) bs n b) : Reads (p >>= f) bs n b :=
  hp.bind_free hf

theorem Reads.bind_free_nil (hp : Reads p bs 0 a) (hf : Reads (f a) [] n b) :
    Reads (p >>= f) bs n b := by
  have h := hp.bind_nil hf
  rwa [Nat.zero_add] at h

theorem Reads.map (hp : Reads p bs n a) (f : α → β) : Reads (do return f (← p)) bs n (f a) := by
  have h : Reads (p >>= fun a ↦ pure (f a)) bs (n + 0) (f a) := hp.bind_nil (reads_pure (f a))
  exact h

theorem reads_take (short : ε) (bs : List UInt8) : Reads (take short bs.length) bs 0 bs := by
  intro c hc hbs _
  have hlength := hc.length_rest
  have hle := hbs.length_le
  have hpos : c.pos + bs.length < 2 ^ 64 := by
    have := hc.length_lt
    omega
  rw [take, if_neg (by have := hc.pos_le; omega), if_neg (by omega), checkedAdd, narrow,
    if_pos hpos, ← prefix_iff_eq_take.mp hbs]
  rfl

theorem reads_readLe (short : ε) {w n} (h : n < 256 ^ w) :
    Reads (readLe short w) (leBytes w n) 0 n := by
  have htake := (reads_take short (leBytes w n)).map ofLeBytes
  rwa [length_leBytes, ofLeBytes_leBytes h] at htake

theorem reads_readU8 (short : ε) (v : UInt8) : Reads (readU8 short) (leBytes 1 v.toNat) 0 v := by
  have h := (reads_readLe short (w := 1) v.toNat_lt).map UInt8.ofNat
  rwa [UInt8.ofNat_toNat] at h

theorem reads_readU16 (short : ε) (v : UInt16) :
    Reads (readU16 short) (leBytes 2 v.toNat) 0 v := by
  have h := (reads_readLe short (w := 2) v.toNat_lt).map UInt16.ofNat
  rwa [UInt16.ofNat_toNat] at h

theorem reads_readU32 (short : ε) (v : UInt32) :
    Reads (readU32 short) (leBytes 4 v.toNat) 0 v := by
  have h := (reads_readLe short (w := 4) v.toNat_lt).map UInt32.ofNat
  rwa [UInt32.ofNat_toNat] at h

theorem reads_readU32_ofNat (short : ε) (h : n < 2 ^ 32) :
    Reads (readU32 short) (leBytes 4 n) 0 (UInt32.ofNat n) :=
  (reads_readLe short (w := 4) h).map UInt32.ofNat

theorem reads_readU64 (short : ε) (v : UInt64) :
    Reads (readU64 short) (leBytes 8 v.toNat) 0 v := by
  have h := (reads_readLe short (w := 8) v.toNat_lt).map UInt64.ofNat
  rwa [UInt64.ofNat_toNat] at h

theorem reads_spend (exhausted : ε) (n : ℕ) : Reads (spend exhausted n) [] n () := by
  intro c _ _ hn
  rw [spend, if_neg (by omega)]
  rfl

theorem reads_refuse {c : Prop} [Decidable c] (h : ¬c) (e : ε) : Reads (refuse c e) [] 0 () := by
  rw [refuse, if_neg h]
  exact reads_pure ()

theorem reads_slice (h : start ≤ stop ∧ stop ≤ bytes.length) :
    Reads (slice bytes start stop : Scan ε _) [] 0 ((bytes.take stop).drop start) := by
  intro c _ _ _
  rw [slice, if_pos h]
  rfl

theorem reads_readMany_zero (p : Scan ε α) : Reads (readMany p 0) [] 0 [] := reads_pure []

theorem Reads.readMany_succ {m n k} {as : List α} (hp : Reads p bs m a)
    (h : Reads (readMany p k) bs' n as) :
    Reads (readMany p (k + 1)) (bs ++ bs') (m + n) (a :: as) :=
  hp.bind (h.map (a :: ·))

/-- Repeated scans in sequence are one repeated scan. -/
theorem Reads.readMany_add {m n j k} {as as' : List α} (h : Reads (readMany p j) bs m as)
    (h' : Reads (readMany p k) bs' n as') :
    Reads (readMany p (j + k)) (bs ++ bs') (m + n) (as ++ as') := by
  rw [Scan.readMany_add]
  exact h.bind (h'.map (as ++ ·))

theorem Reads.run_finish {cost allowance} (h : Reads p bs cost a) (hbs : bs.length < 2 ^ 64)
    (hcost : cost ≤ allowance) (trailing : ε) :
    (do let a ← p; finish trailing; return a : Scan ε α) ⟨bs, 0, allowance⟩ =
      .ok (a, ⟨bs, bs.length, allowance - cost⟩) := by
  have hgood : Cursor.Good ⟨bs, 0, allowance⟩ := ⟨Nat.zero_le _, hbs⟩
  have hread := h ⟨bs, 0, allowance⟩ hgood prefix_rfl hcost
  rw [Cursor.advance, Nat.zero_add] at hread
  show (p ⟨bs, 0, allowance⟩ >>= fun r ↦ (finish trailing >>= fun _ ↦ pure r.1) r.2) = _
  rw [hread]
  show (finish trailing _ >>= fun r ↦ .ok (a, r.2)) = _
  rw [finish, if_pos rfl]
  rfl

/-! ### Hostile bytes -/

/-- On any bytes `p` does not panic, and what it read, the bytes it took and what it spent satisfy
`R`. -/
def Scans (p : Scan ε α) (R : α → ℕ → ℕ → Prop) : Prop :=
  ∀ c : Cursor, c.Good → Sat (p c) fun r ↦
    ∃ n cost, R r.1 n cost ∧ n ≤ c.rest.length ∧ cost ≤ c.allowance ∧ r.2 = c.advance n cost

theorem scans_pure (h : R a 0 0) :
    Scans (pure a : Scan ε α) R := fun _ _ ↦
  sat_pure.mpr ⟨0, 0, h, Nat.zero_le _, Nat.zero_le _, rfl⟩

theorem scans_fail (e : ε) (R : α → ℕ → ℕ → Prop) : Scans (fail e : Scan ε α) R := fun _ _ ↦
  sat_fail

theorem Scans.mono {R S : α → ℕ → ℕ → Prop} (hp : Scans p R)
    (h : ∀ a n cost, R a n cost → S a n cost) : Scans p S := fun c hc ↦
  (hp c hc).mono fun _ ⟨n, cost, hR, hrest⟩ ↦ ⟨n, cost, h _ n cost hR, hrest⟩

/-- Scans in sequence take and spend what they do in turn. -/
theorem Scans.bind (hp : Scans p R)
    (hf : ∀ a m x, R a m x → Scans (f a) fun b n y ↦ S b (m + n) (x + y)) :
    Scans (p >>= f) S := by
  intro c hc
  refine sat_bind (hp c hc) ?_
  rintro ⟨a, c'⟩ ⟨m, x, hR, hm, hx, rfl⟩
  refine (hf a m x hR _ (hc.advance hm x)).mono ?_
  rintro ⟨b, c''⟩ ⟨n, y, hS, hn, hy, rfl⟩
  rw [Cursor.rest_advance, length_drop] at hn
  have hy' : y ≤ c.allowance - x := hy
  exact ⟨m + n, x + y, hS, by omega, by omega, Cursor.advance_advance _ _ _ _ _⟩

/-- A scan of a fixed width that costs nothing followed by another. -/
theorem Scans.bind_width {k} (hp : Scans p fun _ n cost ↦ n = k ∧ cost = 0)
    (hf : ∀ a, Scans (f a) fun b n cost ↦ S b (k + n) cost) : Scans (p >>= f) S := by
  refine hp.bind ?_
  rintro a _ _ ⟨rfl, rfl⟩
  refine (hf a).mono fun b n cost hS ↦ ?_
  rwa [Nat.zero_add]

theorem scans_take (short : ε) (k : ℕ) :
    Scans (take short k) fun bs n cost ↦ bs.length = k ∧ n = k ∧ cost = 0 := by
  intro c hc
  have hlength := hc.length_rest
  rw [take, if_neg (by have := hc.pos_le; omega)]
  split_ifs with hshort
  · exact sat_fail
  · have hpos : c.pos + k < 2 ^ 64 := by
      have := hc.length_lt
      omega
    rw [checkedAdd, narrow, if_pos hpos]
    refine sat_pure.mpr ⟨k, 0, ⟨?_, rfl, rfl⟩, by omega, Nat.zero_le _, rfl⟩
    rw [length_take]
    omega

theorem scans_readLe (short : ε) (w : ℕ) :
    Scans (readLe short w) fun v n cost ↦ v < 256 ^ w ∧ n = w ∧ cost = 0 := by
  refine (scans_take short w).bind fun bs m x ⟨hlength, hm, hx⟩ ↦ scans_pure ?_
  exact ⟨hlength ▸ ofLeBytes_lt bs, hm, hx⟩

theorem scans_map_readLe {short : ε} {w : ℕ} (f : ℕ → α) :
    Scans (do return f (← readLe short w)) fun _ n cost ↦ n = w ∧ cost = 0 :=
  (scans_readLe short w).bind fun _ _ _ h ↦ scans_pure h.2

theorem scans_readU8 (short : ε) : Scans (readU8 short) fun _ n cost ↦ n = 1 ∧ cost = 0 :=
  scans_map_readLe UInt8.ofNat

theorem scans_readU16 (short : ε) : Scans (readU16 short) fun _ n cost ↦ n = 2 ∧ cost = 0 :=
  scans_map_readLe UInt16.ofNat

theorem scans_readU32 (short : ε) : Scans (readU32 short) fun _ n cost ↦ n = 4 ∧ cost = 0 :=
  scans_map_readLe UInt32.ofNat

theorem scans_readU64 (short : ε) : Scans (readU64 short) fun _ n cost ↦ n = 8 ∧ cost = 0 :=
  scans_map_readLe UInt64.ofNat

theorem scans_spend (exhausted : ε) (k : ℕ) :
    Scans (spend exhausted k) fun _ n cost ↦ n = 0 ∧ cost = k := by
  intro c _
  rw [spend]
  split_ifs with hshort
  · exact sat_fail
  · exact sat_ok.mpr ⟨0, k, ⟨rfl, rfl⟩, Nat.zero_le _, by omega, rfl⟩

theorem scans_refuse (c : Prop) [Decidable c] (e : ε) :
    Scans (refuse c e) fun _ n cost ↦ ¬c ∧ n = 0 ∧ cost = 0 := by
  rw [refuse]
  split_ifs with h
  · exact scans_fail e _
  · exact scans_pure ⟨h, rfl, rfl⟩

theorem scans_slice (h : start ≤ stop ∧ stop ≤ bytes.length) :
    Scans (slice bytes start stop : Scan ε _) fun bs n cost ↦
      bs.length = stop - start ∧ n = 0 ∧ cost = 0 := by
  intro c _
  rw [slice, if_pos h]
  refine sat_ok.mpr ⟨0, 0, ⟨?_, rfl, rfl⟩, Nat.zero_le _, Nat.zero_le _, rfl⟩
  rw [length_drop, length_take]
  omega

/-- A repeated scan takes and spends the sum over the items. -/
theorem scans_readMany {Q : α → Prop} {width charge : α → ℕ}
    (hp : Scans p fun a n cost ↦ Q a ∧ n = width a ∧ cost = charge a) (k : ℕ) :
    Scans (readMany p k) fun as n cost ↦
      as.length = k ∧ (∀ a ∈ as, Q a) ∧ n = (as.map width).sum ∧ cost = (as.map charge).sum := by
  induction k with
  | zero => exact scans_pure ⟨rfl, by simp, rfl, rfl⟩
  | succ k ih =>
    refine hp.bind fun a m x ⟨ha, hm, hx⟩ ↦ ?_
    refine ih.bind fun as n y ⟨hlength, has, hn, hy⟩ ↦ scans_pure ⟨?_, ?_, ?_, ?_⟩
    · rw [length_cons, hlength]
    · exact forall_mem_cons.mpr ⟨ha, has⟩
    · rw [map_cons, sum_cons, hm, hn, Nat.add_zero]
    · rw [map_cons, sum_cons, hx, hy, Nat.add_zero]

theorem Scans.run_finish (hp : Scans p R) (hbs : bs.length < 2 ^ 64) (allowance : ℕ)
    (trailing : ε) :
    Sat ((do let a ← p; finish trailing; return a : Scan ε α) ⟨bs, 0, allowance⟩) fun r ↦
      ∃ cost, R r.1 bs.length cost ∧ r.2.allowance + cost = allowance := by
  have hgood : Cursor.Good ⟨bs, 0, allowance⟩ := ⟨Nat.zero_le _, hbs⟩
  refine sat_bind (hp _ hgood) ?_
  rintro ⟨a, c⟩ ⟨n, cost, hR, -, hcost, rfl⟩
  have hcost : cost ≤ allowance := hcost
  show Sat (finish trailing _ >>= fun r ↦ .ok (a, r.2)) _
  rw [finish]
  split_ifs with hend
  · have hn : n = bs.length := by
      rw [Cursor.advance, Nat.zero_add] at hend
      exact hend
    refine sat_ok.mpr ⟨cost, hn ▸ hR, ?_⟩
    show allowance - cost + cost = allowance
    omega
  · exact sat_fail

end Scan
