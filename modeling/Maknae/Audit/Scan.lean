import Maknae.Foundation.LineScan
import Maknae.Foundation.Outcome

/-!
# The backward scan of the audit trail

At boot the newest checkpoint is looked up in the audit trail, from the end of the file. The scan
reads the file in windows from the back, offers the whole lines of each window to a predicate,
newest first, and carries the start of the oldest line it saw into the next window.

A window in front of what was read changes the carried line only (`LineScan.splitOn_append`). So
what is left to offer are, at any time, the lines of the unread part with the carry at its end, and
one window takes off exactly its later lines (`offerLines_eq`).
-/

namespace Maknae.Audit

open LineScan List

/-! ### The reader -/

inductive ReadError (ε : Type)
  | io (e : ε)
  | unexpectedEof (message : String)

/-- A file read at a position. An answer holds the bytes that were put into the buffer. -/
structure ReaderAt (ε σ : Type) where
  readAt : σ → (offset len : ℕ) → Except ε (List UInt8) × σ

variable {ε σ τ : Type}

/-- Fill a buffer from a position on. Every read that goes on takes a byte at least, so the length
of the buffer bounds the number of reads. -/
def readExactAt (r : ReaderAt ε σ) :
    (fuel : ℕ) → σ → (offset len : ℕ) → Outcome (ReadError ε) (List UInt8) × σ
  | 0, s, _, _ => (.ok [], s)
  | fuel + 1, s, offset, len =>
    if len = 0 then (.ok [], s)
    else
      match r.readAt s offset len with
      | (.error e, s) => (Outcome.fail (.io e), s)
      | (.ok chunk, s) =>
        if chunk = [] then
          (Outcome.fail (.unexpectedEof "audit file shorter than its length during backward scan"),
            s)
        -- a count beyond the buffer is sliced out of range
        else if len < chunk.length then (Outcome.panicked, s)
        else
          match readExactAt r fuel s (offset + chunk.length) (len - chunk.length) with
          | (.ok rest, s) => (.ok (chunk ++ rest), s)
          | (.error e, s) => (.error e, s)

/-! ### The scan -/

def newline : UInt8 := 10

/-- What is left of a buffer after its lines were offered. -/
inductive Offered (τ : Type)
  | found (line : List UInt8) (st : τ)
  | carried (carry : List UInt8) (st : τ)

/-- Offer the lines of a buffer that start in it, from the last one on. Each turn shortens the
buffer, so its length bounds the turns. -/
def offerLines (find : τ → List UInt8 → Bool × τ) : (fuel : ℕ) → τ → List UInt8 → Offered τ
  | 0, st, buf => .carried buf st
  | fuel + 1, st, buf =>
    match lastIdxOf? newline buf with
    | none => .carried buf st
    | some nl =>
      let line := buf.drop (nl + 1)
      if line = [] then offerLines find fuel st (buf.take nl)
      else
        match find st line with
        | (true, st) => .found line st
        | (false, st) => offerLines find fuel st (buf.take nl)

structure ScanResult where
  line : Option (List UInt8)
  scannedBytes : ℕ

/-- The windows from the `k`th on, `n` of them. -/
def scanWindows (window len : ℕ) (r : ReaderAt ε σ) (find : τ → List UInt8 → Bool × τ) :
    (n k : ℕ) → σ → τ → (carry : List UInt8) → (scannedBytes : ℕ) →
      Outcome (ReadError ε) ScanResult × σ × τ
  | 0, _, s, st, carry, scannedBytes =>
    if carry = [] then (.ok ⟨none, scannedBytes⟩, s, st)
    else
      match find st carry with
      | (true, st) => (.ok ⟨some carry, scannedBytes⟩, s, st)
      | (false, st) => (.ok ⟨none, scannedBytes⟩, s, st)
  | n + 1, k, s, st, carry, scannedBytes =>
    let stop := len - k * window
    let start := stop - window
    match readExactAt r (stop - start) s start (stop - start) with
    | (.error e, s) => (.error e, s, st)
    | (.ok bytes, s) =>
      let scannedBytes := scannedBytes + (stop - start)
      let buf := bytes ++ carry
      match offerLines find buf.length st buf with
      | .found line st => (.ok ⟨some line, scannedBytes⟩, s, st)
      | .carried carry st => scanWindows window len r find n (k + 1) s st carry scannedBytes

def scanBackWithWindow (window len : ℕ) (r : ReaderAt ε σ) (find : τ → List UInt8 → Bool × τ)
    (s : σ) (st : τ) : Outcome (ReadError ε) ScanResult × σ × τ :=
  scanWindows window len r find ((len + window - 1) / window) 0 s st [] 0

def scanWindow : ℕ := 1048576

def scanBack (len : ℕ) (r : ReaderAt ε σ) (find : τ → List UInt8 → Bool × τ) (s : σ) (st : τ) :
    Outcome (ReadError ε) ScanResult × σ × τ :=
  scanBackWithWindow scanWindow len r find s st

/-! ### What the scan is held against -/

/-- The non-empty lines, in file order. -/
def lines (data : List UInt8) : List (List UInt8) := (data.splitOn newline).filter (· ≠ [])

/-- The reader serves the file: within it every read returns some of the bytes asked for, however
few. -/
def ReaderAt.Serves (r : ReaderAt ε σ) (data : List UInt8) : Prop :=
  ∀ s offset len, 0 < len → offset + len ≤ data.length → ∃ n s', 0 < n ∧ n ≤ len ∧
    r.readAt s offset len = (.ok ((data.drop offset).take n), s')

/-- The reader with a count of the bytes it delivered. -/
def ReaderAt.counted (r : ReaderAt ε σ) : ReaderAt ε (σ × ℕ) where
  readAt s offset len :=
    match r.readAt s.1 offset len with
    | (.ok chunk, t) => (.ok chunk, t, s.2 + chunk.length)
    | (.error e, t) => (.error e, t, s.2)

/-- The size of the `k`th window from the back. -/
def windowSize (window len k : ℕ) : ℕ := len - k * window - (len - k * window - window)

/-! ### Reads -/

section Reads

variable {r : ReaderAt ε σ} {data : List UInt8}

/-- A buffer within the file is filled with its bytes, however the reads are split. -/
theorem readExactAt_counted (hr : r.Serves data) {fuel len} (hfuel : len ≤ fuel) (s : σ)
    (count : ℕ) {offset} (hlen : offset + len ≤ data.length) :
    ∃ s', readExactAt r.counted fuel (s, count) offset len =
      (.ok ((data.drop offset).take len), s', count + len) := by
  induction fuel generalizing s count offset len with
  | zero =>
    obtain rfl := Nat.le_zero.mp hfuel
    exact ⟨s, rfl⟩
  | succ fuel ih =>
    by_cases hzero : len = 0
    · subst hzero
      exact ⟨s, rfl⟩
    obtain ⟨n, s', hpos, hle, hread⟩ := hr s offset len (Nat.pos_of_ne_zero hzero) hlen
    have hlength : ((data.drop offset).take n).length = n := by
      rw [length_take, length_drop]
      omega
    have hcounted : r.counted.readAt (s, count) offset len =
        (.ok ((data.drop offset).take n), s', count + n) := by
      show (match r.readAt s offset len with
        | (.ok chunk, t) => (Except.ok chunk, t, count + chunk.length)
        | (.error e, t) => (.error e, t, count)) = _
      rw [hread, ← hlength]
      simp
    have hne : (data.drop offset).take n ≠ [] := fun hnil ↦ by
      rw [hnil, length_nil] at hlength
      omega
    obtain ⟨s'', hrest⟩ := ih (show len - n ≤ fuel by omega) s' (count + n)
      (show offset + n + (len - n) ≤ data.length by omega)
    refine ⟨s'', ?_⟩
    rw [readExactAt, if_neg hzero, hcounted]
    simp only [if_neg hne, hlength, if_neg (Nat.not_lt.mpr hle), hrest]
    have hbytes : (data.drop offset).take n ++ (data.drop (offset + n)).take (len - n) =
        (data.drop offset).take len := by
      rw [← drop_drop, ← take_add]
      congr 1
      omega
    rw [hbytes, show count + n + (len - n) = count + len by omega]

end Reads

/-! ### Lines -/

section Lines

variable {find : τ → List UInt8 → Bool × τ} {st st' : τ} {buf : List UInt8}

/-- The lines of a buffer that start in it, from the last one on. -/
def laterLinesBack (buf : List UInt8) : List (List UInt8) :=
  ((laterPieces newline buf).filter (· ≠ [])).reverse

/-- What offering the lines of a buffer comes to. -/
def offered (buf : List UInt8) : Option (List UInt8) × τ → Offered τ
  | (some line, st) => .found line st
  | (none, st) => .carried (firstPiece newline buf) st

theorem offerLines_eq {fuel} (hfuel : buf.length ≤ fuel) (st : τ) :
    offerLines find fuel st buf = offered buf (offer find st (laterLinesBack buf)) := by
  induction fuel generalizing buf st with
  | zero =>
    obtain rfl := length_eq_zero_iff.mp (Nat.le_zero.mp hfuel)
    rfl
  | succ fuel ih =>
    unfold offerLines
    cases hlast : lastIdxOf? newline buf with
    | none =>
      have hpieces := splitOn_of_not_mem (not_mem_of_lastIdxOf?_eq_none hlast)
      have hfirst : firstPiece newline buf = buf := by
        rw [firstPiece, hpieces]
        rfl
      rw [laterLinesBack, laterPieces, hpieces]
      show Offered.carried buf st = Offered.carried (firstPiece newline buf) st
      rw [hfirst]
    | some nl =>
      obtain ⟨hlt, -, -⟩ := eq_of_lastIdxOf? hlast
      have hpieces := splitOn_of_lastIdxOf? hlast
      rw [splitOn_eq_cons newline buf, splitOn_eq_cons newline (buf.take nl),
        cons_append] at hpieces
      obtain ⟨hfirst, hlater⟩ := cons.inj hpieces
      have hshort : (buf.take nl).length ≤ fuel := by
        rw [length_take]
        omega
      have hrest := ih hshort
      have hoffered : (offered buf : Option (List UInt8) × τ → _) = offered (buf.take nl) := by
        funext x
        rcases x with ⟨_ | line, st⟩
        · show Offered.carried _ _ = Offered.carried _ _
          rw [hfirst]
        · rfl
      rw [laterLinesBack, hlater, filter_append, reverse_append, hoffered]
      dsimp only
      split_ifs with hline
      · rw [hrest, hline]
        rfl
      · have hkept : [buf.drop (nl + 1)].filter (· ≠ []) = [buf.drop (nl + 1)] := by
          simp [hline]
        rw [hkept, reverse_singleton, singleton_append]
        rcases hfind : find st (buf.drop (nl + 1)) with ⟨accepted, next⟩
        cases accepted with
        | true => rw [offer_cons_of_accepted hfind]; rfl
        | false =>
          rw [offer_cons_of_rejected hfind]
          exact hrest next

/-- The lines of a file whose end is the buffer, from the last one on: those that start in the
buffer, then those of the rest with the buffer's first piece at its end. -/
theorem reverse_lines_append (front buf : List UInt8) :
    (lines (front ++ buf)).reverse =
      laterLinesBack buf ++ (lines (front ++ firstPiece newline buf)).reverse := by
  rw [lines, splitOn_append, filter_append, reverse_append]
  rfl

end Lines

/-! ### The windows -/

theorem sum_windowSize_succ (window len k n : ℕ) :
    ((range (n + 1)).map fun i ↦ windowSize window len (k + i)).sum =
      windowSize window len k +
        ((range n).map fun i ↦ windowSize window len (k + 1 + i)).sum := by
  rw [range_succ_eq_map, map_cons, sum_cons, map_map]
  simp only [Function.comp_def, Nat.add_zero, Nat.add_succ, Nat.succ_add]

/-- The scan of the unread part with a carry: the lines of both are offered from the last one on. -/
theorem scanWindows_counted {r : ReaderAt ε σ} {data} (hr : r.Serves data) {window}
    (find : τ → List UInt8 → Bool × τ) {n k} (hn : data.length ≤ (k + n) * window)
    (s : σ) (count : ℕ) (st : τ) {carry} (hcarry : newline ∉ carry) (scanned : ℕ) :
    ∃ s' m, m ≤ n ∧
      let size := ((range m).map fun i ↦ windowSize window data.length (k + i)).sum
      let answer := offer find st (lines (data.take (data.length - k * window) ++ carry)).reverse
      scanWindows window data.length r.counted find n k (s, count) st carry scanned =
        (.ok ⟨answer.1, scanned + size⟩, (s', count + size), answer.2) := by
  induction n generalizing k s count st carry scanned with
  | zero =>
    -- the whole file was read, and the carry is its first line
    have hdone : data.length - k * window = 0 := by
      rw [Nat.add_zero] at hn
      omega
    refine ⟨s, 0, le_rfl, ?_⟩
    rw [hdone, take_zero, nil_append, lines, splitOn_of_not_mem hcarry, scanWindows]
    by_cases hnil : carry = []
    · rw [hnil]
      rfl
    · have hkept : [carry].filter (· ≠ []) = [carry] := by simp [hnil]
      rw [if_neg hnil, hkept, reverse_singleton]
      rcases hfind : find st carry with ⟨accepted, next⟩
      cases accepted with
      | true => rw [offer_cons_of_accepted hfind]; rfl
      | false => rw [offer_cons_of_rejected hfind]; rfl
  | succ n ih =>
    have hsize : data.length - k * window - (data.length - k * window - window) =
        windowSize window data.length k := rfl
    have hstart : data.length - k * window - window = data.length - (k + 1) * window := by
      rw [Nat.succ_mul]
      omega
    obtain ⟨s₁, hread⟩ := readExactAt_counted hr (le_refl (windowSize window data.length k)) s count
      (show data.length - k * window - window + windowSize window data.length k ≤ data.length by
        omega)
    -- the window ends the unread part
    have hsplit : data.take (data.length - k * window) =
        data.take (data.length - (k + 1) * window) ++
          (data.drop (data.length - k * window - window)).take
            (windowSize window data.length k) := by
      rw [hstart, ← take_add]
      congr 1
      omega
    set bytes := (data.drop (data.length - k * window - window)).take
      (windowSize window data.length k) with hbytes
    have hlines := reverse_lines_append (data.take (data.length - (k + 1) * window))
      (bytes ++ carry)
    rw [← append_assoc, ← hsplit] at hlines
    have hoffer : offerLines find _ st (bytes ++ carry) = _ :=
      offerLines_eq (le_refl (bytes ++ carry).length) st
    rw [scanWindows]
    simp only [hsize, hread]
    rcases hlater : offer find st (laterLinesBack (bytes ++ carry)) with ⟨_ | line, next⟩
    · rw [hlater] at hoffer
      obtain ⟨s', m, hm, hrest⟩ := ih (by rwa [Nat.add_right_comm, Nat.add_assoc]) s₁
        (count + windowSize window data.length k) next
        (not_mem_firstPiece newline (bytes ++ carry)) (scanned + windowSize window data.length k)
      refine ⟨s', m + 1, Nat.succ_le_succ hm, ?_⟩
      rw [hoffer, hlines, offer_append_of_rejected hlater, sum_windowSize_succ]
      simp only [← Nat.add_assoc]
      exact hrest
    · rw [hlater] at hoffer
      refine ⟨s₁, 1, Nat.succ_le_succ (Nat.zero_le n), ?_⟩
      rw [hoffer, hlines, offer_append_of_accepted hlater]
      rfl

/-- **The backward scan is exact.** Whatever the window and however the reads are split, the
predicate is offered exactly the non-empty lines of the file, each whole and once, from the last to
the first, until it accepts one, and that one is the answer. The bytes reported are the sizes of the
windows read, and as many as the reader delivered. -/
theorem scanBack_exact {r : ReaderAt ε σ} {data : List UInt8} (hr : r.Serves data) {window : ℕ}
    (hwindow : 0 < window) (find : τ → List UInt8 → Bool × τ) (s : σ) (st : τ) :
    ∃ s' m, m ≤ (data.length + window - 1) / window ∧
      let size := ((range m).map fun k ↦ windowSize window data.length k).sum
      let answer := offer find st (lines data).reverse
      scanBackWithWindow window data.length r.counted find (s, 0) st =
        (.ok ⟨answer.1, size⟩, (s', size), answer.2) := by
  have hn : data.length ≤ (0 + (data.length + window - 1) / window) * window := by
    have hmod := Nat.mod_lt (data.length + window - 1) hwindow
    have hdiv := Nat.div_add_mod' (data.length + window - 1) window
    rw [Nat.zero_add]
    omega
  obtain ⟨s', m, hm, hscan⟩ :=
    scanWindows_counted hr find hn s 0 st (not_mem_nil : newline ∉ []) 0
  refine ⟨s', m, hm, ?_⟩
  simp only [Nat.zero_mul, Nat.sub_zero, take_length, append_nil, Nat.zero_add] at hscan
  exact hscan

/-- A file whose last line has no newline, read a byte at a time. -/
def shortReader : ReaderAt Empty Unit where
  readAt s offset _ := (.ok (([97, 10, 10, 98, 99].drop offset).take 1), s)

theorem serves_shortReader : shortReader.Serves [97, 10, 10, 98, 99] :=
  fun s _ _ hpos _ ↦ ⟨1, s, Nat.one_pos, hpos, rfl⟩

/-- The predicate keeps what it is offered: the unfinished line, then the first one. -/
theorem scanBack_exact_shortReader :
    ∃ s' size, scanBackWithWindow 2 5 shortReader.counted
      (fun seen line ↦ (line == [97], line :: seen)) ((), 0) [] =
        (.ok ⟨some [97], size⟩, (s', size), [[97], [98, 99]]) := by
  obtain ⟨s', m, -, hscan⟩ := scanBack_exact serves_shortReader Nat.two_pos
    (fun (seen : List (List UInt8)) line ↦ (line == [97], line :: seen)) () []
  exact ⟨s', _, hscan⟩

end Maknae.Audit
