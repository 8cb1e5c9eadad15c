import Maknae.Foundation.Job
import Maknae.Foundation.TextPosition

/-!
# Reading one page of a file

A page is asked for by line and column. The reader is scanned from the start of the file: lines are
skipped, then columns, then at most `limitLines` lines and at most `cap` bytes are taken. A page
that was cut by the cap does not end inside a UTF-8 sequence, unless that would leave it empty.

On a reader that serves a file the scanner is a position in the file (`Scan.At`), and each loop
moves it. A page that is asked for at the position of an offset starts at that offset and names the
position of its own end (`readPage_of_serves`), which is what makes consecutive pages fit together.
-/

namespace Maknae.Io

open Job List TextPosition

/-- Lines from one, columns in bytes. -/
structure PageWindow where
  offsetLine : ℕ
  limitLines : ℕ
  column : ℕ

structure PageNext where
  line : ℕ
  column : ℕ

/-- Positions compare by line, then by column. -/
def PageNext.key (position : PageNext) : ℕ ×ₗ ℕ := toLex (position.line, position.column)

/-- A page without the version of the file, which the caller adds. -/
structure Page where
  content : List UInt8
  start : ℕ
  lines : Option (ℕ × ℕ)
  completeLast : Bool
  next : Option PageNext
  eof : Bool

/-! ### The scanner -/

/-- The size of the scanner's buffer. -/
def bufferSize : ℕ := 8192

/-- A source of bytes: what one read puts into the buffer, nothing at the end. A read that is
interrupted is made again, so an answer is the first that is not. -/
structure Reader (ε σ : Type) where
  read : σ → Except ε (List UInt8) × σ

inductive PageError (ε : Type)
  | io (e : ε)
  /-- The lines to skip did not end within the bytes the run was given. -/
  | unfinished

/-- The reader, the bytes it delivered last, how many of them were taken, and how many in all. -/
structure Scan (σ : Type) where
  source : σ
  buf : List UInt8
  cursor : ℕ
  pos : ℕ

variable {ε σ : Type}

def Scan.open (source : σ) : Scan σ := ⟨source, [], 0, 0⟩

/-- The next byte, which stays where it is. -/
def peek (r : Reader ε σ) : Job (PageError ε) (Scan σ) (Option UInt8) := fun s ↦
  if s.cursor = s.buf.length then
    match r.read s.source with
    | (.error e, source) => (.error (.io e), { s with source })
    | (.ok chunk, source) => (.ok chunk[0]?, ⟨source, chunk, 0, s.pos⟩)
  else (.ok s.buf[s.cursor]?, s)

def take : Job (PageError ε) (Scan σ) PUnit :=
  change fun s ↦ { s with cursor := s.cursor + 1, pos := s.pos + 1 }

def newline : UInt8 := 10

/-! ### The end of a cut page -/

/-- The length a UTF-8 sequence has by its first byte. -/
def needOf (b : UInt8) : ℕ :=
  if 0xC0 ≤ b ∧ b ≤ 0xDF then 2
  else if 0xE0 ≤ b ∧ b ≤ 0xEF then 3
  else if 0xF0 ≤ b ∧ b ≤ 0xF7 then 4
  else 1

/-- Look back for the first byte of a sequence. -/
def tailFrom (back : ℕ) : List UInt8 → ℕ
  | [] => 0
  | b :: before =>
    if b &&& 0xC0 ≠ 0x80 then if back < needOf b then back else 0 else tailFrom (back + 1) before

/-- The number of bytes at the end that start a sequence and do not finish it. -/
def incompleteTail (bytes : List UInt8) : ℕ := tailFrom 1 (bytes.reverse.take 4)

/-! ### The page -/

/-- What the last loop has taken, with the line and the column it is at. -/
structure Filling where
  content : List UInt8
  taken : ℕ
  cur : ℕ
  col : ℕ

def Filling.push (f : Filling) (b : UInt8) : Filling :=
  if b = newline then ⟨f.content ++ [b], f.taken + 1, f.cur + 1, 0⟩
  else ⟨f.content ++ [b], f.taken, f.cur, f.col + 1⟩

/-- Skip to the start of a line. -/
def skipLines (r : Reader ε σ) (target : ℕ) : (fuel line : ℕ) → Job (PageError ε) (Scan σ) ℕ
  | 0, line => if line < target then stop .unfinished else pure line
  | fuel + 1, line =>
    if line < target then
      peek r >>= fun
        | none => pure line
        | some b => take >>= fun _ ↦
          skipLines r target fuel (if b = newline then line + 1 else line)
    else pure line

/-- Skip columns of the line, `n` of them at most. -/
def skipColumns (r : Reader ε σ) : (n col : ℕ) → Job (PageError ε) (Scan σ) ℕ
  | 0, col => pure col
  | n + 1, col =>
    peek r >>= fun
      | some b => if b ≠ newline then take >>= fun _ ↦ skipColumns r n (col + 1) else pure col
      | none => pure col

/-- Take bytes, `n` of them at most. -/
def fill (r : Reader ε σ) (limitLines : ℕ) : ℕ → Filling → Job (PageError ε) (Scan σ) Filling
  | 0, f => pure f
  | n + 1, f =>
    if f.taken < limitLines then
      peek r >>= fun
        | none => pure f
        | some b => take >>= fun _ ↦ fill r limitLines n (f.push b)
    else pure f

/-- Back off from an incomplete sequence at the end of a full page; also the bytes given back. -/
def trimTail (cap : ℕ) (f : Filling) : Filling × ℕ :=
  if f.content.length = cap ∧ f.content.getLast? ≠ some newline then
    let tail := incompleteTail f.content
    if tail < f.content.length then
      ({ f with content := f.content.take (f.content.length - tail), col := f.col - tail }, tail)
    else (f, 0)
  else (f, 0)

/-- The page of what was taken. -/
def Filling.page (f : Filling) (w : PageWindow) (start : ℕ) (eof : Bool) : Page :=
  let endsLine := f.content.getLast? == some newline
  { content := f.content
    start
    lines := if f.content = [] then none
      else some (w.offsetLine, if endsLine then f.cur - 1 else f.cur)
    completeLast := endsLine || eof
    next := if eof then none else some ⟨f.cur, if endsLine then 0 else f.col⟩
    eof }

/-- Read a page. The fuel bounds the bytes of the skipped lines. -/
def readPage (r : Reader ε σ) (fuel : ℕ) (w : PageWindow) (cap : ℕ) :
    Job (PageError ε) (Scan σ) Page := do
  let line ← skipLines r w.offsetLine fuel 1
  let col ← (if line = w.offsetLine then skipColumns r w.column 0 else pure 0)
  let start := (← state).pos
  let filled ← (if line = w.offsetLine then fill r w.limitLines cap ⟨[], 0, line, col⟩
    else pure ⟨[], 0, line, col⟩)
  let (f, trimmed) := trimTail cap filled
  let eof ← (if trimmed = 0 then peek r >>= fun b ↦ pure b.isNone else pure false)
  pure (f.page w start eof)

/-! ### The incomplete tail -/

theorem needOf_eq_one_of_newline : needOf newline = 1 := by decide

theorem tailFrom_spec {back} (hback : 1 ≤ back) (rev : List UInt8) :
    tailFrom back rev = 0 ∨ back ≤ tailFrom back rev ∧ tailFrom back rev < back + rev.length ∧
      newline ∉ rev.take (tailFrom back rev + 1 - back) := by
  induction rev generalizing back with
  | nil => exact .inl rfl
  | cons b rev ih =>
    unfold tailFrom
    split_ifs with hlead hneed
    · have hne : newline ≠ b := by
        rintro rfl
        rw [needOf_eq_one_of_newline] at hneed
        omega
      refine .inr ⟨le_rfl, by rw [length_cons]; omega, ?_⟩
      rw [Nat.add_sub_cancel_left, take_succ_cons, take_zero, mem_singleton]
      exact hne
    · exact .inl rfl
    · have hne : newline ≠ b := by
        rintro rfl
        exact hlead (by decide)
      rcases ih (show 1 ≤ back + 1 by omega) with h | ⟨hle, hlt, hnot⟩
      · exact .inl h
      · refine .inr ⟨Nat.le_of_succ_le hle, by rw [length_cons]; omega, ?_⟩
        rw [show tailFrom (back + 1) rev + 1 - back =
            tailFrom (back + 1) rev + 1 - (back + 1) + 1 by
          omega, take_succ_cons, mem_cons, not_or]
        exact ⟨hne, hnot⟩

/-- The incomplete tail is part of the bytes and holds no newline. -/
theorem incompleteTail_spec (bytes : List UInt8) :
    incompleteTail bytes ≤ bytes.length ∧
      newline ∉ bytes.drop (bytes.length - incompleteTail bytes) := by
  rcases tailFrom_spec le_rfl (bytes.reverse.take 4) with h | ⟨hpos, hlt, hnot⟩
  · rw [show incompleteTail bytes = 0 from h, Nat.sub_zero, drop_length]
    exact ⟨Nat.zero_le _, not_mem_nil⟩
  · have hlength : incompleteTail bytes < 1 + (bytes.reverse.take 4).length := hlt
    rw [length_take, length_reverse] at hlength
    refine ⟨by omega, fun hmem ↦ hnot ?_⟩
    rw [show tailFrom 1 (bytes.reverse.take 4) = incompleteTail bytes from rfl, take_take,
      Nat.min_eq_left (by omega), take_reverse, mem_reverse]
    exact hmem

/-! ### A reader that serves a file -/

/-- From every state the reader delivers some of the bytes that remain, however few, until there are
none. -/
def Reader.Serves (r : Reader ε σ) (remaining : σ → List UInt8) : Prop :=
  ∀ s, ∃ n s', 0 < n ∧ n ≤ bufferSize ∧ r.read s = (.ok ((remaining s).take n), s') ∧
    remaining s' = (remaining s).drop n

/-- The scanner is at an offset of the file. -/
structure Scan.At (remaining : σ → List UInt8) (data : List UInt8) (p : ℕ) (s : Scan σ) : Prop where
  pos_eq : s.pos = p
  cursor_le : s.cursor ≤ s.buf.length
  rest_eq : s.buf.drop s.cursor ++ remaining s.source = data.drop p

section Serves

variable {r : Reader ε σ} {remaining : σ → List UInt8} {data : List UInt8} {p : ℕ} {s : Scan σ}

variable {source : σ} {α : Type} {f : Filling}

theorem Scan.at_open (h : remaining source = data) :
    (Scan.open source).At remaining data 0 :=
  ⟨rfl, le_rfl, h⟩

/-- A look does not move the scanner, and leaves the byte it saw in the buffer. -/
theorem peek_of_at (hr : r.Serves remaining) (hs : s.At remaining data p) :
    ∃ s', peek r s = (.ok data[p]?, s') ∧ s'.At remaining data p ∧
      (p < data.length → s'.cursor < s'.buf.length) := by
  have hhead : (data.drop p)[0]? = data[p]? := by
    rw [getElem?_drop, Nat.add_zero]
  unfold peek
  split_ifs with hempty
  · obtain ⟨n, source, hpos, -, hread, hleft⟩ := hr s.source
    have hrest : remaining s.source = data.drop p := by
      rw [← hs.rest_eq, hempty, drop_length, nil_append]
    rw [hread, hrest]
    refine ⟨⟨source, (data.drop p).take n, 0, s.pos⟩, ?_, ⟨hs.pos_eq, Nat.zero_le _, ?_⟩,
      fun hp ↦ ?_⟩
    · show (Except.ok ((data.drop p).take n)[0]?, _) = _
      rw [getElem?_take_of_lt hpos, hhead]
    · show ((data.drop p).take n).drop 0 ++ remaining source = _
      rw [hleft, hrest, drop_zero, take_append_drop]
    · show 0 < ((data.drop p).take n).length
      rw [length_take, length_drop]
      omega
  · have hlt : s.cursor < s.buf.length := lt_of_le_of_ne hs.cursor_le hempty
    refine ⟨s, ?_, hs, fun _ ↦ hlt⟩
    rw [← hhead, ← hs.rest_eq, getElem?_append_left, getElem?_drop, Nat.add_zero]
    rw [length_drop]
    omega

/-- Taking the byte a look saw moves the scanner by one. -/
theorem take_of_at (hs : s.At remaining data p) (hheld : s.cursor < s.buf.length) :
    ∃ s', (take : Job (PageError ε) (Scan σ) PUnit) s = (.ok ⟨⟩, s') ∧
      s'.At remaining data (p + 1) := by
  refine ⟨{ s with cursor := s.cursor + 1, pos := s.pos + 1 }, rfl, congrArg (· + 1) hs.pos_eq,
    hheld, ?_⟩
  have hrest := congrArg (drop 1) hs.rest_eq
  rwa [drop_drop, drop_append_of_le_length (by rw [length_drop]; omega), drop_drop] at hrest

/-- A byte is looked at and taken. -/
theorem peek_take_of_at (hr : r.Serves remaining) (hs : s.At remaining data p)
    (hp : p < data.length) {f : Option UInt8 → Job (PageError ε) (Scan σ) α}
    {g : Job (PageError ε) (Scan σ) α} (hf : f data[p]? = take >>= fun _ ↦ g) :
    ∃ s', (peek r >>= f) s = g s' ∧ s'.At remaining data (p + 1) := by
  obtain ⟨s₁, hpeek, hs₁, hheld⟩ := peek_of_at hr hs
  obtain ⟨s₂, htake, hs₂⟩ := take_of_at (ε := ε) hs₁ (hheld hp)
  refine ⟨s₂, ?_, hs₂⟩
  rw [bind_of_ok hpeek, hf, bind_of_ok htake]

/-- At the end there is nothing to look at. -/
theorem peek_end_of_at (hr : r.Serves remaining) (hs : s.At remaining data p) (hp : data.length ≤ p)
    (f : Option UInt8 → Job (PageError ε) (Scan σ) α) :
    ∃ s', (peek r >>= f) s = f none s' ∧ s'.At remaining data p := by
  obtain ⟨s₁, hpeek, hs₁, -⟩ := peek_of_at hr hs
  refine ⟨s₁, ?_, hs₁⟩
  rw [bind_of_ok hpeek, getElem?_eq_none hp]

/-! ### The loops -/

/-- The lines in front of a line are skipped. -/
theorem skipLines_of_at (hr : r.Serves remaining) {front after rest}
    (hdata : data = front ++ after ++ rest)
    (hafter : after = [] ∨ after.getLast? = some newline) (hs : s.At remaining data front.length)
    {fuel target} (hfuel : after.length ≤ fuel)
    (htarget : target = line newline (front ++ after)) :
    ∃ s', skipLines r target fuel (line newline front) s = (.ok target, s') ∧
      s'.At remaining data (front ++ after).length := by
  induction fuel generalizing front after s with
  | zero =>
    obtain rfl := length_eq_zero_iff.mp (Nat.le_zero.mp hfuel)
    rw [append_nil] at htarget ⊢
    refine ⟨s, ?_, hs⟩
    rw [skipLines, htarget, if_neg (lt_irrefl _)]
    rfl
  | succ fuel ih =>
    cases after with
    | nil =>
      rw [append_nil] at htarget ⊢
      refine ⟨s, ?_, hs⟩
      rw [skipLines, htarget, if_neg (lt_irrefl _)]
      rfl
    | cons b after =>
      have hlast := hafter.resolve_left (cons_ne_nil _ _)
      -- the part ends with a newline, so the line is not reached yet
      have hlt : line newline front < target := by
        have hcount := count_pos_iff.mpr (mem_of_getLast? hlast)
        rw [htarget, line, line, count_append]
        omega
      have hget : data[front.length]? = some b := by
        rw [hdata, append_assoc, getElem?_append_right le_rfl, Nat.sub_self]
        rfl
      rw [skipLines, if_pos hlt]
      obtain ⟨s₁, hstep, hs₁⟩ := peek_take_of_at hr hs (List.getElem?_eq_some_iff.mp hget).1
        (f := fun
          | none => pure (line newline front)
          | some b => take >>= fun _ ↦ skipLines r target fuel
            (if b = newline then line newline front + 1 else line newline front))
        (g := skipLines r target fuel (line newline (front ++ [b]))) (by rw [hget, line_concat])
      rw [hstep]
      have hafter' : after = [] ∨ after.getLast? = some newline := by
        cases after with
        | nil => exact .inl rfl
        | cons c after => exact .inr ((getLast?_cons_cons).symm.trans hlast)
      rw [append_cons front b after] at hdata htarget ⊢
      refine ih hdata hafter' ?_ (Nat.le_of_succ_le_succ hfuel) htarget
      rwa [length_append]

/-- The columns of a line are skipped. -/
theorem skipColumns_of_at (hr : r.Serves remaining) {front cols rest}
    (hdata : data = front ++ cols ++ rest) (hcols : newline ∉ cols)
    (hs : s.At remaining data front.length) (col : ℕ) :
    ∃ s', skipColumns r cols.length col s = (.ok (col + cols.length), s') ∧
      s'.At remaining data (front ++ cols).length := by
  induction cols generalizing front s col with
  | nil =>
    rw [append_nil]
    exact ⟨s, rfl, hs⟩
  | cons b cols ih =>
    rw [mem_cons, not_or] at hcols
    have hget : data[front.length]? = some b := by
      rw [hdata, append_assoc, getElem?_append_right le_rfl, Nat.sub_self]
      rfl
    rw [length_cons, skipColumns]
    obtain ⟨s₁, hstep, hs₁⟩ := peek_take_of_at hr hs (List.getElem?_eq_some_iff.mp hget).1
      (f := fun
        | some b => if b ≠ newline then take >>= fun _ ↦ skipColumns r cols.length (col + 1)
          else pure col
        | none => pure col)
      (by rw [hget]; exact if_pos (Ne.symm hcols.1))
    rw [hstep]
    rw [append_cons front b cols] at hdata ⊢
    rw [show col + (cols.length + 1) = col + 1 + cols.length by omega]
    refine ih hdata hcols.2 ?_ (col + 1)
    rwa [length_append]

/-- What the last loop has taken is the file from an offset to where the scanner is. -/
structure Filling.Spans (data : List UInt8) (start p : ℕ) (f : Filling) : Prop where
  start_le : start ≤ p
  le_length : p ≤ data.length
  content_eq : f.content = (data.drop start).take (p - start)
  taken_eq : f.taken = f.content.count newline
  cur_eq : f.cur = line newline (data.take p)
  col_eq : f.col = column newline (data.take p)

namespace Filling.Spans

variable {start : ℕ} {f : Filling}

theorem length_content (h : f.Spans data start p) : f.content.length = p - start := by
  have hle := h.le_length
  rw [h.content_eq, length_take, length_drop]
  omega

theorem push (h : f.Spans data start p) {b} (hb : data[p]? = some b) :
    (f.push b).Spans data start (p + 1) := by
  obtain ⟨hp, hget⟩ := List.getElem?_eq_some_iff.mp hb
  have htake : data.take (p + 1) = data.take p ++ [b] := by
    rw [List.take_add_one, hb]
    rfl
  have hcontent : f.content ++ [b] = (data.drop start).take (p + 1 - start) := by
    have hstart := h.start_le
    rw [h.content_eq, show p + 1 - start = p - start + 1 by omega, List.take_add_one,
      getElem?_drop, show start + (p - start) = p by omega, hb]
    rfl
  have hline : line newline (data.take p ++ [b]) = _ := line_concat
  have hcolumn : column newline (data.take p ++ [b]) = _ := column_concat
  unfold Filling.push
  split_ifs with hnl
  · subst hnl
    rw [if_pos rfl] at hline hcolumn
    refine ⟨Nat.le_succ_of_le h.start_le, hp, hcontent, ?_, ?_, ?_⟩
    · simp [h.taken_eq]
    · rw [htake, hline, ← h.cur_eq]
    · rw [htake, hcolumn]
  · rw [if_neg hnl] at hline hcolumn
    refine ⟨Nat.le_succ_of_le h.start_le, hp, hcontent, ?_, ?_, ?_⟩
    · have hnone : newline ∉ [b] := by simpa using Ne.symm hnl
      show f.taken = (f.content ++ [b]).count newline
      rw [h.taken_eq, count_append, count_eq_zero_of_not_mem hnone, Nat.add_zero]
    · rw [htake, hline, ← h.cur_eq]
    · rw [htake, hcolumn, ← h.col_eq]

end Filling.Spans

/-- The bytes that are taken go on from the offset, up to the limit of lines, the cap or the end. -/
theorem fill_of_at (hr : r.Serves remaining) {limitLines start} (n : ℕ)
    (hf : f.Spans data start p) (htaken : f.taken ≤ limitLines) (hs : s.At remaining data p) :
    ∃ f' p' s', fill r limitLines n f s = (.ok f', s') ∧ s'.At remaining data p' ∧
      f'.Spans data start p' ∧ p ≤ p' ∧ p' ≤ p + n ∧ f'.taken ≤ limitLines ∧
      (p' = p + n ∨ f'.taken = limitLines ∨ p' = data.length) := by
  induction n generalizing f p s with
  | zero => exact ⟨f, p, s, rfl, hs, hf, le_rfl, le_rfl, htaken, .inl rfl⟩
  | succ n ih =>
    rw [fill]
    split_ifs with hlimit
    · by_cases hp : p < data.length
      · have hget : data[p]? = some data[p] := getElem?_eq_getElem hp
        obtain ⟨s₁, hstep, hs₁⟩ := peek_take_of_at hr hs hp
          (f := fun
            | none => pure f
            | some b => take >>= fun _ ↦ fill r limitLines n (f.push b))
          (by rw [hget])
        have hpushed : (f.push data[p]).taken ≤ limitLines := by
          unfold Filling.push
          split_ifs
          · exact hlimit
          · exact htaken
        obtain ⟨f', p', s', hfill, hs', hf', hle, hcap, hlines, hstop⟩ :=
          ih (hf.push hget) hpushed hs₁
        refine ⟨f', p', s', hstep.trans hfill, hs', hf', by omega, by omega, hlines, ?_⟩
        exact hstop.imp_left fun h ↦ by omega
      · obtain ⟨s₁, hstep, hs₁⟩ := peek_end_of_at hr hs (Nat.not_lt.mp hp)
          (f := fun
            | none => pure f
            | some b => take >>= fun _ ↦ fill r limitLines n (f.push b))
        exact ⟨f, p, s₁, hstep, hs₁, hf, le_rfl, Nat.le_add_right _ _, htaken,
          .inr (.inr (le_antisymm hf.le_length (Nat.not_lt.mp hp)))⟩
    · exact ⟨f, p, s, rfl, hs, hf, le_rfl, Nat.le_add_right _ _, htaken,
        .inr (.inl (le_antisymm htaken (Nat.not_lt.mp hlimit)))⟩

/-! ### The page -/

/-- Giving back an incomplete sequence moves the end of the page, never past its first byte. -/
theorem trimTail_spec {start} (cap : ℕ) (hf : f.Spans data start p) :
    ∃ q, (trimTail cap f).1.Spans data start q ∧ q + (trimTail cap f).2 = p ∧
      (start < p → start < q) := by
  unfold trimTail
  split_ifs with hfull
  swap
  · exact ⟨p, hf, rfl, id⟩
  dsimp only
  split_ifs with hlt
  swap
  · exact ⟨p, hf, rfl, id⟩
  obtain ⟨-, hnot⟩ := incompleteTail_spec f.content
  have hlength := hf.length_content
  have hle := hf.le_length
  set tail := incompleteTail f.content
  -- what is given back stands between the new end and the old one
  have hgiven : f.content.drop (f.content.length - tail) = (data.drop (p - tail)).take tail := by
    rw [hf.content_eq, drop_take, drop_drop, ← hf.content_eq]
    congr 1
    · omega
    · congr 1
      omega
  rw [hgiven] at hnot
  have htake : data.take p = data.take (p - tail) ++ (data.drop (p - tail)).take tail := by
    rw [← take_add]
    congr 1
    omega
  have hkept : f.content.take (f.content.length - tail) =
      (data.drop start).take (p - tail - start) := by
    rw [hf.content_eq, take_take, ← hf.content_eq]
    congr 1
    omega
  refine ⟨p - tail, ⟨by omega, by omega, hkept, ?_, ?_, ?_⟩, by omega, by omega⟩
  · have hcontent : f.content = f.content.take (f.content.length - tail) ++
        (data.drop (p - tail)).take tail := by
      rw [← hgiven, take_append_drop]
    show f.taken = (f.content.take (f.content.length - tail)).count newline
    rw [hf.taken_eq]
    conv_lhs => rw [hcontent]
    rw [count_append, count_eq_zero_of_not_mem hnot, Nat.add_zero]
  · show f.cur = _
    rw [hf.cur_eq, htake, line_append_of_not_mem hnot]
  · show f.col - tail = _
    rw [hf.col_eq, htake, column_append_of_not_mem hnot, length_take, length_drop]
    omega

/-- After a newline the column is the first. -/
theorem column_eq_zero_of_getLast? {l} (h : l.getLast? = some newline) :
    column newline l = 0 := by
  rw [getLast?_eq_some_iff] at h
  obtain ⟨front, rfl⟩ := h
  rw [column_concat, if_pos rfl]

/-- The window of a page that goes on from an offset. -/
def windowAt (data : List UInt8) (limitLines start : ℕ) : PageWindow :=
  ⟨line newline (data.take start), limitLines, column newline (data.take start)⟩

/-- A page of a file: the bytes from one offset to another, and where to go on. -/
structure Page.Spans (data : List UInt8) (start stop cap : ℕ) (page : Page) : Prop where
  start_eq : page.start = start
  start_le : start ≤ stop
  stop_le : stop ≤ data.length
  content_eq : page.content = (data.drop start).take (stop - start)
  le_cap : stop - start ≤ cap
  progress : start < stop ∨ stop = data.length
  eof_eq : page.eof = decide (stop = data.length)
  next_eq : page.next = if stop = data.length then none
    else some ⟨line newline (data.take stop), column newline (data.take stop)⟩

/-- **A page asked for at the position of an offset starts there** and names the position where it
ends. -/
theorem readPage_of_serves (hr : r.Serves remaining) (hsource : remaining source = data)
    {cap limitLines start fuel} (hcap : 0 < cap) (hlimit : 0 < limitLines)
    (hstart : start ≤ data.length) (hfuel : data.length ≤ fuel) :
    ∃ page stop s', readPage r fuel (windowAt data limitLines start) cap (Scan.open source) =
      (.ok page, s') ∧ page.Spans data start stop cap := by
  obtain ⟨front, cols, hcut, hfront, hcols, hline, hcolumn⟩ := lineStart newline (data.take start)
  have hdata : data = front ++ cols ++ data.drop start := by
    rw [← hcut, take_append_drop]
  have hlength : (front ++ cols).length = start := by
    rw [← hcut, length_take, Nat.min_eq_left hstart]
  -- skip to the line, then to the column
  have hlines : data = [] ++ front ++ (cols ++ data.drop start) := by
    rw [← append_assoc]
    exact hdata
  have hshort : front.length ≤ fuel := by
    rw [length_append] at hlength
    omega
  obtain ⟨s₁, hskip, hs₁⟩ :=
    skipLines_of_at hr hlines hfront (Scan.at_open hsource) hshort rfl
  rw [nil_append, hline] at hskip
  obtain ⟨s₂, hcolumns, hs₂⟩ := skipColumns_of_at hr hdata hcols hs₁ 0
  rw [hlength] at hs₂
  rw [hcolumn, Nat.zero_add] at hcolumns
  -- take the bytes
  have hempty : Filling.Spans data start start ⟨[], 0, line newline (data.take start),
      column newline (data.take start)⟩ := by
    refine ⟨le_rfl, hstart, ?_, rfl, rfl, rfl⟩
    rw [Nat.sub_self, take_zero]
  obtain ⟨f, p, s₃, hfill, hs₃, hf, hle, hcapped, -, hstop⟩ :=
    fill_of_at hr cap hempty (Nat.zero_le limitLines) hs₂
  obtain ⟨stop, hspans, hgiven, hprogress⟩ := trimTail_spec cap hf
  have hstart_lt : start < p ∨ p = data.length := by
    rcases hstop with h | h | h
    · exact .inl (by omega)
    · -- a line was taken, so a byte was
      have hcontent : f.content ≠ [] := fun hnil ↦ by
        rw [hf.taken_eq, hnil, count_nil] at h
        omega
      have hpos := length_pos_iff.mpr hcontent
      rw [hf.length_content] at hpos
      exact .inl (by omega)
    · exact .inr h
  have hpage : ∀ (eof : Bool), eof = decide (stop = data.length) →
      ((trimTail cap f).1.page (windowAt data limitLines start) start eof).Spans data start stop
        cap := by
    intro eof heof
    refine ⟨rfl, hspans.start_le, hspans.le_length, hspans.content_eq, by omega, ?_, heof, ?_⟩
    · rcases hstart_lt with h | h
      · exact .inl (hprogress h)
      · by_cases hzero : start < p
        · exact .inl (hprogress hzero)
        · exact .inr (by have := hspans.start_le; omega)
    · show (if eof then none else some (PageNext.mk _ _)) = _
      subst heof
      by_cases hend : stop = data.length
      · rw [if_pos hend, if_pos (decide_eq_true hend)]
      · rw [if_neg hend, if_neg (by simpa using hend), hspans.cur_eq]
        congr 2
        split_ifs with hends
        · -- the page ends a line, and so does what is in front of its end
          refine (column_eq_zero_of_getLast? ?_).symm
          have hsplit : data.take stop = data.take start ++ (trimTail cap f).1.content := by
            rw [hspans.content_eq, ← take_add]
            congr 1
            have := hspans.start_le
            omega
          rw [hsplit, getLast?_append, eq_of_beq hends]
          rfl
        · exact hspans.col_eq
  -- look for the end
  have hread : readPage r fuel (windowAt data limitLines start) cap (Scan.open source) =
      ((if (trimTail cap f).2 = 0 then peek r >>= fun b ↦ pure b.isNone else pure false) >>=
        fun eof ↦ pure ((trimTail cap f).1.page (windowAt data limitLines start) start eof))
          s₃ := by
    refine (bind_of_ok hskip).trans ?_
    simp only [windowAt]
    refine (bind_of_ok hcolumns).trans ?_
    refine (bind_of_ok (show state s₂ = (.ok s₂, s₂) from rfl)).trans ?_
    rw [hs₂.pos_eq]
    exact bind_of_ok hfill
  by_cases htrimmed : (trimTail cap f).2 = 0
  · rw [htrimmed] at hgiven
    subst hgiven
    rw [if_pos htrimmed] at hread
    obtain ⟨s₄, hpeek, -, -⟩ := peek_of_at hr hs₃
    refine ⟨_, stop, s₄, hread.trans ?_, hpage data[stop]?.isNone ?_⟩
    · have heof : (peek r >>= fun b ↦ pure b.isNone) s₃ = (.ok data[stop]?.isNone, s₄) :=
        bind_of_ok hpeek
      exact bind_of_ok heof
    · have hle := hspans.le_length
      rw [Bool.eq_iff_iff, Option.isNone_iff_eq_none, getElem?_eq_none_iff, decide_eq_true_iff]
      omega
  · rw [if_neg htrimmed] at hread
    have hle := hf.le_length
    refine ⟨_, stop, s₃, hread, hpage false (decide_eq_false ?_).symm⟩
    omega

end Serves

end Maknae.Io
