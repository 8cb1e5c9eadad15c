import Maknae.Io.Page

/-!
# Reading a file page by page

A client reads a file by asking for one page after the other, each from the position the page before
it named. Every page is read from the file anew, so the positions are all that connects them.
`Tiles` is what the pages come to: each spans the file from where the one before it ended, and the
last one ends it.
-/

namespace Maknae.Loop

open Io List TextPosition

variable {ε σ : Type}

/-! ### The client -/

/-- Follow the pages from a position on, each read from a source of its own. -/
def followPages (r : Reader ε σ) (fuel cap limitLines : ℕ) (sources : ℕ → σ) :
    (turns k : ℕ) → PageNext → Except (PageError ε) (List Page)
  | 0, _, _ => .error .unfinished
  | turns + 1, k, position =>
    match (readPage r fuel ⟨position.line, limitLines, position.column⟩ cap
      (Scan.open (sources k))).1 with
    | .error e => .error e
    | .ok page =>
      match page.next with
      | none => .ok [page]
      | some next =>
        match followPages r fuel cap limitLines sources turns (k + 1) next with
        | .error e => .error e
        | .ok pages => .ok (page :: pages)

/-- What a client gets of one page. -/
structure ReadResult (ν : Type) where
  content : List UInt8
  next : Option PageNext
  version : ν

/-- Why a stream stopped. -/
inductive StreamError
  | fetch (e : String)
  | changed
  | write (e : String)
  | stuck

/-- The most lines a request can ask for. -/
def allLines : ℕ := 4294967295

/-- Write the pages of a file to an output, from a position on; `none` when the turns do not
suffice. -/
def streamPages {ν ω : Type} [DecidableEq ν]
    (fetch : ℕ → PageWindow → Except String (Option (ReadResult ν)))
    (write : ω → List UInt8 → Except String ω) :
    (turns k : ℕ) → PageNext → Option ν → ω → Option (Except StreamError Bool) × ω
  | 0, _, _, _, out => (none, out)
  | turns + 1, k, position, version, out =>
    match fetch k ⟨position.line, allLines, position.column⟩ with
    | .error e => (some (.error (.fetch e)), out)
    | .ok none => (some (.ok false), out)
    | .ok (some read) =>
      if version.getD read.version ≠ read.version then
        (some (.error .changed), out)
      else
        match write out read.content with
        | .error e => (some (.error (.write e)), out)
        | .ok out =>
          match read.next with
          | none => (some (.ok true), out)
          | some next =>
            if next.key ≤ position.key then (some (.error .stuck), out)
            else streamPages fetch write turns (k + 1) next (some (version.getD read.version)) out

/-- Answer a request by reading the page. -/
def servePage {ν : Type} (r : Reader ε σ) (fuel cap : ℕ) (sources : ℕ → σ) (version : ℕ → ν) (k : ℕ)
    (w : PageWindow) : Except String (Option (ReadResult ν)) :=
  match (readPage r fuel w cap (Scan.open (sources k))).1 with
  | .error _ => .error "read failed"
  | .ok page => .ok (some ⟨page.content, page.next, version k⟩)

/-! ### The tiling -/

/-- The pages span the file from an offset on, one after the other. -/
inductive Tiles (data : List UInt8) (cap : ℕ) : ℕ → List Page → Prop
  | last {start : ℕ} {page : Page} (h : page.Spans data start data.length cap) :
      Tiles data cap start [page]
  | more {start stop : ℕ} {page : Page} {pages : List Page} (h : page.Spans data start stop cap)
      (hstop : stop ≠ data.length) (hpages : Tiles data cap stop pages) :
      Tiles data cap start (page :: pages)

/-- The position of an offset. -/
def positionAt (data : List UInt8) (p : ℕ) : PageNext :=
  ⟨line newline (data.take p), column newline (data.take p)⟩

variable {data : List UInt8} {cap : ℕ}

/-- A page that is not the last one names a later position. -/
theorem key_positionAt_lt {start stop} (hlt : start < stop) (hstop : stop ≤ data.length) :
    (positionAt data start).key < (positionAt data stop).key := by
  have hsplit : data.take stop = data.take start ++ (data.drop start).take (stop - start) := by
    rw [← take_add]
    congr 1
    omega
  unfold positionAt Io.PageNext.key
  rw [hsplit]
  refine position_lt_append _ fun hnil ↦ ?_
  have hlength := congrArg length hnil
  rw [length_take, length_drop, length_nil] at hlength
  omega

section Spans

variable {start stop : ℕ} {page : Page} (h : page.Spans data start stop cap)

include h

theorem length_content_of_spans : page.content.length = stop - start := by
  have hstop := h.stop_le
  rw [h.content_eq, length_take, length_drop]
  omega

theorem next_of_spans (hstop : stop ≠ data.length) : page.next = some (positionAt data stop) := by
  rw [h.next_eq, if_neg hstop]
  rfl

end Spans

namespace Tiles

variable {start : ℕ} {pages : List Page}

variable (h : Tiles data cap start pages)

include h

/-- The pages put together are the rest of the file. -/
theorem flatMap_content : pages.flatMap Page.content = data.drop start := by
  induction h with
  | last h =>
    rw [flatMap_singleton, h.content_eq]
    exact take_of_length_le (by rw [length_drop])
  | @more start stop _ _ h hstop _ ih =>
    have hle := h.start_le
    rw [flatMap_cons, ih, h.content_eq]
    rw [show data.drop stop = (data.drop start).drop (stop - start) by
      rw [drop_drop, Nat.add_sub_cancel' hle], take_append_drop]

/-- What holds of one page of a tiling. -/
theorem of_mem {page} (hpage : page ∈ pages) : ∃ start stop, page.Spans data start stop cap := by
  induction h with
  | last h =>
    obtain rfl := mem_singleton.mp hpage
    exact ⟨_, _, h⟩
  | more h _ _ ih =>
    rcases mem_cons.mp hpage with rfl | hpage
    · exact ⟨_, _, h⟩
    · exact ih hpage

theorem exists_head : ∃ page rest, pages = page :: rest ∧ page.start = start := by
  cases h with
  | last h | more h _ _ => exact ⟨_, _, rfl, h.start_eq⟩

/-- Each page starts where the one before it ends. -/
theorem adjacent : pages.IsChain fun a b ↦ b.start = a.start + a.content.length := by
  induction h with
  | last _ => exact List.IsChain.singleton _
  | more h _ hpages ih =>
    obtain ⟨page, rest, rfl, hstart⟩ := hpages.exists_head
    refine isChain_cons_cons.mpr ⟨?_, ih⟩
    have hle := h.start_le
    rw [length_content_of_spans h, h.start_eq]
    omega

/-- The positions the pages are asked for at grow. -/
theorem advances :
    (positionAt data start :: pages.filterMap Page.next).IsChain
      fun p q ↦ p.key < q.key := by
  induction h with
  | last h =>
    rw [filterMap_cons_none (by rw [h.next_eq, if_pos rfl])]
    exact List.IsChain.singleton _
  | more h hstop _ ih =>
    rw [filterMap_cons_some (next_of_spans h hstop)]
    refine isChain_cons_cons.mpr ⟨?_, ih⟩
    exact key_positionAt_lt (h.progress.resolve_right hstop) h.stop_le

end Tiles

/-! ### The run -/

section Run

variable {r : Reader ε σ} {remaining : σ → List UInt8} (hr : r.Serves remaining) {sources : ℕ → σ}
  (hsources : ∀ k, remaining (sources k) = data) (hcap : 0 < cap)

include hr hsources hcap

/-- The page at the position of an offset. -/
theorem readPage_positionAt {limitLines start} (hlimit : 0 < limitLines)
    (hstart : start ≤ data.length) (k : ℕ) :
    ∃ (page : Page) (stop : ℕ), (readPage r data.length ⟨(positionAt data start).line, limitLines,
      (positionAt data start).column⟩ cap (Scan.open (sources k))).1 = .ok page ∧
        page.Spans data start stop cap := by
  obtain ⟨page, stop, s', hread, hspans⟩ :=
    readPage_of_serves hr (hsources k) hcap hlimit hstart le_rfl
  exact ⟨page, stop, congrArg Prod.fst hread, hspans⟩

variable {turns start : ℕ} {ν ω : Type}

/-- Following the pages from an offset ends with a tiling of the rest. -/
theorem exists_tiles {limitLines} (hlimit : 0 < limitLines) (hstart : start ≤ data.length)
    (hturns : data.length - start < turns) (k : ℕ) :
    ∃ pages, followPages r data.length cap limitLines sources turns k (positionAt data start) =
      .ok pages ∧ Tiles data cap start pages := by
  induction turns generalizing start k with
  | zero => exact absurd hturns (Nat.not_lt_zero _)
  | succ turns ih =>
    obtain ⟨page, stop, hread, hspans⟩ :=
      readPage_positionAt hr hsources hcap hlimit hstart k
    rw [followPages, hread]
    by_cases hstop : stop = data.length
    · subst hstop
      refine ⟨[page], ?_, .last hspans⟩
      simp only [hspans.next_eq, if_true]
    · have hprogress := hspans.progress.resolve_right hstop
      have hle := hspans.stop_le
      obtain ⟨pages, hpages, htiles⟩ := ih hle (show data.length - stop < turns by omega) (k + 1)
      refine ⟨page :: pages, ?_, .more hspans hstop htiles⟩
      simp only [next_of_spans hspans hstop, hpages]

/-- One turn of a stream that is served from the file. -/
theorem streamPages_succ [DecidableEq ν] (versions : ℕ → ν)
    (write : ω → List UInt8 → Except String ω) (turns : ℕ) {start}
    (hstart : start ≤ data.length) (k : ℕ) (version : Option ν) (out : ω) :
    ∃ (page : Page) (stop : ℕ), page.Spans data start stop cap ∧
      streamPages (servePage r data.length cap sources versions) write (turns + 1) k
        (positionAt data start) version out =
      if version.getD (versions k) ≠ versions k then (some (.error .changed), out)
      else
        match write out page.content with
        | .error e => (some (.error (.write e)), out)
        | .ok out =>
          if stop = data.length then (some (.ok true), out)
          else streamPages (servePage r data.length cap sources versions) write turns (k + 1)
            (positionAt data stop) (some (version.getD (versions k))) out := by
  obtain ⟨page, stop, hread, hspans⟩ :=
    readPage_positionAt hr hsources hcap (show 0 < allLines by decide) hstart k
  refine ⟨page, stop, hspans, ?_⟩
  have hserve : servePage r data.length cap sources versions k ⟨(positionAt data start).line,
      allLines, (positionAt data start).column⟩ =
        .ok (some ⟨page.content, page.next, versions k⟩) := by
    rw [servePage, hread]
  rw [streamPages, hserve]
  dsimp only
  congr 1
  cases write out page.content with
  | error e => rfl
  | ok out' =>
    dsimp only
    by_cases hstop : stop = data.length
    · rw [hspans.next_eq, if_pos hstop, if_pos hstop]
    · have hlt := key_positionAt_lt (hspans.progress.resolve_right hstop) hspans.stop_le
      rw [next_of_spans hspans hstop, if_neg hstop]
      exact if_neg (not_le_of_gt hlt)

/-- A stream that is served from the file advances at every turn. -/
theorem streamPages_ne_stuck [DecidableEq ν] (versions : ℕ → ν)
    (write : ω → List UInt8 → Except String ω) (hstart : start ≤ data.length) (k : ℕ)
    (version : Option ν) (out : ω) :
    (streamPages (servePage r data.length cap sources versions) write turns k
      (positionAt data start) version out).1 ≠ some (.error .stuck) := by
  induction turns generalizing start k version out with
  | zero => exact nofun
  | succ turns ih =>
    obtain ⟨page, stop, hspans, hturn⟩ :=
      streamPages_succ hr hsources hcap versions write turns hstart k version out
    rw [hturn]
    by_cases hchanged : version.getD (versions k) ≠ versions k
    · rw [if_pos hchanged]
      exact nofun
    · rw [if_neg hchanged]
      cases write out page.content with
      | error e => exact nofun
      | ok out' =>
        split_ifs
        · exact nofun
        · exact ih hspans.stop_le _ _ _

/-- With one version and an output that takes everything the stream ends, and has written the rest
of the file. -/
theorem streamPages_eq {ν : Type} [DecidableEq ν] (version : ν) (hstart : start ≤ data.length)
    (hturns : data.length - start < turns) (k : ℕ) {seen : Option ν}
    (hseen : seen.getD version = version) (out : List UInt8) :
    streamPages (servePage r data.length cap sources fun _ ↦ version)
      (fun out bytes ↦ .ok (out ++ bytes)) turns k (positionAt data start) seen out =
        (some (.ok true), out ++ data.drop start) := by
  induction turns generalizing start k seen out with
  | zero => exact absurd hturns (Nat.not_lt_zero _)
  | succ turns ih =>
    obtain ⟨page, stop, hspans, hturn⟩ :=
      streamPages_succ hr hsources hcap (fun _ ↦ version) (fun out bytes ↦ .ok (out ++ bytes)) turns
        hstart k seen out
    have hle := hspans.start_le
    have hdrop : data.drop start = page.content ++ data.drop stop := by
      rw [hspans.content_eq, show data.drop stop = (data.drop start).drop (stop - start) by
        rw [drop_drop, Nat.add_sub_cancel' hle], take_append_drop]
    rw [hturn, if_neg (not_not.mpr hseen), hdrop]
    dsimp only
    split_ifs with hstop
    · rw [hstop, drop_length, append_nil]
    · have hprogress := hspans.progress.resolve_right hstop
      have hstop_le := hspans.stop_le
      have hseen' : (some (seen.getD version)).getD version = version := hseen
      rw [ih hstop_le (by omega) (k + 1) hseen', append_assoc]

end Run

/-- **Paged reads reassemble the file.** The pages are followed from the first position on, each
read from the file anew by a reader that may deliver as few bytes at a time as it likes. The run
ends. Every page is the bytes it reports, at most `cap` of them and none only at the end; each
starts where the one before it ends; together they are the file; and the positions grow. A stream of
the pages never stops for a read that did not advance, and writes the file. -/
theorem pages_reassemble {r : Reader ε σ} {remaining : σ → List UInt8} (hr : r.Serves remaining)
    {sources : ℕ → σ} (hsources : ∀ k, remaining (sources k) = data) (hcap : 0 < cap)
    {limitLines : ℕ} (hlimit : 0 < limitLines) :
    (∃ pages, followPages r data.length cap limitLines sources (data.length + 1) 0 ⟨1, 0⟩ =
        .ok pages ∧
      (∀ page ∈ pages, page.start + page.content.length ≤ data.length ∧
        page.content = (data.drop page.start).take page.content.length ∧
        page.content.length ≤ cap ∧ (page.content = [] → page.eof = true)) ∧
      (∃ page rest, pages = page :: rest ∧ page.start = 0) ∧
      (pages.IsChain fun a b ↦ b.start = a.start + a.content.length) ∧
      pages.flatMap Page.content = data ∧
      (⟨1, 0⟩ :: pages.filterMap Page.next).IsChain fun p q ↦ p.key < q.key) ∧
    (∀ {ν ω : Type} [DecidableEq ν] (versions : ℕ → ν) (write : ω → List UInt8 → Except String ω)
      (turns : ℕ) (out : ω),
      (streamPages (servePage r data.length cap sources versions) write turns 0 ⟨1, 0⟩ none out).1 ≠
        some (.error .stuck)) ∧
    ∀ {ν : Type} [DecidableEq ν] (version : ν),
      streamPages (servePage r data.length cap sources fun _ ↦ version)
        (fun out bytes ↦ .ok (out ++ bytes)) (data.length + 1) 0 ⟨1, 0⟩ none [] =
          (some (.ok true), data) := by
  refine ⟨?_, fun versions write turns out ↦ streamPages_ne_stuck hr hsources hcap versions write
    (Nat.zero_le _) 0 none out, fun version ↦ streamPages_eq hr hsources hcap version
      (Nat.zero_le _) (Nat.lt_succ_self _) 0 rfl []⟩
  obtain ⟨pages, hpages, htiles⟩ :=
    exists_tiles hr hsources hcap hlimit (Nat.zero_le _) (Nat.lt_succ_self _) 0
  refine ⟨pages, hpages, fun page hpage ↦ ?_, htiles.exists_head, htiles.adjacent,
    htiles.flatMap_content, htiles.advances⟩
  obtain ⟨start, stop, hspans⟩ := htiles.of_mem hpage
  have hlength := length_content_of_spans hspans
  have hstart := hspans.start_le
  have hstop := hspans.stop_le
  refine ⟨by rw [hspans.start_eq]; omega, ?_, hlength.trans_le hspans.le_cap, fun hnil ↦ ?_⟩
  · rw [hlength, hspans.start_eq]
    exact hspans.content_eq
  · rw [hnil, length_nil] at hlength
    rw [hspans.eof_eq]
    exact decide_eq_true (hspans.progress.resolve_left (by omega))

/-- A reader that delivers a byte at a time. -/
def byteReader : Reader Empty (List UInt8) where
  read s := (.ok (s.take 1), s.drop 1)

theorem serves_byteReader : byteReader.Serves id :=
  fun s ↦ ⟨1, s.drop 1, Nat.one_pos, by decide, rfl, rfl⟩

/-- A short line, then one with a sequence of two bytes. -/
def shortText : List UInt8 := [97, 10, 98, 195, 169]

/-- In pages of two bytes, the second is cut before the sequence. -/
theorem pages_reassemble_byteReader :
    ∃ pages, followPages byteReader shortText.length 2 1 (fun _ ↦ shortText) 6 0 ⟨1, 0⟩ =
      .ok pages ∧ pages.map Page.content = [[97, 10], [98], [195, 169]] := by
  have hsources : ∀ k, id (Function.const ℕ shortText k) = shortText := fun _ ↦ rfl
  obtain ⟨⟨pages, hpages, -⟩, -⟩ :=
    pages_reassemble serves_byteReader hsources Nat.two_pos Nat.one_pos
  refine ⟨pages, hpages, ?_⟩
  have hcontents : (followPages byteReader shortText.length 2 1 (Function.const ℕ shortText)
      (shortText.length + 1) 0 ⟨1, 0⟩).toOption.map (·.map Page.content) =
        some [[97, 10], [98], [195, 169]] := by
    decide +kernel
  rw [hpages] at hcontents
  exact Option.some.inj hcontents

end Maknae.Loop
