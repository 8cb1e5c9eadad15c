import Maknae.Foundation.OsPath
import Maknae.Foundation.Wildcard

/-!
# Path globs of the capability-grant policy

`PathGlob` is the compiled path specifier of a `Read(..)` or `Write(..)` entry: an anchor, the root
or the home of the request, and a list of segments, each `**` or a component that may hold `*`. This
module embeds the hand-rolled matcher and the two subtree tests that recursive deletion relies on.

The matcher is compared with what its grammar means. `componentMatches_iff` says that the greedy
fragment search decides the language of a star pattern, for every pattern but the empty one; no
compiled glob holds an empty component, which is the invariant `segments_wf` carries. For a
component without a star that is equality (`componentMatches_eq_of_starless`), and every component
matches its own text (`componentMatches_self`).

What a whole pattern means is said from its text alone (`InLanguage`): its components each consume
components of the path, `**` any number and another one a component that fills its stars.
`matchesPath_iff_inLanguage` is that the matcher accepts exactly these paths.

The two subtree tests are **not** symmetric: `mayIntersectSubtree` must not miss a match below the
root, `coversSubtree` must not claim one that is not there. `mayIntersectSubtree_of_matches` and
`matches_of_coversSubtree` are the two halves.
-/

namespace Maknae.Config

open Except List Text

/-! ### Segments and globs -/

/-- What a glob is anchored at. -/
inductive Anchor
  | root
  | home
deriving DecidableEq, Repr

/-- One segment of a glob. -/
inductive GlobSeg
  | doubleStar
  | comp (pattern : String)
deriving DecidableEq, Repr

/-- A component the parser can produce: not empty, not `**`, and without a `/`. -/
def GlobSeg.WellFormed : GlobSeg → Prop
  | doubleStar => True
  | comp pattern => pattern ≠ "" ∧ pattern ≠ "**" ∧ '/' ∉ pattern.toList

/-- A compiled path specifier. -/
structure PathGlob where
  /-- Where the path starts. -/
  anchor : Anchor
  /-- The segments below the anchor. -/
  segments : List GlobSeg
  /-- Every segment is one the parser produces. -/
  segments_wf : ∀ seg ∈ segments, seg.WellFormed
deriving DecidableEq

/-- The refusal of a policy entry that names the offending text. -/
inductive AuthzError
  | badPattern (spec : String)
deriving DecidableEq, Repr

/-- A `~` pattern was evaluated without a valid home. -/
inductive HomeUnbound
  | homeUnbound
deriving DecidableEq, Repr

/-- The home, when it is an absolute UTF-8 path other than `/` without `.` and `..` components. -/
def validHome (home : Option OsPath) : Option OsPath :=
  home.filter fun h ↦
    h.toStr.any fun s ↦
      startsWithChar '/' s && !(components s).isEmpty &&
        !(components s).any fun c ↦ c == "." || c == ".."

/-! ### Matching one component -/

/-- The loop of `componentMatches` over the fragments from index `i` on. The argument `text` is what
is left of the component after the position reached, so `text = []` says the position is at the
end. -/
def matchFragments (anchoredStart anchoredEnd : Bool) (last : ℕ) :
    ℕ → List (List Char) → List Char → Bool
  | _, [], _ => true
  | i, frag :: frags, text =>
    if frag.isEmpty then matchFragments anchoredStart anchoredEnd last (i + 1) frags text
    else if i == 0 && anchoredStart then
      if !frag.isPrefixOf text then false
      else
        let text := text.drop frag.length
        -- Without a star both anchors apply to this one fragment, and it must be the whole text.
        if i == last && anchoredEnd then text.isEmpty
        else matchFragments anchoredStart anchoredEnd last (i + 1) frags text
    else if i == last && anchoredEnd then
      if !frag.isSuffixOf text then false
      else matchFragments anchoredStart anchoredEnd last (i + 1) frags text
    else
      match findSub frag text with
      | some offset =>
        matchFragments anchoredStart anchoredEnd last (i + 1) frags
          (text.drop (offset + frag.length))
      | none => false

/-- `*`-only wildcard match within one component: the fragments between the stars must appear in
order, the first anchored at the start and the last at the end. -/
def componentMatches (pattern text : String) : Bool :=
  let fragments := pattern.toList.splitOn '*'
  let last := fragments.length - 1
  let anchoredStart := !(['*'].isPrefixOf pattern.toList)
  let anchoredEnd := !(['*'].isSuffixOf pattern.toList)
  matchFragments anchoredStart anchoredEnd last 0 fragments text.toList

/-- A `**` in front of the matcher `m`: spend nothing, or spend one component and try again. -/
def spendAny (m : List String → Bool) : List String → Bool
  | [] => m []
  | c :: tail => m (c :: tail) || spendAny m tail

/-- `**`-aware matcher: `**` spends zero or more components, a component segment exactly one. -/
def matchSegs : List GlobSeg → List String → Bool
  | [], comps => comps.isEmpty
  | .doubleStar :: rest, comps => spendAny (matchSegs rest) comps
  | .comp _ :: _, [] => false
  | .comp p :: rest, c :: tail => componentMatches p c && matchSegs rest tail

namespace PathGlob

/-- The segment a component of the specifier compiles to. -/
def segment (c : String) : GlobSeg := if c = "**" then .doubleStar else .comp c

theorem segment_wellFormed {spec} :
    ∀ seg ∈ (components spec).map segment, seg.WellFormed := by
  intro seg hseg
  obtain ⟨c, hc, rfl⟩ := mem_map.mp hseg
  obtain ⟨hne, hslash⟩ := of_mem_components hc
  unfold segment
  split_ifs with hstar
  · trivial
  · exact ⟨hne, hstar, hslash⟩

/-- The glob with the given anchor over the components of `rest`. -/
def compile (anchor : Anchor) (rest : String) : PathGlob where
  anchor := anchor
  segments := (components rest).map segment
  segments_wf := segment_wellFormed

/-- Parse a path specifier. `~` stays symbolic until a request brings its home, and `~name` is
refused. -/
def parse (spec : String) : Except AuthzError PathGlob :=
  match stripPrefix "~" spec with
  | some rest =>
    if rest ≠ "" ∧ startsWithChar '/' rest = false then .error (.badPattern spec)
    else .ok (compile .home rest)
  | none =>
    if startsWithChar '/' spec then .ok (compile .root spec) else .error (.badPattern spec)

/-- The glob is anchored at the home. -/
def isHome (g : PathGlob) : Bool := g.anchor == .home

/-- The literal components of the anchor. -/
def base (g : PathGlob) (home : Option OsPath) : Except HomeUnbound (List String) :=
  if g.anchor == .root then .ok []
  else
    match (validHome home).bind OsPath.toStr with
    | some h => .ok (components h)
    | none => .error .homeUnbound

/-- Match a path against the compiled glob. A path without a text matches nothing. -/
def matchesPath (g : PathGlob) (path : OsPath) (home : Option OsPath) :
    Except HomeUnbound Bool := do
  let base ← g.base home
  match path.toStr with
  | none => return false
  | some s =>
    let comps := components s
    return base.isPrefixOf comps && matchSegs g.segments (comps.drop base.length)

/-- The literal components a covering grant spells out before its final `**`. Only exact equality
counts: a component with a star still matches its own text. -/
def coverPrefix : List GlobSeg → List String → Bool
  | [], _ => true
  | .comp literal :: rest, c :: tail => c == literal && coverPrefix rest tail
  | _ :: _, _ => false

/-- The glob ends in `**`, and everything before it is spelled out by the root. -/
def coversSubtree (g : PathGlob) (root : String) (home : Option OsPath) :
    Except HomeUnbound Bool := do
  let base ← g.base home
  match g.segments.getLast? with
  | some .doubleStar =>
    let comps := components root
    return base.isPrefixOf comps && coverPrefix g.segments.dropLast (comps.drop base.length)
  | _ => return false

/-- The leading components without a star. -/
def fixedPrefix : List GlobSeg → List String
  | .comp literal :: rest => if '*' ∈ literal.toList then [] else literal :: fixedPrefix rest
  | _ => []

/-- No fixed component of the glob conflicts with the root's component at its place. Either list may
end first: a wildcard could reach anywhere after the fixed components. -/
def mayIntersectSubtree (g : PathGlob) (root : String) (home : Option OsPath) :
    Except HomeUnbound Bool := do
  let base ← g.base home
  return ((base ++ fixedPrefix g.segments).zip (components root)).all fun (a, b) ↦ a == b

end PathGlob

/-! ### The language of one component -/

section Component

variable {anchoredStart anchoredEnd : Bool} {last : ℕ}

variable {frags : List (List Char)} {pattern text : String}

/-- After the first fragment the loop decides the gapped search, at every index. -/
theorem matchFragments_iff_gapped {i text} (hi : 0 < i)
    (hlast : i + frags.length = last + 1)
    (hend : ∀ frag, frags.getLast? = some frag → frag ≠ [] → anchoredEnd = true) :
    matchFragments anchoredStart anchoredEnd last i frags text = true ↔
      frags = [] ∨ Gapped frags text := by
  induction frags generalizing i text with
  | nil => simp [matchFragments]
  | cons frag frags ih =>
    have hrest : ∀ f, frags.getLast? = some f → f ≠ [] → anchoredEnd = true := by
      intro f hf
      refine hend f ?_
      cases frags with
      | nil => simp at hf
      | cons _ _ => simpa using hf
    have hlen : i + 1 + frags.length = last + 1 := by
      simp only [length_cons] at hlast
      omega
    have hstep : ∀ text', matchFragments anchoredStart anchoredEnd last (i + 1) frags text' = true ↔
        frags = [] ∨ Gapped frags text' := fun text' ↦ ih (Nat.succ_pos i) hlen hrest
    have hi0 : (i == 0) = false := by simpa using hi.ne'
    rw [matchFragments]
    rcases eq_or_ne frag [] with rfl | hfrag
    · -- An empty fragment is a star next to another star, or at the end.
      simp only [isEmpty_nil, if_true, hstep]
      rcases eq_or_ne frags [] with rfl | hne
      · simp [gapped_singleton]
      · simp [hne, gapped_nil_cons hne]
    · have hemp : frag.isEmpty = false := by simpa using hfrag
      simp only [hemp, hi0]
      rcases eq_or_ne frags [] with rfl | hne
      · have hil : i = last := by simpa using hlast
        have hae : anchoredEnd = true := hend frag rfl hfrag
        simp [hil, hae, gapped_singleton, matchFragments]
      · have hil : (i == last) = false := by
          have : 0 < frags.length := length_pos_iff.mpr hne
          simp only [beq_eq_false_iff_ne]
          omega
        simp only [hil, gapped_cons_iff_find hne]
        cases findSub frag text with
        | none => simp
        | some offset => simp [hstep, hne]

/-- A last fragment that is not empty leaves no star at the end of the pattern. -/
theorem not_star_suffix {pattern front frag} (hpat : pattern = front ++ frag)
    (hfrag : frag ≠ []) (hstar : '*' ∉ frag) : ['*'].isSuffixOf pattern = false := by
  rw [← Bool.not_eq_true, isSuffixOf_iff_suffix, hpat]
  intro hs
  have hsub : ['*'] <:+ frag := suffix_of_suffix_length_le hs (suffix_append _ _)
    (length_pos_iff.mpr hfrag)
  exact hstar (hsub.subset mem_cons_self)

/-- A first fragment that is not empty leaves no star at the start of the pattern. -/
theorem not_star_first {pattern frag back} (hpat : pattern = frag ++ back)
    (hfrag : frag ≠ []) (hstar : '*' ∉ frag) : ['*'].isPrefixOf pattern = false := by
  rw [← Bool.not_eq_true, isPrefixOf_iff_prefix, hpat]
  intro hs
  have hsub : ['*'] <+: frag := prefix_of_prefix_length_le hs (prefix_append _ _)
    (length_pos_iff.mpr hfrag)
  exact hstar (hsub.subset mem_cons_self)

/-- The text of a pattern ends with its last fragment. -/
theorem exists_eq_append_of_getLast? {frag} (h : frags.getLast? = some frag) :
    ∃ front, ['*'].intercalate frags = front ++ frag := by
  obtain ⟨init, rfl⟩ := getLast?_eq_some_iff.mp h
  induction init with
  | nil => exact ⟨[], by simp [intercalate]⟩
  | cons f init ih =>
    obtain ⟨front, hfront⟩ := ih (by simp)
    refine ⟨f ++ ('*' :: front), ?_⟩
    have hne : init ++ [frag] ≠ [] := by simp
    obtain ⟨g, gs, hgs⟩ := exists_cons_of_ne_nil hne
    simp [hgs, ← hfront]

/-- **The greedy fragment search decides the star language**, for every pattern but the empty one,
which the search accepts against any text. -/
theorem componentMatches_iff (hne : pattern ≠ "") :
    componentMatches pattern text = true ↔ WildMatch '*' pattern.toList text.toList := by
  have hstar : ∀ f ∈ pattern.toList.splitOn '*', '*' ∉ f := fun f ↦ not_mem_of_mem_splitOn
  have hpat : ['*'].intercalate (pattern.toList.splitOn '*') = pattern.toList :=
    intercalate_splitOn '*'
  have hpat_ne : pattern.toList ≠ [] := by simpa using hne
  simp only [componentMatches]
  generalize pattern.toList.splitOn '*' = frags at hstar hpat
  obtain - | ⟨frag, frags⟩ := frags
  · exact absurd hpat.symm hpat_ne
  have hend : ∀ f, (frag :: frags).getLast? = some f → f ≠ [] →
      (!(['*'].isSuffixOf pattern.toList)) = true := by
    intro f hf hfne
    obtain ⟨front, hfront⟩ := exists_eq_append_of_getLast? hf
    have hmem : f ∈ frag :: frags := mem_of_getLast? hf
    rw [not_star_suffix (hpat ▸ hfront) hfne (hstar f hmem)]
    rfl
  have htail : ∀ rest, matchFragments (!(['*'].isPrefixOf pattern.toList))
      (!(['*'].isSuffixOf pattern.toList)) frags.length 1 frags rest = true ↔
        frags = [] ∨ Gapped frags rest := by
    intro rest
    refine matchFragments_iff_gapped Nat.one_pos (Nat.add_comm _ _) fun f hf ↦ hend f ?_
    cases frags with
    | nil => simp at hf
    | cons _ _ => simpa using hf
  rw [← hpat, wildMatch_intercalate hstar, hpat, matchFragments]
  rcases eq_or_ne frag [] with rfl | hfrag
  · have hfrags : frags ≠ [] := by
      rintro rfl
      exact hpat_ne (by simpa [intercalate] using hpat.symm)
    simp [htail, hfrags]
  · have hstart : ['*'].isPrefixOf pattern.toList = false := by
      obtain ⟨back, hback⟩ : ∃ back, pattern.toList = frag ++ back := by
        cases frags with
        | nil => exact ⟨[], by simpa [intercalate] using hpat.symm⟩
        | cons g gs =>
          exact ⟨'*' :: ['*'].intercalate (g :: gs), by
            simp [← hpat]⟩
      exact not_star_first hback hfrag (hstar frag mem_cons_self)
    have hemp : frag.isEmpty = false := by simpa using hfrag
    simp only [hstart, Bool.not_false] at htail
    simp only [hemp, hstart]
    by_cases hp : frag.isPrefixOf text.toList
    · obtain ⟨rest, hrest⟩ := isPrefixOf_iff_prefix.mp hp
      simp only [← hrest]
      rcases eq_or_ne frags [] with rfl | hfrags
      · simp [hend frag rfl hfrag, Gapped]
      · have hlen : (0 == frags.length) = false := by
          simpa using (length_pos_iff.mpr hfrags).ne
        simp [hlen, htail, hfrags]
    · have hno : ¬∃ rest, text.toList = frag ++ rest ∧ Gapped frags rest := by
        rintro ⟨rest, hrest, -⟩
        exact hp ( isPrefixOf_iff_prefix.mpr ⟨rest, hrest.symm⟩)
      simp [hp, hno]

theorem componentMatches_eq_of_starless (hne : pattern ≠ "") (hstar : '*' ∉ pattern.toList)
    (h : componentMatches pattern text = true) : text = pattern :=
  String.toList_inj.mp (((componentMatches_iff hne).mp h).eq_of_not_mem hstar)

theorem componentMatches_self {pattern} (hne : pattern ≠ "") :
    componentMatches pattern pattern = true :=
  (componentMatches_iff hne).mpr (WildMatch.self '*' _)

end Component

/-! ### The home a glob is anchored at -/

/-- A valid home is valid when it is asked for again. -/
@[simp] theorem validHome_validHome (home : Option OsPath) :
    validHome (validHome home) = validHome home := by
  simp [validHome]

variable {home : Option OsPath} {segs : List GlobSeg}

theorem toStr_isSome_of_validHome {h} (hv : validHome home = some h) :
    h.toStr.isSome = true := by
  cases hs : h.toStr with
  | none => simp [validHome, hs] at hv
  | some s => rfl

/-- Only a glob anchored at a home that is not valid has no base. -/
theorem PathGlob.exists_base {g : PathGlob} (h : g.isHome = true → (validHome home).isSome = true) :
    ∃ base, g.base home = .ok base := by
  cases hanchor : g.anchor with
  | root => exact ⟨[], by simp [base, hanchor]⟩
  | home =>
    obtain ⟨hm, hhome⟩ := Option.isSome_iff_exists.mp (h (by simp [isHome, hanchor]))
    obtain ⟨s, hs⟩ := Option.isSome_iff_exists.mp (toStr_isSome_of_validHome hhome)
    exact ⟨components s, by simp [base, hanchor, hhome, hs]⟩

/-! ### Globs and the paths below a root -/

/-- A final `**` accepts whatever is left. -/
theorem matchSegs_doubleStar (comps : List String) : matchSegs [.doubleStar] comps = true := by
  induction comps with
  | nil => rfl
  | cons c tail ih =>
    show (matchSegs [] (c :: tail) || matchSegs [.doubleStar] tail) = true
    rw [ih, Bool.or_true]

/-- The fixed components of a matching glob are the path's own, in order. -/
theorem fixedPrefix_prefix_of_matchSegs {comps} (hwf : ∀ seg ∈ segs, seg.WellFormed)
    (h : matchSegs segs comps = true) :
    PathGlob.fixedPrefix segs <+: comps := by
  induction segs generalizing comps with
  | nil => exact nil_prefix
  | cons seg segs ih =>
    cases seg with
    | doubleStar => exact nil_prefix
    | comp literal =>
      cases comps with
      | nil => simp [matchSegs] at h
      | cons c tail =>
        obtain ⟨hc, htail⟩ := (Bool.and_eq_true _ _).mp h
        rw [PathGlob.fixedPrefix]
        split_ifs with hstar
        · exact nil_prefix
        · have hne : literal ≠ "" := (hwf _ mem_cons_self).1
          rw [componentMatches_eq_of_starless hne hstar hc]
          exact cons_prefix_cons.mpr
            ⟨rfl, ih (fun seg hseg ↦ hwf seg (mem_cons_of_mem _ hseg)) htail⟩

/-- Spelled-out components followed by `**` match everything below them. -/
theorem matchSegs_of_coverPrefix {comps below} (hwf : ∀ seg ∈ segs, seg.WellFormed)
    (h : PathGlob.coverPrefix segs comps = true) :
    matchSegs (segs ++ [.doubleStar]) (comps ++ below) = true := by
  induction segs generalizing comps with
  | nil => exact matchSegs_doubleStar _
  | cons seg segs ih =>
    cases seg with
    | doubleStar => simp [PathGlob.coverPrefix] at h
    | comp literal =>
      cases comps with
      | nil => simp [PathGlob.coverPrefix] at h
      | cons c tail =>
        obtain ⟨hc, htail⟩ := (Bool.and_eq_true _ _).mp h
        obtain rfl := eq_of_beq hc
        have hself : componentMatches c c = true :=
          componentMatches_self (hwf _ mem_cons_self).1
        have hrest := ih (fun seg hseg ↦ hwf seg (mem_cons_of_mem _ hseg)) htail
        simp [matchSegs, hself, hrest]

/-- Two beginnings of one list agree wherever both have an entry. -/
theorem all_zip_of_prefix {a b l : List String} (ha : a <+: l) (hb : b <+: l) :
    ((a.zip b).all fun (x, y) ↦ x == y) = true := by
  induction l generalizing a b with
  | nil => simp [prefix_nil.mp ha]
  | cons c l ih =>
    cases a with
    | nil => rfl
    | cons x a =>
      cases b with
      | nil => rfl
      | cons y b =>
        obtain ⟨rfl, ha'⟩ := cons_prefix_cons.mp ha
        obtain ⟨rfl, hb'⟩ := cons_prefix_cons.mp hb
        simpa using ih ha' hb'

namespace PathGlob

variable {g : PathGlob} {home : Option OsPath} {root path : String}

/-- A glob matches a path text when the anchor's components start it and the segments match the
rest. -/
theorem matchesPath_eq_true_iff :
    g.matchesPath (.ofString path) home = .ok true ↔
      ∃ base rest, g.base home = .ok base ∧ components path = base ++ rest ∧
        matchSegs g.segments rest = true := by
  cases hbase : g.base home with
  | error e => simp [matchesPath, hbase]
  | ok base =>
    simp only [matchesPath, hbase, OsPath.toStr_ofString, bind, Except.bind, pure, Except.pure,
      ok.injEq, Bool.and_eq_true, isPrefixOf_iff_prefix, exists_and_left,
      exists_eq_left']
    constructor
    · rintro ⟨⟨rest, hrest⟩, hsegs⟩
      exact ⟨rest, hrest.symm, by rwa [← hrest, drop_left] at hsegs⟩
    · rintro ⟨rest, hrest, hsegs⟩
      exact ⟨⟨rest, hrest.symm⟩, by rwa [hrest, drop_left]⟩

/-- A glob covers a root when it ends in `**` after components the root spells out. -/
theorem coversSubtree_eq_true_iff :
    g.coversSubtree root home = .ok true ↔
      ∃ base rest init, g.base home = .ok base ∧ components root = base ++ rest ∧
        g.segments = init ++ [.doubleStar] ∧ coverPrefix init rest = true := by
  cases hbase : g.base home with
  | error e => simp [coversSubtree, hbase]
  | ok base =>
    simp only [coversSubtree, hbase, ok.injEq, exists_and_left,
      exists_eq_left']
    constructor
    · intro h
      split at h
      case h_2 => simp at h
      next hlast =>
        obtain ⟨init, hinit⟩ := getLast?_eq_some_iff.mp hlast
        obtain ⟨hstarts, hcover⟩ := (Bool.and_eq_true _ _).mp (ok.inj h)
        obtain ⟨rest, hrest⟩ := isPrefixOf_iff_prefix.mp hstarts
        rw [← hrest, drop_left, hinit, dropLast_concat] at hcover
        exact ⟨rest, hrest.symm, init, hinit, hcover⟩
    · rintro ⟨rest, hrest, init, hinit, hcover⟩
      simp [hinit, hrest, hcover]

/-- A glob may intersect a subtree when no fixed component conflicts with the root's. -/
theorem mayIntersectSubtree_eq_true_iff :
    g.mayIntersectSubtree root home = .ok true ↔
      ∃ base, g.base home = .ok base ∧
        (((base ++ fixedPrefix g.segments).zip (components root)).all fun (a, b) ↦ a == b)
          = true := by
  cases hbase : g.base home with
  | error e => simp [mayIntersectSubtree, hbase]
  | ok base => simp [mayIntersectSubtree, hbase]

/-- **No match below the root is missed**: a glob that matches some path below the root may
intersect the subtree. -/
theorem mayIntersectSubtree_of_matches (hbelow : components root <+: components path)
    (h : g.matchesPath (.ofString path) home = .ok true) :
    g.mayIntersectSubtree root home = .ok true := by
  obtain ⟨base, rest, hbase, hrest, hsegs⟩ := matchesPath_eq_true_iff.mp h
  have hfixed : base ++ fixedPrefix g.segments <+: components path := by
    rw [hrest]
    exact (prefix_append_right_inj base).mpr
      (fixedPrefix_prefix_of_matchSegs g.segments_wf hsegs)
  exact mayIntersectSubtree_eq_true_iff.mpr ⟨base, hbase, all_zip_of_prefix hfixed hbelow⟩

/-- **A covering glob covers**: it matches every path below the root, the root included. -/
theorem matches_of_coversSubtree (hbelow : components root <+: components path)
    (h : g.coversSubtree root home = .ok true) :
    g.matchesPath (.ofString path) home = .ok true := by
  obtain ⟨base, rest, init, hbase, hroot, hsegs, hcover⟩ := coversSubtree_eq_true_iff.mp h
  obtain ⟨below, hpath⟩ := hbelow
  have hwf : ∀ seg ∈ init, seg.WellFormed := fun seg hseg ↦
    g.segments_wf seg (hsegs ▸ mem_append_left _ hseg)
  refine matchesPath_eq_true_iff.mpr ⟨base, rest ++ below, hbase, ?_, ?_⟩
  · rw [← hpath, hroot, append_assoc]
  · rw [hsegs]
    exact matchSegs_of_coverPrefix hwf hcover

/-! ### The language of a pattern -/

/-- The text is obtained from the pattern by replacing each star with some string. -/
def StarFilled (pattern text : String) : Prop :=
  Pieces (fun a part ↦ a ≠ '*' → part = [a]) pattern.toList text.toList

theorem componentMatches_iff_starFilled {pattern text} (hne : pattern ≠ "") :
    componentMatches pattern text = true ↔ StarFilled pattern text :=
  (componentMatches_iff hne).trans wildMatch_iff_pieces

/-- What one component of a pattern consumes of a path. -/
def Consumes (seg : String) (part : List String) : Prop :=
  seg ≠ "**" → ∃ c, part = [c] ∧ StarFilled seg c

/-- The pattern's text below its anchor. -/
def patternBody (spec : String) : String := (stripPrefix "~" spec).getD spec

/-- The components a pattern starts at: the home's for one with `~`. -/
def patternBase (spec home : String) : List String :=
  if (stripPrefix "~" spec).isSome then components home else []

/-- The path is one the pattern's text describes. -/
def InLanguage (spec home path : String) : Prop :=
  ∃ rest, components path = patternBase spec home ++ rest ∧
    Pieces Consumes (components (patternBody spec)) rest

theorem spendAny_iff {m : List String → Bool} {comps} :
    spendAny m comps = true ↔ ∃ part rest, comps = part ++ rest ∧ m rest = true := by
  induction comps with
  | nil =>
    constructor
    · exact fun h ↦ ⟨[], [], rfl, h⟩
    · rintro ⟨part, rest, heq, h⟩
      obtain ⟨-, rfl⟩ := append_eq_nil_iff.mp heq.symm
      exact h
  | cons c tail ih =>
    rw [spendAny, Bool.or_eq_true, ih]
    constructor
    · rintro (h | ⟨part, rest, rfl, h⟩)
      · exact ⟨[], c :: tail, rfl, h⟩
      · exact ⟨c :: part, rest, rfl, h⟩
    · rintro ⟨part, rest, heq, h⟩
      cases part with
      | nil => exact .inl (heq ▸ h)
      | cons d part => exact .inr ⟨part, rest, (cons.inj heq).2, h⟩

/-- **The recursive matcher decides the cuts**, `**` by trying every one. -/
theorem matchSegs_map_segment_iff {segs comps} (hne : ∀ seg ∈ segs, seg ≠ "") :
    matchSegs (segs.map segment) comps = true ↔ Pieces Consumes segs comps := by
  induction segs generalizing comps with
  | nil => rw [pieces_nil, List.map_nil, matchSegs, List.isEmpty_iff]
  | cons seg segs ih =>
    have ih' : ∀ {comps}, matchSegs (segs.map segment) comps = true ↔ Pieces Consumes segs comps :=
      ih fun s hs ↦ hne s (mem_cons_of_mem _ hs)
    rw [pieces_cons, map_cons]
    by_cases hstar : seg = "**"
    · rw [segment, if_pos hstar, matchSegs, spendAny_iff]
      simp only [ih', Consumes, hstar, ne_eq, not_true_eq_false, IsEmpty.forall_iff, true_and]
    · rw [segment, if_neg hstar]
      constructor
      · intro h
        cases comps with
        | nil => exact absurd h Bool.false_ne_true
        | cons c tail =>
          obtain ⟨hc, htail⟩ := (Bool.and_eq_true _ _).mp h
          exact ⟨[c], tail, rfl, fun _ ↦ ⟨c, rfl, (componentMatches_iff_starFilled
            (hne seg mem_cons_self)).mp hc⟩, ih'.mp htail⟩
      · rintro ⟨part, rest, rfl, hpart, hrest⟩
        obtain ⟨c, rfl, hc⟩ := hpart hstar
        exact (Bool.and_eq_true _ _).mpr ⟨(componentMatches_iff_starFilled
          (hne seg mem_cons_self)).mpr hc, ih'.mpr hrest⟩

/-- The parts of a pattern that is accepted, read off its text. -/
theorem parse_eq_ok {spec g} (h : parse spec = .ok g) :
    g.segments = (components (patternBody spec)).map segment ∧
      (g.anchor = .home ↔ (stripPrefix "~" spec).isSome) := by
  unfold parse at h
  cases hstrip : stripPrefix "~" spec with
  | some rest | none =>
    simp only [hstrip] at h
    split_ifs at h
    cases h
    simp [compile, patternBody, hstrip]

theorem base_of_parse {spec h} (hparse : parse spec = .ok g)
    (hhome : (validHome home).bind OsPath.toStr = some h) :
    g.base home = .ok (patternBase spec h) := by
  obtain ⟨-, hanchor⟩ := parse_eq_ok hparse
  unfold base patternBase
  cases ha : g.anchor with
  | root =>
    have hnone : ¬(stripPrefix "~" spec).isSome := fun hsome ↦ by
      rw [hanchor.mpr hsome] at ha
      exact nomatch ha
    rw [if_neg hnone]
    rfl
  | home => simp [hhome, hanchor.mp ha]

/-- **The matcher accepts exactly the language of the pattern's text**, under every valid home and
for every path with a text. For one component the greedy search agrees with replacing each star by
some string. -/
theorem matchesPath_iff_inLanguage {spec h s : String} {path : OsPath}
    (hparse : parse spec = .ok g) (hhome : (validHome home).bind OsPath.toStr = some h)
    (hpath : path.toStr = some s) :
    (g.matchesPath path home = .ok true ↔ InLanguage spec h s) ∧
      ∀ pattern text, pattern ≠ "" →
        (componentMatches pattern text = true ↔ StarFilled pattern text) := by
  refine ⟨?_, fun pattern text hne ↦ componentMatches_iff_starFilled hne⟩
  rw [OsPath.eq_ofString_of_toStr hpath, matchesPath_eq_true_iff, base_of_parse hparse hhome,
    (parse_eq_ok hparse).1]
  have hne : ∀ seg ∈ components (patternBody spec), seg ≠ "" := fun seg hseg ↦
    (of_mem_components hseg).1
  simp only [ok.injEq, matchSegs_map_segment_iff hne, exists_and_left, exists_eq_left',
    InLanguage]

theorem matchesPath_iff_inLanguage_json :
    InLanguage "~/**/*.json" "/home/u" "/home/u/a/b.json" := by
  have hparse : parse "~/**/*.json" = .ok (compile .home "/**/*.json") := by decide
  have hhome : (validHome (some (.ofString "/home/u"))).bind OsPath.toStr = some "/home/u" := by
    decide
  have hpath := OsPath.toStr_ofString "/home/u/a/b.json"
  exact (matchesPath_iff_inLanguage hparse hhome hpath).1.mp (by decide)

end PathGlob

end Maknae.Config
