import Maknae.Foundation.Wildcard
import Maknae.Security.Request

/-!
# The classification label of a request

A build carries a fixed list of classification systems. The configured name selects one of them, and
the marking on a request, or its absence, is a level of that system or of none.
-/

namespace Maknae.Kernel

open Security

/-- A level of a system's ladder. -/
structure Level where
  policy : String
  name : String
  rank : ℕ
deriving DecidableEq, Repr

/-- A classification system: the level a marking carries, that of unmarked content, and whether
content of one level is at or below a ceiling. -/
structure ClassificationPolicy where
  name : String
  levelOf : String → Option Level
  unmarked : Level
  /-- The ceiling comes first; there is no answer for a level of another system. -/
  dominates : Level → Level → Option Bool

/-- The characters trimmed from both ends of a text. -/
def isWhitespace (c : Char) : Bool :=
  let n := c.toNat
  (9 ≤ n && n ≤ 13) || n == 32 || n == 0x85 || n == 0xA0 || n == 0x1680 ||
    (0x2000 ≤ n && n ≤ 0x200A) || n == 0x2028 || n == 0x2029 || n == 0x202F || n == 0x205F ||
    n == 0x3000

def trim (s : String) : String :=
  String.ofList
    ((s.toList.dropWhile isWhitespace).reverse.dropWhile isWhitespace).reverse

/-- Equality up to the case of ASCII letters. -/
def eqIgnoreAsciiCase (a b : String) : Bool :=
  a.toList.map Char.toLower == b.toList.map Char.toLower

/-- The first token of a marking: everything before the first `//`, trimmed. -/
def firstToken (marking : String) : String :=
  match findSub ['/', '/'] marking.toList with
  | some i => trim (String.ofList (marking.toList.take i))
  | none => trim marking

/-- The system a name selects. -/
def select (systems : List ClassificationPolicy) (name : String) : Option ClassificationPolicy :=
  systems.find? fun p ↦ eqIgnoreAsciiCase p.name (trim name)

/-- The systems that carry a marking's first token. -/
def recognizing (systems : List ClassificationPolicy) (marking : String) : List String :=
  (systems.filter fun p ↦ (p.levelOf (firstToken marking)).isSome).map ClassificationPolicy.name

/-! ### The systems of the build

Each is a ladder of level names, lowest first. -/

def ladderLevel (name : String) (levels : List String) (rank : ℕ) : Level :=
  ⟨name, levels.getD rank "", rank⟩

/-- The system, the rank and the name of a level agree. -/
def isLadderLevel (name : String) (levels : List String) (l : Level) : Bool :=
  l.policy == name && levels[l.rank]?.any fun n ↦ eqIgnoreAsciiCase n l.name

def ladderLevelOf (name : String) (levels : List String) (token : String) : Option Level :=
  (levels.findIdx? fun l ↦ eqIgnoreAsciiCase l token).map (ladderLevel name levels)

def ladderDominates (name : String) (levels : List String) (ceiling content : Level) :
    Option Bool :=
  if !isLadderLevel name levels ceiling || !isLadderLevel name levels content then none
  else some (content.rank ≤ ceiling.rank)

def usLevels : List String := ["UNCLASSIFIED", "CONFIDENTIAL", "SECRET", "TOP SECRET"]

/-- The system of the kernel itself. A first token `CUI` reads as the lowest level. -/
def basicPolicy : ClassificationPolicy where
  name := "US"
  levelOf marking :=
    let token := firstToken marking
    if eqIgnoreAsciiCase token "CUI" then some (ladderLevel "US" usLevels 0)
    else ladderLevelOf "US" usLevels token
  unmarked := ladderLevel "US" usLevels 0
  dominates := ladderDominates "US" usLevels

def ausLevels : List String :=
  ["UNOFFICIAL", "OFFICIAL", "OFFICIAL: SENSITIVE", "PROTECTED", "SECRET", "TOP SECRET"]

def ausPspf : ClassificationPolicy where
  name := "AUS"
  levelOf marking := ladderLevelOf "AUS" ausLevels (firstToken marking)
  unmarked := ladderLevel "AUS" ausLevels 0
  dominates := ladderDominates "AUS" ausLevels

/-- Every system of the build. -/
def systems : List ClassificationPolicy := [basicPolicy, ausPspf]

theorem rank_le_of_ladderDominates {name levels ceiling content}
    (h : ladderDominates name levels ceiling content = some true) :
    content.rank ≤ ceiling.rank := by
  unfold ladderDominates at h
  split_ifs at h
  exact of_decide_eq_true (Option.some.inj h)

/-- A system of the build ranks content at or below a ceiling by the ladder alone. -/
theorem rank_le_of_dominates {policy} (hpolicy : policy ∈ systems)
    {ceiling content} (h : policy.dominates ceiling content = some true) :
    content.rank ≤ ceiling.rank := by
  rcases List.mem_pair.mp hpolicy with rfl | rfl
  · exact rank_le_of_ladderDominates h
  · exact rank_le_of_ladderDominates h

/-! ### Labels -/

/-- What a request carries as its marking. -/
inductive Label
  | absent
  | marking (raw : String)
  | notAString
deriving DecidableEq, Repr

def labelOf (req : Request) : Label :=
  match req.resource[resourceClassification]? with
  | none => .absent
  | some (.str s) => .marking s
  | some _ => .notAString

/-- The level of a label in a system. A marking of another system is refused by that name, never
mapped. -/
def resolveLevel (systems : List ClassificationPolicy) (policy : ClassificationPolicy) :
    Label → Except String Level
  | .notAString => .error "ceiling: classification attribute is not a string"
  | .absent => .ok policy.unmarked
  | .marking raw =>
    match policy.levelOf raw with
    | some level => .ok level
    | none =>
      let others := (recognizing systems raw).filter (· != policy.name)
      if others.isEmpty then .error "ceiling: unrecognized classification marking"
      else
        let carried := String.intercalate "/" others
        let own := policy.name
        .error s!"ceiling: marking is a level of the {carried} system, not {own}"

/-- A marking the system does not carry has no level. -/
theorem exists_error_of_levelOf_eq_none {systems policy raw} (h : policy.levelOf raw = none) :
    ∃ reason, resolveLevel systems policy (.marking raw) = .error reason := by
  simp only [resolveLevel, h]
  split_ifs
  · exact ⟨_, rfl⟩
  · exact ⟨_, rfl⟩

/-- The label stamped on a prepared attempt. Its category list is always empty and is left out. -/
structure ObjectLabel where
  level : String

def objectLabel (systems : List ClassificationPolicy) (policyName : String) (req : Request) :
    Option ObjectLabel := do
  let policy ← select systems policyName
  let level ← (resolveLevel systems policy (labelOf req)).toOption
  return ⟨level.name⟩

end Maknae.Kernel
