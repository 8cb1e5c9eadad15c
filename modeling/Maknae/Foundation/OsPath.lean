import Mathlib.Init
import Maknae.Foundation.Text

/-!
# Operating-system paths

A path handed over by the operating system is a byte string. It has a text only when the bytes are
valid UTF-8; `toStr` is partial for that reason, and no default stands in for a path without a text.

Paths compare by their components, not by their bytes: repeated separators and `.` pieces do not
count. `push` appends one component with a separator where one is missing.
-/

/-- An operating-system path: its bytes. -/
structure OsPath where
  /-- The bytes of the path. -/
  bytes : ByteArray

namespace OsPath

instance : DecidableEq OsPath := fun a b ↦
  decidable_of_iff (a.bytes.data = b.bytes.data)
    ⟨fun h ↦ congrArg mk (ByteArray.ext h), (· ▸ rfl)⟩

/-- The path with the given text. -/
def ofString (s : String) : OsPath := ⟨s.toByteArray⟩

/-- The text of the path, when its bytes are valid UTF-8. -/
def toStr (p : OsPath) : Option String := String.fromUTF8? p.bytes

@[simp] theorem toStr_ofString (s : String) : (ofString s).toStr = some s :=
  dif_pos s.isValidUTF8

/-- A path with a text is the path of that text. -/
theorem eq_ofString_of_toStr {p s} (h : p.toStr = some s) : p = ofString s := by
  unfold toStr String.fromUTF8? at h
  split_ifs at h with hvalid
  cases h
  rfl

/-! ### Components -/

/-- One component of a path. -/
inductive Component
  | rootDir
  | curDir
  | parentDir
  | normal (name : List UInt8)
deriving DecidableEq, Repr

/-- The component a piece between separators stands for; empty pieces and `.` stand for none. -/
def piece (bytes : List UInt8) : Option Component :=
  if bytes = [] ∨ bytes = [46] then none
  else if bytes = [46, 46] then some .parentDir
  else some (.normal bytes)

/-- The components of a path. A `.` counts only at the start of a relative path. -/
def components (p : OsPath) : List Component :=
  let pieces := p.bytes.data.toList.splitOn 47
  let start :=
    if p.bytes.data.toList.head? = some 47 then [.rootDir]
    else if pieces.head? = some [46] then [.curDir]
    else []
  start ++ pieces.filterMap piece

/-- Paths are equal when their components are. -/
def samePath (p q : OsPath) : Bool := p.components == q.components

/-- The last component, when it is a name. -/
def fileName (p : OsPath) : Option OsPath :=
  match p.components.getLast? with
  | some (.normal name) => some ⟨⟨name.toArray⟩⟩
  | _ => none

/-- Append a component. An absolute one replaces the path. -/
def push (p : OsPath) (c : String) : OsPath :=
  if Text.startsWithChar '/' c then .ofString c
  else if p.bytes.data.toList.getLast?.any (· ≠ 47) then
    ⟨p.bytes ++ "/".toByteArray ++ c.toByteArray⟩
  else ⟨p.bytes ++ c.toByteArray⟩

end OsPath
