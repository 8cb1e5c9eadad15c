import Maknae.Foundation.OrderedList

/-!
# Configuration values and their canonical text

The value tree every configuration file is read into, and the text it is written out as wherever two
values are compared or digested: JSON with the members of a map in key order and no whitespace.

Strings compare by code points here and by bytes in the source. The two orders agree on UTF-8.
-/

namespace Maknae.Config

/-- A parsed configuration value. -/
inductive Value
  | null
  | bool (b : Bool)
  | int (n : ℤ)
  /-- A float, by the shortest decimal text that reads back as it. -/
  | float (text : String)
  | str (s : String)
  | seq (items : List Value)
  | map (entries : List (String × Value))

/-- The four lower-case hexadecimal digits of a code point below `0x10000`. -/
def hex4 (n : ℕ) : String :=
  let digits := Nat.toDigits 16 n
  String.ofList (List.replicate (4 - digits.length) '0' ++ digits)

/-- A character inside a JSON string. -/
def escapeChar (c : Char) : String :=
  if c = '"' then "\\\""
  else if c = '\\' then "\\\\"
  else if c = '\n' then "\\n"
  else if c = '\r' then "\\r"
  else if c = '\t' then "\\t"
  else if c.toNat < 0x20 then "\\u" ++ hex4 c.toNat
  else c.toString

def writeJsonString (s : String) : String :=
  "\"" ++ String.join (s.toList.map escapeChar) ++ "\""

/-- The text of a float: one that looks like an integer gets a fraction. -/
def writeFloat (text : String) : String :=
  if text.toList.any fun c ↦ ['.', 'e', 'E'].contains c then text else text ++ ".0"

mutual

def canonicalJson : Value → String
  | .null => "null"
  | .bool b => if b then "true" else "false"
  | .int n => toString n
  | .float text => writeFloat text
  | .str s => writeJsonString s
  | .seq items => "[" ++ ",".intercalate (canonicalItems items) ++ "]"
  | .map entries =>
    "\x7b" ++ ",".intercalate ((sortByKey Prod.fst (canonicalMembers entries)).map Prod.snd) ++
      "\x7d"

/-- The texts of the items of a sequence. -/
def canonicalItems : List Value → List String
  | [] => []
  | v :: rest => canonicalJson v :: canonicalItems rest

/-- The texts of the members of a map, with their keys. -/
def canonicalMembers : List (String × Value) → List (String × String)
  | [] => []
  | (k, v) :: rest => (k, writeJsonString k ++ ":" ++ canonicalJson v) :: canonicalMembers rest

end

theorem repr_injective : Function.Injective Nat.repr := fun m n h ↦ by
  have hdigits : Nat.toDigits 10 m = Nat.toDigits 10 n := by
    simpa using congrArg String.toList h
  rw [← @Nat.ofDigitChars_toDigits 10 m (by decide) (by decide), hdigits,
    Nat.ofDigitChars_toDigits (by decide) (by decide)]

end Maknae.Config
