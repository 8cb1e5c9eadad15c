import Mathlib.Data.Nat.Notation

/-!
# Errors of the configuration

Only the errors the modelled functions raise, with what each of them says. A section is a `part`
here.
-/

namespace Maknae.Config

inductive ConfigError
  | parse (message : String) (line col : ℕ)
  | duplicateKey (key : String) (line col : ℕ)
  | unknownKey (part key : String)
  | invalidEgressBounds (reason : String)
  | providerPlaintextKey (field : String)
  | invalidProvider (reason : String)
  | baselineValue (message : String)
  | notAMap (sourcePath : String)
  | unknownSection (part sourcePath : String)
  | duplicateSection (part : String)
  | missingSection (part : String)
  | coreOverride
deriving DecidableEq, Repr

end Maknae.Config
