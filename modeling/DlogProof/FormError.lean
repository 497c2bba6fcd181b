import DlogProof.Text.Hex
import DlogProof.Uint.Encoding

namespace DlogProof

/-- Why a value is not the form of what was expected. -/
inductive FormError where
  | invalidType (found expected : String)
  | invalidValue (found expected : String)
  | invalidLength (length : Nat) (expected : String)
  | missingField (name : String)
  | hex (error : Text.HexError)
  | encoding (error : EncodingError)
deriving DecidableEq

def FormError.message : FormError → String
  | invalidType found expected => s!"invalid type: {found}, expected {expected}"
  | invalidValue found expected => s!"invalid value: {found}, expected {expected}"
  | invalidLength length expected => s!"invalid length {length}, expected {expected}"
  | missingField name => s!"missing field `{name}`"
  | hex error => error.message
  | encoding error => error.message

end DlogProof
