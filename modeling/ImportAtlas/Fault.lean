/-!
# Faults of loosely typed documents

Documents written elsewhere may hold anything. A `Fault` says why one of them cannot be used.
-/

namespace ImportAtlas

/-- Why a value cannot be used as asked. -/
inductive Fault where
  /-- A table lacks the key. -/
  | missingKey (key : String)
  /-- The value is of another kind than the operation takes. -/
  | wrongKind
  /-- The value is of the right kind and stands for no number or moment. -/
  | badValue
  /-- A number is too large for its use. -/
  | outOfRange
  /-- The operation does not exist for values of this kind. -/
  | noOperation
  /-- A place past the end of a text or a list is asked for. -/
  | pastEnd
  /-- A value is asked for that was never read. -/
  | noValue
  deriving DecidableEq, Repr

def Fault.reason : Fault → String
  | .missingKey key => "KeyError('" ++ key ++ "')"
  | .wrongKind => "TypeError"
  | .badValue => "ValueError"
  | .outOfRange => "number out of range"
  | .noOperation => "no such operation"
  | .pastEnd => "past the end"
  | .noValue => "no value"

end ImportAtlas
