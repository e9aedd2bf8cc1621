/-!
# Why a JSON text is refused
-/

namespace DataCondition

namespace Json

/-- What the first problem of a JSON text is. -/
inductive Fault where
  /-- The text breaks the rules of JSON. -/
  | malformed
  /-- A value of the wrong type, or a member that is missing or repeated. -/
  | mistyped
  /-- The text ends too soon. -/
  | truncated
deriving DecidableEq, Repr

end Json

end DataCondition
