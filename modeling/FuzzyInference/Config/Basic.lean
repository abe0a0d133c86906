import FuzzyInference.Membership.Validate
import FuzzyInference.OrderedMap

/-!
# Descriptions of domains

A domain as a document describes it: its name, bounds and resolution, and the functions of its sets
under their names.
-/

namespace FuzzyInference

/-- The description of a domain and its sets. -/
structure DomainConfig (α : Type) where
  name : String
  low : α
  high : α
  res : α
  sets : OrderedMap String (Membership α)

namespace DomainConfig

variable {α : Type}

/-- The resolution of a description that names none. -/
def defaultRes [Scalar α] : α := 1.0

/-- Equality of descriptions. The order of the sets does not count. -/
instance [BEq α] : BEq (DomainConfig α) where
  beq c d := c.name == d.name && c.low == d.low && c.high == d.high && c.res == d.res &&
    c.sets.agrees (· == ·) d.sets

end DomainConfig

end FuzzyInference
