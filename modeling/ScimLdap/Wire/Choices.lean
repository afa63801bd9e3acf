import ScimLdap.Error
import ScimLdap.Search.Order
import ScimLdap.Wire.Fields

/-!
# Choices — the small enumerations in JSON

Each is written as the name of one of its values, and read under exactly that name.
-/

namespace ScimLdap

/-- The entity that a JSON value names. -/
def Entity.ofJson? : Json → Option Entity :=
  Wire.choice? Entity.name all

/-- The operator that a JSON value names. -/
def CompareOp.ofJson? : Json → Option CompareOp :=
  Wire.choice? CompareOp.keyword all

/-- The connective that a JSON value names. -/
def Connective.ofJson? : Json → Option Connective :=
  Wire.choice? Connective.keyword [.and, .or, .not]

/-- The order that a JSON value names. -/
def Search.SortOrder.ofJson? : Json → Option SortOrder :=
  Wire.choice? SortOrder.name [.ascending, .descending]

/-- The class of error that a JSON value names. -/
def ScimType.ofJson? : Json → Option ScimType :=
  Wire.choice? ScimType.name [.invalidFilter, .invalidValue]

end ScimLdap
