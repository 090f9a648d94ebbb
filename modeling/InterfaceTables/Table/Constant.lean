import InterfaceTables.Interface.Document
import InterfaceTables.Table.Symbol

/-!
The C constants that stand for the words of a document.
-/

namespace InterfaceTables

def InterfaceKind.constant (k : InterfaceKind) : String :=
  "ASTARTE_INTERFACE_TYPE_" ++ Symbol.upper k.tag

def Ownership.constant (o : Ownership) : String :=
  "ASTARTE_INTERFACE_OWNERSHIP_" ++ Symbol.upper o.tag

def Aggregation.constant (a : Aggregation) : String :=
  "ASTARTE_INTERFACE_AGGREGATION_" ++ Symbol.upper a.tag

def Reliability.constant (r : Reliability) : String :=
  "ASTARTE_MAPPING_RELIABILITY_" ++ Symbol.upper r.tag

def ValueType.constant (t : ValueType) : String :=
  "ASTARTE_MAPPING_TYPE_" ++ Symbol.upper t.tag

def boolConstant (b : Bool) : String := if b then "true" else "false"

end InterfaceTables
