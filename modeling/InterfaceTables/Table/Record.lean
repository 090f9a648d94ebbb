import InterfaceTables.Table.Constant

/-!
Documents in the vocabulary of the C tables: one record for each interface, with its symbol and the
constants of its fields.
-/

namespace InterfaceTables

structure MappingRecord where
  endpoint : String
  type : String
  reliability : String
  explicitTimestamp : String
  allowUnset : String
deriving DecidableEq

structure InterfaceRecord where
  symbol : String
  name : String
  versionMajor : Nat
  versionMinor : Nat
  kind : String
  ownership : String
  aggregation : String
  mappings : List MappingRecord
  source : Path
deriving DecidableEq

def Mapping.record (m : Mapping) : MappingRecord where
  endpoint := m.endpoint
  type := m.type.constant
  reliability := m.reliability.constant
  explicitTimestamp := boolConstant m.explicitTimestamp
  allowUnset := boolConstant m.allowUnset

def Document.record (d : Document) : InterfaceRecord where
  symbol := Symbol.sanitize d.name
  name := d.name
  versionMajor := d.versionMajor
  versionMinor := d.versionMinor
  kind := d.kind.constant
  ownership := d.ownership.constant
  aggregation := d.aggregation.constant
  mappings := d.mappings.map Mapping.record
  source := d.source

def InterfaceRecord.mappingsSymbol (r : InterfaceRecord) : String := Symbol.mappings r.symbol

def InterfaceRecord.mappingsLength (r : InterfaceRecord) : Nat := r.mappings.length

def InterfaceRecord.identifiers (r : InterfaceRecord) : List String := [r.symbol, r.mappingsSymbol]

end InterfaceTables
