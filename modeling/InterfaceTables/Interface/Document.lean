import InterfaceTables.Path

/-!
Interface documents: an interface has a name, a version, a kind, an owner, an aggregation and a
list of mappings. Every choice among fixed words is a closed type with its spelling beside it.
-/

namespace InterfaceTables

inductive InterfaceKind where
  | datastream
  | properties
deriving DecidableEq

inductive Ownership where
  | device
  | server
deriving DecidableEq

inductive Aggregation where
  | individual
  | object
deriving DecidableEq

inductive Reliability where
  | unreliable
  | guaranteed
  | unique
deriving DecidableEq

inductive ItemType where
  | double
  | integer
  | boolean
  | longInteger
  | string
  | binaryBlob
  | dateTime
deriving DecidableEq

structure ValueType where
  item : ItemType
  isArray : Bool
deriving DecidableEq

def InterfaceKind.tag : InterfaceKind → String
  | .datastream => "datastream"
  | .properties => "properties"

def Ownership.tag : Ownership → String
  | .device => "device"
  | .server => "server"

def Aggregation.tag : Aggregation → String
  | .individual => "individual"
  | .object => "object"

def Reliability.tag : Reliability → String
  | .unreliable => "unreliable"
  | .guaranteed => "guaranteed"
  | .unique => "unique"

def ItemType.tag : ItemType → String
  | .double => "double"
  | .integer => "integer"
  | .boolean => "boolean"
  | .longInteger => "longinteger"
  | .string => "string"
  | .binaryBlob => "binaryblob"
  | .dateTime => "datetime"

def ValueType.tag (t : ValueType) : String :=
  if t.isArray then t.item.tag ++ "array" else t.item.tag

def InterfaceKind.all : List InterfaceKind := [.datastream, .properties]
def Ownership.all : List Ownership := [.device, .server]
def Aggregation.all : List Aggregation := [.individual, .object]
def Reliability.all : List Reliability := [.unreliable, .guaranteed, .unique]
def ItemType.all : List ItemType :=
  [.double, .integer, .boolean, .longInteger, .string, .binaryBlob, .dateTime]
def ValueType.all : List ValueType :=
  ItemType.all.map (⟨·, false⟩) ++ ItemType.all.map (⟨·, true⟩)

def InterfaceKind.ofTag? (tag : String) : Option InterfaceKind := all.find? (·.tag == tag)
def Ownership.ofTag? (tag : String) : Option Ownership := all.find? (·.tag == tag)
def Aggregation.ofTag? (tag : String) : Option Aggregation := all.find? (·.tag == tag)
def Reliability.ofTag? (tag : String) : Option Reliability := all.find? (·.tag == tag)
def ValueType.ofTag? (tag : String) : Option ValueType := all.find? (·.tag == tag)

/-- Documents may also give a reliability by its number. -/
def Reliability.ofLevel? : Nat → Option Reliability
  | 0 => some .unreliable
  | 1 => some .guaranteed
  | 2 => some .unique
  | _ => none

structure Mapping where
  endpoint : String
  type : ValueType
  reliability : Reliability
  explicitTimestamp : Bool
  allowUnset : Bool
deriving DecidableEq

structure Document where
  name : String
  versionMajor : Nat
  versionMinor : Nat
  kind : InterfaceKind
  ownership : Ownership
  aggregation : Aggregation
  mappings : List Mapping
  source : Path
deriving DecidableEq

end InterfaceTables
