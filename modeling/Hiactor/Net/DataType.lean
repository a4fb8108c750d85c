import Hiactor.Net.Response

/-!
# Basic data types

Model of the types of `util/data_type.hh` as they go through a queue of buffers: integers, booleans,
the empty type and strings. What a load reads outside of its buffer has no result.
-/

namespace Hiactor

open Lib

/-- A type of `SerializablePrimitive`: its size, and the bytes of its values in memory. -/
structure Primitive (α : Type) where
  size : Nat
  bytes : α → List UInt8
  read : List UInt8 → Option α
  size_eq : ∀ val, (bytes val).length = size
  read_bytes : ∀ val, read (bytes val) = some val

namespace Primitive

variable {α : Type} (type : Primitive α)

def dumpTo (val : α) (qu : SerializableQueue) : SerializableQueue := qu.push (type.bytes val)

/-- The value at the start of a buffer. -/
def ofBuffer (buf : Buffer) : Option α :=
  if type.size ≤ buf.length then type.read (buf.take type.size) else none

def loadFrom (qu : SerializableQueue) : Option (α × SerializableQueue) :=
  (type.ofBuffer qu.pop.1).map fun val => (val, qu.pop.2)

end Primitive

theorem int_read_bytes (val : Int32) :
    (UInt32.ofNat (leNat (leBytes 4 val.toUInt32.toNat))).toInt32 = val := by
  have small : val.toUInt32.toNat % 256 ^ 4 = val.toUInt32.toNat :=
    Nat.mod_eq_of_lt val.toUInt32.toNat_lt
  rw [leNat_leBytes, small, UInt32.ofNat_toNat]
  rfl

/-- `int`. -/
def Integer : Primitive Int32 where
  size := 4
  bytes val := leBytes 4 val.toUInt32.toNat
  read bs := some (UInt32.ofNat (leNat bs)).toInt32
  size_eq _ := length_leBytes _ _
  read_bytes val := congrArg some (int_read_bytes val)

/-- `bool`: its byte is 1 or 0. -/
def Boolean : Primitive Bool where
  size := 1
  bytes val := [if val then 1 else 0]
  read bs := if bs = [1] then some true else if bs = [0] then some false else none
  size_eq _ := rfl
  read_bytes := by decide

/-- A value in memory. -/
inductive DataObject where
  | integer (val : Int32)
  | boolean (val : Bool)
  | void
  | string (s : SimpleString)

/-- The type of a value. -/
inductive DataKind where
  | integer
  | boolean
  | void
  | string
  deriving DecidableEq, Repr

/-- What a value is, wherever it is in memory. -/
inductive DataValue where
  | integer (val : Int32)
  | boolean (val : Bool)
  | void
  | string (text : List UInt8)
  deriving DecidableEq, Repr

namespace DataObject

def kind : DataObject → DataKind
  | .integer _ => .integer
  | .boolean _ => .boolean
  | .void => .void
  | .string _ => .string

def value : DataObject → DataValue
  | .integer val => .integer val
  | .boolean val => .boolean val
  | .void => .void
  | .string s => .string s.text

/-- `dump_to` of each type. -/
def dumpTo (qu : SerializableQueue) : DataObject → SerializableQueue
  | .integer val => Integer.dumpTo val qu
  | .boolean val => Boolean.dumpTo val qu
  | .void => qu
  | .string s => s.dumpTo.foldl SerializableQueue.push qu

end DataObject

/-- `load_from` of each type. -/
def DataKind.loadFrom (qu : SerializableQueue) : DataKind → Option (DataValue × SerializableQueue)
  | .integer => (Integer.loadFrom qu).map fun (val, qu) => (.integer val, qu)
  | .boolean => (Boolean.loadFrom qu).map fun (val, qu) => (.boolean val, qu)
  | .void => some (.void, qu)
  | .string => some (.string qu.pop.1, qu.pop.2)

/-- The values are dumped one after the other. -/
def dumpAll (objects : List DataObject) (qu : SerializableQueue) : SerializableQueue :=
  objects.foldl DataObject.dumpTo qu

def loadAll : List DataKind → SerializableQueue → Option (List DataValue × SerializableQueue)
  | [], qu => some ([], qu)
  | kind :: kinds, qu =>
    (kind.loadFrom qu).bind fun (val, qu) =>
      (loadAll kinds qu).map fun (vals, qu) => (val :: vals, qu)

end Hiactor
