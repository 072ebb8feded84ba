import NumericTrees.Text.Utf8
import NumericTrees.Value
import NumericTrees.Wire.Varint

/-!
# Byte form of values and types

Alternatives are numbered from zero and their number comes first, as a number of variable length.
Integers are alternating numbers of variable length, floating-point numbers are the bytes of their
words, a truth value is one byte, and a text is its length in bytes followed by its UTF-8 form. Each
of the four sorts of items numbers its own alternatives.
-/

namespace NumericTrees

open Wire

namespace Wire

/-- Writes the number of an alternative. -/
def encodeVariant (index : Nat) : List UInt8 := Varint.encode index

/-- Reads the number of an alternative. -/
def readVariant : Reader Nat := Varint.read 32

/-- Writes an integer. -/
def encodeInteger (n : Int) : List UInt8 := Varint.encode (zigzag n)

/-- Reads an integer of the given width in bits. -/
def readInteger (width : Nat) : Reader Int := unzigzag <$> Varint.read width

/-- Writes a floating-point number. -/
def encodeWord {f : Format} (x : Binary f) : List UInt8 := littleEndian f.wordBytes x.toBits

/-- Reads a floating-point number. -/
def readWord (f : Format) : Reader (Binary f) := do
  let bytes ← Reader.take f.wordBytes
  return .ofBits (ofLittleEndian bytes)

/-- Writes a truth value. -/
def encodeBool (b : Bool) : List UInt8 := [if b then 1 else 0]

/-- Reads a truth value. -/
def readBool : Reader Bool := do
  let b ← Reader.byte
  if b = 0 then return false
  else if b = 1 then return true
  else throw .badBool

/-- Writes a text. -/
def encodeText (s : String) : List UInt8 :=
  let bytes := Text.utf8 s
  Varint.encode bytes.length ++ bytes

/-- Reads a text. -/
def readText : Reader String := do
  let length ← Varint.read 64
  let bytes ← Reader.take length
  match Text.ofUtf8? bytes with
  | some s => return s
  | none => throw .badText

end Wire

namespace Kind

def encode (kind : Kind) : List UInt8 := encodeVariant kind.rank

def read : Reader Kind := do
  match ← readVariant with
  | 0 => return int32
  | 1 => return int64
  | 2 => return float32
  | 3 => return float64
  | _ => throw .unknownVariant

end Kind

namespace ValueType

def encode : ValueType → List UInt8
  | numeric kind => encodeVariant 0 ++ kind.encode
  | bool => encodeVariant 1
  | str => encodeVariant 2

def read : Reader ValueType := do
  match ← readVariant with
  | 0 => return numeric (← Kind.read)
  | 1 => return bool
  | 2 => return str
  | _ => throw .unknownVariant

end ValueType

namespace Number

def encode : Number → List UInt8
  | int32 n => encodeVariant 0 ++ encodeInteger n.toInt
  | int64 n => encodeVariant 1 ++ encodeInteger n.toInt
  | float32 x => encodeVariant 2 ++ encodeWord x
  | float64 x => encodeVariant 3 ++ encodeWord x

def read : Reader Number := do
  match ← readVariant with
  | 0 => return int32 (.ofInt (← readInteger 32))
  | 1 => return int64 (.ofInt (← readInteger 64))
  | 2 => return float32 (← readWord .single)
  | 3 => return float64 (← readWord .double)
  | _ => throw .unknownVariant

end Number

namespace Value

def encode : Value → List UInt8
  | number n => encodeVariant 0 ++ n.encode
  | bool b => encodeVariant 1 ++ encodeBool b
  | str s => encodeVariant 2 ++ encodeText s

def read : Reader Value := do
  match ← readVariant with
  | 0 => return number (← Number.read)
  | 1 => return bool (← readBool)
  | 2 => return str (← readText)
  | _ => throw .unknownVariant

end Value

end NumericTrees
