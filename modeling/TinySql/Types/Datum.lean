import Mathlib
import TinySql.Lib.Float64Bits
import TinySql.Lib.GoInt

/-!
# Datums and field types

`types.Datum` of the kinds the model handles: the values of the integer, floating-point and string
types, `NULL`, and the two bounds `MinNotNull` and `MaxValue` of index ranges; with the parts of
`types.FieldType`, `CompareDatum` and `ConvertTo` that the modelled code reads. A byte is a
`Fin 256`, and strings compare as `bytes.Compare` does, lexicographically. A double is kept as its
bits, as the code's `Datum` keeps it, and compared as IEEE 754 says (`TinySql.Lib.Float64`).

Where a number meets a string the code goes through `StrToFloat` or `StrToInt`; the model orders
numbers below strings there and leaves the value as it is. `ConvertTo` of a double to an integer or
a string is not modelled either: the value is left as it is.
-/

namespace TinySql.Types

inductive FieldTp
  | tiny
  | short
  | int24
  | long
  | longlong
  | float
  | double
  | year
  | duration
  | varchar
  | varString
  | string
  | tinyBlob
  | mediumBlob
  | longBlob
  | blob
  deriving DecidableEq, Repr

/-- `mysql.IsIntegerType`. -/
def FieldTp.isInteger : FieldTp → Bool
  | .tiny | .short | .int24 | .long | .longlong => true
  | _ => false

structure FieldType where
  tp : FieldTp
  flag : Nat
  flen : Int
  charset : String
  collate : String
  deriving DecidableEq, Repr

def unspecifiedLength : Int := -1

def notNullFlag : Nat := 1
def unsignedFlag : Nat := 32
def binaryFlag : Nat := 128

def hasNotNullFlag (flag : Nat) : Bool := flag &&& notNullFlag > 0
def hasUnsignedFlag (flag : Nat) : Bool := flag &&& unsignedFlag > 0
def hasBinaryFlag (flag : Nat) : Bool := flag &&& binaryFlag > 0

def charsetUTF8 : String := "utf8"
def charsetUTF8MB4 : String := "utf8mb4"
def collationBin : String := "binary"

/-- The two settings of `stmtctx.StatementContext` the ranger reads. -/
structure StatementContext where
  inInsertStmt : Bool
  padCharToFullLength : Bool
  deriving DecidableEq, Repr

/-- `ShouldClipToZero`. -/
def StatementContext.shouldClipToZero (sc : StatementContext) : Bool :=
  sc.inInsertStmt

/-- `KindString` and `KindBytes` both hold bytes and are one kind here. `KindFloat32` holds the bits
of its value as a `float64`, as `SetFloat32` stores it. -/
inductive Datum
  | null
  | int64 (i : Int64)
  | uint64 (u : UInt64)
  | float32 (f : UInt64)
  | float64 (f : UInt64)
  | bytes (b : List (Fin 256))
  | minNotNull
  | maxValue
  deriving DecidableEq, Repr

def maxInt64AsUint : UInt64 := 0x7FFFFFFFFFFFFFFF

/-- `CompareFloat64`. -/
def compareFloat64 (x y : UInt64) : Ordering :=
  if Lib.Float64.lt x y then .lt else if Lib.Float64.beq x y then .eq else .gt

/-- `d.compareFloat64(f)`. -/
def Datum.compareFloat64 (d : Datum) (f : UInt64) : Ordering :=
  match d with
  | .null | .minNotNull => .lt
  | .maxValue => .gt
  | .int64 i => Types.compareFloat64 (Lib.Float64.ofInt64 i) f
  | .uint64 u => Types.compareFloat64 (Lib.Float64.ofUInt64 u) f
  | .float32 g | .float64 g => Types.compareFloat64 g f
  | .bytes _ => .gt

def compareInt64 (d : Datum) (i : Int64) : Ordering :=
  match d with
  | .maxValue => .gt
  | .int64 a => compare a i
  | .uint64 a => if i < 0 || a > maxInt64AsUint then .gt else compare a.toInt64 i
  | .null | .minNotNull => .lt
  | .float32 _ | .float64 _ => d.compareFloat64 (Lib.Float64.ofInt64 i)
  | .bytes _ => .gt

def compareUint64 (d : Datum) (u : UInt64) : Ordering :=
  match d with
  | .maxValue => .gt
  | .int64 a => if a < 0 || u > maxInt64AsUint then .lt else compare a u.toInt64
  | .uint64 a => compare a u
  | .null | .minNotNull => .lt
  | .float32 _ | .float64 _ => d.compareFloat64 (Lib.Float64.ofUInt64 u)
  | .bytes _ => .gt

def compareString (d : Datum) (s : List (Fin 256)) : Ordering :=
  match d with
  | .null | .minNotNull => .lt
  | .maxValue => .gt
  | .bytes b => compare b s
  | .int64 _ | .uint64 _ | .float32 _ | .float64 _ => .lt

/-- `d.CompareDatum(ad)`. -/
def compareDatum (d ad : Datum) : Ordering :=
  match ad with
  | .null => if d = .null then .eq else .gt
  | .minNotNull =>
    match d with
    | .null => .lt
    | .minNotNull => .eq
    | _ => .gt
  | .maxValue => if d = .maxValue then .eq else .lt
  | .int64 i => compareInt64 d i
  | .uint64 u => compareUint64 d u
  | .float32 f | .float64 f => d.compareFloat64 f
  | .bytes s => compareString d s

inductive ConvError
  | overflow (tp : FieldTp)
  deriving DecidableEq, Repr

def integerSignedLowerBound : FieldTp → Int
  | .tiny => -0x80
  | .short => -0x8000
  | .int24 => -0x800000
  | .long => -0x80000000
  | _ => -0x8000000000000000

def integerSignedUpperBound : FieldTp → Int
  | .tiny => 0x7F
  | .short => 0x7FFF
  | .int24 => 0x7FFFFF
  | .long => 0x7FFFFFFF
  | _ => 0x7FFFFFFFFFFFFFFF

def integerUnsignedUpperBound : FieldTp → Nat
  | .tiny => 0xFF
  | .short => 0xFFFF
  | .int24 => 0xFFFFFF
  | .long => 0xFFFFFFFF
  | _ => 0xFFFFFFFFFFFFFFFF

/-- `toSignedInteger` followed by `NewIntDatum`. -/
def convertToInt (d : Datum) (tp : FieldTp) : Except ConvError Datum :=
  match d with
  | .int64 v =>
    if v.toInt < integerSignedLowerBound tp then .error (.overflow tp)
    else if integerSignedUpperBound tp < v.toInt then .error (.overflow tp)
    else .ok (.int64 v)
  | .uint64 u =>
    if integerSignedUpperBound tp < u.toNat then .error (.overflow tp) else .ok (.int64 u.toInt64)
  | d => .ok d

def convertToUint (sc : StatementContext) (d : Datum) (tp : FieldTp) : Except ConvError Datum :=
  match d with
  | .int64 v =>
    if sc.shouldClipToZero && v < 0 then .error (.overflow tp)
    else if integerUnsignedUpperBound tp < v.toUInt64.toNat then .error (.overflow tp)
    else .ok (.uint64 v.toUInt64)
  | .uint64 u =>
    if integerUnsignedUpperBound tp < u.toNat then .error (.overflow tp) else .ok (.uint64 u)
  | d => .ok d

/-- The decimal digits of a number, `strconv.FormatInt` and `FormatUint`. -/
def decimalBytes (i : Int) : List (Fin 256) :=
  (toString i).toList.map fun c => Fin.ofNat 256 c.toNat

/-- `convertToString` at a target of unspecified length, which is what `newFieldType` makes. -/
def convertToString (d : Datum) : Datum :=
  match d with
  | .int64 v => .bytes (decimalBytes v.toInt)
  | .uint64 u => .bytes (decimalBytes u.toNat)
  | d => d

/-- `d.ConvertTo(sc, target)`. -/
def convertTo (sc : StatementContext) (d : Datum) (target : FieldType) : Except ConvError Datum :=
  match d with
  | .null => .ok .null
  | d =>
    if target.tp.isInteger then
      if hasUnsignedFlag target.flag then convertToUint sc d target.tp else convertToInt d target.tp
    else .ok (convertToString d)

/-- `Datum.ToString` of a constant. -/
def Datum.toBytes : Datum → Option (List (Fin 256))
  | .bytes b => some b
  | .int64 i => some (decimalBytes i.toInt)
  | .uint64 u => some (decimalBytes u.toNat)
  | _ => none

end TinySql.Types
