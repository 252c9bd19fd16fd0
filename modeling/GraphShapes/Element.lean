/-
GraphShapes.Element — element types of arrays.

An array is known here by its sizes and its element type, which has a name and
a size in bytes. By which spellings a type may be asked for is the matter of
`GraphShapes.Element.Spelling`.
-/
namespace GraphShapes

/-- The type of an array's elements. -/
structure Element where
  name : String
  /-- Bytes per element. -/
  size : Nat
  deriving DecidableEq, Repr, Inhabited

namespace Element

def bool : Element := ⟨"bool", 1⟩
def int8 : Element := ⟨"int8", 1⟩
def int16 : Element := ⟨"int16", 2⟩
def int32 : Element := ⟨"int32", 4⟩
def int64 : Element := ⟨"int64", 8⟩
def uint8 : Element := ⟨"uint8", 1⟩
def uint16 : Element := ⟨"uint16", 2⟩
def uint32 : Element := ⟨"uint32", 4⟩
def uint64 : Element := ⟨"uint64", 8⟩
def float16 : Element := ⟨"float16", 2⟩
def float32 : Element := ⟨"float32", 4⟩
def float64 : Element := ⟨"float64", 8⟩
def complex64 : Element := ⟨"complex64", 8⟩
def complex128 : Element := ⟨"complex128", 16⟩
def object : Element := ⟨"object", 8⟩

/-- Element types that are not those of a machine. Each has a byte of its own
or more, however few bits it needs. -/
def narrow : List Element :=
  [⟨"bfloat16", 2⟩, ⟨"complex32", 4⟩, ⟨"bcomplex32", 4⟩, ⟨"float8_e3m4", 1⟩,
   ⟨"float8_e4m3", 1⟩, ⟨"float8_e4m3b11fnuz", 1⟩, ⟨"float8_e4m3fn", 1⟩,
   ⟨"float8_e4m3fnuz", 1⟩, ⟨"float8_e5m2", 1⟩, ⟨"float8_e5m2fnuz", 1⟩,
   ⟨"float8_e8m0fnu", 1⟩, ⟨"float6_e2m3fn", 1⟩, ⟨"float6_e3m2fn", 1⟩, ⟨"float4_e2m1fn", 1⟩,
   ⟨"int1", 1⟩, ⟨"int2", 1⟩, ⟨"int4", 1⟩, ⟨"uint1", 1⟩, ⟨"uint2", 1⟩, ⟨"uint4", 1⟩]

end Element

end GraphShapes
