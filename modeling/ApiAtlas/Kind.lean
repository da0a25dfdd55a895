/-!
# Kinds

The categories of described types. A scalar kind renders through a rule; structs and slices have
structure of their own; maps and arbitrary values have neither fields nor items to show.
-/

namespace ApiAtlas

/-- The category of a type. -/
inductive Kind where
  | bool
  | i8
  | i16
  | i32
  | i64
  | i128
  | isize
  | u8
  | u16
  | u32
  | u64
  | u128
  | usize
  | f32
  | f64
  | char
  | string
  | struct
  | slice
  | map
  | any
deriving DecidableEq, Repr

namespace Kind

/-- All kinds, in the order of their declaration. -/
def all : List Kind :=
  [.bool, .i8, .i16, .i32, .i64, .i128, .isize, .u8, .u16, .u32, .u64, .u128, .usize, .f32, .f64,
    .char, .string, .struct, .slice, .map, .any]

/-- The name of a kind. -/
def name : Kind → String
  | .bool => "bool"
  | .i8 => "i8"
  | .i16 => "i16"
  | .i32 => "i32"
  | .i64 => "i64"
  | .i128 => "i128"
  | .isize => "isize"
  | .u8 => "u8"
  | .u16 => "u16"
  | .u32 => "u32"
  | .u64 => "u64"
  | .u128 => "u128"
  | .usize => "usize"
  | .f32 => "f32"
  | .f64 => "f64"
  | .char => "char"
  | .string => "string"
  | .struct => "struct"
  | .slice => "slice"
  | .map => "map"
  | .any => "any"

/-- The kind of a name. -/
def ofName? (name : String) : Option Kind := all.find? (·.name = name)

/-- Scalar kinds render through a rule rather than by structure. -/
def isScalar : Kind → Bool
  | .struct | .slice | .map | .any => false
  | _ => true

end Kind

end ApiAtlas
