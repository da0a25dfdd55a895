import ApiAtlas.Kind

/-!
# Type expressions

The types that a document describes, as they are written: primitives, types defined by the user and
named by a key, and the wrappers around them. `TypeExpr.core` strips the wrappers that leave no
trace in a document; two expressions with the same core are the same type, which is why the core
serves as the identity of a type.
-/

namespace ApiAtlas

/-- The types with a description of their own. The three kinds of zoned timestamp are three types
with one name. -/
inductive Primitive where
  | bool
  | i8
  | i16
  | i32
  | i64
  | i128
  | isize
  | u8
  | u16
  | u32
  | u64
  | u128
  | usize
  | f32
  | f64
  | char
  | string
  | str
  | value
  | jsonMap
  | dateTimeUtc
  | dateTimeFixedOffset
  | dateTimeLocal
  | naiveDateTime
  | naiveDate
deriving DecidableEq, Repr

/-- Owning pointers, which have no trace in a document. -/
inductive Pointer where
  | box
  | rc
  | arc
deriving DecidableEq, Repr

/-- Sequences without a length. -/
inductive Sequence where
  | vec
  | deque
  | hashSet
  | btreeSet
deriving DecidableEq, Repr

/-- Dictionaries with text keys. -/
inductive Dictionary where
  | hash
  | btree
deriving DecidableEq, Repr

/-- A type as it is written. `empty` stands for no type at all. -/
inductive TypeExpr where
  | empty
  | primitive (p : Primitive)
  | named (key : String)
  | option (inner : TypeExpr)
  | pointer (p : Pointer) (inner : TypeExpr)
  | sequence (s : Sequence) (item : TypeExpr)
  | array (item : TypeExpr) (length : Nat)
  | dictionary (d : Dictionary) (value : TypeExpr)
deriving DecidableEq, Repr

namespace Primitive

/-- All primitives in order of declaration. -/
def all : List Primitive :=
  [.bool, .i8, .i16, .i32, .i64, .i128, .isize, .u8, .u16, .u32, .u64, .u128, .usize, .f32, .f64,
    .char, .string, .str, .value, .jsonMap, .dateTimeUtc, .dateTimeFixedOffset, .dateTimeLocal,
    .naiveDateTime, .naiveDate]

/-- The category of a primitive. Timestamps are structs without fields: only a rule gives them a
form. -/
def kind : Primitive → Kind
  | .bool => .bool
  | .i8 => .i8
  | .i16 => .i16
  | .i32 => .i32
  | .i64 => .i64
  | .i128 => .i128
  | .isize => .isize
  | .u8 => .u8
  | .u16 => .u16
  | .u32 => .u32
  | .u64 => .u64
  | .u128 => .u128
  | .usize => .usize
  | .f32 => .f32
  | .f64 => .f64
  | .char => .char
  | .string | .str => .string
  | .value => .any
  | .jsonMap => .map
  | .dateTimeUtc | .dateTimeFixedOffset | .dateTimeLocal | .naiveDateTime | .naiveDate => .struct

/-- How a type expression spells a primitive. -/
def spelling : Primitive → String
  | .string => "String"
  | .str => "&str"
  | .value => "Value"
  | .jsonMap => "JsonMap"
  | .dateTimeUtc => "DateTime<Utc>"
  | .dateTimeFixedOffset => "DateTime<FixedOffset>"
  | .dateTimeLocal => "DateTime<Local>"
  | .naiveDateTime => "NaiveDateTime"
  | .naiveDate => "NaiveDate"
  | p => p.kind.name

/-- The primitive of a spelling. -/
def ofSpelling? (s : String) : Option Primitive := all.find? (·.spelling = s)

/-- The declared name, which only the timestamps have. -/
def name? : Primitive → Option String
  | .dateTimeUtc | .dateTimeFixedOffset | .dateTimeLocal => some "DateTime"
  | .naiveDateTime => some "NaiveDateTime"
  | .naiveDate => some "NaiveDate"
  | _ => none

/-- The full name, for diagnostics. -/
def fullName : Primitive → String
  | .string => "alloc::string::String"
  | .str => "&str"
  | .value => "serde_json::value::Value"
  | .jsonMap => "serde_json::map::Map<alloc::string::String, serde_json::value::Value>"
  | .dateTimeUtc => "chrono::datetime::DateTime<chrono::offset::utc::Utc>"
  | .dateTimeFixedOffset => "chrono::datetime::DateTime<chrono::offset::fixed::FixedOffset>"
  | .dateTimeLocal => "chrono::datetime::DateTime<chrono::offset::local::Local>"
  | .naiveDateTime => "chrono::naive::datetime::NaiveDateTime"
  | .naiveDate => "chrono::naive::date::NaiveDate"
  | p => p.kind.name

end Primitive

/-- The primitive that owns the fallback rule of a kind. -/
def Kind.canonical? : Kind → Option Primitive
  | .bool => some .bool
  | .i8 => some .i8
  | .i16 => some .i16
  | .i32 => some .i32
  | .i64 => some .i64
  | .i128 => some .i128
  | .isize => some .isize
  | .u8 => some .u8
  | .u16 => some .u16
  | .u32 => some .u32
  | .u64 => some .u64
  | .u128 => some .u128
  | .usize => some .usize
  | .f32 => some .f32
  | .f64 => some .f64
  | .char => some .char
  | .string => some .string
  | .struct | .slice | .map | .any => none

/-- The full name of a pointer, for diagnostics. -/
def Pointer.fullName : Pointer → String
  | .box => "alloc::boxed::Box"
  | .rc => "alloc::rc::Rc"
  | .arc => "alloc::sync::Arc"

/-- The full name of a sequence, for diagnostics. -/
def Sequence.fullName : Sequence → String
  | .vec => "alloc::vec::Vec"
  | .deque => "alloc::collections::vec_deque::VecDeque"
  | .hashSet => "std::collections::hash::set::HashSet"
  | .btreeSet => "alloc::collections::btree::set::BTreeSet"

/-- The full name of a dictionary, for diagnostics. -/
def Dictionary.fullName : Dictionary → String
  | .hash => "std::collections::hash::map::HashMap"
  | .btree => "alloc::collections::btree::map::BTreeMap"

/-- The identity of a type: the core of an expression that names it. -/
abbrev TypeId := TypeExpr

namespace TypeExpr

/-- The expression without the options and pointers around it. -/
def core : TypeExpr → TypeId
  | .option t => t.core
  | .pointer _ t => t.core
  | t => t

/-- Whether an option is among the options and pointers around the core. -/
def isOptional : TypeExpr → Bool
  | .option _ => true
  | .pointer _ t => t.isOptional
  | _ => false

@[simp]
theorem core_core (t : TypeExpr) : t.core.core = t.core := by
  induction t <;> simp_all [core]

/-- A kind's canonical primitive is of that kind. -/
theorem kind_of_canonical? {k : Kind} {p : Primitive} (h : k.canonical? = some p) : p.kind = k := by
  cases k <;> simp [Kind.canonical?] at h <;> subst h <;> rfl

end TypeExpr

end ApiAtlas
