import ApiAtlas.Attributes
import ApiAtlas.Descriptor

/-!
# Rendering rules

A rule writes schema attributes for a descriptor of a table, in which it may look up what lies
inside the type. Rules are functions, so an integrator may use any;
`RuleExpr` is the language of those that a rule can be composed of without writing a function, and
`RuleExpr.rule` its meaning. Rules that run in order write over the same attributes, so a later one
overrides an earlier one.
-/

namespace ApiAtlas

/-- Writes attributes for a descriptor of a table over those that are there. -/
abbrev Rule := TypeTable → Descriptor → Attributes → Attributes

namespace Rule

/-- The attributes that a rule writes when there are none. -/
def run (r : Rule) (T : TypeTable) (d : Descriptor) : Attributes := r T d SortedMap.empty

/-- Changes nothing. -/
def nothing : Rule := fun _ _ a => a

/-- Sets `type` and, unless it is empty, `format`; a descriptor that may be null also gets
`nullable: true`. -/
def typed (schemaType format : String) : Rule := fun _ d a =>
  let a := a.insert "type" schemaType
  let a := if format = "" then a else a.insert "format" format
  if d.nullable then a.insert "nullable" "true" else a

/-- Copies the field's `default` tag, unless it is empty. -/
def copyDefault : Rule := fun _ d a =>
  match d.tag "default" with
  | some text => if text = "" then a else a.insert "default" text
  | none => a

/-- Runs rules in order over the same attributes. -/
def inOrder (rules : List Rule) : Rule := fun T d a => rules.foldl (fun a r => r T d a) a

/-- Sets one attribute. -/
def set (key value : String) : Rule := fun _ _ a => a.insert key value

/-- Removes one attribute. -/
def remove (key : String) : Rule := fun _ _ a => a.erase key

/-- Copies a tag of the field, even an empty one, to an attribute. -/
def copyTag (tag key : String) : Rule := fun _ d a =>
  match d.tag tag with
  | some text => a.insert key text
  | none => a

/-- Applies a rule to descriptors of one kind only. -/
def whenKind (k : Kind) (r : Rule) : Rule := fun T d a => if d.hasKind k then r T d a else a

/-! ## Built-in rules -/

/-- The primitives with a rule of their own, each with its schema type and format. -/
def builtinFormats : List (Primitive × String × String) :=
  [(.bool, "boolean", ""), (.i8, "integer", "int32"), (.i16, "integer", "int32"),
    (.i32, "integer", "int32"), (.i64, "integer", "int64"), (.i128, "integer", "int64"),
    (.isize, "integer", "int64"), (.u8, "integer", "int32"), (.u16, "integer", "int32"),
    (.u32, "integer", "int64"), (.u64, "integer", "int64"), (.u128, "integer", "int64"),
    (.usize, "integer", "int64"), (.f32, "number", "float"), (.f64, "number", "double"),
    (.char, "string", ""), (.string, "string", ""), (.str, "string", ""),
    (.dateTimeUtc, "string", "date-time"), (.dateTimeFixedOffset, "string", "date-time"),
    (.dateTimeLocal, "string", "date-time"), (.naiveDateTime, "string", "date-time"),
    (.naiveDate, "string", "date")]

/-- The rule that the type and format of a built-in type give; nothing for any other type. -/
def builtinBase (id : TypeId) : Rule :=
  match builtinFormats.find? (fun e => TypeExpr.primitive e.1 = id) with
  | some (_, schemaType, format) => typed schemaType format
  | none => nothing

/-- The built-in rule of a type, then the default value, then further rules. -/
def builtin (id : TypeId) (extra : List Rule) : Rule :=
  inOrder (builtinBase id :: copyDefault :: extra)

/-- The types with a built-in rule. -/
def builtinIds : List TypeId := builtinFormats.map fun e => .primitive e.1

end Rule

/-- A composed rule. -/
inductive RuleExpr where
  | nothing
  | copyDefault
  | typed (schemaType format : String)
  | inOrder (rules : List RuleExpr)
  | builtin (type : TypeExpr) (extra : List RuleExpr)
  | set (key value : String)
  | remove (key : String)
  | copyTag (tag key : String)
  | whenKind (k : Kind) (r : RuleExpr)

namespace RuleExpr

mutual

/-- The rule that an expression stands for. -/
def rule : RuleExpr → Rule
  | .nothing => Rule.nothing
  | .copyDefault => Rule.copyDefault
  | .typed schemaType format => Rule.typed schemaType format
  | .inOrder rs => Rule.inOrder (rules rs)
  | .builtin type extra => Rule.builtin type.core (rules extra)
  | .set key value => Rule.set key value
  | .remove key => Rule.remove key
  | .copyTag tag key => Rule.copyTag tag key
  | .whenKind k r => Rule.whenKind k r.rule

/-- The rules that a list of expressions stands for. -/
def rules : List RuleExpr → List Rule
  | [] => []
  | r :: rest => r.rule :: rules rest

end

end RuleExpr

end ApiAtlas
