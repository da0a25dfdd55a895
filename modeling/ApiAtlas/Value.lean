import ApiAtlas.Numeral.Binary64

/-!
# Document values

The tree that a document is before it becomes text. A mapping is a list, because the order of its
entries is part of the output. The two text formats are `Value.json` and `Value.yaml`.
-/

namespace ApiAtlas

/-- A value of a JSON or YAML document. -/
inductive Value where
  | bool (b : Bool)
  | int (i : Int)
  | float (x : Binary64)
  | str (s : String)
  | seq (items : List Value)
  | map (entries : List (String × Value))

namespace Value

instance : Inhabited Value := ⟨.map []⟩

instance : Coe String Value := ⟨.str⟩

/-- A list of texts. -/
def strs (l : List String) : Value := .seq (l.map .str)

/-- The entry of a mapping that is present exactly when its value is. -/
def optionally (key : String) (v : Option Value) : List (String × Value) :=
  match v with
  | some v => [(key, v)]
  | none => []

end Value

end ApiAtlas
