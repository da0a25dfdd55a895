import ApiAtlas.Element
import ApiAtlas.Registry
import ApiAtlas.Members

/-!
# Components

The structs that a document describes once and refers to by name. They are found by a walk from the
roots, depth first, through slices and visible fields; data types, and all that is not a struct, end
it. What is found goes through five stages, which drop empty descriptors, open slices, keep the
first of each type, leave out what cannot be referred to, and sort by name. Two components of one
name are an error, since a reference could mean either.
-/

namespace ApiAtlas

namespace TypeTable

variable (T : TypeTable) (R : Registry)

/-- The descriptor at the bottom of all slices, those with a rule of their own included. -/
def bottom (d : Descriptor) : Descriptor := (T.peel (fun _ => false) d).2

/-- Whether there is no bottom: the slices never come to an end. -/
def isBottomless (d : Descriptor) : Bool := T.leadsOn (fun _ => false) (T.bottom d)

/-- The struct that a walk enters at a descriptor, unless it is a data type. -/
def enterable? (d : Descriptor) : Option TypeFacts :=
  d.facts.filter fun i => i.kind = .struct && !R.hasTypeRule d

theorem facts_of_enterable? {R : Registry} {d : Descriptor} {i : TypeFacts}
    (h : enterable? R d = some i) : d.facts = some i := by
  simp only [enterable?, Option.filter_eq_some_iff] at h
  exact h.1

/-- The structs that a walk meets for the first time, in order, when it goes through the given
descriptors one after the other and has met the types in `visited` before. -/
def discoverFrom (visited : List TypeId) : List Descriptor → Except Error (List Descriptor)
  | [] => .ok []
  | d :: rest =>
    if T.isBottomless d then .error .noEnd
    else match _he : enterable? R (T.bottom d) with
      | none => discoverFrom visited rest
      | some i =>
        if i.id ∈ visited then discoverFrom visited rest
        else match _hf : T.members (T.bottom d) with
          | .error e => .error e
          | .ok fields => do
            let later ← discoverFrom (i.id :: visited) (fields ++ rest)
            return T.bottom d :: later
termination_by pending => (unvisited T.structIds visited, pending.length)
decreasing_by
  · exact Prod.Lex.right _ (by simp)
  · exact Prod.Lex.right _ (by simp)
  -- the fields of a struct of the table may be many, but it is entered only this once
  · by_cases hnil : T.fields i.id = []
    · cases (members_of_fields_eq_nil (facts_of_enterable? _he) hnil).symm.trans _hf
      rcases Nat.lt_or_eq_of_le (unvisited_cons_le T.structIds visited i.id) with hlt | heq
      · exact Prod.Lex.left _ _ hlt
      · rw [heq]; exact Prod.Lex.right _ (by simp)
    · exact Prod.Lex.left _ _ (unvisited_cons_lt (mem_structIds_of_fields hnil) ‹_›)

/-- The structs that a walk from the roots meets, each once, in order of discovery. -/
def discover (roots : List Descriptor) : Except Error (List Descriptor) :=
  T.discoverFrom R [] roots

/-! ## From what is found to what is listed -/

/-- All but the empty descriptors. -/
def compact (ds : List Descriptor) : List Descriptor := ds.filter fun d => !d.isEmpty

/-- What lies at the bottom of each. -/
def flattenSlices (ds : List Descriptor) : Except Error (List Descriptor) :=
  if ds.any T.isBottomless then .error .noEnd else .ok (ds.map T.bottom)

/-- The first of each type, but for the types in `seen`. -/
def distinctFrom (seen : List TypeId) : List Descriptor → List Descriptor
  | [] => []
  | d :: rest => match d.id? with
    | none => distinctFrom seen rest
    | some id =>
      if id ∈ seen then distinctFrom seen rest else d :: distinctFrom (id :: seen) rest

/-- The first of each type. -/
def distinct (ds : List Descriptor) : List Descriptor := distinctFrom [] ds

/-- Whether a struct can be referred to by name. -/
def isReferable (d : Descriptor) : Bool := d.name?.isSome && d.isExported

/-- What can be referred to; all else is expanded in place. -/
def removeUnreferable (ds : List Descriptor) : List Descriptor := ds.filter isReferable

/-- The name by which components are sorted. -/
def sortName (d : Descriptor) : String := d.name?.getD ""

/-- Sorted by name; of two with one name, the one that stood first. -/
def sortByName (ds : List Descriptor) : List Descriptor :=
  ds.mergeSort fun a b => sortName a ≤ sortName b

/-- The structs that can be referred to, by name. -/
def byName (ds : List Descriptor) : List Descriptor := sortByName (removeUnreferable ds)

/-- The first two neighbours that share a name. -/
def collision? : List Descriptor → Option Error
  | a :: b :: rest =>
    if sortName a = sortName b then
      some (.nameClash (sortName a) a.fullName b.fullName)
    else collision? (b :: rest)
  | _ => none

/-- The components of a document whose responses have these bodies. -/
def components (roots : List Descriptor) : Except Error (List Descriptor) := do
  let found ← T.discover R roots
  let flat ← T.flattenSlices (compact found)
  let listed := byName (distinct flat)
  match collision? listed with
  | some e => .error e
  | none => .ok listed

end TypeTable

end ApiAtlas
