import ApiAtlas.Proofs.SortedMaps
import ApiAtlas.Rule

/-!
# Composed rules overwrite

A rule that is run again should leave everything as it is. That cannot be shown of a composed rule part
by part: one rule after another need not settle at once because each of the two does. What the parts do
have in common is stronger. Which keys a composed rule touches, and what it leaves under each of them, a
text or nothing, is decided by the descriptor alone; the attributes that are there already have no say.

Such an `Overwriting` is a map from keys to what becomes of them. One overwriting after another is again
one: where both touch a key, the later has the last word (`Turns.trans`). And what an overwriting has been
over once, it turns into itself (`Turns.again`).
-/

namespace ApiAtlas

/-- What becomes of each key: `some o` leaves `o` under it, be that a text or nothing, and `none` leaves
it alone. -/
abbrev Overwriting := String → Option (Option String)

namespace Overwriting

/-- No key is touched. -/
def untouched : Overwriting := fun _ => none

/-- One key is touched. -/
def under (key : String) (o : Option String) : Overwriting :=
  fun key' => if key' = key then some o else none

/-- One overwriting after another. -/
def before (w later : Overwriting) : Overwriting := fun key => (later key).or (w key)

/-- The overwriting turns the attributes `a` into `b`. -/
def Turns (w : Overwriting) (a b : Attributes) : Prop :=
  ∀ key, b.get? key = (w key).getD (a.get? key)

namespace Turns

variable {w later : Overwriting} {a b c : Attributes}

theorem refl (a : Attributes) : untouched.Turns a a := fun _ => rfl

theorem insert (a : Attributes) (key value : String) :
    (under key (some value)).Turns a (a.insert key value) := by
  intro key'
  rw [SortedMap.get?_insert, under]
  split
  · rfl
  · rfl

theorem erase (a : Attributes) (key : String) : (under key none).Turns a (a.erase key) := by
  intro key'
  rw [SortedMap.get?_erase, under]
  split
  · rfl
  · rfl

/-- Where the later overwriting leaves a key alone, the earlier one has decided. -/
theorem trans (h : w.Turns a b) (h' : later.Turns b c) : (w.before later).Turns a c := by
  intro key
  rw [h' key, h key, before]
  cases later key with
  | some o => rfl
  | none => rfl

/-- There is one result. -/
theorem unique (h : w.Turns a b) (h' : w.Turns a c) : b = c := by
  refine SortedMap.ext_get? fun key => ?_
  rw [h key, h' key]

/-- A key that was touched holds what it is to hold, and the others are left alone again. -/
theorem again (h : w.Turns a b) : w.Turns b b := by
  intro key
  have hkey := h key
  cases hw : w key with
  | none => rfl
  | some o =>
    rw [hw] at hkey
    exact hkey

end Turns

end Overwriting

/-- A change of attributes that is an overwriting, whatever the attributes are. -/
def Overwrites (f : Attributes → Attributes) : Prop :=
  ∃ w : Overwriting, ∀ a, w.Turns a (f a)

namespace Overwrites

open Overwriting (Turns)

variable {f g : Attributes → Attributes}

theorem id : Overwrites fun a => a := ⟨_, Turns.refl⟩

theorem insert (key value : String) : Overwrites fun a => a.insert key value :=
  ⟨_, fun a => Turns.insert a key value⟩

theorem erase (key : String) : Overwrites fun a => a.erase key := ⟨_, fun a => Turns.erase a key⟩

theorem comp (hf : Overwrites f) (hg : Overwrites g) : Overwrites fun a => g (f a) := by
  obtain ⟨w, hw⟩ := hf
  obtain ⟨later, hlater⟩ := hg
  exact ⟨w.before later, fun a => (hw a).trans (hlater (f a))⟩

/-- A choice that does not look at the attributes. -/
theorem ite {p : Prop} [Decidable p] (hf : Overwrites f) (hg : Overwrites g) :
    Overwrites fun a => if p then f a else g a := by
  by_cases hp : p
  · simpa only [if_pos hp] using hf
  · simpa only [if_neg hp] using hg

theorem foldl {α : Type} {step : α → Attributes → Attributes} {l : List α}
    (h : ∀ x ∈ l, Overwrites (step x)) : Overwrites fun a => l.foldl (fun a x => step x a) a := by
  induction l with
  | nil => exact id
  | cons x rest ih =>
    have hx : Overwrites (step x) := h x List.mem_cons_self
    have hrest := ih fun y hy => h y (List.mem_cons_of_mem _ hy)
    exact hx.comp hrest

/-- **What overwrites is idempotent.** -/
theorem idempotent (h : Overwrites f) (a : Attributes) : f (f a) = f a := by
  obtain ⟨w, hw⟩ := h
  have hagain : w.Turns (f a) (f a) := (hw a).again
  exact (hw (f a)).unique hagain

end Overwrites

/-! ## Rules -/

namespace Rule

variable {T : TypeTable} {d : Descriptor}

theorem overwrites_typed (schemaType format : String) : Overwrites (typed schemaType format T d) := by
  have htype : Overwrites fun a => a.insert "type" schemaType := .insert _ _
  have hformat : Overwrites fun a => if format = "" then a else a.insert "format" format :=
    .ite .id (.insert _ _)
  have hnullable : Overwrites fun a => if d.nullable then a.insert "nullable" "true" else a :=
    .ite (.insert _ _) .id
  exact (htype.comp hformat).comp hnullable

theorem overwrites_copyDefault : Overwrites (copyDefault T d) := by
  unfold copyDefault
  cases d.tag "default" with
  | none => exact .id
  | some text => exact .ite .id (.insert _ _)

theorem overwrites_copyTag (tag key : String) : Overwrites (copyTag tag key T d) := by
  unfold copyTag
  cases d.tag tag with
  | none => exact .id
  | some text => exact .insert _ _

theorem overwrites_whenKind (k : Kind) {r : Rule} (h : Overwrites (r T d)) :
    Overwrites (whenKind k r T d) :=
  .ite h .id

theorem overwrites_inOrder {rules : List Rule} (h : ∀ r ∈ rules, Overwrites (r T d)) :
    Overwrites (inOrder rules T d) :=
  .foldl h

theorem overwrites_builtin (id : TypeId) {extra : List Rule} (h : ∀ r ∈ extra, Overwrites (r T d)) :
    Overwrites (builtin id extra T d) := by
  have hbase : Overwrites (builtinBase id T d) := by
    unfold builtinBase
    cases builtinFormats.find? fun e => TypeExpr.primitive e.1 = id with
    | some entry => exact overwrites_typed _ _
    | none => exact .id
  refine overwrites_inOrder fun r hr => ?_
  rcases List.mem_cons.1 hr with rfl | hr
  · exact hbase
  · rcases List.mem_cons.1 hr with rfl | hr
    · exact overwrites_copyDefault
    · exact h r hr

end Rule

/-! ## Composed rules -/

namespace RuleExpr

mutual

/-- A composed rule overwrites. -/
theorem overwrites (T : TypeTable) (d : Descriptor) : ∀ e : RuleExpr, Overwrites (e.rule T d)
  | .nothing => .id
  | .copyDefault => Rule.overwrites_copyDefault
  | .typed schemaType format => Rule.overwrites_typed schemaType format
  | .inOrder rs => Rule.overwrites_inOrder (overwrites_of_mem_rules T d rs)
  | .builtin type extra => Rule.overwrites_builtin type.core (overwrites_of_mem_rules T d extra)
  | .set key value => .insert key value
  | .remove key => .erase key
  | .copyTag tag key => Rule.overwrites_copyTag tag key
  | .whenKind k r => Rule.overwrites_whenKind k (r.overwrites T d)

theorem overwrites_of_mem_rules (T : TypeTable) (d : Descriptor) :
    ∀ es : List RuleExpr, ∀ r ∈ rules es, Overwrites (r T d)
  | [] => fun r hr => by cases hr
  | e :: rest => fun r hr => by
    rcases List.mem_cons.1 hr with rfl | hr
    · exact e.overwrites T d
    · exact overwrites_of_mem_rules T d rest r hr

end

/-- **Composed rules are idempotent.** For a descriptor, a composed rule puts texts under some keys,
removes some and leaves the others alone, and which and what does not depend on the attributes; so it
makes no difference whether it is run once or twice, whatever it starts from. -/
theorem composed_rules_idempotent (e : RuleExpr) (T : TypeTable) (d : Descriptor) :
    (∃ w : Overwriting, ∀ a, w.Turns a (e.rule T d a))
      ∧ ∀ a, e.rule T d (e.rule T d a) = e.rule T d a :=
  ⟨e.overwrites T d, (e.overwrites T d).idempotent⟩

end RuleExpr

end ApiAtlas
