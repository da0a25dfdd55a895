import Mathlib.Logic.Relation
import ApiAtlas.Proofs.Slices

/-!
# Grounded tables

A slice holds its element and a newtype holds its inner type. On a table where no type comes to hold
itself in this way, there is a bottom to every type: all that was entered before holds what is entered
now (`Entered`), and so is none of it. The lists of types that have been entered, by which
`underlyingFrom` and `peelFrom` tell what has no end, never stop them there.
-/

namespace ApiAtlas.TypeTable

open Relation (TransGen)

variable {T : TypeTable}

/-- One type is inside another one with nothing but a slice or a new name around it. -/
inductive Holds (T : TypeTable) : TypeId → TypeId → Prop where
  | element {id : TypeId} {item : TypeExpr} : T.kind? id = some .slice →
      T.element? id = some item → Holds T id item.core
  | newtype {key : String} {inner : TypeExpr} : T.newtype? key = some inner →
      Holds T (.named key) inner.core

/-- No type is its own element through slices and newtypes alone. -/
def Grounded (T : TypeTable) : Prop := ∀ id, ¬ TransGen T.Holds id id

theorem kind?_core (t : TypeExpr) : T.kind? t.core = T.kind? t := by
  simp only [kind?, underlying_core]

/-- A wrapper is larger than what it holds, so only a defined type can hold itself. -/
theorem grounded_of_named (h : ∀ key id, ¬ T.Holds (.named key) id) : T.Grounded := by
  -- what holds something is no defined type, not even behind options and pointers
  have hdepth : ∀ a b, T.Holds a b → b.depth < a.depth := by
    intro a b hab
    cases hab with
    | @element _ item hk he =>
      have hcore : ∀ key, a.core ≠ .named key := by
        intro key hkey
        refine h key item.core (.element ?_ ?_)
        · rw [← hkey, kind?_core, hk]
        · rw [← hkey, element?_core, he]
      have hlt := depth_element?_lt hk he hcore
      have hle := item.depth_core_le
      omega
    | newtype hn => exact absurd (.newtype hn) (h _ _)
  intro id hcycle
  have hlt : ∀ b, TransGen T.Holds id b → b.depth < id.depth := by
    intro b hb
    induction hb with
    | single hab => exact hdepth _ _ hab
    | tail _ hbc ih => exact Nat.lt_trans (hdepth _ _ hbc) ih
  exact Nat.lt_irrefl _ (hlt id hcycle)

/-! ## Types that have been entered -/

/-- All types that have been entered hold this one. -/
def Entered (T : TypeTable) (visited : List String) (t : TypeExpr) : Prop :=
  ∀ key ∈ visited, TransGen T.Holds (.named key) t.core

theorem Entered.nil (t : TypeExpr) : T.Entered [] t := by
  intro key hkey
  cases hkey

section Entered

variable {visited : List String} {t : TypeExpr}

theorem Entered.not_mem (h : T.Entered visited t) (hT : T.Grounded) {key : String}
    (hkey : t.core = .named key) : key ∉ visited := by
  intro hmem
  have hcycle := h key hmem
  rw [hkey] at hcycle
  exact hT _ hcycle

theorem Entered.newtype (h : T.Entered visited t) {key : String} {inner : TypeExpr}
    (hkey : t.core = .named key) (hn : T.newtype? key = some inner) :
    T.Entered (key :: visited) inner := by
  intro k hk
  rcases List.mem_cons.1 hk with rfl | hk
  · exact .single (.newtype hn)
  · refine (h k hk).tail ?_
    rw [hkey]
    exact .newtype hn

theorem Entered.element (h : T.Entered visited t) {item : TypeExpr} {visited' : List String}
    (hkind : T.kind? t = some .slice) (he : T.item? t = some item)
    (hv : T.enter? visited t.core = some visited') : T.Entered visited' item := by
  have hstep : T.Holds t.core item.core :=
    .element (by rw [kind?_core, hkind]) (by rw [element?_core, (item?_eq_some.1 he).1])
  intro k hk
  cases hcore : t.core with
  | named key =>
    rw [hcore, enter?] at hv
    split at hv
    · cases hv
      rw [hcore] at hstep
      rcases List.mem_cons.1 hk with rfl | hk
      · exact .single hstep
      · have hbefore := h k hk
        rw [hcore] at hbefore
        exact hbefore.tail hstep
    · cases hv
  | _ =>
    rw [hcore, enter?] at hv
    · cases hv
      exact (h k hk).tail hstep
    all_goals simp

/-- The element of a slice can always be entered. -/
theorem Entered.exists_enter? (h : T.Entered visited t) (hT : T.Grounded) {item : TypeExpr}
    (he : T.item? t = some item) : ∃ visited', T.enter? visited t.core = some visited' := by
  obtain ⟨visited', hv, _⟩ := TypeTable.exists_enter? he fun key hkey => h.not_mem hT hkey
  exact ⟨visited', hv⟩

/-- Newtypes lead to something that is none. -/
theorem Entered.underlyingFrom_ne_none (h : T.Entered visited t) (hT : T.Grounded) :
    T.underlyingFrom visited t ≠ none := by
  induction visited, t using underlyingFrom.induct T with
  | case1 visited t key hkey inner hn hv => exact absurd hv (h.not_mem hT hkey)
  | case2 visited t key hkey inner hn hv ih =>
    rw [underlyingFrom_of_newtype hkey hn hv, ne_eq, Option.map_eq_none_iff]
    exact ih (h.newtype hkey hn)
  | case3 visited t key hkey hn =>
    rw [underlyingFrom_of_not_newtype hkey hn]
    exact Option.some_ne_none _
  | case4 visited t hkey =>
    rw [underlyingFrom_of_not_named hkey]
    exact Option.some_ne_none _

end Entered

/-! ## No type is without end -/

/-- **On a grounded table nothing is circular.** -/
theorem Grounded.isCircular (hT : T.Grounded) (t : TypeExpr) : T.isCircular t = false := by
  have hsome := (Entered.nil t).underlyingFrom_ne_none hT
  rw [TypeTable.isCircular, Option.isNone_eq_false_iff, Option.isSome_iff_ne_none]
  exact hsome

/-- So a slice without a described element has none at all. -/
theorem Grounded.item? (hT : T.Grounded) (t : TypeExpr) : T.item? t = T.element? t := by
  unfold TypeTable.item?
  cases T.element? t with
  | none => rfl
  | some item => simp [hT.isCircular]

theorem Grounded.leadsOn_peelFrom (hT : T.Grounded) {stop : Descriptor → Bool}
    {visited : List String} {t : TypeExpr} (h : T.Entered visited t) :
    T.leadsOn stop (T.describe (T.peelFrom stop visited t).2) = false := by
  induction visited, t using peelFrom.induct T stop with
  | case1 visited t ho item entered he hv n bottom _ ih =>
    rw [peelFrom_of_opens ho he hv]
    exact ih (h.element (kind?_of_opens ho) he hv)
  | case2 visited t ho hno =>
    rw [peelFrom_of_no_element hno]
    obtain ⟨i, hi, _⟩ := exists_facts_of_hasKind (hasKind_of_opens ho)
    rw [Bool.eq_false_iff, ne_eq, leadsOn_iff hi]
    rintro ⟨_, item, hitem⟩
    rw [id_of_facts? hi, element?_core, ← hT.item?] at hitem
    obtain ⟨entered, hv⟩ := h.exists_enter? hT hitem
    exact hno item entered hitem hv
  | case3 visited t ho =>
    rw [peelFrom_of_not_opens ho]
    exact leadsOn_of_not_opens (by simpa using ho)

/-- **On a grounded table slices come to an end.** -/
theorem Grounded.leadsOn_peel (hT : T.Grounded) (stop : Descriptor → Bool) {d : Descriptor}
    (hd : T.Describes d) : T.leadsOn stop (T.peel stop d).2 = false := by
  by_cases ho : opens stop d = true
  · obtain ⟨i, hi, hk⟩ := exists_facts_of_hasKind (hasKind_of_opens ho)
    have hfacts := hd.facts?_id hi
    have hcore : i.id.core = i.id := (id_of_facts? hfacts).symm
    rcases peel_cases (T := T) stop d with hp | ⟨j, item, visited, hj, _, he, hv⟩
    · rw [hp, Bool.eq_false_iff, ne_eq, leadsOn_iff hi]
      rintro ⟨_, item, hitem⟩
      rw [← hT.item?] at hitem
      obtain ⟨visited, hv⟩ := (Entered.nil i.id).exists_enter? hT hitem
      rw [hcore] at hv
      have hstep := congrArg Prod.fst hp
      rw [peel_of_opens hi ho hitem hv] at hstep
      exact absurd hstep (Nat.succ_ne_zero _)
    · rw [hi] at hj
      cases hj
      rw [peel_of_opens hi ho he hv]
      refine hT.leadsOn_peelFrom ((Entered.nil i.id).element ?_ he ?_)
      · rw [kind?_of_facts? hfacts, hk]
      · rw [hcore, hv]
  · rw [peel_of_not_opens ho]
    exact leadsOn_of_not_opens (by simpa using ho)

end ApiAtlas.TypeTable
