import ApiAtlas.Keyed

/-!
# What is left of many insertions

`Keyed.ofList` inserts pairs one after the other. What it leaves of them, said of the whole list: an
entry is the last pair of its key, and a list in which no key repeats is left as it is. To change the
values and to insert commute.
-/

universe u v w

namespace ApiAtlas.Keyed

variable {κ : Type u} {β : Type v} {γ : Type w} [DecidableEq κ]

/-! ## One insertion -/

theorem mem_put {k : κ} {x : β} {l : Keyed κ β} (h : (keys l).Nodup) {e : κ × β}
    (he : e ∈ put k x l) : e = (k, x) ∨ (e ∈ l ∧ e.1 ≠ k) := by
  induction l with
  | nil => exact .inl (List.mem_singleton.1 he)
  | cons a rest ih =>
    obtain ⟨hnew, hrest⟩ := List.nodup_cons.1 h
    simp only [put] at he
    split at he
    next ha =>
      rcases List.mem_cons.1 he with he | he
      · exact .inl he
      · refine .inr ⟨List.mem_cons_of_mem _ he, fun hk => hnew ?_⟩
        show a.1 ∈ keys rest
        rw [← ha, ← hk]
        exact List.mem_map_of_mem he
    next ha =>
      rcases List.mem_cons.1 he with he | he
      · exact .inr ⟨he ▸ List.mem_cons_self, fun hk => ha (by rw [← hk, he])⟩
      · exact (ih hrest he).imp_right (fun h => ⟨List.mem_cons_of_mem _ h.1, h.2⟩)

theorem map_put (f : β → γ) (k : κ) (x : β) (l : Keyed κ β) :
    (put k x l).map (fun e => (e.1, f e.2)) = put k (f x) (l.map fun e => (e.1, f e.2)) := by
  induction l with
  | nil => rfl
  | cons a rest ih =>
    simp only [put, List.map_cons]
    split
    · rfl
    · rw [List.map_cons, ih]

theorem put_of_not_mem {k : κ} {x : β} {l : Keyed κ β} (h : k ∉ keys l) :
    put k x l = l ++ [(k, x)] := by
  induction l with
  | nil => rfl
  | cons a rest ih =>
    obtain ⟨ha, hrest⟩ := not_or.1 (fun h' => h (List.mem_cons.2 h'))
    rw [put, if_neg ha, ih hrest]
    rfl

/-! ## Lookups -/

/-- Where no key repeats, a lookup finds every entry. -/
theorem get?_of_mem {k : κ} {x : β} {l : Keyed κ β} (h : (keys l).Nodup) (hm : (k, x) ∈ l) :
    get? k l = some x := by
  induction l with
  | nil => cases hm
  | cons a rest ih =>
    obtain ⟨hnew, hrest⟩ := List.nodup_cons.1 h
    rcases List.mem_cons.1 hm with hm | hm
    · rw [← hm, get?, if_pos rfl]
    · have hk : k ≠ a.1 := fun hk => hnew (hk ▸ List.mem_map_of_mem hm)
      rw [get?, if_neg hk, ih hrest hm]

theorem mem_of_get? {k : κ} {x : β} {l : Keyed κ β} (h : get? k l = some x) : (k, x) ∈ l := by
  induction l with
  | nil => cases h
  | cons a rest ih =>
    rw [get?] at h
    split at h
    next hk =>
      cases h
      rw [hk]
      exact List.mem_cons_self
    next => exact List.mem_cons_of_mem _ (ih h)

/-! ## Many insertions -/

/-- An entry was the last one of its key, among those inserted or, if they left the key alone, among
those that were there. -/
theorem mem_foldl_put {acc : Keyed κ β} (l : List (κ × β)) (h : (keys acc).Nodup) {e : κ × β}
    (he : e ∈ l.foldl (fun acc e => put e.1 e.2 acc) acc) :
    (∃ pre post, l = pre ++ e :: post ∧ e.1 ∉ keys post) ∨ (e ∈ acc ∧ e.1 ∉ keys l) := by
  induction l generalizing acc with
  | nil => exact .inr ⟨he, List.not_mem_nil⟩
  | cons a rest ih =>
    rcases ih (nodup_keys_put _ _ h) he with ⟨pre, post, hl, hp⟩ | ⟨hput, hrest⟩
    · exact .inl ⟨a :: pre, post, by rw [hl]; rfl, hp⟩
    · rcases mem_put h hput with hput | ⟨hacc, hne⟩
      · exact .inl ⟨[], rest, by rw [hput]; rfl, hrest⟩
      · refine .inr ⟨hacc, fun hk => ?_⟩
        rcases List.mem_cons.1 hk with hk | hk
        · exact hne hk
        · exact hrest hk

/-- Every entry is the last pair of its key. -/
theorem exists_last_of_mem_ofList {l : List (κ × β)} {e : κ × β} (h : e ∈ ofList l) :
    ∃ pre post, l = pre ++ e :: post ∧ e.1 ∉ keys post := by
  have hnil : (keys ([] : Keyed κ β)).Nodup := List.nodup_nil
  rcases mem_foldl_put l hnil h with h | ⟨h, _⟩
  · exact h
  · cases h

/-- No key is there twice. -/
theorem nodup_keys_ofList (l : List (κ × β)) : (keys (ofList l)).Nodup := by
  have hfold : ∀ acc : Keyed κ β, (keys acc).Nodup →
      (keys (l.foldl (fun acc e => put e.1 e.2 acc) acc)).Nodup := by
    induction l with
    | nil => intro acc h; exact h
    | cons a rest ih => intro acc h; exact ih _ (nodup_keys_put _ _ h)
  exact hfold [] List.nodup_nil

/-- A key that was inserted before is not new, and any other one comes last. -/
theorem keys_put_eraseDups {acc : Keyed κ β} {ks : List κ} (h : keys acc = ks.eraseDups) (k : κ)
    (x : β) : keys (put k x acc) = (ks ++ [k]).eraseDups := by
  rw [keys_put, h, List.eraseDups_append]
  by_cases hk : k ∈ ks
  · have hold : k ∈ ks.eraseDups := List.mem_eraseDups.2 hk
    simp [hold, hk, List.removeAll]
  · have hnew : k ∉ ks.eraseDups := fun h => hk (List.mem_eraseDups.1 h)
    simp [hnew, hk, List.removeAll, List.eraseDups_cons]

/-- The keys are those that are inserted, in the order in which they first occur. -/
theorem keys_ofList (l : List (κ × β)) : keys (ofList l) = (keys l).eraseDups := by
  have hfold : ∀ (acc : Keyed κ β) (ks : List κ), keys acc = ks.eraseDups →
      keys (l.foldl (fun acc e => put e.1 e.2 acc) acc) = (ks ++ keys l).eraseDups := by
    induction l with
    | nil => intro acc ks h; simpa [keys] using h
    | cons a rest ih =>
      intro acc ks h
      rw [List.foldl_cons, ih _ _ (keys_put_eraseDups h a.1 a.2), List.append_assoc]
      rfl
  exact hfold [] [] rfl

/-- All keys that are inserted are there. -/
theorem mem_keys_ofList {l : List (κ × β)} {e : κ × β} (h : e ∈ l) : e.1 ∈ keys (ofList l) := by
  rw [keys_ofList]
  exact List.mem_eraseDups.2 (List.mem_map_of_mem h)

/-- To change the values before or after they are inserted is the same. -/
theorem ofList_map (f : β → γ) (l : List (κ × β)) :
    ofList (l.map fun e => (e.1, f e.2)) = (ofList l).map fun e => (e.1, f e.2) := by
  have h : ∀ acc : Keyed κ β,
      (l.map fun e => (e.1, f e.2)).foldl (fun acc e => put e.1 e.2 acc)
          (acc.map fun e => (e.1, f e.2))
        = (l.foldl (fun acc e => put e.1 e.2 acc) acc).map fun e => (e.1, f e.2) := by
    induction l with
    | nil => intro acc; rfl
    | cons a rest ih =>
      intro acc
      rw [List.map_cons, List.foldl_cons, List.foldl_cons, ← ih, map_put]
  exact h []

/-- Pairs without a repeated key stay as they are. -/
theorem ofList_of_nodup {l : List (κ × β)} (h : (keys l).Nodup) : ofList l = l := by
  have happ : ∀ acc : Keyed κ β, (keys (acc ++ l)).Nodup →
      l.foldl (fun acc e => put e.1 e.2 acc) acc = acc ++ l := by
    clear h
    induction l with
    | nil => intro acc _; exact (List.append_nil acc).symm
    | cons a rest ih =>
      intro acc hacc
      have ha : a.1 ∉ keys acc := by
        intro hmem
        rw [keys, List.map_append] at hacc
        exact (List.nodup_append.1 hacc).2.2 _ hmem _ List.mem_cons_self rfl
      have hsplit : acc ++ a :: rest = (acc ++ [(a.1, a.2)]) ++ rest := by
        rw [List.append_assoc]; rfl
      rw [List.foldl_cons, put_of_not_mem ha, hsplit]
      rw [hsplit] at hacc
      exact ih _ hacc
  exact happ [] h

end ApiAtlas.Keyed
