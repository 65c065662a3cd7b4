import Mathlib.Tactic

/-! # Trees of entries with keys

What a program may rely on in a search tree: it is a map from keys to entries, an entry is inserted
only where its key is absent, and the removal of an entry removes the one with its key. The third
argument of `insert` is the priority of the new node, which makes no difference to the map. `assoc`
is such a tree. -/

namespace TelegramCli.Lib.Trees

structure KeyTree {K V : Type} (key : V → K) where
  Tree : Type
  empty : Tree
  lookup : Tree → K → Option V
  /-- `none` is the failed assertion that the key is absent. -/
  insert : Tree → V → ℤ → Option Tree
  delete : Tree → V → Tree
  lookup_empty : ∀ k, lookup empty k = none
  key_lookup : ∀ t k v, lookup t k = some v → key v = k
  insert_absent : ∀ t v y, lookup t (key v) = none → ∃ t', insert t v y = some t' ∧
    lookup t' (key v) = some v ∧ ∀ k, k ≠ key v → lookup t' k = lookup t k
  insert_present : ∀ t v y, lookup t (key v) ≠ none → insert t v y = none
  lookup_delete_self : ∀ t v, lookup (delete t v) (key v) = none
  lookup_delete : ∀ t v k, k ≠ key v → lookup (delete t v) k = lookup t k

variable {K V : Type} [DecidableEq K]

/-- A list of entries. -/
def assoc (key : V → K) : KeyTree key where
  Tree := List V
  empty := []
  lookup t k := t.find? fun v => key v = k
  insert t v _ := if t.any fun w => key w = key v then none else some (v :: t)
  delete t v := t.filter fun w => key w ≠ key v
  lookup_empty _ := rfl
  key_lookup t k v h := by simpa using List.find?_some h
  insert_absent t v y h := by
    have hany : (t.any fun w => key w = key v) = false := by
      rw [← Bool.not_eq_true, List.any_eq_true]
      rintro ⟨w, hw, hkey⟩
      exact List.find?_eq_none.mp h w hw hkey
    refine ⟨v :: t, by rw [hany]; rfl, by simp, fun k hk => ?_⟩
    rw [List.find?_cons_of_neg (by simpa using hk.symm)]
  insert_present t v y h := by
    obtain ⟨w, hw⟩ := Option.ne_none_iff_exists'.mp h
    have hkey : key w = key v := by simpa using List.find?_some hw
    exact if_pos (List.any_eq_true.mpr ⟨w, List.mem_of_find?_eq_some hw, decide_eq_true hkey⟩)
  lookup_delete_self t v := by
    rw [List.find?_eq_none]
    intro w hw
    simpa using (List.mem_filter.mp hw).2
  lookup_delete t v k hk := by
    rw [List.find?_filter]
    congr 1
    funext w
    by_cases h : key w = k
    · simp [h, hk]
    · simp [h]

end TelegramCli.Lib.Trees
