import Mathlib.Tactic

/-! # References

A program keeps values of an interpreter by references: a value is put into a table under a number
that is not in use, is read by the number as often as is needed, and the number is given back. One
value, `nil`, is kept without an entry. Which numbers are taken is up to the table.

`Exactly T l` says that the entries of the table are those of the list, each once, and
`Keeps nil T l` that the references of the list are in use, for the values in it, and no others.
Putting a value (`Keeps.put`), reading one (`Keeps.get`) and giving references back (`Keeps.dropAll`)
keep the list, so whoever knows it knows that nothing is lost, lent twice or given back twice. -/

namespace TelegramCli.Lib.References

variable {β : Type}

abbrev Table (β : Type) : Type := ℕ → Option β

/-! ### Entries -/

/-- The entries of the table are those of the list, each under its own number. -/
structure Exactly (T : Table β) (l : List (ℕ × β)) : Prop where
  nodup : (l.map Prod.fst).Nodup
  entries : ∀ r v, T r = some v ↔ (r, v) ∈ l

variable {T : Table β} {l m : List (ℕ × β)} {r : ℕ} {v : β}

theorem exactly_empty : Exactly (fun _ => none : Table β) [] :=
  ⟨List.nodup_nil, fun _ _ => by simp⟩

theorem Exactly.perm (h : Exactly T l) (hlm : l.Perm m) : Exactly T m :=
  ⟨(hlm.map Prod.fst).nodup_iff.mp h.nodup, fun r v => (h.entries r v).trans hlm.mem_iff⟩

/-- A number that is not in use gets an entry. -/
theorem Exactly.insert (h : Exactly T l) (hr : T r = none) (v : β) :
    Exactly (Function.update T r (some v)) ((r, v) :: l) := by
  have hfresh : r ∉ l.map Prod.fst := by
    intro hmem
    obtain ⟨⟨_, w⟩, hw, rfl⟩ := List.mem_map.mp hmem
    have hsome := (h.entries _ w).mpr hw
    rw [hr] at hsome
    cases hsome
  refine ⟨List.nodup_cons.mpr ⟨hfresh, h.nodup⟩, fun k w => ?_⟩
  by_cases hk : k = r
  · subst hk
    have hnot : (k, w) ∉ l := fun hmem => hfresh (List.mem_map_of_mem hmem)
    rw [Function.update_self, List.mem_cons, or_iff_left hnot, Option.some.injEq, Prod.mk.injEq,
      and_iff_right rfl, eq_comm]
  · have hne : (k, w) ≠ (r, v) := fun heq => hk (congrArg Prod.fst heq)
    rw [Function.update_of_ne hk, h.entries, List.mem_cons, or_iff_right hne]

/-- An entry is deleted. -/
theorem Exactly.erase (h : Exactly T ((r, v) :: l)) : Exactly (Function.update T r none) l := by
  have hnodup : (r :: l.map Prod.fst).Nodup := h.nodup
  obtain ⟨hfresh, hnodup⟩ := List.nodup_cons.mp hnodup
  refine ⟨hnodup, fun k w => ?_⟩
  by_cases hk : k = r
  · subst hk
    have hnot : (k, w) ∉ l := fun hmem => hfresh (List.mem_map_of_mem hmem)
    rw [Function.update_self]
    exact iff_of_false (by simp) hnot
  · have hne : (k, w) ≠ (r, v) := fun heq => hk (congrArg Prod.fst heq)
    rw [Function.update_of_ne hk, h.entries, List.mem_cons, or_iff_right hne]

theorem Exactly.get (h : Exactly T l) (hmem : (r, v) ∈ l) : T r = some v := (h.entries r v).mpr hmem

/-! ### References -/

variable {α : Type}

/-- A number in the table, or the reference of `nil`. -/
abbrev Ref : Type := Option ℕ

/-- `luaL_ref`, where `r` is the number that is taken. -/
def put [DecidableEq α] (nil v : α) (r : ℕ) (T : Table α) : Option (Ref × Table α) :=
  if v = nil then some (none, T)
  else if T r = none then some (some r, Function.update T r (some v)) else none

/-- `lua_rawgeti`; a number that is not in use has no value. -/
def get (nil : α) (T : Table α) : Ref → Option α
  | none => some nil
  | some r => T r

/-- `luaL_unref`; a number that is not in use must not be given back. -/
def drop (T : Table α) : Ref → Option (Table α)
  | none => some T
  | some r => (T r).map fun _ => Function.update T r none

def dropAll (T : Table α) (xs : List Ref) : Option (Table α) := xs.foldlM drop T

/-- The references that are numbers. -/
def numbered (l : List (Ref × α)) : List (ℕ × α) := l.filterMap fun x => x.1.map fun r => (r, x.2)

/-- **The references of the list** are in use, for their values, and no others are. -/
structure Keeps (nil : α) (T : Table α) (l : List (Ref × α)) : Prop where
  exactly : Exactly T (numbered l)
  nils : ∀ v, (none, v) ∈ l → v = nil

variable {nil : α} {R S : Table α} {k ks : List (Ref × α)} {x : Ref} {a : α}

theorem keeps_empty : Keeps nil (fun _ => none) [] := ⟨exactly_empty, fun _ h => by cases h⟩

theorem Keeps.perm (h : Keeps nil R k) (hk : k.Perm ks) : Keeps nil R ks :=
  ⟨h.exactly.perm (hk.filterMap _), fun v hv => h.nils v (hk.mem_iff.mpr hv)⟩

/-- A value is put. -/
theorem Keeps.put [DecidableEq α] (h : Keeps nil R k) {r : ℕ} (hput : put nil a r R = some (x, S)) :
    Keeps nil S ((x, a) :: k) := by
  unfold References.put at hput
  split_ifs at hput with ha hr
  · cases hput
    refine ⟨h.exactly, fun v hv => ?_⟩
    rcases List.mem_cons.mp hv with heq | hv
    · exact (congrArg Prod.snd heq).trans ha
    · exact h.nils v hv
  · cases hput
    refine ⟨h.exactly.insert hr a, fun v hv => h.nils v ?_⟩
    exact (List.mem_cons.mp hv).resolve_left fun heq => by cases heq

/-- A reference is read. -/
theorem Keeps.get (h : Keeps nil R k) (hmem : (x, a) ∈ k) : get nil R x = some a := by
  cases x with
  | none => exact congrArg some (h.nils a hmem).symm
  | some r => exact h.exactly.get (List.mem_filterMap.mpr ⟨_, hmem, rfl⟩)

/-- A reference is given back. -/
theorem Keeps.drop (h : Keeps nil R ((x, a) :: k)) : ∃ S, drop R x = some S ∧ Keeps nil S k := by
  have hnils : ∀ v, (none, v) ∈ k → v = nil := fun v hv => h.nils v (List.mem_cons_of_mem _ hv)
  cases x with
  | none => exact ⟨R, rfl, h.exactly, hnils⟩
  | some r =>
    have hr : R r = some a := h.exactly.get List.mem_cons_self
    exact ⟨_, by rw [References.drop, hr, Option.map_some], h.exactly.erase, hnils⟩

/-- **References are given back** one after the other. -/
theorem Keeps.dropAll : ∀ {xs : List (Ref × α)} {R : Table α}, Keeps nil R (xs ++ k) →
    ∃ S, dropAll R (xs.map Prod.fst) = some S ∧ Keeps nil S k
  | [], R, h => ⟨R, rfl, h⟩
  | (_, _) :: xs, _, h => by
    obtain ⟨S, hS, hkeeps⟩ := Keeps.drop h
    obtain ⟨U, hU, hkeeps'⟩ := Keeps.dropAll hkeeps
    refine ⟨U, ?_, hkeeps'⟩
    rw [References.dropAll, List.map_cons, List.foldlM_cons, hS]
    exact hU

end TelegramCli.Lib.References
