import TelegramCli.Lib.CNumber
import TelegramCli.Lib.CString

/-! # Json values built with checked calls

The values and the calls of the library `jansson`. `none` is a null pointer or the result -1: a
string that is not UTF-8 gives no value, a field can only be set on an object and an item only be
appended to an array, and neither takes a null pointer. The keys are Lean strings, so they are
UTF-8. Memory is not modelled.

A chain of calls that set fields builds an object that has them (`Builds`); `Builds.bind` goes along
the chain. A field that is set twice has the later value (`Sets`, `Sets.bind`). -/

namespace TelegramCli.Lib.Jansson

open TelegramCli.Lib.CNumber TelegramCli.Lib.CString

inductive Json
  | object (fields : List (String × Json))
  | array (items : List Json)
  | string (s : String)
  | integer (n : ℤ)
  | real (x : BitVec 64)
  | boolean (b : Bool)

/-- The bytes are UTF-8. -/
def Utf8 (s : List UInt8) : Prop := ByteArray.IsValidUTF8 ⟨s.toArray⟩

instance (s : List UInt8) : Decidable (Utf8 s) :=
  inferInstanceAs (Decidable (ByteArray.IsValidUTF8 _))

/-- `json_string`. -/
def jsonString : Option (List UInt8) → Option Json
  | none => none
  | some s => if h : Utf8 s then some (.string (String.fromUTF8 ⟨s.toArray⟩ h)) else none

/-- The field is replaced, or comes to the end. -/
def setField (key : String) (value : Json) : List (String × Json) → List (String × Json)
  | [] => [(key, value)]
  | f :: fs => if f.1 = key then (key, value) :: fs else f :: setField key value fs

/-- `json_object_set`: the object with the field set. -/
def jsonObjectSet : Json → String → Option Json → Option Json
  | .object fields, key, some value => some (.object (setField key value fields))
  | _, _, _ => none

/-- `json_object_get`. -/
def jsonObjectGet : Json → String → Option Json
  | .object fields, key => (fields.find? fun f => f.1 = key).map Prod.snd
  | _, _ => none

/-- `json_array_append`: the array with the item appended. -/
def jsonArrayAppend : Json → Option Json → Option Json
  | .array items, some value => some (.array (items ++ [value]))
  | _, _ => none

/-! ### Strings -/

theorem jsonString_of_utf8 {s : List UInt8} (h : Utf8 s) : ∃ v, jsonString (some s) = some v :=
  ⟨_, dif_pos h⟩

theorem utf8_lit (s : String) : Utf8 (lit s) := s.isValidUTF8

theorem jsonString_lit (s : String) : jsonString (some (lit s)) = some (.string s) := by
  rw [jsonString, dif_pos (utf8_lit s)]
  rfl

theorem utf8_append {s t : List UInt8} (hs : Utf8 s) (ht : Utf8 t) : Utf8 (s ++ t) := by
  have h := hs.append ht
  unfold Utf8
  convert h
  simp

theorem utf8_ascii : ∀ {s : List UInt8}, (∀ c ∈ s, c < 128) → Utf8 s
  | [], _ => ByteArray.isValidUTF8_empty
  | c :: s, h => by
    have hlt := UInt8.lt_iff_toNat_lt.mp (h c List.mem_cons_self)
    have hsize : (Char.ofUInt8 c).utf8Size = 1 := by
      rw [Char.utf8Size_eq_one_iff, UInt32.le_iff_toNat_le]
      exact Nat.le_of_lt_succ hlt
    have hc : (Char.ofUInt8 c).toUInt8 = c := UInt8.toUInt8_toUInt32 c
    have hpush := ByteArray.isValidUTF8_empty.push hsize
    rw [hc] at hpush
    exact utf8_append hpush (utf8_ascii fun d hd => h d (List.mem_cons_of_mem c hd))

theorem decimal_ascii (n : ℤ) : ∀ c ∈ decimal n, c < 128 := by
  intro c hc
  rcases decimal_byte n c hc with rfl | hdigit
  · decide
  · exact UInt8.lt_of_le_of_lt hdigit.2 (by decide)

/-! ### Chains of calls -/

/-- An object with the keys. -/
def Carries (ks : List String) (v : Json) : Prop :=
  ∃ fields, v = .object fields ∧ ∀ k ∈ ks, k ∈ fields.map Prod.fst

/-- The calls went well and built an object with the keys. -/
def Builds (ks : List String) (x : Option Json) : Prop := ∃ v, x = some v ∧ Carries ks v

theorem carries_empty : Carries [] (.object []) := ⟨[], rfl, by simp⟩

theorem Carries.mono {ks ls : List String} {v : Json} (h : Carries ks v) (hsub : ls ⊆ ks) :
    Carries ls v := by
  obtain ⟨fields, rfl, hmem⟩ := h
  exact ⟨fields, rfl, fun k hk => hmem k (hsub hk)⟩

theorem mem_setField (key : String) (value : Json) : ∀ (fs : List (String × Json)) (k : String),
    k ∈ (setField key value fs).map Prod.fst ↔ k = key ∨ k ∈ fs.map Prod.fst
  | [], k => by simp [setField]
  | f :: fs, k => by
    have ih := mem_setField key value fs k
    unfold setField
    by_cases hf : f.1 = key
    · rw [if_pos hf, List.map_cons, List.map_cons, List.mem_cons, List.mem_cons, hf]
      tauto
    · rw [if_neg hf, List.map_cons, List.map_cons, List.mem_cons, List.mem_cons, ih]
      tauto

/-- **A field is set** on an object. -/
theorem Carries.set {ks : List String} {o : Json} (h : Carries ks o) (key : String) (value : Json) :
    Builds (key :: ks) (jsonObjectSet o key (some value)) := by
  obtain ⟨fields, rfl, hmem⟩ := h
  refine ⟨_, rfl, _, rfl, fun k hk => (mem_setField key value fields k).mpr ?_⟩
  exact (List.mem_cons.mp hk).imp id (hmem k)

theorem Carries.not_append {ks : List String} {o : Json} (h : Carries ks o) (value : Option Json) :
    jsonArrayAppend o value = none := by
  obtain ⟨fields, rfl, -⟩ := h
  rfl

theorem Carries.builds {ks : List String} {v : Json} (h : Carries ks v) : Builds ks (some v) :=
  ⟨v, rfl, h⟩

theorem Builds.mono {ks ls : List String} {x : Option Json} (h : Builds ks x) (hsub : ls ⊆ ks) :
    Builds ls x := by
  obtain ⟨v, hv, hc⟩ := h
  exact ⟨v, hv, hc.mono hsub⟩

/-- **The chain goes on** from an object with the keys. -/
theorem Builds.bind {ks ls : List String} {x : Option Json} {f : Json → Option Json}
    (h : Builds ks x) (hf : ∀ v, Carries ks v → Builds ls (f v)) : Builds ls (x >>= f) := by
  obtain ⟨v, rfl, hv⟩ := h
  exact hf v hv

theorem not_builds_none {ks : List String} : ¬ Builds ks none := fun ⟨_, h, _⟩ => nomatch h

/-! ### The fields behind a chain of calls -/

theorem find_setField (key : String) (value : Json) (k : String) : ∀ fs : List (String × Json),
    ((setField key value fs).find? fun f => f.1 = k).map Prod.snd =
      if key = k then some value else (fs.find? fun f => f.1 = k).map Prod.snd
  | [] => by
    by_cases hk : key = k <;> simp [setField, hk]
  | f :: fs => by
    have ih := find_setField key value k fs
    unfold setField
    by_cases hf : f.1 = key
    · subst hf
      by_cases hk : f.1 = k <;> simp [hk]
    · rw [if_neg hf, List.find?_cons, List.find?_cons]
      by_cases hk : f.1 = k
      · rw [if_neg fun h => hf (hk.trans h.symm)]
        simp [hk]
      · simpa [hk] using ih

/-- A field that was set has its value, and the others are unchanged. -/
theorem get_of_set {v w : Json} {key : String} {x : Option Json} (h : jsonObjectSet v key x = some w)
    (k : String) : jsonObjectGet w k = if key = k then x else jsonObjectGet v k := by
  cases v with
  | object fields =>
    cases x with
    | none => cases h
    | some x =>
      cases h
      exact find_setField key x k fields
  | _ => cases h

/-- What a chain of calls that set the fields leaves at a key: the last value that is there. -/
def lastSet (k : String) : List (String × Option Json) → Option Json
  | [] => none
  | f :: fs => (lastSet k fs).or (if f.1 = k then f.2 else none)

theorem lastSet_append (k : String) (fs gs : List (String × Option Json)) :
    lastSet k (fs ++ gs) = (lastSet k gs).or (lastSet k fs) := by
  induction fs with
  | nil => simp [lastSet]
  | cons f fs ih => simp only [List.cons_append, lastSet, ih, Option.or_assoc]

theorem mem_of_lastSet {k : String} {x : Json} : ∀ {fs : List (String × Option Json)},
    lastSet k fs = some x → (k, some x) ∈ fs
  | f :: fs, h => by
    rw [lastSet, Option.or_eq_some_iff] at h
    rcases h with h | ⟨-, h⟩
    · exact List.mem_cons_of_mem f (mem_of_lastSet h)
    · split_ifs at h with hf
      obtain ⟨key, y⟩ := f
      cases hf
      cases h
      exact List.mem_cons_self

theorem lastSet_ne_none {k : String} {x : Json} : ∀ {fs : List (String × Option Json)},
    (k, some x) ∈ fs → lastSet k fs ≠ none
  | f :: fs, h => by
    rw [lastSet, ne_eq, Option.or_eq_none_iff]
    rintro ⟨hfs, hf⟩
    rcases List.mem_cons.mp h with rfl | h
    · rw [if_pos rfl] at hf
      cases hf
    · exact lastSet_ne_none h hfs

/-- A field that no other value is set for is kept. -/
theorem lastSet_of_mem {k : String} {x : Json} {fs : List (String × Option Json)}
    (h : (k, some x) ∈ fs) (honly : ∀ y, (k, some y) ∈ fs → y = x) : lastSet k fs = some x := by
  obtain ⟨y, hy⟩ := Option.ne_none_iff_exists'.mp (lastSet_ne_none h)
  rw [hy, honly y (mem_of_lastSet hy)]

/-- What is done to an object sets the fields, the later ones in place of the earlier. -/
def Sets (fs : List (String × Option Json)) (f : Json → Option Json) : Prop :=
  ∀ v w, f v = some w → ∀ k, jsonObjectGet w k = (lastSet k fs).or (jsonObjectGet v k)

theorem Sets.set (key : String) (x : Option Json) :
    Sets [(key, x)] fun v => jsonObjectSet v key x := by
  intro v w h k
  rw [get_of_set h, lastSet, lastSet, Option.none_or]
  split_ifs
  · cases x with
    | none => cases v <;> cases h
    | some x => rfl
  · rfl

/-- **A chain of calls** sets the fields of each. -/
theorem Sets.bind {fs gs : List (String × Option Json)} {f g : Json → Option Json} (hf : Sets fs f)
    (hg : Sets gs g) : Sets (fs ++ gs) fun v => f v >>= g := by
  intro v w h k
  obtain ⟨u, hu, hw⟩ := Option.bind_eq_some_iff.mp h
  rw [hg u w hw, hf v u hu, lastSet_append, Option.or_assoc]

theorem Sets.empty {fs : List (String × Option Json)} {f : Json → Option Json} (hf : Sets fs f)
    {v : Json} (h : f (.object []) = some v) (k : String) : jsonObjectGet v k = lastSet k fs := by
  rw [hf _ v h]
  exact Option.or_none

/-! ### Fields that are not there -/

/-- The value has no such field. -/
def Lacks (k : String) (v : Json) : Prop := jsonObjectGet v k = none

/-- What the calls build, if they go well, has no such field. -/
def Without (k : String) (x : Option Json) : Prop := ∀ v, x = some v → Lacks k v

variable {k : String}

theorem lacks_empty : Lacks k (.object []) := rfl

theorem Lacks.without {v : Json} (h : Lacks k v) : Without k (some v) := by
  rintro w ⟨⟩
  exact h

theorem without_none : Without k none := by
  rintro v ⟨⟩

/-- **Another field** is set. -/
theorem Lacks.set {v : Json} (h : Lacks k v) {key : String} (hkey : key ≠ k) (x : Option Json) :
    Without k (jsonObjectSet v key x) := by
  intro w hw
  unfold Lacks
  rw [get_of_set hw, if_neg hkey]
  exact h

theorem Lacks.append {v : Json} (x : Option Json) : Without k (jsonArrayAppend v x) := by
  intro w hw
  cases v with
  | array items =>
    cases x with
    | none => cases hw
    | some x => cases hw; rfl
  | _ => cases hw

/-- **The chain goes on** from a value without the field. -/
theorem Without.bind {x : Option Json} {f : Json → Option Json} (h : Without k x)
    (hf : ∀ v, Lacks k v → Without k (f v)) : Without k (x >>= f) := by
  intro w hw
  obtain ⟨v, hv, hw⟩ := Option.bind_eq_some_iff.mp hw
  exact hf v (h v hv) w hw

/-- The chain goes on with a value that was built apart. -/
theorem without_bind {α : Type} {x : Option α} {f : α → Option Json} (hf : ∀ a, Without k (f a)) :
    Without k (x >>= f) := by
  intro w hw
  obtain ⟨a, -, hw⟩ := Option.bind_eq_some_iff.mp hw
  exact hf a w hw

/-- A loop keeps away the field if its body does. -/
theorem without_foldlM {α : Type} {f : Json → α → Option Json}
    (hf : ∀ v a, Lacks k v → Without k (f v a)) :
    ∀ (xs : List α) {v : Json}, Lacks k v → Without k (xs.foldlM f v)
  | [], _, h => h.without
  | x :: xs, v, h => by
    rw [List.foldlM_cons]
    exact (hf v x h).bind fun w hw => without_foldlM hf xs hw

theorem without_ite {c : Prop} [Decidable c] {x y : Option Json} (hx : Without k x)
    (hy : Without k y) : Without k (if c then x else y) := by
  split_ifs
  · exact hx
  · exact hy

end TelegramCli.Lib.Jansson
