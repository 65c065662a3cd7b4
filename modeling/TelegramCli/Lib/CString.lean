import Mathlib.Tactic

/-! # C strings

A pointer into a C string is the list of the bytes from there on. Behind the last byte of the list
stands the terminator, so `deref` of the empty list is 0, and a 0 inside the list ends the string
too: the string at a pointer is `cstring`. -/

namespace TelegramCli.Lib.CString

/-- The bytes of a string literal. -/
def lit (s : String) : List UInt8 := s.toByteArray.data.toList

/-- The byte a pointer points at. -/
def deref (p : List UInt8) : UInt8 := p.headD 0

@[simp] theorem deref_nil : deref [] = 0 := rfl

@[simp] theorem deref_cons (c : UInt8) (p : List UInt8) : deref (c :: p) = c := rfl

/-- The string at a pointer. -/
def cstring : List UInt8 → List UInt8
  | [] => []
  | c :: p => if c = 0 then [] else c :: cstring p

theorem cstring_notMem : ∀ p : List UInt8, 0 ∉ cstring p
  | [] => List.not_mem_nil
  | c :: p => by
    have ih := cstring_notMem p
    unfold cstring
    split_ifs with h
    · exact List.not_mem_nil
    · simp [ih, Ne.symm h]

/-- Memory that starts with a string and its terminator. -/
theorem cstring_append : ∀ {l : List UInt8}, 0 ∉ l → ∀ p, cstring (l ++ 0 :: p) = l
  | [], _, _ => rfl
  | c :: l, h, p => by
    have hc : c ≠ 0 := fun e => h (by simp [e])
    have ih := cstring_append (l := l) (fun e => h (List.mem_cons_of_mem _ e)) p
    rw [List.cons_append, cstring, if_neg hc, ih]

theorem cstring_of_notMem : ∀ {l : List UInt8}, 0 ∉ l → cstring l = l
  | [], _ => rfl
  | c :: l, h => by
    have hc : c ≠ 0 := fun e => h (by simp [e])
    rw [cstring, if_neg hc, cstring_of_notMem fun e => h (List.mem_cons_of_mem _ e)]

theorem deref_cstring (p : List UInt8) : deref (cstring p) = deref p := by
  cases p with
  | nil => rfl
  | cons c p =>
    rw [cstring]
    split_ifs with hc
    · rw [deref_cons, hc, deref_nil]
    · rfl

/-- A string in memory, up to its terminator. -/
theorem cstring_split : ∀ p : List UInt8, ∃ m, p = cstring p ++ m ∧ deref m = 0
  | [] => ⟨[], rfl, rfl⟩
  | c :: p => by
    rw [cstring]
    split_ifs with hc
    · exact ⟨c :: p, rfl, hc⟩
    · obtain ⟨m, hm, h0⟩ := cstring_split p
      exact ⟨m, by rw [List.cons_append, ← hm], h0⟩

theorem cstring_prefix (p : List UInt8) : cstring p <+: p := by
  obtain ⟨m, hm, -⟩ := cstring_split p
  exact ⟨m, hm.symm⟩

theorem cstring_append_of {l m : List UInt8} (hl : 0 ∉ l) (hm : deref m = 0) :
    cstring (l ++ m) = l := by
  cases m with
  | nil => rw [List.append_nil, cstring_of_notMem hl]
  | cons c m =>
    rw [deref_cons] at hm
    rw [hm, cstring_append hl]

end TelegramCli.Lib.CString
