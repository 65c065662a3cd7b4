import Mathlib.Tactic

/-! # Streams and their terminated lines

A stream is a list over any alphabet, cut into lines by a terminator `n`: `lines n s` are the
lines that `n` ends, in order and without it, `rest n s` is what follows the last terminator.
Both are computed from left to right, so a stream that arrives in pieces has the lines of its
first piece, then those of the rest of it followed by the next piece (`lines_append`). -/

namespace TelegramCli.Lib.Lines

variable {α : Type*} [DecidableEq α] (n : α)

/-- The lines ended by `n`, and the symbols after the last of them. -/
def split : List α → List (List α) × List α
  | [] => ([], [])
  | x :: s =>
    if x = n then ([] :: (split s).1, (split s).2)
    else
      match split s with
      | ([], t) => ([], x :: t)
      | (l :: ls, t) => ((x :: l) :: ls, t)

/-- The terminated lines of a stream, without their terminators. -/
def lines (s : List α) : List (List α) := (split n s).1

/-- What follows the last terminator of a stream. -/
def rest (s : List α) : List α := (split n s).2

@[simp] theorem lines_nil : lines n ([] : List α) = [] := rfl

@[simp] theorem rest_nil : rest n ([] : List α) = [] := rfl

variable {n}

theorem split_of_notMem : ∀ {a : List α}, n ∉ a → split n a = ([], a)
  | [], _ => rfl
  | x :: a, h => by
    have hx : x ≠ n := fun e => h (by simp [e])
    have ha : n ∉ a := fun e => h (by simp [e])
    simp [split, hx, split_of_notMem ha]

theorem split_line : ∀ {a : List α} (s : List α), n ∉ a →
    split n (a ++ n :: s) = (a :: lines n s, rest n s)
  | [], s, _ => by simp [split, lines, rest]
  | x :: a, s, h => by
    have hx : x ≠ n := fun e => h (by simp [e])
    have ha : n ∉ a := fun e => h (by simp [e])
    simp [split, hx, split_line s ha]

/-- An unterminated piece has no lines. -/
theorem lines_of_notMem {a : List α} (h : n ∉ a) : lines n a = [] := by
  rw [lines, split_of_notMem h]

theorem rest_of_notMem {a : List α} (h : n ∉ a) : rest n a = a := by
  rw [rest, split_of_notMem h]

/-- The first line comes off the front. -/
theorem lines_line {a : List α} (s : List α) (h : n ∉ a) :
    lines n (a ++ n :: s) = a :: lines n s := by
  rw [lines, split_line s h]

theorem rest_line {a : List α} (s : List α) (h : n ∉ a) :
    rest n (a ++ n :: s) = rest n s := by
  rw [rest, split_line s h]

/-- **Induction over the lines of a stream**: it is unterminated, or a line and a stream. -/
theorem line_induction {P : List α → Prop} (open_ : ∀ a, n ∉ a → P a)
    (line : ∀ a s, n ∉ a → P s → P (a ++ n :: s)) : ∀ s, P s := by
  intro s
  induction hm : s.length using Nat.strong_induction_on generalizing s with
  | _ m ih =>
    by_cases h : n ∈ s
    · obtain ⟨a, t, rfl, ha⟩ := List.eq_append_cons_of_mem h
      refine line a t ha (ih t.length ?_ t rfl)
      subst hm; simp; omega
    · exact open_ s h

theorem rest_notMem (s : List α) : n ∉ rest n s := by
  induction s using line_induction (n := n) with
  | open_ a ha => rwa [rest_of_notMem ha]
  | line a s ha ih => rwa [rest_line s ha]

/-- The rest of a stream is a suffix of it. -/
theorem rest_suffix (s : List α) : rest n s <:+ s := by
  induction s using line_induction (n := n) with
  | open_ a ha => rw [rest_of_notMem ha]
  | line a s ha ih =>
    rw [rest_line s ha]
    exact ih.trans ((List.suffix_cons _ _).trans (List.suffix_append _ _))

/-- **Lines of a stream that arrives in two pieces.** -/
theorem lines_append (s t : List α) :
    lines n (s ++ t) = lines n s ++ lines n (rest n s ++ t) := by
  induction s using line_induction (n := n) with
  | open_ a ha => rw [lines_of_notMem ha, rest_of_notMem ha, List.nil_append]
  | line a s ha ih =>
    rw [List.append_assoc, List.cons_append, lines_line _ ha, lines_line _ ha, rest_line _ ha, ih,
      List.cons_append]

theorem rest_append (s t : List α) : rest n (s ++ t) = rest n (rest n s ++ t) := by
  induction s using line_induction (n := n) with
  | open_ a ha => rw [rest_of_notMem ha]
  | line a s ha ih =>
    rw [List.append_assoc, List.cons_append, rest_line _ ha, rest_line _ ha, ih]

theorem length_rest_le (s : List α) : (rest n s).length ≤ s.length :=
  (rest_suffix s).length_le

theorem length_rest_lt {s : List α} (h : n ∈ s) : (rest n s).length < s.length := by
  obtain ⟨a, t, rfl, ha⟩ := List.eq_append_cons_of_mem h
  rw [rest_line t ha]
  have := length_rest_le (n := n) t
  simp; omega

end TelegramCli.Lib.Lines
