import Mathlib.Tactic

/-! # Texts cut at a pattern

`cut` looks for the first occurrence of a pattern in a text, and `pieces` cuts the text at the
leftmost occurrences that do not overlap. With another text behind each piece but the last one they
are what replacing the occurrences leads to (`joined`). In a `Clear` text no occurrence of the
pattern begins, so that records made of clear texts, each behind the pattern, are read one by one
(`Clear.map_parts`). -/

namespace TelegramCli.Lib.Pieces

variable {α : Type*} [DecidableEq α] {rep : List α}

/-- What stands in front of the first occurrence, and what behind it. -/
def cut (rep : List α) : List α → Option (List α × List α)
  | [] => if rep = [] then some ([], []) else none
  | c :: s =>
    if rep <+: c :: s then some ([], (c :: s).drop rep.length)
    else (cut rep s).map fun p => (c :: p.1, p.2)

theorem cut_append : ∀ {s a b : List α}, cut rep s = some (a, b) → s = a ++ (rep ++ b)
  | [], a, b, h => by
    rw [cut] at h
    split_ifs at h with hrep
    cases h
    rw [hrep]
    rfl
  | c :: s, a, b, h => by
    rw [cut] at h
    split_ifs at h with hrep
    · cases h
      exact (List.prefix_append_drop hrep)
    · obtain ⟨⟨a', b'⟩, hcut, heq⟩ := Option.map_eq_some_iff.mp h
      cases heq
      rw [List.cons_append, ← cut_append hcut]

theorem cut_eq_none : ∀ {s : List α}, cut rep s = none ↔ ¬ rep <:+: s
  | [] => by
    rw [cut, List.infix_nil]
    split_ifs with hrep <;> simp [hrep]
  | c :: s => by
    rw [cut, List.infix_cons_iff, not_or]
    split_ifs with hrep
    · simp [hrep]
    · rw [Option.map_eq_none_iff, cut_eq_none, and_iff_right hrep]

/-- In front of the first occurrence none has been passed. -/
theorem cut_drop : ∀ {i : ℕ} {s a b : List α}, cut rep s = some (a, b) → i ≤ a.length →
    cut rep (s.drop i) = some (a.drop i, b)
  | 0, _, _, _, h, _ => h
  | i + 1, [], a, b, h, hi => by
    rw [cut] at h
    split_ifs at h
    cases h
    exact absurd hi (Nat.not_succ_le_zero i)
  | i + 1, c :: s, a, b, h, hi => by
    rw [cut] at h
    split_ifs at h
    · cases h
      exact absurd hi (Nat.not_succ_le_zero i)
    · obtain ⟨⟨a', b'⟩, hcut, heq⟩ := Option.map_eq_some_iff.mp h
      cases heq
      change cut rep (s.drop i) = some (a'.drop i, b')
      exact cut_drop hcut (Nat.le_of_succ_le_succ hi)

/-- The pieces in front of the occurrences, and what stands behind the last one. -/
def pieces (rep s : List α) : List (List α) × List α :=
  match cut rep s with
  | none => ([], s)
  | some (a, b) =>
    if b.length < s.length then (a :: (pieces rep b).1, (pieces rep b).2) else ([], s)
termination_by s.length

/-- The pieces with `new` behind each but the last. -/
def joined (new : List α) (p : List (List α) × List α) : List α := p.1.flatMap (· ++ new) ++ p.2

theorem pieces_of_none {s : List α} (h : cut rep s = none) : pieces rep s = ([], s) := by
  rw [pieces, h]

theorem cut_shorter (hrep : rep ≠ []) {s a b : List α} (h : cut rep s = some (a, b)) :
    b.length < s.length := by
  have hpos := List.length_pos_iff.mpr hrep
  rw [cut_append h, List.length_append, List.length_append]
  omega

theorem pieces_of_some (hrep : rep ≠ []) {s a b : List α} (h : cut rep s = some (a, b)) :
    pieces rep s = (a :: (pieces rep b).1, (pieces rep b).2) := by
  rw [pieces, h]
  exact if_pos (cut_shorter hrep h)

/-- **Induction over the pieces** of a text. -/
theorem pieces_induction (hrep : rep ≠ []) {P : List α → Prop}
    (last : ∀ s, cut rep s = none → P s)
    (front : ∀ s a b, cut rep s = some (a, b) → P b → P s) (s : List α) : P s := by
  cases h : cut rep s with
  | none => exact last s h
  | some p => exact front s p.1 p.2 h (pieces_induction hrep last front p.2)
termination_by s.length
decreasing_by exact cut_shorter hrep h

/-- Each occurrence is replaced by a text of its own length. -/
theorem length_joined (new : List α) (hrep : rep ≠ []) (s : List α) :
    (joined new (pieces rep s)).length + rep.length * (pieces rep s).1.length =
      s.length + new.length * (pieces rep s).1.length := by
  induction s using pieces_induction hrep with
  | last s h =>
    rw [pieces_of_none h]
    rfl
  | front s a b h ih =>
    have hlen := congrArg List.length (cut_append h)
    rw [pieces_of_some hrep h]
    simp only [joined, List.flatMap_cons, List.length_append, List.length_cons] at ih hlen ⊢
    rw [Nat.mul_succ, Nat.mul_succ]
    omega

theorem length_pieces_le (hrep : rep ≠ []) (s : List α) :
    rep.length * (pieces rep s).1.length ≤ s.length := by
  have hlen := length_joined [] hrep s
  rw [List.length_nil, Nat.zero_mul] at hlen
  omega

theorem pieces_eq_nil (hrep : rep ≠ []) (s : List α) : (pieces rep s).1 = [] ↔ cut rep s = none := by
  cases h : cut rep s with
  | none => simp [pieces_of_none h]
  | some p => simp [pieces_of_some hrep h]

/-! ### Texts in which a pattern does not begin -/

/-- No occurrence of `d :: r` begins in the text, whatever follows it. -/
def Clear (d : α) (r : List α) : List α → Prop
  | [] => True
  | c :: s => (c = d → ¬ s <+: r ∧ ¬ r <+: s) ∧ Clear d r s

instance decidableClear (d : α) (r : List α) : DecidablePred (Clear d r)
  | [] => .isTrue trivial
  | c :: s =>
    have : Decidable (Clear d r s) := decidableClear d r s
    inferInstanceAs (Decidable ((c = d → ¬ s <+: r ∧ ¬ r <+: s) ∧ Clear d r s))

variable {d : α} {r : List α}

omit [DecidableEq α] in
theorem clear_of_notMem : ∀ {s : List α}, d ∉ s → Clear d r s
  | [], _ => trivial
  | c :: s, h => by
    rw [List.mem_cons, not_or] at h
    exact ⟨fun hc => absurd hc.symm h.1, clear_of_notMem h.2⟩

omit [DecidableEq α] in
/-- What is apart from a text stays so when it goes on. -/
theorem apart_append {s : List α} (h : ¬ s <+: r ∧ ¬ r <+: s) (t : List α) :
    ¬ s ++ t <+: r ∧ ¬ r <+: s ++ t := by
  refine ⟨fun hst => h.1 ((List.prefix_append s t).trans hst), fun hr => ?_⟩
  exact (List.prefix_or_prefix_of_prefix hr (List.prefix_append s t)).elim h.2 h.1

omit [DecidableEq α] in
theorem Clear.append : ∀ {s t : List α}, Clear d r s → Clear d r t → Clear d r (s ++ t)
  | [], _, _, ht => ht
  | _ :: _, t, ⟨hc, hs⟩, ht => ⟨fun hd => apart_append (hc hd) t, hs.append ht⟩

omit [DecidableEq α] in
theorem Clear.flatMap {ι : Type*} {f : ι → List α} {xs : List ι}
    (h : ∀ x ∈ xs, Clear d r (f x)) : Clear d r (xs.flatMap f) := by
  induction xs with
  | nil => exact trivial
  | cons x xs ih =>
    rw [List.flatMap_cons]
    exact (h x List.mem_cons_self).append (ih fun y hy => h y (List.mem_cons_of_mem x hy))

/-- **The first occurrence** behind a clear text. -/
theorem Clear.cut : ∀ {s : List α}, Clear d r s → ∀ t : List α,
    Pieces.cut (d :: r) (s ++ (d :: r ++ t)) = some (s, t)
  | [], _, t => by
    rw [List.nil_append, List.cons_append, Pieces.cut, ← List.cons_append,
      if_pos (List.prefix_append _ t), List.drop_left]
  | c :: s, ⟨hc, hs⟩, t => by
    have hno : ¬ d :: r <+: c :: (s ++ (d :: r ++ t)) := fun h => by
      rw [List.cons_prefix_cons] at h
      exact (apart_append (hc h.1.symm) _).2 h.2
    rw [List.cons_append, Pieces.cut, if_neg hno, hs.cut t]
    rfl

theorem Clear.cut_none : ∀ {s : List α}, Clear d r s → Pieces.cut (d :: r) s = none
  | [], _ => if_neg (List.cons_ne_nil d r)
  | c :: s, ⟨hc, hs⟩ => by
    have hno : ¬ d :: r <+: c :: s := fun h => by
      rw [List.cons_prefix_cons] at h
      exact (hc h.1.symm).2 h.2
    rw [Pieces.cut, if_neg hno, hs.cut_none]
    rfl

/-- The pieces with the last one. -/
def parts (rep s : List α) : List (List α) := (pieces rep s).1 ++ [(pieces rep s).2]

theorem Clear.parts_front {s : List α} (h : Clear d r s) (t : List α) :
    parts (d :: r) (s ++ (d :: r ++ t)) = s :: parts (d :: r) t := by
  rw [parts, pieces_of_some (List.cons_ne_nil d r) (h.cut t)]
  rfl

theorem Clear.parts_last {s : List α} (h : Clear d r s) : parts (d :: r) s = [s] := by
  rw [parts, pieces_of_none h.cut_none]
  rfl

/-- **Records one after the other**, each behind the pattern: what a reader that does not look
behind a record makes of the parts. -/
theorem Clear.map_parts {ι β : Type*} {read : List α → β} {value : ι → β} {pre : List α}
    {post : ι → List α} (hpre : Clear d r pre) : ∀ {xs : List ι} {s : List α}, Clear d r s →
    (∀ x ∈ xs, Clear d r (post x) ∧ ∀ t, read (post x ++ t) = value x) →
    ((parts (d :: r) (s ++ xs.flatMap fun x => pre ++ (d :: r ++ post x))).drop 1).map read =
      xs.map value
  | [], s, hs, _ => by
    rw [List.flatMap_nil, List.append_nil, hs.parts_last]
    rfl
  | x :: xs, s, hs, hx => by
    obtain ⟨hpost, hread⟩ := hx x List.mem_cons_self
    have ih := Clear.map_parts hpre hpost fun y hy => hx y (List.mem_cons_of_mem x hy)
    have hfront : ∃ t, (parts (d :: r)
        (post x ++ xs.flatMap fun x => pre ++ (d :: r ++ post x))).head? = some (post x ++ t) := by
      cases xs with
      | nil => exact ⟨[], by rw [List.flatMap_nil, List.append_nil, hpost.parts_last]; simp⟩
      | cons y ys =>
        refine ⟨pre, ?_⟩
        rw [List.flatMap_cons, List.append_assoc, ← List.append_assoc (post x), List.append_assoc
          (d :: r), (hpost.append hpre).parts_front]
        rfl
    obtain ⟨t, ht⟩ := hfront
    rw [List.flatMap_cons, List.append_assoc, ← List.append_assoc s, List.append_assoc (d :: r),
      (hs.append hpre).parts_front, List.drop_succ_cons, List.drop_zero, List.map_cons, ← hread t,
      ← ih]
    obtain ⟨tail, htail⟩ := List.head?_eq_some_iff.mp ht
    rw [htail]
    rfl

end TelegramCli.Lib.Pieces
