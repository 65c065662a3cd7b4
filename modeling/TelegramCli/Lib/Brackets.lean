import Mathlib.Tactic

/-! # Printers with a stack of marks

A printer changes a state with a stack of marks, which has a limit and can be switched off. An
operation on the stack fails when it is full or empty. `Levels n a b p` says that from `a` marks
above any base `p` leads to `b` marks above the same base and needs no room but for `n` of them, so
that it does not fail at the stack. The base is in the definition, so a printer that needs `n` may
stand where `a` marks are pushed already, if there is room for `a + n` (`Levels.above`). -/

namespace TelegramCli.Lib.Brackets

variable {α σ ε : Type} {max : ℕ}

/-- A state with a stack of at most `max` marks, and how they are `drawn` on the rest: the mark that
is on top after each operation. -/
structure Screen (α σ : Type) (max : ℕ) where
  marks : List α
  held : marks.length ≤ max
  rest : σ

inductive Failure (ε : Type)
  /-- A mark is pushed on a full stack. -/
  | full
  /-- A mark is popped from an empty stack. -/
  | empty
  /-- Marks are left where the stack should be empty. -/
  | left
  | other (e : ε)

abbrev Printer (α σ ε : Type) (max : ℕ) : Type := StateT (Screen α σ max) (Except (Failure ε)) Unit

/-! ### Operations -/

/-- A change of the rest. -/
def write (f : σ → Except ε σ) : Printer α σ ε max := fun s =>
  match f s.rest with
  | .ok rest => .ok ((), { s with rest })
  | .error e => .error (.other e)

/-- The mark is put on the stack, if it is switched on. -/
def push (on : Bool) (draw : Option α → σ → σ) (mark : α) : Printer α σ ε max := fun s =>
  if on then
    if h : s.marks.length < max then
      .ok ((), ⟨mark :: s.marks, h, draw (some mark) s.rest⟩)
    else .error .full
  else .ok ((), s)

/-- The mark on top is taken off, if the stack is switched on. -/
def pop (on : Bool) (draw : Option α → σ → σ) : Printer α σ ε max := fun s =>
  if on then
    if s.marks = [] then .error .empty
    else
      .ok ((), ⟨s.marks.tail, (List.length_tail ▸ Nat.sub_le _ 1).trans s.held,
        draw s.marks.tail.head? s.rest⟩)
  else .ok ((), s)

/-- The assertion that the stack is empty. -/
def assertEmpty : Printer α σ ε max := fun s =>
  if s.marks = [] then .ok ((), s) else .error .left

/-- One printer after the other. -/
def steps : List (Printer α σ ε max) → Printer α σ ε max
  | [] => pure ()
  | p :: ps => p >>= fun _ => steps ps

/-! ### Levels -/

/-- There are `a` marks above the base. -/
def Above (on : Bool) (base : List α) (a : ℕ) (s : Screen α σ max) : Prop :=
  ∃ own, s.marks = own ++ base ∧ own.length = if on then a else 0

/-- From `a` marks above a base to `b`, where the base leaves room for `n`. The printer fails with a
failure in `F` only. -/
def Levels (on : Bool) (F : ε → Prop) (n a b : ℕ) (p : Printer α σ ε max) : Prop :=
  ∀ (base : List α) (s : Screen α σ max), Above on base a s → base.length + n ≤ max →
    (∃ s', p s = .ok ((), s') ∧ Above on base b s') ∨ ∃ e, F e ∧ p s = .error (.other e)

variable {on : Bool} {F : ε → Prop} {n a b c : ℕ} {p q : Printer α σ ε max}

theorem levels_write {f : σ → Except ε σ} (h : ∀ r e, f r = .error e → F e) :
    Levels on F n a a (write f : Printer α σ ε max) := by
  intro base s hs _
  unfold write
  cases hf : f s.rest with
  | ok rest => exact .inl ⟨_, rfl, hs⟩
  | error e => exact .inr ⟨e, h _ e hf, rfl⟩

theorem levels_push (draw : Option α → σ → σ) (mark : α) (h : a < n) :
    Levels on F n a (a + 1) (push on draw mark : Printer α σ ε max) := by
  rintro base s ⟨own, hown, hlen⟩ hroom
  unfold push
  cases on with
  | false => exact .inl ⟨s, rfl, own, hown, hlen⟩
  | true =>
    rw [if_pos rfl] at hlen
    have hlt : s.marks.length < max := by
      rw [hown, List.length_append]
      omega
    rw [if_pos rfl, dif_pos hlt]
    refine .inl ⟨_, rfl, mark :: own, by rw [List.cons_append, ← hown], ?_⟩
    rw [if_pos rfl, List.length_cons, hlen]

theorem levels_pop (draw : Option α → σ → σ) :
    Levels on F n (a + 1) a (pop on draw : Printer α σ ε max) := by
  rintro base s ⟨own, hown, hlen⟩ -
  unfold pop
  cases on with
  | false => exact .inl ⟨s, rfl, own, hown, hlen⟩
  | true =>
    rw [if_pos rfl] at hlen
    obtain ⟨mark, own, rfl⟩ := List.exists_cons_of_length_eq_add_one hlen
    have hne : s.marks ≠ [] := by
      rw [hown]
      exact List.cons_ne_nil _ _
    rw [if_pos rfl, if_neg hne]
    refine .inl ⟨_, rfl, own, ?_, ?_⟩
    · show s.marks.tail = own ++ base
      rw [hown, List.cons_append, List.tail_cons]
    · rw [if_pos rfl]
      exact Nat.succ.inj hlen

theorem levels_nil : Levels on F n a a (steps [] : Printer α σ ε max) :=
  fun _ s hs _ => .inl ⟨s, rfl, hs⟩

/-- **One printer after another.** -/
theorem levels_cons {ps : List (Printer α σ ε max)} (hp : Levels on F n a b p)
    (hps : Levels on F n b c (steps ps)) : Levels on F n a c (steps (p :: ps)) := by
  intro base s hs hroom
  have hrun : steps (p :: ps) s = (p s).bind fun r => steps ps r.2 := rfl
  rw [hrun]
  rcases hp base s hs hroom with ⟨t, ht, hst⟩ | ⟨e, he, herror⟩
  · rw [ht]
    exact hps base t hst hroom
  · rw [herror]
    exact .inr ⟨e, he, rfl⟩

theorem levels_ite {c : Prop} [Decidable c] (hp : c → Levels on F n a b p)
    (hq : ¬ c → Levels on F n a b q) : Levels on F n a b (if c then p else q) := by
  split_ifs with h
  · exact hp h
  · exact hq h

/-- **A printer that leaves the stack as it was** may stand above other marks. -/
theorem Levels.above (h : Levels on F n 0 0 p) {m : ℕ} (hm : a + n ≤ m) : Levels on F m a a p := by
  rintro base s ⟨own, hown, hlen⟩ hroom
  have hsum : (own ++ base).length + n ≤ max := by
    rw [List.length_append, hlen]
    split_ifs <;> omega
  rcases h (own ++ base) s ⟨[], hown, by simp⟩ hsum with ⟨t, ht, own', hown', hlen'⟩ | hfail
  · have hnil : own' = [] := List.eq_nil_of_length_eq_zero (by simpa using hlen')
    exact .inl ⟨t, ht, own, by rw [hown', hnil, List.nil_append], hlen⟩
  · exact .inr hfail

/-- Printers that leave the stack as it was, one after another. -/
theorem levels_steps : ∀ {ps : List (Printer α σ ε max)}, (∀ p ∈ ps, Levels on F n a a p) →
    Levels on F n a a (steps ps)
  | [], _ => levels_nil
  | p :: _, h => levels_cons (h p List.mem_cons_self)
    (levels_steps fun q hq => h q (List.mem_cons_of_mem p hq))

/-- A printer between a push and a pop. -/
theorem levels_within (draw : Option α → σ → σ) (mark : α) (h : Levels on F n 0 0 p) {m : ℕ}
    (hm : a + 1 + n ≤ m) : Levels on F m a a (steps [push on draw mark, p, pop on draw]) :=
  levels_cons (levels_push draw mark (by omega))
    (levels_cons (h.above hm) (levels_cons (levels_pop draw) levels_nil))

/-! ### Runs -/

/-- The printer leads from an empty stack to an empty stack, or fails with a failure in `F`. -/
def Clears (F : ε → Prop) (p : Printer α σ ε max) : Prop :=
  ∀ s : Screen α σ max, s.marks = [] →
    (∃ s', p s = .ok ((), s') ∧ s'.marks = []) ∨ ∃ e, F e ∧ p s = .error (.other e)

/-- **A printer with room** that leaves the stack as it was leaves it empty. -/
theorem Levels.clears (h : Levels on F n 0 0 p) (hn : n ≤ max) : Clears F p := by
  intro s hs
  rcases h [] s ⟨[], hs, by simp⟩ (by simpa using hn) with ⟨t, ht, own, hown, hlen⟩ | hfail
  · have hnil : own = [] := List.eq_nil_of_length_eq_zero (by simpa using hlen)
    exact .inl ⟨t, ht, by rw [hown, hnil, List.nil_append]⟩
  · exact .inr hfail

theorem clears_assertEmpty : Clears F (assertEmpty : Printer α σ ε max) :=
  fun s hs => .inl ⟨s, if_pos hs, hs⟩

theorem clears_nil : Clears F (steps [] : Printer α σ ε max) := fun s hs => .inl ⟨s, rfl, hs⟩

theorem clears_ite {c : Prop} [Decidable c] (hp : c → Clears F p) (hq : ¬ c → Clears F q) :
    Clears F (if c then p else q) := by
  split_ifs with h
  · exact hp h
  · exact hq h

theorem clears_cons {ps : List (Printer α σ ε max)} (hp : Clears F p) (hps : Clears F (steps ps)) :
    Clears F (steps (p :: ps)) := by
  intro s hs
  have hrun : steps (p :: ps) s = (p s).bind fun r => steps ps r.2 := rfl
  rw [hrun]
  rcases hp s hs with ⟨t, ht, hempty⟩ | ⟨e, he, herror⟩
  · rw [ht]
    exact hps t hempty
  · rw [herror]
    exact .inr ⟨e, he, rfl⟩

end TelegramCli.Lib.Brackets
