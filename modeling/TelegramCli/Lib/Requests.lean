import Mathlib.Tactic

/-! # Questions and answers

A client asks questions, and each of them is answered once, at once or later and in any order. The
`Account` of a client has the questions it asked, those that were answered and those under way. Its
moves are the three ways in which a question goes on. Moves keep the account `Balanced`: what was
asked is what was answered and what is under way, each as often. -/

namespace TelegramCli.Lib.Requests

variable {κ : Type*}

structure Account (κ : Type*) where
  asked : List κ
  answered : List κ
  pending : List κ

/-- The account of a new client. -/
def Account.new : Account κ := ⟨[], [], []⟩

/-- The moves of an account. -/
inductive Move : Account κ → Account κ → Prop
  /-- A question is asked. -/
  | ask (A : Account κ) (k : κ) : Move A ⟨A.asked ++ [k], A.answered, A.pending ++ [k]⟩
  /-- A question is asked and answered at once. -/
  | reply (A : Account κ) (k : κ) : Move A ⟨A.asked ++ [k], A.answered ++ [k], A.pending⟩
  /-- A question under way is answered. -/
  | answer (A : Account κ) (i : ℕ) (k : κ) : A.pending[i]? = some k →
    Move A ⟨A.asked, A.answered ++ [k], A.pending.eraseIdx i⟩

/-- Any number of moves. -/
abbrev Moves : Account κ → Account κ → Prop := Relation.ReflTransGen Move

/-- What was asked is what was answered and what is under way. -/
def Account.Balanced (A : Account κ) : Prop := (A.answered ++ A.pending).Perm A.asked

theorem balanced_new : (Account.new : Account κ).Balanced := List.Perm.refl []

/-- An item behind the first list, or behind both. -/
theorem append_singleton_perm (as ps : List κ) (k : κ) :
    (as ++ [k] ++ ps).Perm (as ++ ps ++ [k]) := by
  rw [List.append_assoc, List.append_assoc]
  exact List.Perm.append_left as List.perm_append_comm

theorem perm_of_getElem? {ps : List κ} {i : ℕ} {k : κ} (h : ps[i]? = some k) :
    ps.Perm ([k] ++ ps.eraseIdx i) := by
  obtain ⟨hi, rfl⟩ := List.getElem?_eq_some_iff.mp h
  exact (List.getElem_cons_eraseIdx_perm hi).symm

/-- **A move** keeps the balance. -/
theorem Move.balanced {A B : Account κ} (hmove : Move A B) (h : A.Balanced) : B.Balanced := by
  unfold Account.Balanced at h ⊢
  cases hmove with
  | ask k =>
    have hasked := h.append_right [k]
    rwa [List.append_assoc] at hasked
  | reply k => exact (append_singleton_perm _ _ k).trans (h.append_right [k])
  | answer i k hi =>
    have hpending := (perm_of_getElem? hi).append_left A.answered
    rw [← List.append_assoc] at hpending
    exact hpending.symm.trans h

/-- **All moves** keep the balance. -/
theorem Moves.balanced {A B : Account κ} (hmoves : Moves A B) (h : A.Balanced) : B.Balanced := by
  induction hmoves with
  | refl => exact h
  | tail _ hmove ih => exact hmove.balanced ih

/-- Answers to what was asked, if anything was. -/
theorem moves_reply (A : Account κ) (k : Option κ) :
    Moves A ⟨A.asked ++ k.toList, A.answered ++ k.toList, A.pending⟩ := by
  cases k with
  | none =>
    rw [Option.toList_none, List.append_nil, List.append_nil]
  | some k => exact .single (.reply A k)

theorem moves_ask (A : Account κ) (k : Option κ) :
    Moves A ⟨A.asked ++ k.toList, A.answered, A.pending ++ k.toList⟩ := by
  cases k with
  | none =>
    rw [Option.toList_none, List.append_nil, List.append_nil]
  | some k => exact .single (.ask A k)

/-- What is left of the questions in a list when an item is taken off. -/
theorem filterMap_eraseIdx {α : Type*} (f : α → Option κ) : ∀ {l : List α} {i : ℕ} {x : α},
    l[i]? = some x →
    (f x = none ∧ (l.eraseIdx i).filterMap f = l.filterMap f) ∨
      ∃ k j, f x = some k ∧ (l.filterMap f)[j]? = some k ∧
        (l.eraseIdx i).filterMap f = (l.filterMap f).eraseIdx j
  | [], _, _, h => by simp at h
  | y :: l, 0, x, h => by
    cases h
    rw [List.eraseIdx_cons_zero]
    rw [List.filterMap_cons]
    cases f y with
    | none => exact .inl ⟨rfl, rfl⟩
    | some k => exact .inr ⟨k, 0, rfl, rfl, rfl⟩
  | y :: l, i + 1, x, h => by
    have ih := filterMap_eraseIdx f (show l[i]? = some x from h)
    rw [List.eraseIdx_cons_succ, List.filterMap_cons, List.filterMap_cons]
    cases f y with
    | none => exact ih
    | some m =>
      rcases ih with ⟨hx, herase⟩ | ⟨k, j, hx, hj, herase⟩
      · exact .inl ⟨hx, by simp only [herase]⟩
      · exact .inr ⟨k, j + 1, hx, hj, by simp only [herase, List.eraseIdx_cons_succ]⟩

/-- An item of the list is answered, if it is a question. -/
theorem moves_answer {α : Type*} {f : α → Option κ} {l : List α} {i : ℕ} {x : α}
    (h : l[i]? = some x) (asked answered : List κ) :
    Moves ⟨asked, answered, l.filterMap f⟩
      ⟨asked, answered ++ (f x).toList, (l.eraseIdx i).filterMap f⟩ := by
  rcases filterMap_eraseIdx f h with ⟨hx, herase⟩ | ⟨k, j, hx, hj, herase⟩
  · rw [hx, herase, Option.toList_none, List.append_nil]
  · rw [hx, herase]
    exact .single (.answer ⟨asked, answered, l.filterMap f⟩ j k hj)

/-- No question is answered more often than it was asked. -/
theorem Account.Balanced.count_le [DecidableEq κ] {A : Account κ} (h : A.Balanced) (k : κ) :
    A.answered.count k ≤ A.asked.count k := by
  rw [← h.count_eq k, List.count_append]
  omega

/-- When nothing is under way, all that was asked was answered. -/
theorem Account.Balanced.answered_perm {A : Account κ} (h : A.Balanced) (hp : A.pending = []) :
    A.answered.Perm A.asked := by
  unfold Account.Balanced at h
  rwa [hp, List.append_nil] at h

end TelegramCli.Lib.Requests
