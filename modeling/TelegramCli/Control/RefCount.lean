import TelegramCli.Control.Connections

/-! # Who holds a connection

`Accounts k w` says that every `refcnt` is the number of the `holders`, plus a surplus `k` that
nobody will release. An action moves the surplus of its connection by one: `ref` up, a query or a
callback down. The end of a connection, the result of a query and a new main session leave the
surplus as it is (`Accounts.eventIncoming`, `Accounts.complete`, `Accounts.mainSession`). -/

namespace TelegramCli.Control.RefCount

open TelegramCli.Tgl TelegramCli.Interface.Actions TelegramCli.Interface.Args
open TelegramCli.Interface.Handlers TelegramCli.Interface.Commands
open TelegramCli.Interface.Interpreter TelegramCli.Interface.Sessions
open TelegramCli.Lib.Run TelegramCli.Control.Connections

/-! ### Holders -/

/-- 1 if the bufferevent is open. -/
def bevHolds (w : World) (a : ℕ) : ℕ := (w.heap a).elim 0 fun e => if e.bevOpen then 1 else 0

/-- The queries under way that carry the connection. -/
def queriesHold (w : World) (a : ℕ) : ℕ := (w.outstanding.map Prod.fst).count (some a)

/-- 1 if `notify_ev` points to it. -/
def notifyHolds (w : World) (a : ℕ) : ℕ := if w.notifyEv = some a then 1 else 0

/-- The number of the holders of a connection. -/
def holders (w : World) (a : ℕ) : ℕ := bevHolds w a + queriesHold w a + notifyHolds w a

/-- The count of a connection, 0 when it is freed. -/
def refcnt (w : World) (a : ℕ) : ℤ := (w.heap a).elim 0 InEv.refcnt

/-- Every count is the number of holders and a surplus, and no live count is 0. -/
structure Accounts (k : ℕ → ℤ) (w : World) : Prop where
  refcnt_eq : ∀ a, refcnt w a = holders w a + k a
  pos : ∀ a e, w.heap a = some e → 0 < e.refcnt

/-- The surplus of one connection changes. -/
def bump (ev : Option ℕ) (n : ℤ) (k : ℕ → ℤ) : ℕ → ℤ := fun a => k a + if ev = some a then n else 0

theorem bump_bump (ev : Option ℕ) (m n : ℤ) (k : ℕ → ℤ) :
    bump ev m (bump ev n k) = bump ev (n + m) k := by
  funext a; unfold bump; split_ifs <;> omega

theorem bump_zero (ev : Option ℕ) (k : ℕ → ℤ) : bump ev 0 k = k := by
  funext a; unfold bump; split_ifs <;> omega

theorem bump_none (n : ℤ) (k : ℕ → ℤ) : bump none n k = k := by
  funext a; simp [bump]

/-! ### One action -/

@[simp] theorem set_heap (w : World) (a b : ℕ) (e : Option InEv) :
    (w.set a e).heap b = if b = a then e else w.heap b := Function.update_apply _ _ _ _

@[simp] theorem set_outstanding (w : World) (a : ℕ) (e : Option InEv) :
    (w.set a e).outstanding = w.outstanding := rfl

@[simp] theorem set_notifyEv (w : World) (a : ℕ) (e : Option InEv) :
    (w.set a e).notifyEv = w.notifyEv := rfl

/-- The references that are not the bufferevent's. -/
def others (e : Option InEv) : ℤ := e.elim 0 fun x => x.refcnt - if x.bevOpen then 1 else 0

/-- An update of one connection. -/
theorem Accounts.set {k : ℕ → ℤ} {w : World} (h : Accounts k w) {a : ℕ} {e : InEv}
    (ha : w.heap a = some e) {n : ℤ} {e' : Option InEv}
    (hothers : others e' = others (some e) + n) (hpos : ∀ x, e' = some x → 0 < x.refcnt) :
    Accounts (bump (some a) n k) (w.set a e') := by
  have hsplit : ∀ x : Option InEv, (x.elim 0 InEv.refcnt : ℤ) =
      others x + ((x.elim 0 fun y => if y.bevOpen then 1 else 0 : ℕ) : ℤ) := by
    intro x
    cases x with
    | none => rfl
    | some y => unfold others; simp only [Option.elim_some]; split_ifs <;> push_cast <;> omega
  refine ⟨fun b => ?_, fun b x hb => ?_⟩
  · have hk := h.refcnt_eq b
    unfold refcnt holders bevHolds queriesHold notifyHolds bump at *
    rw [hsplit] at hk ⊢
    rw [set_heap, set_outstanding, set_notifyEv]
    by_cases hba : b = a
    · subst hba
      rw [ha] at hk
      rw [if_pos rfl, if_pos rfl, hothers]
      push_cast at hk ⊢
      omega
    · rw [if_neg hba, if_neg (fun he => hba (Option.some.inj he).symm), hk]
      omega
  · rw [set_heap] at hb
    split_ifs at hb with hba
    · exact hpos x hb
    · exact h.pos b x hb

theorem Accounts.retain {k : ℕ → ℤ} {w w' : World} {ev : Option ℕ} (h : Accounts k w)
    (hw : retain w ev = .ok w') : Accounts (bump ev 1 k) w' := by
  cases ev with
  | none => cases hw; rwa [bump_none]
  | some a =>
    unfold Connections.retain at hw
    cases ha : w.heap a with
    | none => simp [ha] at hw
    | some e =>
      simp only [ha] at hw
      cases hw
      have hp := h.pos a e ha
      exact h.set ha (by unfold others; simp only [Option.elim_some]; omega)
        fun x hx => by cases hx; simp only; omega

/-- A reference is given back that is not the last one of an open connection. -/
theorem Accounts.release {k : ℕ → ℤ} {w w' : World} {ev : Option ℕ} (h : Accounts k w)
    (hlast : ∀ a e, ev = some a → w.heap a = some e → e.bevOpen = true → 1 < e.refcnt)
    (hw : release w ev = .ok w') : Accounts (bump ev (-1) k) w' := by
  cases ev with
  | none => cases hw; rwa [bump_none]
  | some a =>
    unfold Connections.release at hw
    cases ha : w.heap a with
    | none => simp [ha] at hw
    | some e =>
      simp only [ha] at hw
      cases hw
      have hp := h.pos a e ha
      have hl := hlast a e rfl ha
      split_ifs with h1
      · have hb : e.bevOpen = false := by
          rw [← Bool.not_eq_true]; intro hb; exact absurd (hl hb) (by omega)
        refine h.set ha ?_ (by simp)
        unfold others
        simp only [Option.elim_none, Option.elim_some, hb, if_neg Bool.false_ne_true]
        omega
      · exact h.set ha (by unfold others; simp only [Option.elim_some]; omega)
          fun x hx => by cases hx; simp only; omega

/-- A query takes the reference over, or its callback gives it back at once. -/
theorem Accounts.ask {k : ℕ → ℤ} {w w' : World} {lib : Library} {ev : Option ℕ} {q : Query}
    {cb : Option Callback} (h : Accounts k w)
    (hlast : ∀ a e, ev = some a → w.heap a = some e → e.bevOpen = true → 1 < e.refcnt)
    (hw : ask lib ev w q cb = .ok w') : Accounts (bump ev (-1) k) w' := by
  unfold Connections.ask at hw
  split_ifs at hw
  · exact h.release hlast hw
  · cases hw
    refine ⟨fun b => ?_, h.pos⟩
    have hk := h.refcnt_eq b
    unfold refcnt holders bevHolds queriesHold notifyHolds bump at *
    simp only [List.map_append, List.map_cons, List.map_nil, List.count_append,
      List.count_singleton, beq_iff_eq]
    split_ifs at hk ⊢ <;> omega

/-- The count of an open connection with a reference of its own. -/
theorem Accounts.lt_of_open {k : ℕ → ℤ} {w : World} (h : Accounts k w) {a : ℕ} {e : InEv}
    (ha : w.heap a = some e) (hopen : e.bevOpen = true) :
    (queriesHold w a : ℤ) + notifyHolds w a + k a + 1 = e.refcnt := by
  have hk := h.refcnt_eq a
  unfold refcnt holders bevHolds at hk
  rw [ha] at hk
  simp only [Option.elim_some, hopen, if_true] at hk
  omega

theorem release_notifyEv {w w' : World} {ev : Option ℕ} (hw : release w ev = .ok w') :
    w'.notifyEv = w.notifyEv := by
  unfold Connections.release at hw
  cases ev with
  | none => cases hw; rfl
  | some a =>
    cases ha : w.heap a with
    | none => simp [ha] at hw
    | some e => simp only [ha] at hw; cases hw; rfl

theorem count_eraseIdx_fst : ∀ {l : List (Option ℕ × Option Callback)} {i : ℕ} {x : Option ℕ}
    {y : Option Callback}, l[i]? = some (x, y) → ∀ b, (l.map Prod.fst).count b =
      ((l.eraseIdx i).map Prod.fst).count b + if x = b then 1 else 0
  | [], _, _, _, h, _ => by simp at h
  | p :: l, 0, x, y, h, b => by
    cases h
    simp [List.count_cons]
  | p :: l, i + 1, x, y, h, b => by
    have ih := count_eraseIdx_fst (show l[i]? = some (x, y) from h) b
    rw [List.eraseIdx_cons_succ, List.map_cons, List.map_cons, List.count_cons, List.count_cons, ih]
    omega

/-- The end of a connection gives back the reference of its bufferevent. -/
theorem Accounts.eventIncoming {k : ℕ → ℤ} {w w' : World} {ev : Option ℕ} (h : Accounts k w)
    (hw : eventIncoming w ev = .ok w') : Accounts k w' := by
  cases ev with
  | none => cases hw
  | some a =>
    unfold Connections.eventIncoming at hw
    cases ha : w.heap a with
    | none => simp [ha] at hw
    | some e =>
      simp only [ha] at hw
      split_ifs at hw with hopen
      have hclosed : Accounts (bump (some a) 1 k) (w.set a (some { e with bevOpen := false })) := by
        refine h.set ha ?_ fun x hx => by cases hx; exact h.pos a e ha
        unfold others
        simp only [Option.elim_some, hopen, if_true, if_neg Bool.false_ne_true]
        omega
      have hrel := hclosed.release (fun b x hb hx hx' => by
        cases hb
        rw [set_heap, if_pos rfl] at hx
        cases hx
        exact absurd hx' (by simp)) hw
      rwa [bump_bump, show (1 : ℤ) + -1 = 0 from rfl, bump_zero] at hrel

/-- `notify_ev` gives back its reference before it takes another. -/
theorem Accounts.mainSession {k : ℕ → ℤ} {w w' : World} {ev : Option ℕ} (h : Accounts k w)
    (hk : ∀ a, 0 ≤ k a) (hw : mainSession w ev = .ok w') : Accounts k w' := by
  obtain ⟨v, hv, hw⟩ := bind_eq_ok.mp hw
  have hrel : Accounts (bump w.notifyEv (-1) k) v := by
    refine h.release (fun a e ha he hopen => ?_) hv
    have hl := h.lt_of_open he hopen
    have hn : notifyHolds w a = 1 := if_pos ha
    have := hk a
    omega
  have hnotify : v.notifyEv = w.notifyEv := release_notifyEv hv
  have hmoved : Accounts (bump ev (-1) k) { v with notifyEv := ev } := by
    refine ⟨fun b => ?_, hrel.pos⟩
    have hb := hrel.refcnt_eq b
    unfold refcnt holders bevHolds queriesHold notifyHolds bump at *
    rw [hnotify] at hb
    simp only at hb ⊢
    split_ifs at hb ⊢ <;> omega
  have hret := hmoved.retain hw
  rwa [bump_bump, show (-1 : ℤ) + 1 = 0 from rfl, bump_zero] at hret

/-- The result of a query: the reference of the query goes to the callback, which gives it back. -/
theorem Accounts.complete {k : ℕ → ℤ} {w w' : World} {i : ℕ} {ev : Option ℕ}
    {cb : Option Callback} (h : Accounts k w) (hk : ∀ a, 0 ≤ k a)
    (hi : w.outstanding[i]? = some (ev, cb))
    (hw : Connections.release { w with outstanding := w.outstanding.eraseIdx i } ev = .ok w') :
    Accounts k w' := by
  have hdone : Accounts (bump ev 1 k) { w with outstanding := w.outstanding.eraseIdx i } := by
    refine ⟨fun b => ?_, h.pos⟩
    have hb := h.refcnt_eq b
    have hcount := count_eraseIdx_fst hi (some b)
    unfold refcnt holders bevHolds queriesHold notifyHolds bump at *
    simp only at hb ⊢
    split_ifs at hcount hb ⊢ <;> omega
  have hrel := hdone.release (fun a e ha he hopen => by
    have hl := hdone.lt_of_open he hopen
    have := hk a
    unfold bump at hl
    rw [if_pos ha] at hl
    omega) hw
  rwa [bump_bump, show (1 : ℤ) + -1 = 0 from rfl, bump_zero] at hrel

end TelegramCli.Control.RefCount
