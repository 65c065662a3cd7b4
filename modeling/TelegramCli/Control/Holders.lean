import TelegramCli.Control.RefCount
import TelegramCli.Control.Settle
import TelegramCli.Interface.Head

/-! # Counts over a run

A line adds to the surplus of its connection the number of its leaky calls
(`handleEffects_accounts`), and no other step changes it (`step_accounts`). So the surplus never
shrinks, and the counts at the end of a run are those of the holders exactly when no step of the run
leaked (`refcnt_eq_holders_iff`). -/

namespace TelegramCli.Control.Holders

open TelegramCli.Lib.Run TelegramCli.Lib.CString TelegramCli.Tgl TelegramCli.Interface.Token
open TelegramCli.Interface.Actions TelegramCli.Interface.Args TelegramCli.Interface.Commands
open TelegramCli.Interface.Interpreter
open TelegramCli.Interface.Head TelegramCli.Interface.Sessions TelegramCli.Control.Connections
open TelegramCli.Control.RefCount TelegramCli.Control.Settle

/-- The counts do not depend on the session. -/
theorem session_accounts {k : ℕ → ℤ} {w : World} (h : Accounts k w) (σ : Session) :
    Accounts k { w with session := σ } := ⟨h.refcnt_eq, h.pos⟩

theorem le_bump {ev : Option ℕ} {n : ℤ} (hn : 0 ≤ n) (k : ℕ → ℤ) (a : ℕ) : k a ≤ bump ev n k a := by
  unfold bump
  split_ifs <;> omega

theorem touch_eq_ok {w w' : World} {ev : Option ℕ} (hw : touch w ev = .ok w') : w' = w := by
  unfold touch at hw
  cases ev with
  | none => cases hw; rfl
  | some a =>
    simp only at hw
    split_ifs at hw
    cases hw
    rfl

/-! ### The actions of a handler -/

theorem settle_cons {p r : ℕ} {a : Action} {acts : List Action}
    (h : settle p (a :: acts) = some r) : ∃ q, settle p [a] = some q ∧ settle q acts = some r := by
  cases a with
  | query q cb =>
    simp only [settle] at h ⊢
    split_ifs at h with hp
    exact ⟨p - 1, by rw [if_neg hp], h⟩
  | callback cb =>
    simp only [settle] at h ⊢
    split_ifs at h with hp
    exact ⟨p - 1, by rw [if_neg hp], h⟩
  | _ => exact ⟨_, rfl, h⟩

/-- **An action** moves the references in hand. -/
theorem perform_accounts {lib : Library} {daemonize : Bool} {ev : Option ℕ} {a : Action}
    {p q : ℕ} {k : ℕ → ℤ} {w w' : World} (hk : ∀ b, 0 ≤ k b) (hs : settle p [a] = some q)
    (h : Accounts (bump ev p k) w) (hw : perform lib daemonize ev w a = .ok w') :
    Accounts (bump ev q k) w' := by
  have hlast : p ≠ 0 → ∀ b e, ev = some b → w.heap b = some e → e.bevOpen = true →
      1 < e.refcnt := by
    intro hp b e hb he hopen
    have hl := h.lt_of_open he hopen
    have := hk b
    unfold bump at hl
    rw [if_pos hb] at hl
    omega
  have hdown : ∀ {q : ℕ}, p ≠ 0 → p - 1 = q → bump ev (-1) (bump ev p k) = bump ev q k := by
    intro q hp hq
    rw [bump_bump, ← hq]
    congr 1
    omega
  cases a with
  | ref =>
    cases hs
    have hret := h.retain hw
    rwa [bump_bump] at hret
  | query x cb =>
    simp only [settle] at hs
    split_ifs at hs with hp
    have hask := h.ask (hlast hp) hw
    rwa [hdown hp (Option.some.inj hs)] at hask
  | callback cb =>
    simp only [settle] at hs
    split_ifs at hs with hp
    have hrel := h.release (hlast hp) hw
    rwa [hdown hp (Option.some.inj hs)] at hrel
  | fail text => cases hs; rwa [touch_eq_ok hw]
  | answer x => cases hs; rwa [touch_eq_ok hw]
  | eventIncoming => cases hs; exact h.eventIncoming hw
  | halt =>
    cases hs
    unfold perform at hw
    split_ifs at hw
    cases hw
    exact h
  | chatWithPeer id => cases hs; cases hw; exact session_accounts h _
  | mainSession =>
    cases hs
    exact h.mainSession (fun b => (hk b).trans (le_bump (Int.natCast_nonneg p) k b)) hw
  | safeQuit => cases hs; cases hw; exact h
  | set s n => cases hs; cases hw; exact h
  | clear => cases hs; cases hw; exact h

/-- **The actions of a call** leave those in hand that were never handed on. -/
theorem performAll_accounts {lib : Library} {daemonize : Bool} {ev : Option ℕ} {k : ℕ → ℤ}
    (hk : ∀ b, 0 ≤ k b) : ∀ {acts : List Action} {p r : ℕ} {w w' : World}, settle p acts = some r →
    Accounts (bump ev p k) w → acts.foldlM (perform lib daemonize ev) w = .ok w' →
    Accounts (bump ev r k) w'
  | [], _, _, _, _, hs, h, hw => by cases hs; cases hw; exact h
  | a :: acts, _, _, _, _, hs, h, hw => by
    obtain ⟨q, hq, hs⟩ := settle_cons hs
    rw [List.foldlM_cons] at hw
    obtain ⟨v, hv, hw⟩ := bind_eq_ok.mp hw
    exact performAll_accounts hk hs (perform_accounts hk hq h hv) hw

/-! ### A line -/

/-- The references that an effect of a line keeps. -/
def effectLeaks (lib : Library) : Effect → ℕ
  | .call cmd _ args => if leaky lib cmd.name args then 1 else 0
  | _ => 0

/-- The commands that a line calls are those of the table. -/
def OfTable : Effect → Prop
  | .call cmd _ _ => cmd ∈ commands
  | _ => True

theorem handleEffect_accounts {lib : Library} {daemonize : Bool} {ev : Option ℕ} {e : Effect}
    {k : ℕ → ℤ} {w w' : World} (hk : ∀ b, 0 ≤ k b) (htable : OfTable e) (h : Accounts k w)
    (hw : handleEffect lib daemonize ev w e = .ok w') :
    Accounts (bump ev (effectLeaks lib e) k) w' := by
  have hzero : Accounts (bump ev (0 : ℕ) k) w := by rwa [Nat.cast_zero, bump_zero]
  cases e with
  | call cmd g args =>
    simp only [handleEffect] at hw
    cases hacts : handlerActions lib daemonize ev.isSome cmd g args with
    | error x => simp [hacts] at hw
    | ok acts =>
      rw [hacts] at hw
      exact performAll_accounts hk (commands_settle htable _ _ _ _ _ _ hacts).1 hzero hw
  | fail text => rw [touch_eq_ok hw]; exact hzero
  | extf line => exact performAll_accounts hk rfl hzero hw
  | chat q cb =>
    have hask := h.ask (fun _ _ ha => absurd ha (by simp)) hw
    rw [bump_none] at hask
    simpa only [effectLeaks, Nat.cast_zero, bump_zero] using hask
  | safeQuit =>
    simp only [handleEffect] at hw
    split_ifs at hw
    cases hw
    exact hzero

/-- The references that a line keeps. -/
def lineLeaks (lib : Library) (es : List Effect) : ℕ := (es.map (effectLeaks lib)).sum

theorem handleEffects_accounts {lib : Library} {daemonize : Bool} {ev : Option ℕ} :
    ∀ {es : List Effect} {k : ℕ → ℤ} {w w' : World}, (∀ b, 0 ≤ k b) → (∀ e ∈ es, OfTable e) →
    Accounts k w → es.foldlM (handleEffect lib daemonize ev) w = .ok w' →
    Accounts (bump ev (lineLeaks lib es) k) w'
  | [], k, w, w', _, _, h, hw => by
    cases hw
    rwa [lineLeaks, List.map_nil, List.sum_nil, Nat.cast_zero, bump_zero]
  | e :: es, k, w, w', hk, htable, h, hw => by
    rw [List.foldlM_cons] at hw
    obtain ⟨v, hv, hw⟩ := bind_eq_ok.mp hw
    have he := handleEffect_accounts hk (htable e List.mem_cons_self) h hv
    have hes := handleEffects_accounts
      (fun b => (hk b).trans (le_bump (Int.natCast_nonneg _) k b))
      (fun x hx => htable x (List.mem_cons_of_mem e hx)) he hw
    rw [bump_bump] at hes
    rwa [lineLeaks, List.map_cons, List.sum_cons, Nat.cast_add]

/-- The effects of a line are calls of one command of the table, or none is a call. -/
theorem lineEffects_cases {lib : Library} {w : World} {line : Option (List UInt8)}
    {es : List Effect} (h : lineEffects lib w line = some es) :
    (∃ cmd g args, cmd ∈ commands ∧ es = List.replicate es.length (.call cmd g args)) ∨
      ∀ e ∈ es, (∀ cmd g args, e ≠ .call cmd g args) ∧
        (e = .safeQuit →
          interpreterEx lib.env commands w.session.inChatMode line = .safeQuit) := by
  unfold lineEffects at h
  cases ho : interpreterEx lib.env commands w.session.inChatMode line with
  | dispatched cmd g args =>
    rw [ho] at h
    cases h
    obtain ⟨-, l, t, -, -, -, -, hfind, -⟩ := interpreterEx_dispatched.mp ho
    exact Or.inl ⟨cmd, g, args, findCommand_mem hfind, by rw [List.length_replicate]⟩
  | chat c =>
    rw [ho] at h
    cases h
    exact Or.inr (by cases c <;> simp [chatEffects])
  | abort => simp [ho, effects] at h
  | hang => simp [ho, effects] at h
  | _ => rw [ho] at h; cases h; exact Or.inr (by simp)

theorem lineEffects_ofTable {lib : Library} {w : World} {line : Option (List UInt8)}
    {es : List Effect} (h : lineEffects lib w line = some es) : ∀ e ∈ es, OfTable e := by
  intro e he
  rcases lineEffects_cases h with ⟨cmd, g, args, hmem, hes⟩ | hother
  · rw [hes] at he
    rw [List.eq_of_mem_replicate he]
    exact hmem
  · cases e with
    | call cmd g args => exact absurd rfl ((hother _ he).1 cmd g args)
    | _ => exact trivial

/-- **A line** adds to the surplus of its connection. -/
theorem handleLine_accounts {lib : Library} {daemonize : Bool} {ev : Option ℕ}
    {line : Option (List UInt8)} {k : ℕ → ℤ} {w w' : World} (hk : ∀ b, 0 ≤ k b) (h : Accounts k w)
    (hw : handleLine lib daemonize ev w line = .ok w') :
    ∃ es, lineEffects lib w line = some es ∧ Accounts (bump ev (lineLeaks lib es) k) w' := by
  unfold handleLine at hw
  cases hes : lineEffects lib w line with
  | none => simp [hes] at hw
  | some es =>
    rw [hes] at hw
    exact ⟨es, rfl, handleEffects_accounts hk (lineEffects_ofTable hes) (session_accounts h _) hw⟩

/-! ### A step -/

/-- **The step leaks**: a line of a connection calls a command that keeps a reference. -/
def Leaks (w : World) : Label → Prop
  | .line lib (some _) line => ∃ es, lineEffects lib w line = some es ∧ lineLeaks lib es ≠ 0
  | _ => False

/-- **A step** leaves the surplus as it is, or adds to it if it leaks. -/
theorem step_accounts {daemonize : Bool} {w w' : World} {l : Label} {k : ℕ → ℤ}
    (hstep : Step daemonize w l w') (hk : ∀ a, 0 ≤ k a) (h : Accounts k w) :
    ∃ k', (∀ a, k a ≤ k' a) ∧ Accounts k' w' ∧
      (k' = k ∧ ¬ Leaks w l ∨ Leaks w l ∧ ∃ a, k a < k' a) := by
  cases hstep with
  | @accept a ha =>
    refine ⟨k, fun _ => le_rfl, ⟨fun b => ?_, fun b e hb => ?_⟩, Or.inl ⟨rfl, id⟩⟩
    · have hb := h.refcnt_eq b
      unfold refcnt holders bevHolds queriesHold notifyHolds at *
      rw [set_heap, set_outstanding, set_notifyEv]
      by_cases hba : b = a
      · subst hba
        have := hk b
        rw [ha] at hb
        rw [if_pos rfl]
        simp only [Option.elim_none, Option.elim_some, if_true] at hb ⊢
        omega
      · rw [if_neg hba]
        exact hb
    · rw [set_heap] at hb
      split_ifs at hb
      · cases hb; exact Int.one_pos
      · exact h.pos b e hb
  | @line _ lib ev line hopen hw =>
    obtain ⟨es, hes, hline⟩ := handleLine_accounts hk h hw
    refine ⟨_, le_bump (Int.natCast_nonneg _) k, hline, ?_⟩
    cases ev with
    | none => exact Or.inl ⟨bump_none _ _, id⟩
    | some a =>
      by_cases hzero : lineLeaks lib es = 0
      · refine Or.inl ⟨by rw [hzero, Nat.cast_zero, bump_zero], ?_⟩
        rintro ⟨es', hes', hne⟩
        rw [hes] at hes'
        cases hes'
        exact hne hzero
      · refine Or.inr ⟨⟨es, hes, hzero⟩, a, ?_⟩
        unfold bump
        rw [if_pos rfl]
        omega
  | complete hi hw => exact ⟨k, fun _ => le_rfl, h.complete hk hi hw, Or.inl ⟨rfl, id⟩⟩
  | close hopen hw => exact ⟨k, fun _ => le_rfl, h.eventIncoming hw, Or.inl ⟨rfl, id⟩⟩

/-! ### Runs -/

/-- A step that does not leak. -/
def TightStep (daemonize : Bool) (w : World) (l : Label) (w' : World) : Prop :=
  Step daemonize w l w' ∧ ¬ Leaks w l

theorem start_accounts (σ : Session) : Accounts (fun _ => 0) (World.start σ) :=
  ⟨fun _ => rfl, fun _ _ h => absurd h (by simp [World.start])⟩

/-- **A run** leaves the surplus as it is when none of its steps leaks, and adds to it otherwise. -/
theorem run_accounts {daemonize : Bool} : ∀ {w w' : World} {ls : List Label} {k : ℕ → ℤ},
    Runs (Step daemonize) w ls w' → (∀ a, 0 ≤ k a) → Accounts k w →
    ∃ k', (∀ a, k a ≤ k' a) ∧ Accounts k' w' ∧
      (k' = k ∧ Runs (TightStep daemonize) w ls w' ∨ ∃ a, k a < k' a)
  | _, _, _, k, .nil w, _, h => ⟨k, fun _ => le_rfl, h, Or.inl ⟨rfl, .nil w⟩⟩
  | _, _, _, k, .cons hs hr, hk, h => by
    obtain ⟨j, hkj, hj, hstep⟩ := step_accounts hs hk h
    obtain ⟨m, hjm, hm, hrun⟩ := run_accounts hr (fun a => (hk a).trans (hkj a)) hj
    refine ⟨m, fun a => (hkj a).trans (hjm a), hm, ?_⟩
    rcases hstep with ⟨rfl, htight⟩ | ⟨-, a, ha⟩
    · rcases hrun with ⟨rfl, hrun⟩ | hrun
      · exact Or.inl ⟨rfl, .cons ⟨hs, htight⟩ hrun⟩
      · exact Or.inr hrun
    · exact Or.inr ⟨a, ha.trans_le (hjm a)⟩

theorem tightRun_accounts {daemonize : Bool} {w w' : World} {ls : List Label} {k : ℕ → ℤ}
    (hk : ∀ a, 0 ≤ k a) (hrun : Runs (TightStep daemonize) w ls w') (h : Accounts k w) :
    Accounts k w' := by
  refine Runs.induction (fun s l t hs h => ?_) hrun h
  obtain ⟨k', -, ht, ⟨rfl, -⟩ | ⟨hleak, -⟩⟩ := step_accounts hs.1 hk h
  · exact ht
  · exact absurd hleak hs.2

/-- The counts are those of the holders, and a connection without a holder is freed. -/
structure Counted (w : World) : Prop where
  refcnt_eq : ∀ a e, w.heap a = some e → e.refcnt = holders w a
  freed : ∀ a, ¬ w.isOpen a → some a ∉ w.outstanding.map Prod.fst → w.notifyEv ≠ some a →
    w.heap a = none

theorem holders_eq_zero {w : World} {a : ℕ} (hopen : ¬ w.isOpen a)
    (hquery : some a ∉ w.outstanding.map Prod.fst) (hnotify : w.notifyEv ≠ some a) :
    holders w a = 0 := by
  have hbev : bevHolds w a = 0 := by
    unfold bevHolds
    cases ha : w.heap a with
    | none => rfl
    | some e => exact if_neg fun hb => hopen ⟨e, ha, hb⟩
  unfold holders queriesHold notifyHolds
  rw [hbev, List.count_eq_zero_of_not_mem hquery, if_neg hnotify]

theorem counted_iff {k : ℕ → ℤ} {w : World} (hk : ∀ a, 0 ≤ k a) (h : Accounts k w) :
    Counted w ↔ k = fun _ => 0 := by
  constructor
  · intro hcounted
    funext a
    have ha := h.refcnt_eq a
    unfold refcnt at ha
    cases he : w.heap a with
    | none =>
      have := hk a
      rw [he, Option.elim_none] at ha
      omega
    | some e =>
      rw [he, Option.elim_some, hcounted.refcnt_eq a e he] at ha
      omega
  · rintro rfl
    have hcount : ∀ a e, w.heap a = some e → e.refcnt = holders w a := by
      intro a e he
      have ha := h.refcnt_eq a
      unfold refcnt at ha
      rwa [he, Option.elim_some, add_zero] at ha
    refine ⟨hcount, fun a hopen hquery hnotify => ?_⟩
    cases he : w.heap a with
    | none => rfl
    | some e =>
      have hpos := h.pos a e he
      rw [hcount a e he, holders_eq_zero hopen hquery hnotify] at hpos
      exact absurd hpos (lt_irrefl 0)

/-- **The counts at the end of a run** are those of the holders exactly when no step of the run
leaked. -/
theorem refcnt_eq_holders_iff {daemonize : Bool} {σ : Session} {ls : List Label} {w : World}
    (hrun : Runs (Step daemonize) (World.start σ) ls w) :
    Counted w ↔ Runs (TightStep daemonize) (World.start σ) ls w := by
  obtain ⟨k, hk, h, htight⟩ := run_accounts hrun (fun _ => le_rfl) (start_accounts σ)
  constructor
  · intro hcounted
    rcases htight with ⟨-, htight⟩ | ⟨a, ha⟩
    · exact htight
    · rw [(counted_iff hk h).mp hcounted] at ha
      exact absurd ha (lt_irrefl 0)
  · intro htight
    have hzero := tightRun_accounts (fun _ => le_rfl) htight (start_accounts σ)
    exact (counted_iff (fun _ => le_rfl) hzero).mpr rfl

/-- A connection that asks for the contact list and closes before the answer. -/
theorem refcnt_eq_holders_iff_contactList : ∃ ls w,
    (Counted w ↔ Runs (TightStep true) (World.start Session.start) ls w) ∧
      ls = [.accept 0, .line aliceLibrary (some 0) (some (lit "contact_list")), .close 0] ∧
      w.heap 0 = some ⟨false, 1⟩ ∧ w.outstanding = [(some 0, some .printUserList)] := by
  refine ⟨_, _, refcnt_eq_holders_iff (.cons (.accept rfl) (.cons
    (.line (fun a ha => ?_) rfl) (.cons (.close ?_ rfl) (.nil _)))), rfl, rfl, rfl⟩
  · cases ha; exact ⟨_, rfl, rfl⟩
  · exact ⟨_, rfl, rfl⟩

/-- A connection whose keyboard does not parse is never freed. -/
theorem keyboard_leaks : ∃ w, Runs (Step true) (World.start Session.start)
      [.accept 0, .line aliceLibrary (some 0) (some (lit "msg_kbd Alice x hi")), .close 0] w ∧
    w.heap 0 = some ⟨false, 1⟩ ∧ w.outstanding = [] ∧ w.notifyEv = none ∧ ¬ Counted w := by
  refine ⟨_, .cons (.accept rfl) (.cons (.line (fun a ha => ?_) rfl) (.cons (.close ?_ rfl)
    (.nil _))), rfl, rfl, rfl, fun h => ?_⟩
  · cases ha; exact ⟨_, rfl, rfl⟩
  · exact ⟨_, rfl, rfl⟩
  · exact absurd (h.refcnt_eq 0 _ rfl) (by decide)

end TelegramCli.Control.Holders
