import Mathlib.Tactic

/-! # Runs

A system is a relation `step s l s'`: from `s` the event `l` leads to `s'`. `Runs` says that a list
of events leads from one state to another, and `Runs.induction` carries an invariant that every step
keeps along a run. `foldlM_induction` does the same for a list of actions that may fail. Where the
steps are a function, `FirstAt` is the first state on the way at which a condition holds. -/

namespace TelegramCli.Lib.Run

universe u

variable {σ : Type u} {α ε : Type*}

/-- The events lead from the first state to the last. -/
inductive Runs (step : σ → α → σ → Prop) : σ → List α → σ → Prop
  | nil (s : σ) : Runs step s [] s
  | cons {s t u : σ} {l : α} {ls : List α} : step s l t → Runs step t ls u →
    Runs step s (l :: ls) u

/-- **An invariant** that every step keeps holds at the end of a run. -/
theorem Runs.induction {step : σ → α → σ → Prop} {P : σ → Prop}
    (hstep : ∀ s l t, step s l t → P s → P t) :
    ∀ {s t : σ} {ls : List α}, Runs step s ls t → P s → P t
  | _, _, _, .nil _, h => h
  | _, _, _, .cons hs hr, h => Runs.induction hstep hr (hstep _ _ _ hs h)

/-- A computation that went well, step by step. -/
theorem bind_eq_ok {β γ : Type u} {x : Except ε β} {f : β → Except ε γ} {c : γ} :
    x >>= f = .ok c ↔ ∃ b, x = .ok b ∧ f b = .ok c := by
  cases x with
  | error e => exact iff_of_false (by simp [bind, Except.bind]) (by simp)
  | ok b => simp [bind, Except.bind]

/-- An invariant that every action keeps holds when all have gone well. -/
theorem foldlM_induction {f : σ → α → Except ε σ} {P : σ → Prop} :
    ∀ {ls : List α} {s t : σ}, (∀ l ∈ ls, ∀ s t, f s l = .ok t → P s → P t) →
    ls.foldlM f s = .ok t → P s → P t
  | [], _, _, _, h, hs => by cases h; exact hs
  | l :: ls, s, t, hf, h, hs => by
    rw [List.foldlM_cons] at h
    obtain ⟨u, hu, h⟩ := bind_eq_ok.mp h
    exact foldlM_induction (fun m hm => hf m (List.mem_cons_of_mem l hm)) h
      (hf l List.mem_cons_self s u hu hs)

/-- **Two computations** in step, action by action. -/
theorem foldlM_map {τ : Type*} {f : σ → α → Except ε σ} {g : τ → α → Except ε τ} {π : σ → τ}
    (h : ∀ s l t, f s l = .ok t → g (π s) l = .ok (π t)) : ∀ {ls : List α} {s t : σ},
    ls.foldlM f s = .ok t → ls.foldlM g (π s) = .ok (π t)
  | [], _, _, ht => by cases ht; rfl
  | l :: ls, s, t, ht => by
    rw [List.foldlM_cons] at ht ⊢
    obtain ⟨u, hu, ht⟩ := bind_eq_ok.mp ht
    exact bind_eq_ok.mpr ⟨π u, h s l u hu, foldlM_map h ht⟩

/-- A computation is done again with more in the state. -/
theorem foldlM_lift {τ : Type*} {f : σ → α → Except ε σ} {g : τ → α → Except ε τ} {π : σ → τ} :
    ∀ {ls : List α} {s : σ} {v : τ}, (∀ l ∈ ls, ∀ s v, g (π s) l = .ok v →
      ∃ t, f s l = .ok t ∧ π t = v) → ls.foldlM g (π s) = .ok v →
    ∃ t, ls.foldlM f s = .ok t ∧ π t = v
  | [], s, _, _, ht => by cases ht; exact ⟨s, rfl, rfl⟩
  | l :: ls, s, v, h, ht => by
    rw [List.foldlM_cons] at ht
    obtain ⟨u, hu, ht⟩ := bind_eq_ok.mp ht
    obtain ⟨s', hs', rfl⟩ := h l List.mem_cons_self s u hu
    obtain ⟨t, hft, hv⟩ := foldlM_lift (fun m hm => h m (List.mem_cons_of_mem l hm)) ht
    exact ⟨t, by rw [List.foldlM_cons]; exact bind_eq_ok.mpr ⟨s', hs', hft⟩, hv⟩

/-! ### The first state of a kind -/

/-- The steps lead to the first state at which they are stopped. -/
inductive FirstAt (step : σ → Option σ) (stop : σ → Prop) : σ → σ → Prop
  | here {s : σ} : stop s → FirstAt step stop s s
  | later {s t u : σ} : ¬ stop s → step s = some t → FirstAt step stop t u → FirstAt step stop s u

variable {next : σ → Option σ} {stop : σ → Prop}

theorem firstAt_of_stop {s t : σ} (h : stop s) : FirstAt next stop s t ↔ t = s := by
  constructor
  · rintro (_ | ⟨hs, -, -⟩)
    · rfl
    · exact absurd h hs
  · rintro rfl
    exact .here h

theorem firstAt_of_step {s t u : σ} (h : ¬ stop s) (hs : next s = some t) :
    FirstAt next stop s u ↔ FirstAt next stop t u := by
  constructor
  · rintro (hstop | ⟨-, ht, hr⟩)
    · exact absurd hstop h
    · obtain rfl := Option.some.inj (hs.symm.trans ht)
      exact hr
  · exact .later h hs

theorem not_firstAt_of_none {s t : σ} (h : ¬ stop s) (hs : next s = none) :
    ¬ FirstAt next stop s t := by
  rintro (hstop | ⟨-, ht, -⟩)
  · exact h hstop
  · rw [hs] at ht
    cases ht

/-- Steps that stay among states without a stop are never stopped. -/
theorem not_firstAt_of_closed {P : σ → Prop} (hP : ∀ s, P s → ¬ stop s)
    (hstep : ∀ s t, P s → next s = some t → P t) {s t : σ} (h : P s) :
    ¬ FirstAt next stop s t := by
  intro hf
  induction hf with
  | here hs => exact hP _ h hs
  | later _ hs _ ih => exact ih (hstep _ _ h hs)

end TelegramCli.Lib.Run
