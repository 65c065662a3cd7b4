import TelegramCli.Interface.Interpreter

/-! # The start of a line

The loop over the modifiers ends: a token that does not end the line takes at least a byte of it
(`nextToken_nonempty`, `nextToken_lt`), so the line is used up before the rounds are
(`parseHead_ne_hang`). What it leaves is the name of a command without quotes (`parseHead_name`). -/

namespace TelegramCli.Interface.Head

open TelegramCli.Lib.CString TelegramCli.Interface.Token TelegramCli.Interface.Args
open TelegramCli.Interface.Actions TelegramCli.Interface.Commands TelegramCli.Interface.Interpreter

variable {E : Env}

/-- A token that is not empty does not end the line. -/
theorem nextToken_nonempty {s t : Scanner} (h : nextToken true s = some t)
    (hlen : 0 < t.curTokenLen) : t.curTokenEndStr = false := by
  unfold nextToken at h
  simp only at h
  split_ifs at h
  · cases h; simp at hlen
  · cases h; rfl
  · obtain ⟨text, -, rfl⟩ := Option.map_eq_some_iff.mp h
    rfl
  · cases h; rfl

theorem modifierLoop_ne_hang : ∀ (fuel : ℕ) (g : Globals) (s : Scanner),
    s.linePtr.length < fuel → modifierLoop E fuel g s ≠ .hang
  | 0, _, _, h => absurd h (Nat.not_lt_zero _)
  | fuel + 1, g, s, h => by
    rw [modifierLoop]
    cases ht : nextToken true s with
    | none => simp
    | some t =>
      simp only
      split_ifs with hq hlen
      any_goals simp
      have hs := nextToken_lt ht (nextToken_nonempty ht (by omega))
      exact modifierLoop_ne_hang fuel _ t (by omega)

theorem parseHead_ne_hang (line : List UInt8) : parseHead E line ≠ .hang :=
  modifierLoop_ne_hang _ _ _ (Nat.lt_succ_self _)

theorem modifierLoop_name : ∀ {fuel : ℕ} {g g' : Globals} {s t : Scanner},
    modifierLoop E fuel g s = .name g' t → t.curTokenQuoted = false ∧ t.curTokenEndStr = false
  | 0, _, _, _, _, h => by cases h
  | fuel + 1, g, g', s, t, h => by
    rw [modifierLoop] at h
    cases ht : nextToken true s with
    | none => simp [ht] at h
    | some u =>
      simp only [ht] at h
      split_ifs at h with hq hlen
      · exact modifierLoop_name h
      · obtain ⟨-, rfl⟩ := Head.name.inj h
        rw [Bool.not_eq_true] at hq
        exact ⟨hq, nextToken_nonempty ht (by omega)⟩

theorem parseHead_name {line : List UInt8} {g : Globals} {t : Scanner}
    (h : parseHead E line = .name g t) : t.curTokenQuoted = false ∧ t.curTokenEndStr = false :=
  modifierLoop_name h

theorem findCommand_mem {table : List Command} {t : Scanner} {cmd : Command}
    (h : findCommand table t = some cmd) : cmd ∈ table := List.mem_of_find?_eq_some h

/-! ### What a line comes to -/

theorem failInterface_cases (E : Env) (text : List UInt8) :
    failInterface E text = .abort ∨ ∃ error, failInterface E text = .failed error := by
  unfold failInterface
  simp only
  split_ifs
  · exact Or.inl rfl
  · exact Or.inr ⟨_, rfl⟩

theorem failInterface_ne_dispatched {text : List UInt8} {cmd : Command} {g : Globals}
    {args : List Arg} : failInterface E text ≠ .dispatched cmd g args := by
  rcases failInterface_cases E text with h | ⟨error, h⟩ <;> rw [h] <;> simp

theorem finish_dispatched {cmd cmd' : Command} {g g' : Globals} {args : List Arg} {e : Exit} :
    finish E cmd g e = .dispatched cmd' g' args ↔ cmd = cmd' ∧ g = g' ∧ e = .dispatch args := by
  cases e with
  | dispatch out => simp [finish]
  | fail text => simp [finish, failInterface_ne_dispatched]
  | _ => simp [finish]

/-- A line that names a command. -/
theorem interpretLine_name {table : List Command} {line : List UInt8} {g : Globals} {t : Scanner}
    {cmd : Command} (hh : parseHead E line = .name g t) (hf : findCommand table t = some cmd) :
    interpretLine E table line = finish E cmd g (parseArgs E.ids cmd.args t) := by
  obtain ⟨hq, he⟩ := parseHead_name hh
  rw [interpretLine, hh]
  simp only [hq, he, Bool.or_false, if_neg Bool.false_ne_true, hf]

/-- A line that is neither empty nor a query names a command, or is answered with `FAIL`. -/
theorem interpretLine_cases (table : List Command) (line : List UInt8) :
    (interpretLine E table line = .abort ∨ ∃ text, interpretLine E table line = .failed text) ∨
      ∃ g t cmd, parseHead E line = .name g t ∧ findCommand table t = some cmd := by
  rw [interpretLine]
  cases hh : parseHead E line with
  | fail g text => exact Or.inl (failInterface_cases E text)
  | abort => exact Or.inl (Or.inl rfl)
  | hang => exact absurd hh (parseHead_ne_hang line)
  | name g t =>
    obtain ⟨hq, he⟩ := parseHead_name hh
    simp only [hq, he, Bool.or_false, if_neg Bool.false_ne_true]
    cases hf : findCommand table t with
    | none => exact Or.inl (failInterface_cases E _)
    | some cmd => exact Or.inr ⟨g, t, cmd, rfl, hf⟩

/-- A line is neither a line of the chat mode nor the end of the input. -/
theorem interpretLine_ne (table : List Command) (line : List UInt8) :
    (∀ c, interpretLine E table line ≠ .chat c) ∧ interpretLine E table line ≠ .safeQuit := by
  rcases interpretLine_cases (E := E) table line with (ho | ⟨text, ho⟩) | ⟨g, t, cmd, hh, hf⟩
  · rw [ho]; simp
  · rw [ho]; simp
  · rw [interpretLine_name hh hf]
    cases parseArgs E.ids cmd.args t with
    | fail text => rcases failInterface_cases E text with h | ⟨error, h⟩ <;> simp [finish, h]
    | _ => simp [finish]

theorem interpreterEx_line {table : List Command} {line : List UInt8} (h0 : deref line ≠ 0)
    (h40 : deref line ≠ 40) :
    interpreterEx E table false (some line) = interpretLine E table line := by
  simp [interpreterEx, h0, h40]

/-- **A command is dispatched** with the modifiers, the name and the arguments of its line. -/
theorem interpreterEx_dispatched {table : List Command} {inChatMode : Bool}
    {line : Option (List UInt8)} {cmd : Command} {g : Globals} {args : List Arg} :
    interpreterEx E table inChatMode line = .dispatched cmd g args ↔
      inChatMode = false ∧ ∃ l t, line = some l ∧ deref l ≠ 0 ∧ deref l ≠ 40 ∧
        parseHead E l = .name g t ∧ findCommand table t = some cmd ∧
        parseArgs E.ids cmd.args t = .dispatch args := by
  constructor
  · intro h
    unfold interpreterEx at h
    split_ifs at h with hchat
    refine ⟨by simpa using hchat, ?_⟩
    cases line with
    | none => simp at h
    | some l =>
      simp only at h
      split_ifs at h with h0 h40
      rcases interpretLine_cases table l with (ho | ⟨text, ho⟩) | ⟨g', t, cmd', hh, hf⟩
      · rw [ho] at h; cases h
      · rw [ho] at h; cases h
      · rw [interpretLine_name hh hf] at h
        obtain ⟨rfl, rfl, hargs⟩ := finish_dispatched.mp h
        exact ⟨l, t, rfl, h0, h40, hh, hf, hargs⟩
  · rintro ⟨rfl, l, t, rfl, h0, h40, hh, hf, hargs⟩
    rw [interpreterEx_line h0 h40, interpretLine_name hh hf, hargs]
    rfl

end TelegramCli.Interface.Head
