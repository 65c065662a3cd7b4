import TelegramCli.Interface.Head
import TelegramCli.Interface.Slots

/-! # One answer for each line

A line that is rejected gets a `FAIL`, except in one place: a mandatory number or id slot that finds
a quoted token, or none, just leaves the loop. `dropped` says that the slots before it are passed
(`passSlot`) and lead there; `answered_iff` says that there is no other way for a line to be left
without an answer. -/

namespace TelegramCli.Interface.Answers

open TelegramCli.Lib.CString TelegramCli.Interface.Token TelegramCli.Interface.Args
open TelegramCli.Interface.Slots TelegramCli.Interface.Actions TelegramCli.Interface.Commands
open TelegramCli.Interface.Interpreter TelegramCli.Interface.Head

variable {E : Ids.Env}

/-- The next token is quoted, or nothing is left of the line. -/
def noToken (s : Scanner) : Bool :=
  (nextToken true s).elim false fun t => t.curTokenQuoted || t.curTokenEndStr

/-- The scanner behind a slot that is not repeated: behind the token it takes, or, if it is optional
and takes none, where it was. -/
def passSlot (E : Ids.Env) (slot : Slot) (s : Scanner) : Option Scanner :=
  (nextToken true s).bind fun t =>
    let save := if slot.opt then some { t with linePtr := s.linePtr } else none
    if isId slot.op then
      if t.curTokenQuoted || t.curTokenEndStr then save
      else
        match readId E slot.op t.tok with
        | some (_, ok) => if ok then some t else save
        | none => none
    else if isWord slot.op && (!(t.curTokenEndStr || t.curTokenLen < 0) || slot.opt) then some t
    else none

/-- The slots are passed up to a mandatory number or id slot that is not repeated, and for which
there is no token. -/
def dropped (E : Ids.Env) : List Slot → Scanner → Bool
  | [], _ => false
  | slot :: rest, s =>
    (isId slot.op && !slot.opt && slotAt rest 0 ≠ Slot.period && noToken s) ||
      (passSlot E slot s).elim false (dropped E rest)

/-! ### One round -/

theorem idRound_silent {slot : Slot} {period : Bool} {args : List Arg} {s t : Scanner} :
    idRound E slot period args s t = .silent ↔
      (t.curTokenQuoted || t.curTokenEndStr) = true ∧ slot.opt = false ∧ period = false := by
  unfold idRound
  cases readId E slot.op t.tok with
  | none => simp only; split_ifs <;> simp_all
  | some r => simp only; split_ifs <;> simp_all

theorem wordRound_ne_silent {slot : Slot} {args : List Arg} {t : Scanner} :
    wordRound slot args t ≠ .silent := by
  unfold wordRound
  split_ifs <;> simp

theorem slotRound_silent {slot : Slot} (hslot : taken slot = true) {period : Bool}
    {args : List Arg} {s : Scanner} : slotRound E slot period args s = .silent ↔
      isId slot.op = true ∧ slot.opt = false ∧ period = false ∧ noToken s = true := by
  rcases taken_iff.mp hslot with hs | hs | hs
  · rw [slotRound_id hs, noToken]
    cases nextToken true s with
    | none => simp
    | some t =>
      simp only [Option.elim_some, hs, true_and]
      split_ifs with hp
      · simp_all
      · rw [idRound_silent]; tauto
  · have hid : isId slot.op = false := by revert hs; cases slot.op <;> simp [isWord, isId]
    rw [slotRound_word hs, hid]
    cases nextToken true s with
    | none => simp
    | some t =>
      simp only [Option.elim_some]
      split_ifs <;> simp [wordRound_ne_silent]
  · have hid : isId slot.op = false := by revert hs; cases slot.op <;> simp [isEnd, isId]
    rw [slotRound_end hs, hid]
    cases nextTokenEnd true s with
    | none => simp
    | some t => simp only [Option.elim_some]; split_ifs <;> simp

theorem idRound_next_iff {slot : Slot} {args : List Arg} {s t s' : Scanner} :
    (∃ m args', idRound E slot false args s t = .next m args' s') ↔
      (if t.curTokenQuoted || t.curTokenEndStr then
        if slot.opt then some { t with linePtr := s.linePtr } else none
      else match readId E slot.op t.tok with
        | some (_, ok) =>
          if ok then some t else if slot.opt then some { t with linePtr := s.linePtr } else none
        | none => none) = some s' := by
  unfold idRound
  cases readId E slot.op t.tok with
  | none => simp only; split_ifs <;> simp_all
  | some r => simp only; split_ifs <;> simp_all

/-- A slot that is not repeated is passed in the rounds that go on. -/
theorem slotRound_next_iff {slot : Slot} (hslot : taken slot = true) {args : List Arg}
    {s s' : Scanner} : (∃ m args', slotRound E slot false args s = .next m args' s') ↔
      passSlot E slot s = some s' := by
  rcases taken_iff.mp hslot with hs | hs | hs
  · rw [slotRound_id hs, passSlot]
    cases nextToken true s with
    | none => simp
    | some t => simpa [hs] using idRound_next_iff
  · have hid : isId slot.op = false := by revert hs; cases slot.op <;> simp [isWord, isId]
    rw [slotRound_word hs, passSlot]
    cases nextToken true s with
    | none => simp
    | some t =>
      simp only [Option.elim_some, Option.bind_some, hid, hs, wordRound]
      generalize (t.curTokenEndStr || decide (t.curTokenLen < 0)) = b
      cases b <;> cases slot.opt <;> simp
  · have hid : isId slot.op = false ∧ isWord slot.op = false := by
      revert hs; cases slot.op <;> simp [isEnd, isId, isWord]
    rw [slotRound_end hs, passSlot]
    cases nextTokenEnd true s with
    | none => simp [hid]
    | some t =>
      simp only [Option.elim_some, hid]
      split_ifs <;> simp_all

/-- Some branch takes the slot. -/
theorem slotRound_ne_hang {slot : Slot} (hslot : taken slot = true) {period : Bool}
    {args : List Arg} {s : Scanner} : slotRound E slot period args s ≠ .hang := by
  rcases taken_iff.mp hslot with hs | hs | hs
  · rw [slotRound_id hs]
    cases nextToken true s with
    | none => simp
    | some t =>
      rw [Option.elim_some, idRound]
      cases readId E slot.op t.tok <;> simp only <;> split_ifs <;> simp
  · rw [slotRound_word hs]
    cases nextToken true s with
    | none => simp
    | some t => rw [Option.elim_some, wordRound]; split_ifs <;> simp
  · rw [slotRound_end hs]
    cases nextTokenEnd true s with
    | none => simp
    | some t => rw [Option.elim_some]; split_ifs <;> simp

/-! ### Slot after slot -/

theorem readSlots_nil_cases (args : List Arg) (s : Scanner) : readSlots E [] args s = .abort ∨
    (∃ out, readSlots E [] args s = .dispatch out) ∨ ∃ text, readSlots E [] args s = .fail text := by
  rw [readSlots, readSlot]
  split_ifs
  swap
  · exact Or.inl rfl
  rw [slotRound_none]
  cases nextToken true s with
  | none => exact Or.inl rfl
  | some t =>
    rw [Option.elim_some]
    split_ifs
    · exact Or.inr (Or.inl ⟨_, rfl⟩)
    · exact Or.inr (Or.inr ⟨_, rfl⟩)

/-- How a slot that is not repeated leads to an exit. -/
theorem readSlots_cons_cases {slot : Slot} (hslot : taken slot = true) {rest : List Slot}
    (hrest : slotAt rest 0 ≠ Slot.period) {args : List Arg} {s : Scanner} {e : Exit}
    (h : readSlots E (slot :: rest) args s = e) :
    e = .abort ∨ slotRound E slot false args s = exitRound e ∨
      ∃ args' s', passSlot E slot s = some s' ∧ readSlots E rest args' s' = e := by
  rw [readSlots_cons hrest, readSlot] at h
  split_ifs at h
  swap
  · exact Or.inl h.symm
  rcases exitOf_cases h with h | ⟨args', s', hr, h⟩ | ⟨m, args', s', hr, -, h⟩
  · exact Or.inr (Or.inl h)
  all_goals
    exact Or.inr (Or.inr ⟨args', s', (slotRound_next_iff hslot).mp ⟨_, _, hr⟩, h⟩)

/-- How a repeated slot leads to an exit. -/
theorem repeatSlot_cases {slot : Slot} {leave : List Arg → Scanner → Exit} {e : Exit} :
    ∀ {n : ℕ} {args : List Arg} {s : Scanner}, repeatSlot E slot leave n args s = e →
    e = .abort ∨ (∃ args' s', slotRound E slot true args' s' = exitRound e) ∨
      ∃ args' s', leave args' s' = e
  | 0, _, _, h => Or.inl h.symm
  | n + 1, args, s, h => by
    rw [repeatSlot] at h
    rcases exitOf_cases h with h | ⟨args', s', -, h⟩ | ⟨m, args', s', -, -, h⟩
    · exact Or.inr (Or.inl ⟨args, s, h⟩)
    · exact repeatSlot_cases h
    · exact Or.inr (Or.inr ⟨args', s', h⟩)

/-- The loop of a regular signature does not spin. -/
theorem readSlots_ne_hang : ∀ {sig : List Slot} {args : List Arg} {s : Scanner},
    Regular sig = true → readSlots E sig args s ≠ .hang
  | [], args, s, _ => by
    rcases readSlots_nil_cases (E := E) args s with h | ⟨_, h⟩ | ⟨_, h⟩ <;> rw [h] <;> simp
  | slot :: rest, args, s, hreg => by
    intro h
    obtain ⟨hslot, ⟨tail, rfl, hreg'⟩ | ⟨hp, hreg'⟩⟩ := Regular.cases hreg
    · rw [readSlots_period] at h
      rcases repeatSlot_cases h with h | ⟨args', s', h⟩ | ⟨args', s', h⟩
      · cases h
      · exact slotRound_ne_hang hslot h
      · exact readSlots_ne_hang hreg' h
    · rcases readSlots_cons_cases hslot hp h with h | h | ⟨args', s', -, h⟩
      · cases h
      · exact slotRound_ne_hang hslot h
      · exact readSlots_ne_hang hreg' h

/-- Behind a repetition there are only slots that take the rest of the line. -/
def Quiet : List Slot → Bool
  | [] => true
  | _ :: rest =>
    (if slotAt rest 0 = Slot.period then rest.tail.all fun slot => isEnd slot.op else true) &&
      Quiet rest

/-- The slots that take the rest of the line always answer. -/
theorem readSlots_end_ne_silent : ∀ {sig : List Slot} {args : List Arg} {s : Scanner},
    Regular sig = true → (sig.all fun slot => isEnd slot.op) = true →
    readSlots E sig args s ≠ .silent
  | [], args, s, _, _ => by
    rcases readSlots_nil_cases (E := E) args s with h | ⟨_, h⟩ | ⟨_, h⟩ <;> rw [h] <;> simp
  | slot :: rest, args, s, hreg, hend => by
    rw [List.all_cons, Bool.and_eq_true] at hend
    intro h
    obtain ⟨hslot, ⟨tail, rfl, -⟩ | ⟨hp, hreg'⟩⟩ := Regular.cases hreg
    · exact absurd hend.2 (by simp [Slot.period, isEnd])
    · rcases readSlots_cons_cases hslot hp h with h | h | ⟨args', s', -, h⟩
      · cases h
      · have hid := ((slotRound_silent hslot).mp h).1
        revert hid; have := hend.1; revert this
        cases slot.op <;> simp [isEnd, isId]
      · exact readSlots_end_ne_silent hreg' hend.2 h

/-- A line that is dropped without an answer leads to a slot without a token. -/
theorem dropped_of_silent : ∀ {sig : List Slot} {args : List Arg} {s : Scanner},
    Regular sig = true → Quiet sig = true → readSlots E sig args s = .silent →
    dropped E sig s = true
  | [], args, s, _, _, h => by
    rcases readSlots_nil_cases (E := E) args s with h' | ⟨_, h'⟩ | ⟨_, h'⟩ <;>
      rw [h'] at h <;> cases h
  | slot :: rest, args, s, hreg, hq, h => by
    rw [Quiet, Bool.and_eq_true] at hq
    obtain ⟨hslot, ⟨tail, rfl, hreg'⟩ | ⟨hp, hreg'⟩⟩ := Regular.cases hreg
    · rw [readSlots_period] at h
      rcases repeatSlot_cases h with h | ⟨args', s', h⟩ | ⟨args', s', h⟩
      · cases h
      · exact absurd ((slotRound_silent hslot).mp h).2.2.1 (by decide)
      · exact absurd h (readSlots_end_ne_silent hreg' hq.1)
    · rw [dropped, Bool.or_eq_true]
      rcases readSlots_cons_cases hslot hp h with h | h | ⟨args', s', hpass, h⟩
      · cases h
      · obtain ⟨hid, hopt, -, hno⟩ := (slotRound_silent hslot).mp h
        exact Or.inl (by simp [hid, hopt, hno, hp])
      · exact Or.inr (by rw [hpass]; exact dropped_of_silent hreg' hq.2 h)

theorem dropped_period (rest : List Slot) (s : Scanner) :
    dropped E (Slot.period :: rest) s = false := by
  have hpass : passSlot E Slot.period s = none := by
    rw [passSlot]
    cases nextToken true s with
    | none => rfl
    | some t => simp [Slot.period, isId, isWord]
  rw [dropped, hpass]
  rfl

/-- Where the slots lead to one without a token, there is no answer. -/
theorem readSlots_of_dropped : ∀ {sig : List Slot} {args : List Arg} {s : Scanner},
    Regular sig = true → dropped E sig s = true →
    readSlots E sig args s = .silent ∨ readSlots E sig args s = .abort
  | [], _, _, _, h => absurd h (by simp [dropped])
  | slot :: rest, args, s, hreg, h => by
    rw [dropped, Bool.or_eq_true] at h
    obtain ⟨hslot, ⟨tail, rfl, -⟩ | ⟨hp, hreg'⟩⟩ := Regular.cases hreg
    · rcases h with h | h
      · simp [slotAt] at h
      · cases hpass : passSlot E slot s with
        | none => simp [hpass] at h
        | some s' => simp [hpass, dropped_period] at h
    · rw [readSlots_cons hp, readSlot]
      split_ifs
      swap
      · exact Or.inr rfl
      rcases h with h | h
      · simp only [Bool.and_eq_true, Bool.not_eq_true', decide_eq_true_eq] at h
        obtain ⟨⟨⟨hid, hopt⟩, -⟩, hno⟩ := h
        rw [(slotRound_silent hslot).mpr ⟨hid, hopt, rfl, hno⟩]
        exact Or.inl rfl
      · cases hpass : passSlot E slot s with
        | none => simp [hpass] at h
        | some s' =>
          rw [hpass, Option.elim_some] at h
          obtain ⟨m, args', hr⟩ : ∃ m args', slotRound E slot false args s = .next m args' s' :=
            (slotRound_next_iff hslot).mpr hpass
          rw [hr, exitOf_next]
          exact readSlots_of_dropped hreg' h

/-! ### Command lines -/

theorem commands_regular : ∀ cmd ∈ commands, Regular cmd.args = true ∧ Quiet cmd.args = true := by
  decide +kernel

/-- The handler is called `count` times, or one `FAIL` is sent. -/
def Answered (o : Outcome) : Prop :=
  (∃ cmd g args, o = .dispatched cmd g args ∧
    o.events = List.replicate g.count.toNat (.call cmd g args)) ∨
  ∃ text, o = .failed text ∧ o.events = [.fail text]

/-- The line names a command, and a mandatory number or id argument of it is quoted or missing. -/
def Dropped (E : Env) (line : List UInt8) : Prop :=
  ∃ g t cmd, parseHead E line = .name g t ∧ findCommand commands t = some cmd ∧
    dropped E.ids cmd.args t = true

theorem finish_silent {E : Env} {cmd : Command} {g : Globals} {e : Exit} :
    finish E cmd g e = .silent ↔ e = .silent := by
  cases e with
  | fail text => rcases failInterface_cases E text with h | ⟨_, h⟩ <;> simp [finish, h]
  | _ => simp [finish]

/-- A line is dropped without an answer. -/
theorem interpretLine_silent {E : Env} {line : List UInt8}
    (habort : interpretLine E commands line ≠ .abort) :
    interpretLine E commands line = .silent ↔ Dropped E line := by
  constructor
  · intro h
    rcases interpretLine_cases (E := E) commands line with (ho | ⟨text, ho⟩) | ⟨g, t, cmd, hh, hf⟩
    · rw [ho] at h; cases h
    · rw [ho] at h; cases h
    obtain ⟨hreg, hquiet⟩ := commands_regular cmd (findCommand_mem hf)
    rw [interpretLine_name hh hf, finish_silent, parseArgs_eq_readSlots hreg] at h
    exact ⟨g, t, cmd, hh, hf, dropped_of_silent hreg hquiet h⟩
  · rintro ⟨g, t, cmd, hh, hf, hd⟩
    obtain ⟨hreg, -⟩ := commands_regular cmd (findCommand_mem hf)
    rw [interpretLine_name hh hf, parseArgs_eq_readSlots hreg] at habort ⊢
    have h : readSlots E.ids cmd.args [] t = .silent ∨ readSlots E.ids cmd.args [] t = .abort :=
      readSlots_of_dropped hreg hd
    rcases h with h | h
    · rw [h]; rfl
    · rw [h] at habort; exact absurd rfl habort

/-- What is not answered is silent. -/
theorem interpretLine_answered {E : Env} {line : List UInt8}
    (habort : interpretLine E commands line ≠ .abort) :
    Answered (interpretLine E commands line) ↔ interpretLine E commands line ≠ .silent := by
  constructor
  · rintro (⟨_, _, _, h, -⟩ | ⟨_, h, -⟩) <;> rw [h] <;> simp
  · intro hs
    rcases interpretLine_cases (E := E) commands line with (ho | ⟨text, ho⟩) | ⟨g, t, cmd, hh, hf⟩
    · exact absurd ho habort
    · exact Or.inr ⟨text, ho, by rw [ho]; rfl⟩
    have hreg := (commands_regular cmd (findCommand_mem hf)).1
    have hne : parseArgs E.ids cmd.args t ≠ .hang := by
      rw [parseArgs_eq_readSlots hreg]; exact readSlots_ne_hang hreg
    rw [interpretLine_name hh hf] at habort hs ⊢
    cases he : parseArgs E.ids cmd.args t with
    | dispatch args => exact Or.inl ⟨cmd, g, args, rfl, rfl⟩
    | fail text =>
      rw [he] at habort
      rcases failInterface_cases E text with h | ⟨error, h⟩
      · exact absurd h habort
      · exact Or.inr ⟨error, h, by rw [finish, h]; rfl⟩
    | silent => rw [he] at hs; exact absurd rfl hs
    | abort => rw [he] at habort; exact absurd rfl habort
    | hang => exact absurd he hne

/-- **A line gets its answer** exactly when it is not `Dropped`. -/
theorem answered_iff {E : Env} {line : List UInt8} (h0 : deref line ≠ 0) (h40 : deref line ≠ 40)
    (habort : interpreterEx E commands false (some line) ≠ .abort) :
    Answered (interpreterEx E commands false (some line)) ↔ ¬ Dropped E line := by
  rw [interpreterEx_line h0 h40] at habort ⊢
  rw [interpretLine_answered habort, Ne, interpretLine_silent habort]

theorem answered_iff_alice :
    Answered (interpreterEx aliceEnv commands false (some (lit "user_info Alice"))) ↔
      ¬ Dropped aliceEnv (lit "user_info Alice") :=
  answered_iff (by decide) (by decide) (by
    have hrun : interpreterEx aliceEnv commands false (some (lit "user_info Alice")) =
      .dispatched ⟨"user_info", [req .user], Handlers.doUserInfo,
        "user_info <user>\tPrints info about user (id, last online, phone)"⟩
        Globals.reset [.peerId alice.id] := rfl
    rw [hrun]; simp)

/-- A command without the user it asks for. -/
theorem user_info_dropped : deref (lit "user_info") ≠ 0 ∧ deref (lit "user_info") ≠ 40 ∧
    interpreterEx aliceEnv commands false (some (lit "user_info")) ≠ .abort ∧
    ¬ Answered (interpreterEx aliceEnv commands false (some (lit "user_info"))) := by
  have hrun : interpreterEx aliceEnv commands false (some (lit "user_info")) = .silent := rfl
  refine ⟨by decide, by decide, ?_⟩
  rw [hrun]
  exact ⟨by simp, by simp [Answered]⟩

end TelegramCli.Interface.Answers
