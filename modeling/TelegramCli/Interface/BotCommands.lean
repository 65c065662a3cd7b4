import TelegramCli.Lib.Cursor
import TelegramCli.Lib.CString
import TelegramCli.Tgl

/-! # Completing the commands of bots

One index runs over the commands of the bots and then over the buttons of the keyboard. At the end
of the commands the search for a button goes on behind the first one instead of at it, and a command
of a chat is printed from the place of the index, which counts the commands of the bots in front as
well. So everything that fits is completed exactly if the first button does not fit, and in a chat
each command that fits has its own text at that place (`commands_completed_iff`). -/

namespace TelegramCli.Interface.BotCommands

open TelegramCli.Lib.CString TelegramCli.Lib.Cursor TelegramCli.Tgl

/-- A user of a chat, with the commands of `bot_info`. -/
structure User where
  botInfo : Option (List (List UInt8))
  username : Str

/-- `reply_markup`: the buttons row by row, and where the rows begin and end. -/
structure Markup where
  rows : ℕ
  rowStart : List ℕ
  buttons : List (List UInt8)
  total_eq : rowStart[rows]? = some buttons.length

/-- What is read of a message of the dialog. -/
structure Message where
  out : Bool
  replyMarkup : Option Markup

/-- `*R` and the index that is returned; `none` is an access outside of an array, or an index that
no call begins with. -/
abbrev Result := Option (Option (List UInt8) × ℤ)

/-! ### The functions -/

/-- `strncmp (s, text, len) == 0`. -/
def fits (text s : List UInt8) : Bool := text.isPrefixOf s

def completeSpecMessageAnswer (M : Option Message) (index : ℤ) (text : List UInt8) : Result :=
  (M.bind Message.replyMarkup).elim (some (none, -1)) fun markup =>
    if markup.rows = 0 then some (none, -1)
    else if index < -1 then none
    else
      -- `total` is the number of buttons
      let i := scan (fits text) markup.buttons (index + 1).toNat
      markup.buttons[i]?.elim (some (none, -1)) fun button => some (some button, (i : ℤ))

/-- The messages are those from `P->last` on. -/
def completeMessageAnswer (last : List Message) (index : ℤ) (text : List UInt8) : Result :=
  completeSpecMessageAnswer (last.find? fun M => !M.out) index text

/-- The index of a button behind some commands. -/
def behind (n : ℕ) (r : Result) : Result := r.map fun r => (r.1, n + r.2)

def completeUserCommand (botInfo : Option (List (List UInt8))) (last : List Message) (index : ℤ)
    (text : List UInt8) : Result :=
  if text.head? ≠ some 47 then completeMessageAnswer last index text
  else botInfo.elim (some (none, -1)) fun commands =>
    if commands.length ≤ index then
      behind commands.length (completeMessageAnswer last (index - commands.length) text)
    else if index < -1 then none
    else
      let i := scan (fits text.tail) commands (index + 1).toNat
      commands[i]?.elim
        (behind commands.length (completeMessageAnswer last (i - commands.length) text))
        fun command => some (some (47 :: command), (i : ℤ))

/-- The loop that looks for the last `@`, from `p - 1` down. -/
def lastAt (text : List UInt8) : ℕ → ℕ
  | 0 => text.length
  | p + 1 => if text[p]? = some 64 then p else lastAt text p

/-- What commands of a chat are compared with. -/
def beforeAt (text : List UInt8) : List UInt8 := text.take (lastAt text text.length)

/-- The user and its commands, if it is a bot that is known. -/
def botOf (U : Option User) : Option (User × List (List UInt8)) :=
  U.bind fun U => U.botInfo.map fun commands => (U, commands)

/-- `/%s@%s`, or `/%s` without a name. -/
def shown (U : User) (command : List UInt8) : List UInt8 :=
  47 :: (command ++ U.username.elim [] fun name => 64 :: name)

/-- The loop over the users: the bot with the command at `index`, or `tot` and `index` behind all
bots. The index is never less than `tot`. -/
def chatLoop (text : List UInt8) : List (Option User) → ℕ → ℕ →
    (User × List (List UInt8)) × ℕ ⊕ ℕ × ℕ
  | [], tot, index => .inr (tot, index)
  | U :: users, tot, index => (botOf U).elim (chatLoop text users tot index) fun bot =>
    let i := scan (fits text) bot.2 (index - tot)
    if i < bot.2.length then .inl (bot, tot + i)
    else chatLoop text users (tot + bot.2.length) (tot + i)

def completeChatCommand (users : List (Option User)) (last : List Message) (index : ℤ)
    (text : List UInt8) : Result :=
  if text.head? ≠ some 47 then completeMessageAnswer last index text
  else if index < -1 then none
  else
    Sum.elim
      (fun found => found.1.2[found.2]?.map fun command =>
        (some (shown found.1.1 command), (found.2 : ℤ)))
      (fun ended => behind ended.1 (completeMessageAnswer last
        (if ended.2 = ended.1 then 0 else (ended.2 - ended.1 - 1 : ℤ)) text))
      (chatLoop (beforeAt text.tail) users 0 (index + 1).toNat)

/-! ### What fits -/

/-- The buttons of the last message that is not ours. -/
def keyboard (last : List Message) : List (List UInt8) :=
  ((last.find? fun M => !M.out).bind Message.replyMarkup).elim [] fun markup =>
    if markup.rows = 0 then [] else markup.buttons

/-- What is to be completed for a bot. -/
def userWanted (commands : List (List UInt8)) (last : List Message) (text : List UInt8) :
    List (List UInt8) :=
  (commands.filter (fits text.tail)).map (47 :: ·) ++ (keyboard last).filter (fits text)

/-- What is to be completed for the bots of a chat: the commands that begin with what was typed in
front of an `@`, each with the name of its bot. -/
def chatWanted (users : List (Option User)) (last : List Message) (text : List UInt8) :
    List (List UInt8) :=
  (users.filterMap botOf).flatMap (fun bot =>
    (bot.2.filter (fits (beforeAt text.tail))).map (shown bot.1)) ++
  (keyboard last).filter (fits text)

/-- The first button does not fit. -/
def FirstMissed (last : List Message) (text : List UInt8) : Prop :=
  ∀ button, (keyboard last).head? = some button → fits text button = false

/-- Every command that fits has its own text at the place of the index, with `tot` commands in
front of its bot. -/
def SameTexts (text : List UInt8) : List (User × List (List UInt8)) → ℕ → Prop
  | [], _ => True
  | bot :: bots, tot =>
    (∀ i command, bot.2[i]? = some command → fits text command = true →
      bot.2[tot + i]? = some command) ∧ SameTexts text bots (tot + bot.2.length)

/-! ### What is left to complete -/

/-- The buttons that fit, from the place `j` on. -/
def buttonsLeft (last : List Message) (text : List UInt8) (j : ℕ) : List (Option (List UInt8)) :=
  (hits (fits text) (keyboard last) j).map fun x => (keyboard last)[x]?

/-- The commands of a bot that is talked to, and then the buttons. -/
def userLeft (commands : List (List UInt8)) (last : List Message) (text : List UInt8) (k : ℤ) :
    List (Option (List UInt8)) :=
  (hits (fits text.tail) commands (k + 1).toNat).map (fun x => commands[x]?.map (47 :: ·)) ++
    buttonsLeft last text (max 1 ((k + 1).toNat - commands.length))

/-- What is printed for the commands that fit from the index `i` on, with `tot` commands in front. -/
def commandsLeft (text : List UInt8) :
    List (User × List (List UInt8)) → ℕ → ℕ → List (Option (List UInt8))
  | [], _, _ => []
  | bot :: bots, tot, i =>
    (hits (fits text) bot.2 (i - tot)).map (fun x => bot.2[tot + x]?.map (shown bot.1)) ++
      commandsLeft text bots (tot + bot.2.length) i

/-- The number of all commands. -/
def total (bots : List (User × List (List UInt8))) : ℕ := (bots.map fun bot => bot.2.length).sum

/-- The commands of the bots of a chat, and then the buttons. -/
def chatLeft (users : List (Option User)) (last : List Message) (text : List UInt8) (k : ℤ) :
    List (Option (List UInt8)) :=
  commandsLeft (beforeAt text.tail) (users.filterMap botOf) 0 (k + 1).toNat ++
    buttonsLeft last text (max 1 ((k + 1).toNat - total (users.filterMap botOf)))

/-! ### The calls -/

variable {last : List Message} {text : List UInt8}

/-- **A button is searched** from the place behind the index on. -/
theorem message_cases (last : List Message) (text : List UInt8) (j : ℕ) :
    (∃ button, ∃ i : ℕ, completeMessageAnswer last (j - 1) text = some (some button, (i : ℤ)) ∧
      j ≤ i ∧ buttonsLeft last text j = some button :: buttonsLeft last text (i + 1)) ∨
    completeMessageAnswer last (j - 1) text = some (none, -1) ∧ buttonsLeft last text j = [] := by
  unfold completeMessageAnswer completeSpecMessageAnswer buttonsLeft keyboard
  cases (last.find? fun M => !M.out).bind Message.replyMarkup with
  | none => exact .inr ⟨rfl, by rw [Option.elim_none, hits_of_le (Nat.zero_le _), List.map_nil]⟩
  | some markup =>
    simp only [Option.elim_some]
    by_cases hrows : markup.rows = 0
    · simp only [if_pos hrows]
      exact .inr ⟨trivial, by rw [hits_of_le (Nat.zero_le _), List.map_nil]⟩
    · have hj : ((j : ℤ) - 1 + 1).toNat = j := by omega
      simp only [if_neg hrows, if_neg (show ¬ (j : ℤ) - 1 < -1 by omega), hj]
      rcases scan_cases (fits text) markup.buttons j with ⟨b, hb, hle, hmore⟩ | ⟨hnone, -, hnil⟩
      · rw [hb, hmore]
        exact .inl ⟨b, _, rfl, hle, by rw [List.map_cons, hb]⟩
      · rw [hnone, hnil]
        exact .inr ⟨rfl, rfl⟩

/-- **Each call for a bot** takes the first of what is left. -/
theorem user_takes (commands : List (List UInt8)) (last : List Message) (t : List UInt8) (k : ℤ)
    (hk : -1 ≤ k) : Takes (fun k => completeUserCommand (some commands) last k (47 :: t))
      (userLeft commands last (47 :: t)) (-1 ≤ ·) k := by
  have hhead : ¬ (47 :: t).head? ≠ some 47 := not_not.mpr rfl
  by_cases hend : (commands.length : ℤ) ≤ k
  · obtain ⟨j, rfl⟩ := Int.le.dest hend
    have hcall : completeUserCommand (some commands) last (commands.length + j) (47 :: t) =
        behind commands.length (completeMessageAnswer last (((j + 1 : ℕ) : ℤ) - 1) (47 :: t)) := by
      rw [completeUserCommand, if_neg hhead, Option.elim_some, if_pos hend]
      congr 2
      omega
    have hleft : ∀ x : ℕ, userLeft commands last (47 :: t) (commands.length + x) =
        buttonsLeft last (47 :: t) (x + 1) := by
      intro x
      rw [userLeft, hits_of_le (by omega), List.map_nil, List.nil_append]
      congr 1
      omega
    rcases message_cases last (47 :: t) (j + 1) with ⟨b, i, hi, hle, hmore⟩ | ⟨hstop, hnil⟩
    · refine .yield b (commands.length + i) (by rw [hcall, hi]; rfl) (by omega) ?_
      rw [hleft, hleft, hmore]
    · exact .stop _ (by rw [hcall, hstop]; rfl) (by rw [hleft, hnil])
  · have hfront : (k + 1).toNat - commands.length = 0 := by omega
    have hcall : completeUserCommand (some commands) last k (47 :: t) =
        commands[scan (fits t) commands (k + 1).toNat]?.elim
          (behind commands.length (completeMessageAnswer last
            (scan (fits t) commands (k + 1).toNat - commands.length) (47 :: t)))
          fun command => some (some (47 :: command), scan (fits t) commands (k + 1).toNat) := by
      rw [completeUserCommand, if_neg hhead, Option.elim_some, if_neg hend,
        if_neg (show ¬ k < -1 by omega)]
      rfl
    have hleft : userLeft commands last (47 :: t) k =
        (hits (fits t) commands (k + 1).toNat).map (fun x => commands[x]?.map (47 :: ·)) ++
          buttonsLeft last (47 :: t) 1 := by
      rw [userLeft, hfront]
      rfl
    rcases scan_cases (fits t) commands (k + 1).toNat with ⟨c, hc, hle, hmore⟩ | ⟨hnone, hmax, hnil⟩
    · have hlt := (List.getElem?_eq_some_iff.mp hc).1
      refine .yield (47 :: c) (scan (fits t) commands (k + 1).toNat) (by rw [hcall, hc]; rfl)
        (by omega) ?_
      have hzero : ∀ x : ℕ, x < commands.length → ((x : ℤ) + 1).toNat - commands.length = 0 := by
        omega
      rw [hleft, hmore, userLeft, hzero _ hlt, List.map_cons, hc]
      rfl
    · have hfirst : (scan (fits t) commands (k + 1).toNat - commands.length : ℤ) =
          ((1 : ℕ) : ℤ) - 1 := by omega
      rw [hnone, Option.elim_none, hfirst] at hcall
      rcases message_cases last (47 :: t) 1 with ⟨b, i, hi, hle, hmore⟩ | ⟨hstop, hempty⟩
      · refine .yield b (commands.length + i) (by rw [hcall, hi]; rfl) (by omega) ?_
        have hplace : max 1 (((commands.length : ℤ) + i + 1).toNat - commands.length) = i + 1 := by
          omega
        rw [hleft, hnil, List.map_nil, List.nil_append, hmore, userLeft, hplace,
          hits_of_le (by omega)]
        rfl
      · refine .stop _ (by rw [hcall, hstop]; rfl) ?_
        rw [hleft, hnil, hempty]
        rfl

theorem commandsLeft_of_le (text : List UInt8) : ∀ {bots : List (User × List (List UInt8))}
    {tot i : ℕ}, i ≤ tot → commandsLeft text bots tot i = commandsLeft text bots tot tot
  | [], _, _, _ => rfl
  | bot :: bots, tot, i, h => by
    rw [commandsLeft, commandsLeft, Nat.sub_eq_zero_of_le h, Nat.sub_self,
      commandsLeft_of_le text (show i ≤ tot + bot.2.length by omega),
      commandsLeft_of_le text (Nat.le_add_right tot bot.2.length)]

theorem commandsLeft_of_ge (text : List UInt8) : ∀ {bots : List (User × List (List UInt8))}
    {tot i : ℕ}, tot + total bots ≤ i → commandsLeft text bots tot i = []
  | [], _, _, _ => rfl
  | bot :: bots, tot, i, h => by
    have htotal : total (bot :: bots) = bot.2.length + total bots := rfl
    rw [commandsLeft, hits_of_le (by omega), commandsLeft_of_ge text (by omega)]
    rfl

/-- **The loop over the users** stops at the first command that is left, or behind all of them. -/
theorem chatLoop_cases (text : List UInt8) : ∀ (users : List (Option User)) {tot i : ℕ}, tot ≤ i →
    (∃ bot x, chatLoop text users tot i = .inl (bot, x) ∧ i ≤ x ∧
      x < tot + total (users.filterMap botOf) ∧
      commandsLeft text (users.filterMap botOf) tot i =
        bot.2[x]?.map (shown bot.1) :: commandsLeft text (users.filterMap botOf) tot (x + 1)) ∨
    chatLoop text users tot i = .inr (tot + total (users.filterMap botOf),
      max i (tot + total (users.filterMap botOf))) ∧
      commandsLeft text (users.filterMap botOf) tot i = []
  | [], tot, i, h => by
    refine .inr ⟨?_, rfl⟩
    rw [chatLoop, List.filterMap_nil, total, List.map_nil, List.sum_nil, Nat.add_zero,
      Nat.max_eq_left h]
  | U :: users, tot, i, h => by
    cases hbot : botOf U with
    | none =>
      rw [chatLoop, hbot, Option.elim_none, List.filterMap_cons_none hbot]
      exact chatLoop_cases text users h
    | some bot =>
      have htotal : total (bot :: users.filterMap botOf) =
          bot.2.length + total (users.filterMap botOf) := rfl
      rw [chatLoop, hbot, Option.elim_some, List.filterMap_cons_some hbot, htotal]
      rcases scan_cases (fits text) bot.2 (i - tot) with ⟨c, hc, hle, hmore⟩ | ⟨hnone, hmax, hnil⟩
      · have hlt := (List.getElem?_eq_some_iff.mp hc).1
        refine .inl ⟨bot, tot + scan (fits text) bot.2 (i - tot), if_pos hlt, by omega, by omega, ?_⟩
        rw [commandsLeft, commandsLeft, hmore, commandsLeft_of_le text (by omega),
          commandsLeft_of_le text (show tot + scan (fits text) bot.2 (i - tot) + 1 ≤ _ by omega)]
        rw [Nat.add_assoc tot, Nat.add_sub_cancel_left]
        rfl
      · -- none of this bot's commands is left
        generalize scan (fits text) bot.2 (i - tot) = x₀ at hmax ⊢
        have hstep : commandsLeft text (bot :: users.filterMap botOf) tot i =
            commandsLeft text (users.filterMap botOf) (tot + bot.2.length) (tot + x₀) := by
          rw [commandsLeft, hnil, List.map_nil, List.nil_append]
          by_cases hfront : i ≤ tot + bot.2.length
          · rw [commandsLeft_of_le text hfront, show tot + x₀ = tot + bot.2.length by omega]
          · rw [show tot + x₀ = i by omega]
        simp only [if_neg (show ¬ x₀ < bot.2.length by omega), hstep]
        rcases @chatLoop_cases text users (tot + bot.2.length) (tot + x₀) (by omega) with
          ⟨bot', x, hx, hle, hlt, hmore⟩ | ⟨hend, hempty⟩
        · refine .inl ⟨bot', x, hx, by omega, by omega, ?_⟩
          rw [hmore, commandsLeft, hits_of_le (by omega)]
          rfl
        · refine .inr ⟨?_, hempty⟩
          rw [hend, ← Nat.add_assoc, show max (tot + x₀) (tot + bot.2.length +
            total (users.filterMap botOf)) = max i (tot + bot.2.length +
            total (users.filterMap botOf)) by omega]

/-- **Each call for a chat** takes the first of what is left. -/
theorem chat_takes (users : List (Option User)) (last : List Message) (t : List UInt8) (k : ℤ)
    (hk : -1 ≤ k) : Takes (fun k => completeChatCommand users last k (47 :: t))
      (chatLeft users last (47 :: t)) (-1 ≤ ·) k := by
  have hhead : ¬ (47 :: t).head? ≠ some 47 := not_not.mpr rfl
  have hplace : ∀ x : ℕ, ((x : ℤ) + 1).toNat = x + 1 := by omega
  have hcall : completeChatCommand users last k (47 :: t) = Sum.elim
      (fun found => found.1.2[found.2]?.map fun command =>
        (some (shown found.1.1 command), (found.2 : ℤ)))
      (fun ended => behind ended.1 (completeMessageAnswer last
        (if ended.2 = ended.1 then 0 else (ended.2 - ended.1 - 1 : ℤ)) (47 :: t)))
      (chatLoop (beforeAt t) users 0 (k + 1).toNat) := by
    rw [completeChatCommand, if_neg hhead, if_neg (show ¬ k < -1 by omega)]
    rfl
  rcases chatLoop_cases (beforeAt t) users (Nat.zero_le (k + 1).toNat) with
    ⟨bot, x, hx, hle, hlt, hmore⟩ | ⟨hend, hempty⟩
  · rw [hx, Sum.elim_inl] at hcall
    have hleft : chatLeft users last (47 :: t) k =
        bot.2[x]?.map (shown bot.1) :: chatLeft users last (47 :: t) x := by
      rw [chatLeft, chatLeft, hplace, show max 1 ((k + 1).toNat - total (users.filterMap botOf)) =
        max 1 (x + 1 - total (users.filterMap botOf)) by omega]
      exact congrArg (· ++ _) hmore
    cases hc : bot.2[x]? with
    | none =>
      refine .fail (chatLeft users last (47 :: t) x) (hcall.trans ?_) ?_
      · simp only [hc, Option.map_none]
      · rw [hleft, hc]
        rfl
    | some c =>
      refine .yield (shown bot.1 c) x (hcall.trans ?_) (by omega) ?_
      · simp only [hc, Option.map_some]
      · rw [hleft, hc]
        rfl
  · rw [Nat.zero_add] at hend
    generalize hT : total (users.filterMap botOf) = T at hend
    have hindex : (if max (k + 1).toNat T = T then (0 : ℤ)
        else ((max (k + 1).toNat T : ℕ) : ℤ) - T - 1) =
        ((max 1 ((k + 1).toNat - T) : ℕ) : ℤ) - 1 := by
      split_ifs <;> omega
    rw [hend, Sum.elim_inr] at hcall
    simp only [hindex] at hcall
    have hleft : chatLeft users last (47 :: t) k =
        buttonsLeft last (47 :: t) (max 1 ((k + 1).toNat - T)) := by
      rw [chatLeft, hT]
      exact congrArg (· ++ _) hempty
    rcases message_cases last (47 :: t) (max 1 ((k + 1).toNat - T)) with
      ⟨b, i, hi, hle, hmore⟩ | ⟨hstop, hnil⟩
    · refine .yield b (T + i) (hcall.trans (by rw [hi]; rfl)) (by omega) ?_
      have hbehind : max 1 (((T : ℤ) + i + 1).toNat - T) = i + 1 := by omega
      rw [hleft, hmore, chatLeft, hT, hbehind, commandsLeft_of_ge _ (by omega)]
      rfl
    · exact .stop _ (hcall.trans (by rw [hstop]; rfl)) (by rw [hleft, hnil])

/-! ### What is completed -/

/-- The first button is left out, which makes no difference if it does not fit. -/
theorem buttonsLeft_iff (last : List Message) (text : List UInt8) :
    buttonsLeft last text 1 = ((keyboard last).filter (fits text)).map some ↔
      FirstMissed last text := by
  have hget := hits_get (fits text) (keyboard last) 1
  unfold FirstMissed buttonsLeft
  rw [hget]
  cases keyboard last with
  | nil => simp
  | cons b bs =>
    rw [List.drop_one, List.tail_cons, List.head?_cons]
    cases hb : fits text b with
    | true =>
      rw [List.filter_cons_of_pos hb]
      refine iff_of_false (fun h => ?_) fun h => ?_
      · exact absurd (congrArg List.length h) (by simp)
      · have hmissed := h b rfl
        rw [hb] at hmissed
        cases hmissed
    | false =>
      rw [List.filter_cons_of_neg (by rw [hb]; exact Bool.false_ne_true)]
      refine iff_of_true rfl ?_
      rintro _ ⟨⟩
      exact hb

theorem shown_inj {U : User} {a b : List UInt8} (h : shown U a = shown U b) : a = b :=
  List.append_cancel_right (List.cons.inj h).2

/-- The commands of a chat that fit. -/
def commandsWanted (text : List UInt8) (bots : List (User × List (List UInt8))) :
    List (List UInt8) :=
  bots.flatMap fun bot => (bot.2.filter (fits text)).map (shown bot.1)

theorem commandsWanted_cons (text : List UInt8) (bot : User × List (List UInt8))
    (bots : List (User × List (List UInt8))) :
    (commandsWanted text (bot :: bots)).map some =
      (hits (fits text) bot.2 0).map (fun x => bot.2[x]?.map (shown bot.1)) ++
        (commandsWanted text bots).map some := by
  have hget := congrArg (List.map (Option.map (shown bot.1))) (hits_get (fits text) bot.2 0)
  simp only [List.map_map, List.drop_zero] at hget
  rw [commandsWanted, List.flatMap_cons, List.map_append, List.map_map]
  exact congrArg (· ++ _) hget.symm

theorem length_commandsLeft (text : List UInt8) : ∀ (bots : List (User × List (List UInt8)))
    (tot : ℕ), (commandsLeft text bots tot tot).length = (commandsWanted text bots).length
  | [], _ => rfl
  | bot :: bots, tot => by
    have hcons := congrArg List.length (commandsWanted_cons text bot bots)
    rw [List.length_map, List.length_append, List.length_map, List.length_map] at hcons
    rw [hcons, commandsLeft, List.length_append, List.length_map, Nat.sub_self,
      commandsLeft_of_le text (Nat.le_add_right tot bot.2.length), length_commandsLeft text bots]

/-- **The commands are printed right** if each has its own text at the place of the index. -/
theorem commandsLeft_iff (text : List UInt8) : ∀ (bots : List (User × List (List UInt8)))
    (tot : ℕ), commandsLeft text bots tot tot = (commandsWanted text bots).map some ↔
      SameTexts text bots tot
  | [], _ => iff_of_true rfl trivial
  | bot :: bots, tot => by
    have hbot : (hits (fits text) bot.2 0).map (fun x => bot.2[tot + x]?.map (shown bot.1)) =
        (hits (fits text) bot.2 0).map (fun x => bot.2[x]?.map (shown bot.1)) ↔
        ∀ i command, bot.2[i]? = some command → fits text command = true →
          bot.2[tot + i]? = some command := by
      rw [List.map_inj_left]
      constructor
      · intro h i c hc hfits
        have hi := h i (mem_hits.mpr ⟨Nat.zero_le i, c, hc, hfits⟩)
        rw [hc] at hi
        obtain ⟨d, hd, hshown⟩ := Option.map_eq_some_iff.mp hi
        rw [hd, shown_inj hshown]
      · intro h i hi
        obtain ⟨-, c, hc, hfits⟩ := mem_hits.mp hi
        rw [h i c hc hfits, hc]
    rw [commandsLeft, Nat.sub_self, commandsLeft_of_le text (Nat.le_add_right tot bot.2.length),
      commandsWanted_cons, SameTexts, ← hbot, ← commandsLeft_iff text bots]
    constructor
    · intro h
      exact List.append_inj h (by rw [List.length_map, List.length_map])
    · rintro ⟨h1, h2⟩
      rw [h1, h2]

/-- **Everything that fits is completed**, each once and in order, and nothing else: for a bot
exactly if the first button does not fit, and for a chat if besides every command that fits has its
own text at the place of the index. -/
theorem commands_completed_iff (t : List UInt8) (last : List Message) :
    (∀ commands, Feeds (fun k => completeUserCommand (some commands) last k (47 :: t)) (-1)
      (userWanted commands last (47 :: t)) ↔ FirstMissed last (47 :: t)) ∧
    ∀ users, Feeds (fun k => completeChatCommand users last k (47 :: t)) (-1)
      (chatWanted users last (47 :: t)) ↔
        FirstMissed last (47 :: t) ∧ SameTexts (beforeAt t) (users.filterMap botOf) 0 := by
  constructor
  · intro commands
    have hget := congrArg (List.map (Option.map (47 :: ·))) (hits_get (fits t) commands 0)
    simp only [List.map_map, List.drop_zero] at hget
    have hleft : userLeft commands last (47 :: t) (-1) =
        ((commands.filter (fits t)).map (47 :: ·)).map some ++ buttonsLeft last (47 :: t) 1 := by
      have hzero : max 1 (((-1 : ℤ) + 1).toNat - commands.length) = 1 := by omega
      rw [userLeft, hzero, List.map_map]
      exact congrArg (· ++ _) hget
    rw [feeds_iff (user_takes commands last t) le_rfl, hleft, userWanted, List.map_append,
      ← buttonsLeft_iff]
    exact ⟨fun h => List.append_cancel_left h, fun h => congrArg (_ ++ ·) h⟩
  · intro users
    have hleft : chatLeft users last (47 :: t) (-1) =
        commandsLeft (beforeAt t) (users.filterMap botOf) 0 0 ++ buttonsLeft last (47 :: t) 1 := by
      have hzero : max 1 (((-1 : ℤ) + 1).toNat - total (users.filterMap botOf)) = 1 := by omega
      rw [chatLeft, hzero]
      rfl
    have hwanted : (chatWanted users last (47 :: t)).map some =
        (commandsWanted (beforeAt t) (users.filterMap botOf)).map some ++
          ((keyboard last).filter (fits (47 :: t))).map some := List.map_append
    rw [feeds_iff (chat_takes users last t) le_rfl, hleft, hwanted, ← buttonsLeft_iff,
      ← commandsLeft_iff]
    constructor
    · intro h
      exact (List.append_inj h (by rw [length_commandsLeft, List.length_map])).symm
    · rintro ⟨h1, h2⟩
      rw [h1, h2]

/-- A message with one button. -/
def oneButton (button : List UInt8) : Message where
  out := false
  replyMarkup := some ⟨1, [0, 1], [button], rfl⟩

/-- A slash, typed to a bot without commands that shows the button `/start`. -/
theorem button_skipped : ¬ ∀ (t : List UInt8) (last : List Message),
    (∀ commands, Feeds (fun k => completeUserCommand (some commands) last k (47 :: t)) (-1)
      (userWanted commands last (47 :: t))) ∧
    ∀ users, Feeds (fun k => completeChatCommand users last k (47 :: t)) (-1)
      (chatWanted users last (47 :: t)) := by
  intro h
  have hfeeds := (h [] [oneButton (lit "/start")]).1 []
  have hwanted : userWanted [] [oneButton (lit "/start")] [47] = [lit "/start"] := by decide
  rw [hwanted, feeds_iff (user_takes [] [oneButton (lit "/start")] []) le_rfl, userLeft,
    hits_of_le (Nat.zero_le _), buttonsLeft, hits_of_le (Nat.le_max_left 1 _)] at hfeeds
  cases hfeeds

end TelegramCli.Interface.BotCommands
