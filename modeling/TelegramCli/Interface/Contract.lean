import TelegramCli.Interface.Dispatch
import TelegramCli.Interface.Head

/-! # The contract of the handlers

A handler asserts something about the number of its arguments, and reads each through one member of
`union arg`. By a look at the table the handlers ask for what the loop stores (`plain_accepts`),
with one exception: `reply_audio` has the handler of `send_audio`. A repeated slot may take no
argument (`fwd`), or take them all (`broadcast`), and then the contract is broken, too.
`meetsContract_iff` says that these are all the lines that break it. -/

namespace TelegramCli.Interface.Contract

open TelegramCli.Lib.CString TelegramCli.Tgl TelegramCli.Interface.Token TelegramCli.Interface.Ids
open TelegramCli.Interface.Args TelegramCli.Interface.Args.ArgReader TelegramCli.Interface.Slots
open TelegramCli.Interface.Dispatch TelegramCli.Interface.Actions TelegramCli.Interface.Handlers
open TelegramCli.Interface.Commands TelegramCli.Interface.Interpreter TelegramCli.Interface.Head

variable {E : Ids.Env}

/-- The lines that break the contract, from behind the name of the command: a `fwd` without a
message, a `broadcast` to users and without a text, and every `reply_audio` that is well formed. -/
def breaks (E : Ids.Env) (cmd : Command) (s : Scanner) : Bool :=
  if cmd.name = "fwd" then (takeId E .peer s).elim false atEnd
  else if cmd.name = "broadcast" then (countTaken E .user argsMax s).isSome
  else if cmd.name = "reply_audio" then ((takeId E .msgId s).bind takeWord).elim false atEnd
  else false

/-! ### The table -/

/-- The commands whose signature repeats a slot, and `reply_audio`. -/
def special : List String :=
  ["broadcast", "create_channel", "create_group_chat", "fwd", "reply_audio"]

/-- **The other commands** get what their handlers ask for. -/
theorem plain_accepts : ∀ cmd ∈ commands, cmd.name ∈ special ∨
    (Straight cmd.args = true ∧ cmd.handler.Accepts (cmd.args.map (·.op.member))) := by
  decide +kernel

theorem special_commands : commands.filter (·.name ∈ special) =
    [⟨"broadcast", [req .user, req .period, req .stringEnd], doBroadcast,
        "broadcast <user>+ <text>\tSends text to several users at once"⟩,
      ⟨"create_channel", [req .string, req .string, opt .user, req .period], doCreateChannel,
        "create_channel <name> <about> <user>+\tCreates channel with users"⟩,
      ⟨"create_group_chat", [req .string, req .user, req .period], doCreateGroupChat,
        "create_group_chat <name> <user>+\tCreates group chat with users"⟩,
      ⟨"fwd", [req .peer, req .msgId, req .period], doFwd,
        "fwd <peer> <msg-id>+\tForwards message to peer. Forward to secret chats is forbidden"⟩,
      ⟨"reply_audio", [req .msgId, req .fileName], doSendAudio,
        "reply_audio <msg-id> <file>\tSends audio to peer"⟩] := rfl

/-! ### The handlers of lists -/

theorem doFwd_accepts {k : ℕ} (h1 : 1 ≤ k) (h2 : k < argsMax) :
    doFwd.Accepts (.peerId :: List.replicate k .msgId) := by
  unfold argsMax at h2
  simp only [Handler.Accepts, doFwd, askIf, fits_map, fits_seq, peerId, msgId, fits_single,
    fits_range]
  refine ⟨by simp; omega, rfl, fun i hi => ?_⟩
  rw [List.length_cons, List.length_replicate, Nat.add_sub_cancel] at hi
  rw [List.getElem?_cons_succ, List.getElem?_replicate_of_lt hi]

theorem doCreateGroupChat_accepts {k : ℕ} (h : k < argsMax) :
    doCreateGroupChat.Accepts (.str :: List.replicate k .peerId) := by
  unfold argsMax at h
  simp only [Handler.Accepts, doCreateGroupChat, askIf, fits_map, fits_seq, peerId, str,
    fits_single, fits_range]
  refine ⟨by simp; omega, fun i hi => ?_, rfl⟩
  rw [List.length_cons, List.length_replicate, Nat.add_sub_cancel] at hi
  rw [List.getElem?_cons_succ, List.getElem?_replicate_of_lt hi]

theorem doCreateChannel_accepts {k : ℕ} (h : k + 1 < argsMax) :
    doCreateChannel.Accepts (.str :: .str :: List.replicate k .peerId) := by
  unfold argsMax at h
  simp only [Handler.Accepts, doCreateChannel, askIf, fits_map, fits_seq, peerId, str,
    fits_single, fits_range]
  refine ⟨by simp; omega, ⟨fun i hi => ?_, rfl⟩, rfl⟩
  rw [List.length_cons, List.length_cons, List.length_replicate] at hi
  rw [List.getElem?_cons_succ, List.getElem?_cons_succ, List.getElem?_replicate_of_lt (by omega)]

theorem doBroadcast_accepts {k : ℕ} (h : k < argsMax) :
    doBroadcast.Accepts (List.replicate k .peerId ++ [.str]) := by
  unfold argsMax at h
  simp only [Handler.Accepts, doBroadcast, askIf, fits_map, fits_seq, str, fits_single]
  refine ⟨by simp; omega, (fits_range (b := 0)).mpr fun i hi => ?_, by simp⟩
  rw [List.length_append, List.length_replicate, List.length_singleton, Nat.add_sub_cancel] at hi
  rw [Nat.add_zero, List.getElem?_append_left (by rwa [List.length_replicate]),
    List.getElem?_replicate_of_lt hi]

/-- The text is missing. -/
theorem doBroadcast_not_accepts : ∀ k : ℕ, ¬ doBroadcast.Accepts (List.replicate k .peerId)
  | 0 => by decide
  | k + 1 => by
    simp only [Handler.Accepts, doBroadcast, askIf, fits_map, fits_seq, str, fits_single,
      List.length_replicate, Nat.add_sub_cancel, List.getElem?_replicate_of_lt (Nat.lt_succ_self k)]
    rintro ⟨-, -, h⟩
    exact absurd h (by decide)

/-! ### Which lines break the contract -/

/-- Whatever the loop dispatches with is accepted. -/
def Safe (E : Ids.Env) (sig : List Slot) (h : Handler) (s : Scanner) : Prop :=
  ∀ out, parseArgs E sig s = .dispatch out → h.Accepts (out.map Arg.member)

theorem safe_broadcast (s : Scanner) :
    Safe E [req .user, req .period, req .stringEnd] doBroadcast s ↔
      (countTaken E .user argsMax s).isSome = false := by
  have hrun : parseArgs E [req .user, req .period, req .stringEnd] s =
      repeatSlot E (req .user) (readSlots E [req .stringEnd]) argsMax [] s :=
    (parseArgs_eq_readSlots rfl s).trans (readSlots_period _ _ _ _)
  simp only [Safe, hrun]
  rw [Option.isSome_eq_false_iff, Option.isNone_iff_eq_none]
  constructor
  · intro h
    by_contra hc
    obtain ⟨k, hk⟩ := Option.ne_none_iff_exists'.mp hc
    obtain ⟨more, hmore, hout⟩ :=
      repeatSlot_of_countTaken (show isId (req .user).op = true from rfl)
        (readSlots E [req .stringEnd]) hk
    have hacc := h _ (hout [])
    rw [List.nil_append, hmore] at hacc
    exact doBroadcast_not_accepts k hacc
  · intro hc out h
    obtain ⟨k, more, hk, hmore, ⟨-, hsome⟩ | ⟨s', -, h⟩⟩ := repeatSlot_dispatch rfl h
    · rw [show (req .user).op = .user from rfl, hc] at hsome
      exact absurd (hsome rfl) (by simp)
    · have hm := readSlots_members (by decide) h
      rw [List.nil_append, hmore] at hm
      rw [hm]
      exact doBroadcast_accepts hk

theorem safe_createChannel (s : Scanner) :
    Safe E [req .string, req .string, opt .user, req .period] doCreateChannel s := by
  intro out h
  rw [parseArgs_eq_readSlots rfl] at h
  rcases readSlots_cons_dispatch rfl (by decide) h with ⟨he, -⟩ | ⟨a, s₁, ha, -, h⟩
  · exact absurd he (by decide)
  rcases readSlots_cons_dispatch rfl (by decide) h with ⟨he, -⟩ | ⟨b, s₂, hb, -, h⟩
  · exact absurd he (by decide)
  replace h := (readSlots_period _ _ _ _).symm.trans h
  obtain ⟨k, more, hk, hmore, hout⟩ := repeatSlot_dispatch rfl h
  obtain rfl : out = [a, b] ++ more := by
    rcases hout with ⟨h, -⟩ | ⟨s', -, h⟩
    · exact h
    · exact (readSlots_nil_dispatch h).2
  rw [List.map_append, hmore]
  simp only [List.map_cons, List.map_nil, ha, hb, List.cons_append, List.nil_append]
  exact doCreateChannel_accepts (Nat.lt_of_lt_of_le (Nat.succ_lt_succ hk) (by simp [argsMax]))

theorem safe_createGroupChat (s : Scanner) :
    Safe E [req .string, req .user, req .period] doCreateGroupChat s := by
  intro out h
  rw [parseArgs_eq_readSlots rfl] at h
  rcases readSlots_cons_dispatch rfl (by decide) h with ⟨he, -⟩ | ⟨a, s₁, ha, -, h⟩
  · exact absurd he (by decide)
  replace h := (readSlots_period _ _ _ _).symm.trans h
  obtain ⟨k, more, hk, hmore, hout⟩ := repeatSlot_dispatch rfl h
  obtain rfl : out = [a] ++ more := by
    rcases hout with ⟨h, -⟩ | ⟨s', -, h⟩
    · exact h
    · exact (readSlots_nil_dispatch h).2
  rw [List.map_append, hmore]
  simp only [List.map_cons, List.map_nil, ha, List.cons_append, List.nil_append]
  exact doCreateGroupChat_accepts (Nat.lt_of_lt_of_le hk (Nat.sub_le _ _))

theorem safe_fwd (s : Scanner) : Safe E [req .peer, req .msgId, req .period] doFwd s ↔
    (takeId E .peer s).elim false atEnd = false := by
  constructor
  · intro h
    cases ht : takeId E .peer s with
    | none => rfl
    | some t =>
      rw [Option.elim_some, ← Bool.not_eq_true]
      intro hend
      obtain ⟨a, ha, hr⟩ := slotRound_take (show isId (req .peer).op = true from rfl) ht
      have hacc := h [a] (by
        rw [parseArgs_eq_readSlots rfl, readSlots_cons (by decide), readSlot, if_pos (by decide),
          hr false []]
        refine (readSlots_period _ _ _ _).trans ?_
        exact repeatSlot_atEnd rfl hend _ (by simp [argsMax]) _)
      rw [List.map_singleton, ha] at hacc
      exact absurd hacc (by decide)
  · intro hc out h
    rw [parseArgs_eq_readSlots rfl] at h
    rcases readSlots_cons_dispatch rfl (by decide) h with ⟨he, -⟩ | ⟨a, s₁, ha, hr, h⟩
    · exact absurd he (by decide)
    rcases slotRound_id_next rfl rfl hr with ⟨-, ht⟩ | ⟨hm, -⟩
    swap
    · exact absurd hm (by decide)
    rw [show (req .peer).op = .peer from rfl] at ht
    rw [ht, Option.elim_some] at hc
    replace h := (readSlots_period _ _ _ _).symm.trans h
    obtain ⟨k, more, hk, hmore, ⟨rfl, hcount⟩ | ⟨s', hs', h⟩⟩ := repeatSlot_dispatch rfl h
    · have hk1 : 1 ≤ k := by
        rcases Nat.eq_zero_or_pos k with rfl | hpos
        · exact absurd (countTaken_zero (hcount rfl)) (by rw [hc]; decide)
        · exact hpos
      rw [List.nil_append, List.map_append, List.map_singleton, ha, hmore]
      exact doFwd_accepts hk1 (Nat.lt_of_lt_of_le hk (Nat.sub_le _ _))
    · exact absurd (readSlots_nil_dispatch h).1 (by rw [hs' rfl]; decide)

/-- The words of `reply_audio` are right, and go to the handler of `send_audio`. -/
theorem safe_replyAudio (s : Scanner) : Safe E [req .msgId, req .fileName] doSendAudio s ↔
    ((takeId E .msgId s).bind takeWord).elim false atEnd = false := by
  constructor
  · intro h
    cases ht : takeId E .msgId s with
    | none => rfl
    | some t =>
      rw [Option.bind_some]
      cases hu : takeWord t with
      | none => rfl
      | some u =>
        rw [Option.elim_some, ← Bool.not_eq_true]
        intro hend
        obtain ⟨a, ha, hr⟩ := slotRound_take (show isId (req .msgId).op = true from rfl) ht
        have hacc := h [a, .str (some (cstring u.tok))] (by
          rw [parseArgs_eq_readSlots rfl, readSlots_cons (by decide), readSlot,
            if_pos (by decide), hr false []]
          refine (congrFun₂ (readSlots_cons (by decide)) _ _).trans ?_
          rw [readSlot, if_pos (by simp [argsMax]),
            slotRound_takeWord (show isWord (req .fileName).op = true from rfl) hu]
          exact readSlots_atEnd hend (by simp [argsMax]))
        have hnot : ¬ doSendAudio.Accepts [.msgId, .str] := by decide
        rw [List.map_cons, ha] at hacc
        exact absurd hacc hnot
  · intro hc out h
    rw [parseArgs_eq_readSlots rfl] at h
    rcases readSlots_cons_dispatch rfl (by decide) h with ⟨he, -⟩ | ⟨a, s₁, -, hr, h⟩
    · exact absurd he (by decide)
    rcases slotRound_id_next rfl rfl hr with ⟨-, ht⟩ | ⟨hm, -⟩
    swap
    · exact absurd hm (by decide)
    rcases readSlots_cons_dispatch rfl (by decide) h with ⟨he, -⟩ | ⟨b, s₂, -, hr, h⟩
    · exact absurd he (by decide)
    have hu := slotRound_word_next rfl rfl hr
    rw [show (req .msgId).op = .msgId from rfl] at ht
    rw [ht, Option.bind_some, hu, Option.elim_some, (readSlots_nil_dispatch h).1] at hc
    exact absurd hc (by decide)

theorem safe_iff {cmd : Command} (hcmd : cmd ∈ commands) (s : Scanner) :
    Safe E cmd.args cmd.handler s ↔ breaks E cmd s = false := by
  by_cases hsp : cmd.name ∈ special
  · have hmem : cmd ∈ commands.filter (·.name ∈ special) :=
      List.mem_filter.mpr ⟨hcmd, decide_eq_true hsp⟩
    rw [special_commands] at hmem
    simp only [List.mem_cons, List.not_mem_nil, or_false] at hmem
    rcases hmem with rfl | rfl | rfl | rfl | rfl
    · exact safe_broadcast s
    · exact iff_of_true (safe_createChannel s) rfl
    · exact iff_of_true (safe_createGroupChat s) rfl
    · exact safe_fwd s
    · exact safe_replyAudio s
  · obtain ⟨hstraight, hacc⟩ := (plain_accepts cmd hcmd).resolve_left hsp
    refine iff_of_true (fun out h => ?_) ?_
    · rw [parseArgs_eq_readSlots (Straight.regular hstraight)] at h
      rw [readSlots_members hstraight h]
      exact hacc
    · simp only [special, List.mem_cons, List.not_mem_nil, or_false, not_or] at hsp
      obtain ⟨h1, -, -, h2, h3⟩ := hsp
      rw [breaks, if_neg h2, if_neg h1, if_neg h3]

/-! ### Command lines -/

/-- Every call of a handler finds the arguments it asserts and reads. -/
def MeetsContract (o : Outcome) : Prop :=
  ∀ cmd g args, Event.call cmd g args ∈ o.events → ∀ c, (cmd.handler.run args c).isOk = true

/-- The line calls a command that it breaks the contract of. -/
def Breaks (E : Interpreter.Env) (inChatMode : Bool) (line : Option (List UInt8)) : Prop :=
  inChatMode = false ∧ ∃ l g t cmd, line = some l ∧ deref l ≠ 0 ∧ deref l ≠ 40 ∧
    parseHead E l = .name g t ∧ findCommand commands t = some cmd ∧ 0 < g.count ∧
    breaks E.ids cmd t = true

/-- The handler is called as soon as `count` is positive. -/
theorem call_mem_events {o : Outcome} {cmd : Command} {g : Globals} {args : List Arg} :
    Event.call cmd g args ∈ o.events ↔ o = .dispatched cmd g args ∧ 0 < g.count := by
  cases o with
  | dispatched cmd' g' args' =>
    rw [Outcome.events, List.mem_replicate, Event.call.injEq, Outcome.dispatched.injEq]
    constructor
    · rintro ⟨hn, rfl, rfl, rfl⟩
      exact ⟨⟨rfl, rfl, rfl⟩, by omega⟩
    · rintro ⟨⟨rfl, rfl, rfl⟩, hn⟩
      exact ⟨by omega, rfl, rfl, rfl⟩
  | _ => simp [Outcome.events]

theorem meetsContract_iff_accepts (o : Outcome) : MeetsContract o ↔
    ∀ cmd g args, o = .dispatched cmd g args → 0 < g.count →
      cmd.handler.Accepts (args.map Arg.member) := by
  have c : Ctx := ⟨false, false, Globals.reset, ⟨.user, 0, 0⟩, fun _ => none, fun _ => none,
    fun _ => false, []⟩
  simp only [MeetsContract, call_mem_events, Handler.run_isOk, and_imp]
  exact ⟨fun h cmd g args ho hn => h cmd g args ho hn c,
    fun h cmd g args ho hn _ => h cmd g args ho hn⟩

/-- **The calls of a line** meet the contracts of the handlers exactly when the line is none of
those in `Breaks`. -/
theorem meetsContract_iff (E : Interpreter.Env) (inChatMode : Bool) (line : Option (List UInt8)) :
    MeetsContract (interpreterEx E commands inChatMode line) ↔ ¬ Breaks E inChatMode line := by
  rw [meetsContract_iff_accepts]
  constructor
  · rintro h ⟨hchat, l, g, t, cmd, hl, h0, h40, hh, hf, hcount, hb⟩
    have hsafe : Safe E.ids cmd.args cmd.handler t := fun out hout =>
      h cmd g out (interpreterEx_dispatched.mpr ⟨hchat, l, t, hl, h0, h40, hh, hf, hout⟩) hcount
    rw [(safe_iff (findCommand_mem hf) t).mp hsafe] at hb
    exact absurd hb (by decide)
  · intro hb cmd g args ho hcount
    obtain ⟨hchat, l, t, hl, h0, h40, hh, hf, hargs⟩ := interpreterEx_dispatched.mp ho
    refine (safe_iff (findCommand_mem hf) t).mpr ?_ args hargs
    rw [← Bool.not_eq_true]
    exact fun hbr => hb ⟨hchat, l, g, t, cmd, hl, h0, h40, hh, hf, hcount, hbr⟩

/-- A `fwd` without a message. -/
theorem fwd_alone_breaks :
    ¬ MeetsContract (interpreterEx aliceEnv commands false (some (lit "fwd Alice"))) := by
  have hrun : interpreterEx aliceEnv commands false (some (lit "fwd Alice")) =
      .dispatched ⟨"fwd", [req .peer, req .msgId, req .period], doFwd,
        "fwd <peer> <msg-id>+\tForwards message to peer. Forward to secret chats is forbidden"⟩
        Globals.reset [.peerId alice.id] := by rfl
  rw [hrun, meetsContract_iff_accepts]
  exact fun h => absurd (h _ _ _ rfl (by decide)) (by decide)

end TelegramCli.Interface.Contract
