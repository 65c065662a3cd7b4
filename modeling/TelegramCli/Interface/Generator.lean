import TelegramCli.Interface.BotCommands
import TelegramCli.Interface.Complete

/-! # The completion function

`command_generator` gives one completion a call; a cycle of calls goes on until it gives none. The
place in the list is a static index that every kind of completion uses. Out of chat mode the first
call of a cycle sets it back; in chat mode no call does, so the cycle begins where the one before
has ended, and compares as many bytes as there are in front of the cursor. All commands that fit are
completed exactly if none of them is in front of that place, and the word is the first of the line or
the whole command (`chat_commands_completed_iff`). -/

namespace TelegramCli.Interface.Generator

open TelegramCli.Lib.CString TelegramCli.Lib.Cursor
open TelegramCli.Tgl hiding Message
open TelegramCli.Interface.Token TelegramCli.Interface.Ids TelegramCli.Interface.Args
open TelegramCli.Interface.Complete TelegramCli.Interface.BotCommands

/-! ### Lists of strings -/

/-- `strncmp (s, t, len) == 0`. -/
def strncmpEq : ℕ → List UInt8 → List UInt8 → Bool
  | 0, _, _ => true
  | _ + 1, [], [] => true
  | len + 1, c :: s, d :: t => c = d && strncmpEq len s t
  | _ + 1, _, _ => false

/-- A list is closed by a null pointer, which is read as well. -/
def completeStringList (list : List (List UInt8)) (index : ℤ) (text : List UInt8) (len : ℕ) :
    Result :=
  if 0 ≤ index + 1 ∧ index + 1 ≤ list.length then
    let i := scan (fun s => strncmpEq len s text) list (index + 1).toNat
    list[i]?.elim (some (none, -1)) fun s => some (some s, (i : ℤ))
  else none

/-- The names in `commands`. -/
def completeCommandList (names : List (List UInt8)) (index : ℤ) (text : List UInt8) (len : ℕ) :
    Result := completeStringList names index text len

def modifiers : List (List UInt8) :=
  [lit "[offline]", lit "[enable_preview]", lit "[disable_preview]", lit "[html]", lit "[reply="]

def inChatCommands : List (List UInt8) := [lit "/exit", lit "/quit", lit "/history", lit "/read"]

/-- The names that are looked at: of users and channels. -/
def usernameOf (P : Peer) : Str :=
  if P.id.peerType = .user ∨ P.id.peerType = .channel then P.username else none

/-- `complete_username` over `TLS->Peers`, where no mode is 0. -/
def completeUsername (peers : List Peer) (mode : Option PeerType) (index : ℤ)
    (text : List UInt8) : Result :=
  let text := if text.head? = some 64 then text.tail else text
  if index < -1 then none
  else
    let i := scan (fun P => mode.all (P.id.peerType = ·) && (usernameOf P).any (fits text)) peers
      (index + 1).toNat
    peers[i]?.elim (some (none, if i = peers.length then -1 else i)) fun P =>
      some ((usernameOf P).map (64 :: ·), (i : ℤ))

/-! ### Out of chat mode -/

/-- A list of the library, which gives -1 behind its last element. -/
structure LibraryList where
  next : ℤ → Result
  ends : ∀ i j, next i = some (none, j) → j = -1

/-- One of the two variables is set at most. -/
def OneSet (auto : Autocomplete) : Prop := auto.peer = none ∨ auto.id.peerType = notFound

/-- What is looked up. -/
structure Lookups where
  commands : List (List UInt8)
  peers : List Peer
  userList : List UInt8 → LibraryList
  peerList : List UInt8 → LibraryList
  chatList : List UInt8 → LibraryList
  encrChatList : List UInt8 → LibraryList
  channelList : List UInt8 → LibraryList
  extf : ℤ → Result
  /-- What readline gives for the name of a file, call by call. -/
  fileNames : List UInt8 → List (List UInt8)
  botInfo : Peer → Option (List (List UInt8))
  chatUsers : Peer → List (Option User)
  last : Peer → List Message
  /-- The message, and whether its sender is known. -/
  messageGet : MsgId → Option (Message × Bool)

/-- What a line is completed from: the answer of `get_complete_mode`, where one of the two variables
is set at most, and what is looked up. -/
structure Line extends Lookups where
  mode : CommandArgument
  token : Scanner
  auto : Autocomplete
  one_set : OneSet auto

/-- For `autocomplete_peer`. -/
def answerPeer (L : Line) (index : ℤ) : Result :=
  L.auto.peer.elim (some (none, index)) fun P =>
    if P.id.peerType = .user then
      completeUserCommand (L.botInfo P) (L.last P) index L.token.tok
    else if P.id.peerType = .chat then
      completeChatCommand (L.chatUsers P) (L.last P) index L.token.tok
    else some (none, index)

/-- For `autocomplete_id`. If the sender of the message is known, the commands are those of
`autocomplete_peer`, which may be a null pointer. -/
def answerMessage (L : Line) (r : Option (List UInt8) × ℤ) : Result :=
  if L.auto.id.peerType = notFound then some r
  else (L.messageGet L.auto.id).elim (some r) fun M =>
    if L.token.tok.head? = some 47 then
      if M.2 then
        L.auto.peer.elim none fun P =>
          completeUserCommand (L.botInfo P) (L.last P) r.2 L.token.tok
      else some r
    else completeSpecMessageAnswer (some M.1) r.2 L.token.tok

/-- The kinds of arguments that are not completed. -/
def isQuiet : CommandArgument → Bool
  | .none | .string | .stringEnd | .number | .double | .msgId => true
  | _ => false

/-- The part of `command_generator` behind the test of `index`. -/
def generate (L : Line) (state : ℕ) (index : ℤ) : Result :=
  let text := L.token.tok
  if isQuiet L.mode then some (none, index)
  else if L.token.curTokenLen < 0 then none
  else
    match L.mode with
    | .command => completeCommandList L.commands index text text.length
    | .user =>
      if text.head? = some 64 then completeUsername L.peers (some .user) index text
      else (L.userList text).next index
    | .peer =>
      if text.head? = some 64 then completeUsername L.peers none index text
      else (L.peerList text).next index
    | .fileName | .fileNameEnd => some ((L.fileNames text)[state]?, index)
    | .chat => (L.chatList text).next index
    | .secretChat => (L.encrChatList text).next index
    | .channel =>
      if text.head? = some 64 then completeUsername L.peers (some .channel) index text
      else (L.channelList text).next index
    | .modifier => completeStringList modifiers index text text.length
    | .msgStringEnd => (answerPeer L index).bind (answerMessage L)
    | .extf => L.extf index
    | _ => some (none, index)

/-- A completion: in chat mode of a word behind some others, or of a line. -/
inductive Completion
  | chat (front text : List UInt8)
  | line (L : Line)

/-- A call of `command_generator` with its `state` and `index`; `state` counts the calls. -/
def commandGenerator : Completion → ℕ × ℤ → Option (Option (List UInt8) × ℕ × ℤ)
  | .chat front text, (state, index) =>
    -- `rl_point` is the end of the word
    (completeStringList inChatCommands index text (front.length + text.length)).map fun r =>
      (r.1, state + 1, r.2)
  | .line L, (state, index) =>
    if state = 0 then (generate L state (-1)).map fun r => (r.1, state + 1, r.2)
    else if L.mode ≠ .fileName ∧ L.mode ≠ .fileNameEnd ∧ index = -1 then
      some (none, state + 1, index)
    else (generate L state index).map fun r => (r.1, state + 1, r.2)

/-- A cycle from one value of the static index to another. -/
def Cycle (c : Completion) (index : ℤ) (given : List (List UInt8)) (left : ℤ) : Prop :=
  ∃ state, FeedsTo (commandGenerator c) (0, index) given (state, left)

/-- Cycles one after the other since the start of the program. -/
inductive History : List Completion → ℤ → Prop
  | start : History [] 0
  | next {cs : List Completion} {c : Completion} {i j : ℤ} {given : List (List UInt8)} :
    History cs i → Cycle c i given j → History (cs ++ [c]) j

/-! ### The answer of `get_complete_mode` -/

theorem oneSet_autocomplete {E : Ids.Env} (op : CommandArgument) (t : Scanner) {auto : Autocomplete}
    (h : OneSet auto) : OneSet (autocomplete E op t auto) := by
  cases op with
  | peer => exact .inr rfl
  | msgId => exact .inl rfl
  | _ => exact h

theorem oneSet_round {E : Ids.Env} {slot : Slot} {period : Bool} {s t : Scanner} {move : ℕ}
    {auto auto' : Autocomplete} (h : OneSet auto)
    (hr : completeRound E slot period s auto = .next move t auto') : OneSet auto' := by
  rw [completeRound] at hr
  by_cases hnone : slot.op = .none
  · rw [if_pos hnone] at hr
    cases hr
  rw [if_neg hnone] at hr
  by_cases hend : isEnd slot.op = true
  · rw [if_pos hend] at hr
    cases ht : nextTokenEndAc false s with
    | none => simp [ht] at hr
    | some u =>
      simp only [ht] at hr
      split_ifs at hr
  rw [if_neg hend] at hr
  cases hf : findToken E slot s with
  | accepted u =>
    simp only [hf] at hr
    cases hr
    exact oneSet_autocomplete slot.op t h
  | refused u =>
    simp only [hf] at hr
    split_ifs at hr
    · cases hr
      exact h
    · cases hr
      exact h
  | last => simp [hf] at hr
  | failed => simp [hf] at hr

theorem oneSet_loop {E : Ids.Env} {sig : List Slot} {op : CommandArgument} {auto : Autocomplete} :
    ∀ {fuel : ℕ} {st : Complete.LoopState}, OneSet st.auto →
      completeLoop E sig fuel st = some (.ret op auto) → OneSet auto
  | 0, _, _, hr => by cases hr
  | fuel + 1, st, h, hr => by
    rw [completeLoop] at hr
    cases hround : completeRound E (slotAt sig (stepBack sig st.flags))
        (slotAt sig st.flags = Slot.period) st.scan st.auto with
    | next move scan auto' =>
      simp only [hround] at hr
      exact oneSet_loop (oneSet_round h hround) hr
    | ret op' =>
      simp only [hround] at hr
      cases hr
      exact h
    | abort =>
      simp only [hround] at hr
      cases hr

/-- **What `get_complete_mode` answers** has one of the two variables at most. -/
theorem oneSet_getCompleteMode {E : Ids.Env} {table : List Commands.Command} {id : MsgId}
    {fuel : ℕ} {line : List UInt8} {op : CommandArgument} {auto : Autocomplete}
    (h : getCompleteMode E table id fuel line = some (.ret op auto)) : OneSet auto := by
  unfold getCompleteMode at h
  cases hhead : completeHead line with
  | ret op' =>
    simp only [hhead] at h
    cases h
    exact .inl rfl
  | abort => simp [hhead] at h
  | hang => simp [hhead] at h
  | name t =>
    simp only [hhead] at h
    cases hfind : Interpreter.findCommand table t with
    | none =>
      simp only [hfind] at h
      cases h
      exact .inl rfl
    | some cmd =>
      simp only [hfind] at h
      exact oneSet_loop (.inl rfl) h

/-- The line in front of the cursor, as `get_complete_mode` answers for it, with the token it has
come to. -/
def lineOf (K : Lookups) {E : Ids.Env} {id : MsgId} {fuel : ℕ} {text : List UInt8}
    {op : CommandArgument} {auto : Autocomplete} (token : Scanner)
    (h : getCompleteMode E Commands.commands id fuel text = some (.ret op auto)) : Line :=
  { K with mode := op, token := token, auto := auto, one_set := oneSet_getCompleteMode h }

/-! ### What is compared -/

theorem strncmpEq_text : ∀ s text : List UInt8,
    strncmpEq text.length s text = true ↔ fits text s = true
  | s, [] => by
    rw [List.length_nil, strncmpEq, fits, List.isPrefixOf_nil_left]
  | [], _ :: _ => Iff.rfl
  | c :: s, d :: text => by
    have ih := strncmpEq_text s text
    rw [fits, List.isPrefixOf_iff_prefix] at ih ⊢
    rw [List.length_cons, strncmpEq, Bool.and_eq_true, ih, decide_eq_true_iff,
      List.cons_prefix_cons, eq_comm]

theorem strncmpEq_behind (n : ℕ) : ∀ s text : List UInt8,
    strncmpEq (n + 1 + text.length) s text = true ↔ s = text
  | [], [] => iff_of_true rfl rfl
  | _ :: _, [] => by simp [strncmpEq]
  | [], d :: text => by
    rw [List.length_cons, ← Nat.add_assoc, strncmpEq]
    · simp
    · simp
    · simp
  | c :: s, d :: text => by
    rw [List.length_cons, ← Nat.add_assoc, strncmpEq, Bool.and_eq_true, decide_eq_true_iff,
      strncmpEq_behind n s text, List.cons.injEq]

/-- With words in front the whole command has to be typed. -/
theorem strncmpEq_point (front s text : List UInt8) :
    strncmpEq (front.length + text.length) s text = true ↔
      fits text s = true ∧ (front = [] ∨ s = text) := by
  cases front with
  | nil =>
    rw [List.length_nil, Nat.zero_add, strncmpEq_text]
    simp
  | cons c front =>
    rw [List.length_cons, strncmpEq_behind]
    constructor
    · rintro rfl
      exact ⟨List.isPrefixOf_iff_prefix.mpr (List.prefix_refl s), .inr rfl⟩
    · rintro ⟨-, h | h⟩
      · exact absurd h (List.cons_ne_nil c front)
      · exact h

/-! ### A cycle in chat mode -/

/-- What the calls compare the commands with. -/
def compares (front text : List UInt8) (s : List UInt8) : Bool :=
  strncmpEq (front.length + text.length) s text

/-- The commands behind the index that are found. -/
def foundBehind (front text : List UInt8) (index : ℤ) : List (Option (List UInt8)) :=
  (hits (compares front text) inChatCommands (index + 1).toNat).map fun x => inChatCommands[x]?

theorem chatMode_takes (front text : List UInt8) (s : ℕ × ℤ) (h : -1 ≤ s.2 ∧ s.2 ≤ 3) :
    Takes (commandGenerator (.chat front text)) (fun s => foundBehind front text s.2)
      (fun s => -1 ≤ s.2 ∧ s.2 ≤ 3) s := by
  obtain ⟨state, index⟩ := s
  obtain ⟨h1, h3⟩ := h
  have hlen : inChatCommands.length = 4 := rfl
  have hcall : commandGenerator (.chat front text) (state, index) =
      (inChatCommands[scan (compares front text) inChatCommands (index + 1).toNat]?.elim
        (some (none, -1)) fun c => some (some c,
          (scan (compares front text) inChatCommands (index + 1).toNat : ℤ))).map fun r =>
        (r.1, state + 1, r.2) := by
    rw [commandGenerator, completeStringList, if_pos ⟨by omega, by rw [hlen]; omega⟩]
    rfl
  rcases scan_cases (compares front text) inChatCommands (index + 1).toNat with
    ⟨c, hc, hle, hmore⟩ | ⟨hnone, -, hnil⟩
  · have hlt := (List.getElem?_eq_some_iff.mp hc).1
    refine .yield c (state + 1, (scan (compares front text) inChatCommands (index + 1).toNat : ℤ))
      (by rw [hcall, hc]; rfl) ⟨by omega, by rw [hlen] at hlt; omega⟩ ?_
    rw [foundBehind, hmore, List.map_cons, hc, foundBehind, ← Nat.cast_succ, Int.toNat_natCast]
  · refine .stop (state + 1, -1) (by rw [hcall, hnone]; rfl) ?_
    rw [foundBehind, hnil, List.map_nil]

/-- **A cycle in chat mode** yields the commands it finds behind the index. -/
theorem chat_cycle_iff {front text : List UInt8} {index : ℤ} {given : List (List UInt8)} :
    (∃ left, Cycle (.chat front text) index given left) ↔ (-1 ≤ index ∧ index ≤ 3) ∧
      given = (inChatCommands.drop (index + 1).toNat).filter (compares front text) := by
  have hfeeds : (∃ left, Cycle (.chat front text) index given left) ↔
      Feeds (commandGenerator (.chat front text)) (0, index) given := by
    rw [feeds_iff_feedsTo]
    constructor
    · rintro ⟨left, state, h⟩
      exact ⟨_, h⟩
    · rintro ⟨⟨state, left⟩, h⟩
      exact ⟨left, state, h⟩
  rw [hfeeds]
  by_cases hindex : -1 ≤ index ∧ index ≤ 3
  · have h : Feeds (commandGenerator (.chat front text)) (0, index) given ↔ _ :=
      feeds_iff (chatMode_takes front text) hindex
    rw [h, and_iff_right hindex, foundBehind, hits_get]
    constructor
    · exact fun h => (List.map_injective_iff.mpr (Option.some_injective _) h).symm
    · exact fun h => by rw [h]
  · have hfail : commandGenerator (.chat front text) (0, index) = none := by
      have hout : ¬ (0 ≤ index + 1 ∧ index + 1 ≤ inChatCommands.length) := by
        rw [show inChatCommands.length = 4 from rfl]
        omega
      rw [commandGenerator, completeStringList, if_neg hout]
      rfl
    refine iff_of_false ?_ fun h => hindex h.1
    rintro (h | ⟨h, -⟩)
    · rw [hfail] at h
      cases h
    · rw [hfail] at h
      cases h

/-- No command that fits stands in front of the place behind the index, and none is given up for the
words in front. -/
def Ready (index : ℤ) (front text : List UInt8) : Prop :=
  ∀ (i : ℕ) (c : List UInt8), inChatCommands[i]? = some c → fits text c = true →
    index < i ∧ (front = [] ∨ c = text)

theorem filter_eq_of_ready {index : ℤ} {front text : List UInt8} (h1 : -1 ≤ index)
    (h : Ready index front text) :
    (inChatCommands.drop (index + 1).toNat).filter (compares front text) =
      inChatCommands.filter (fits text) := by
  have hfront : (inChatCommands.take (index + 1).toNat).filter (fits text) = [] := by
    refine List.filter_eq_nil_iff.mpr fun c hc hfit => ?_
    obtain ⟨i, hi⟩ := List.getElem?_of_mem hc
    rw [List.getElem?_take] at hi
    split_ifs at hi with hlt
    have hbehind := (h i c hi hfit).1
    omega
  have hsame : ∀ c ∈ inChatCommands.drop (index + 1).toNat, compares front text c = fits text c := by
    intro c hc
    obtain ⟨i, hi⟩ := List.getElem?_of_mem (List.mem_of_mem_drop hc)
    rw [Bool.eq_iff_iff, compares, strncmpEq_point]
    exact and_iff_left_of_imp fun hfit => (h i c hi hfit).2
  rw [List.filter_congr hsame]
  conv_rhs => rw [← List.take_append_drop (index + 1).toNat inChatCommands, List.filter_append,
    hfront, List.nil_append]

theorem ready_of_filter_eq {index : ℤ} {front text : List UInt8} (h1 : -1 ≤ index)
    (h : (inChatCommands.drop (index + 1).toNat).filter (compares front text) =
      inChatCommands.filter (fits text)) : Ready index front text := by
  intro i c hi hfit
  have hc : c ∈ (inChatCommands.drop (index + 1).toNat).filter (compares front text) := by
    rw [h]
    exact List.mem_filter.mpr ⟨List.mem_of_getElem? hi, hfit⟩
  obtain ⟨hmem, hcompares⟩ := List.mem_filter.mp hc
  refine ⟨?_, ((strncmpEq_point front c text).mp hcompares).2⟩
  obtain ⟨j, hj⟩ := List.getElem?_of_mem hmem
  rw [List.getElem?_drop] at hj
  -- no command stands at two places
  have hnodup : inChatCommands.Nodup := by decide
  have hij : i = (index + 1).toNat + j :=
    (List.getElem?_inj (List.getElem?_eq_some_iff.mp hi).1 hnodup).mp (hi.trans hj.symm)
  omega

/-- **A cycle in chat mode** yields what fits exactly if the place it begins at allows it. -/
theorem chat_cycle_exact {front text : List UInt8} {index : ℤ} :
    (∃ given left, Cycle (.chat front text) index given left ∧
      given.Perm (inChatCommands.filter (fits text))) ↔
      -1 ≤ index ∧ index ≤ 3 ∧ Ready index front text := by
  constructor
  · rintro ⟨given, left, hcycle, hperm⟩
    obtain ⟨⟨h1, h3⟩, rfl⟩ := chat_cycle_iff.mp ⟨left, hcycle⟩
    refine ⟨h1, h3, ready_of_filter_eq h1 ?_⟩
    have hsub : ((inChatCommands.drop (index + 1).toNat).filter (compares front text)).Sublist
        (inChatCommands.filter (fits text)) :=
      ((List.drop_sublist _ _).filter _).trans
        (List.monotone_filter_right _ fun c hc => ((strncmpEq_point front c text).mp hc).1)
    exact hsub.eq_of_length hperm.length_eq
  · rintro ⟨h1, h3, hready⟩
    have hcycle : ∃ left, Cycle (.chat front text) index _ left :=
      chat_cycle_iff.mpr ⟨⟨h1, h3⟩, rfl⟩
    obtain ⟨left, hcycle⟩ := hcycle
    exact ⟨_, left, hcycle, by rw [filter_eq_of_ready h1 hready]⟩

/-! ### What a cycle leaves -/

/-- Where the search for an answer ends: behind the commands of the bot, or of all bots of a chat. -/
def answerLeft (L : Line) : ℤ :=
  if L.token.tok.head? ≠ some 47 then -1
  else L.auto.peer.elim (-1) fun P =>
    if P.id.peerType = .user then (L.botInfo P).elim (-1) fun commands => commands.length - 1
    else if P.id.peerType = .chat then total ((L.chatUsers P).filterMap botOf) - 1
    else -1

/-- The index a cycle leaves, where it is not left to the library. -/
def left : Completion → Option ℤ
  | .chat _ _ => some (-1)
  | .line L =>
    if L.mode = .extf then none else some (if L.mode = .msgStringEnd then answerLeft L else -1)

/-- A call that gives nothing leaves `x`, and one that gives something a place. -/
structure EndsAt (x : ℤ) (r : Result) : Prop where
  stop : ∀ j, r = some (none, j) → j = x
  yield : ∀ b j, r = some (some b, j) → 0 ≤ j

theorem endsAt_none {x : ℤ} : EndsAt x none :=
  ⟨fun _ h => absurd h (by simp), fun _ _ h => absurd h (by simp)⟩

theorem endsAt_stop (x : ℤ) : EndsAt x (some (none, x)) :=
  ⟨fun j h => by simpa using h.symm, fun _ _ h => absurd h (by simp)⟩

theorem endsAt_yield (x : ℤ) (b : List UInt8) (i : ℕ) : EndsAt x (some (some b, (i : ℤ))) :=
  ⟨fun _ h => absurd h (by simp), fun _ j h => by
    cases h
    exact Int.natCast_nonneg i⟩

theorem endsAt_elim {x : ℤ} {xs : List (List UInt8)} {i : ℕ} (g : List UInt8 → List UInt8)
    {r : Result} (hr : EndsAt x r) :
    EndsAt x (xs[i]?.elim r fun s => some (some (g s), (i : ℤ))) := by
  cases xs[i]? with
  | none => exact hr
  | some s => exact endsAt_yield x (g s) i

theorem endsAt_behind {x : ℤ} {n : ℕ} {r : Result} (hr : EndsAt x r) :
    EndsAt (n + x) (behind n r) := by
  cases r with
  | none => exact endsAt_none
  | some r =>
    obtain ⟨b, j⟩ := r
    refine ⟨?_, ?_⟩
    · rintro k ⟨⟩
      rw [hr.stop j rfl]
    · rintro b k ⟨⟩
      have hj := hr.yield _ _ rfl
      omega

theorem endsAt_stringList (list : List (List UInt8)) (index : ℤ) (text : List UInt8) (len : ℕ) :
    EndsAt (-1) (completeStringList list index text len) := by
  unfold completeStringList
  split_ifs
  · exact endsAt_elim id (endsAt_stop (-1))
  · exact endsAt_none

/-- The library's list of some names. -/
def LibraryList.ofNames (names : List (List UInt8)) (text : List UInt8) : LibraryList where
  next index := completeStringList names index text text.length
  ends index := (endsAt_stringList names index text text.length).stop

theorem endsAt_message (M : Option Message) (index : ℤ) (text : List UInt8) :
    EndsAt (-1) (completeSpecMessageAnswer M index text) := by
  unfold completeSpecMessageAnswer
  cases M.bind Message.replyMarkup with
  | none => exact endsAt_stop (-1)
  | some markup =>
    rw [Option.elim_some]
    split_ifs
    · exact endsAt_stop (-1)
    · exact endsAt_none
    · exact endsAt_elim id (endsAt_stop (-1))

theorem endsAt_user {last : List Message} {index : ℤ} {text : List UInt8}
    (botInfo : Option (List (List UInt8))) :
    EndsAt (if text.head? ≠ some 47 then -1 else botInfo.elim (-1) fun commands =>
      (commands.length : ℤ) - 1) (completeUserCommand botInfo last index text) := by
  unfold completeUserCommand
  by_cases hslash : text.head? ≠ some 47
  · rw [if_pos hslash, if_pos hslash]
    exact endsAt_message _ index text
  · rw [if_neg hslash, if_neg hslash]
    cases botInfo with
    | none => exact endsAt_stop (-1)
    | some commands =>
      rw [Option.elim_some, Option.elim_some]
      split_ifs
      · exact endsAt_behind (endsAt_message _ _ text)
      · exact endsAt_none
      · exact endsAt_elim (47 :: ·) (endsAt_behind (endsAt_message _ _ text))

theorem endsAt_chat {last : List Message} {index : ℤ} {text : List UInt8}
    (users : List (Option User)) :
    EndsAt (if text.head? ≠ some 47 then -1 else (total (users.filterMap botOf) : ℤ) - 1)
      (completeChatCommand users last index text) := by
  unfold completeChatCommand
  split_ifs with hslash hindex
  · exact endsAt_message _ index text
  · exact endsAt_none
  · rcases chatLoop_cases (beforeAt text.tail) users (Nat.zero_le (index + 1).toNat) with
      ⟨bot, x, hx, -⟩ | ⟨hend, -⟩
    · rw [hx, Sum.elim_inl]
      cases bot.2[x]? with
      | none => exact endsAt_none
      | some command => exact endsAt_yield _ _ x
    · rw [hend, Nat.zero_add, Sum.elim_inr]
      exact endsAt_behind (endsAt_message _ _ text)

/-! ### The cycles of a line -/

/-- The calls from -1 on lead to `x`: some indices are kept, and a call that gives something does not
leave -1, except where `x` is -1 itself. -/
def Leaves (f : ℕ → ℤ → Result) (x : ℤ) : Prop :=
  ∃ V : ℤ → Prop, V (-1) ∧ ∀ state i, V i → (∀ j, f state i = some (none, j) → j = x) ∧
    ∀ b j, f state i = some (some b, j) → V j ∧ (j = -1 → x = -1)

theorem leaves_of_endsAt {f : ℕ → ℤ → Result} {x : ℤ} (h : ∀ state i, EndsAt x (f state i)) :
    Leaves f x := by
  refine ⟨fun _ => True, trivial, fun state i _ => ⟨(h state i).stop, fun b j hj => ?_⟩⟩
  have hnonneg := (h state i).yield b j hj
  exact ⟨trivial, by omega⟩

theorem leaves_of_fixed {f : ℕ → ℤ → Result} (h : ∀ state i b j, f state i = some (b, j) → j = i) :
    Leaves f (-1) := by
  refine ⟨(· = -1), rfl, fun state i hi => ⟨fun j hj => ?_, fun b j hj => ⟨?_, fun _ => rfl⟩⟩⟩
  · rw [h state i none j hj, hi]
  · rw [h state i (some b) j hj, hi]

theorem leaves_library (L : LibraryList) : Leaves (fun _ i => L.next i) (-1) :=
  ⟨fun _ => True, trivial, fun _ i _ => ⟨L.ends i, fun _ _ _ => ⟨trivial, fun _ => rfl⟩⟩⟩

theorem username_cases {peers : List Peer} (mode : Option PeerType) {i : ℤ} (text : List UInt8)
    (h1 : -1 ≤ i) (hi : i < peers.length) :
    (∃ (b : List UInt8) (m : ℕ), completeUsername peers mode i text = some (some b, (m : ℤ)) ∧
      m < peers.length) ∨ completeUsername peers mode i text = some (none, -1) := by
  unfold completeUsername
  rw [if_neg (show ¬ i < -1 by omega)]
  generalize hp : (fun P : Peer => mode.all (P.id.peerType = ·) &&
    (usernameOf P).any (fits (if text.head? = some 64 then text.tail else text))) = p
  rcases scan_cases p peers (i + 1).toNat with ⟨P, hP, -, hmore⟩ | ⟨hnone, hmax, -⟩
  · have hmem : scan p peers (i + 1).toNat ∈ hits p peers (i + 1).toNat := by
      rw [hmore]
      exact List.mem_cons_self
    obtain ⟨-, Q, hQ, hfits⟩ := mem_hits.mp hmem
    obtain rfl := Option.some.inj (hP.symm.trans hQ)
    subst hp
    obtain ⟨name, hname, -⟩ := (Option.any_eq_true _ _).mp (Bool.and_eq_true_iff.mp hfits).2
    refine .inl ⟨64 :: name, _, ?_, (List.getElem?_eq_some_iff.mp hP).1⟩
    simp only [hP, Option.elim_some, hname, Option.map_some]
  · right
    have hplace : scan p peers (i + 1).toNat = peers.length := by omega
    rw [hplace] at hnone
    simp only [hplace, hnone, Option.elim_none, if_true]

/-- The places that are given are in the list. -/
theorem leaves_username (peers : List Peer) (mode : Option PeerType) (text : List UInt8) :
    Leaves (fun _ i => completeUsername peers mode i text) (-1) := by
  refine ⟨fun i => -1 ≤ i ∧ i < peers.length, by omega, fun _ i hi => ?_⟩
  rcases username_cases mode text hi.1 hi.2 with ⟨b, m, hm, hlt⟩ | hstop
  · simp only [hm]
    refine ⟨fun _ h => absurd h (by simp), ?_⟩
    rintro _ j ⟨⟩
    exact ⟨by omega, fun _ => trivial⟩
  · simp only [hstop]
    exact ⟨fun j h => by simpa using h.symm, fun _ _ h => absurd h (by simp)⟩

theorem leaves_none {f : ℕ → ℤ → Result} {x : ℤ} (h : ∀ state i, f state i = none) :
    Leaves f x := leaves_of_endsAt fun state i => by
  rw [h]
  exact endsAt_none

/-- One of the two variables is set at most, so one function gives the answer. -/
theorem leaves_answer (L : Line) :
    Leaves (fun _ i => (answerPeer L i).bind (answerMessage L)) (answerLeft L) := by
  cases hpeer : L.auto.peer with
  | none =>
    have hleft : answerLeft L = -1 := by simp [answerLeft, hpeer]
    have hcall : ∀ i, (answerPeer L i).bind (answerMessage L) = answerMessage L (none, i) := by
      intro i
      rw [answerPeer, hpeer]
      rfl
    simp only [hcall, hleft, answerMessage]
    split_ifs with hid hslash
    · exact leaves_of_fixed fun _ i b j h => by cases h; rfl
    · cases L.messageGet L.auto.id with
      | none => exact leaves_of_fixed fun _ i b j h => by cases h; rfl
      | some M =>
        cases hknown : M.2 with
        | true => exact leaves_none fun _ _ => by simp [hpeer, hknown]
        | false => exact leaves_of_fixed fun _ i b j h => by simp_all
    · cases L.messageGet L.auto.id with
      | none => exact leaves_of_fixed fun _ i b j h => by cases h; rfl
      | some M => exact leaves_of_endsAt fun _ i => endsAt_message _ i _
  | some P =>
    have hid : L.auto.id.peerType = notFound := L.one_set.resolve_left (by simp [hpeer])
    have hcall : (fun (_ : ℕ) i => (answerPeer L i).bind (answerMessage L)) =
        fun _ i => answerPeer L i := by
      funext _ i
      cases answerPeer L i with
      | none => rfl
      | some r => exact if_pos hid
    rw [hcall]
    simp only [answerPeer, answerLeft, hpeer, Option.elim_some]
    by_cases huser : P.id.peerType = .user
    · simp only [if_pos huser]
      exact leaves_of_endsAt fun _ i => endsAt_user _
    · by_cases hchat : P.id.peerType = .chat
      · simp only [if_neg huser, if_pos hchat]
        exact leaves_of_endsAt fun _ i => endsAt_chat _
      · simp only [if_neg huser, if_neg hchat, ite_self]
        exact leaves_of_fixed fun _ i b j h => by cases h; rfl

theorem leaves_named (L : Line) (mode : Option PeerType) (list : LibraryList) :
    Leaves (fun _ i => if L.token.tok.head? = some 64 then
      completeUsername L.peers mode i L.token.tok else list.next i) (-1) := by
  split_ifs
  · exact leaves_username L.peers mode L.token.tok
  · exact leaves_library list

theorem leaves_quiet {L : Line} (h : isQuiet L.mode = true) :
    left (.line L) = some (-1) ∧ Leaves (generate L) (-1) := by
  have hkind : L.mode ≠ .extf ∧ L.mode ≠ .msgStringEnd := by
    constructor <;> intro hm <;> rw [hm] at h <;> cases h
  refine ⟨by rw [left, if_neg hkind.1, if_neg hkind.2], leaves_of_fixed fun state i b j hj => ?_⟩
  rw [generate, if_pos h] at hj
  cases hj
  rfl

/-- **The calls for a line** lead to the index of its kind. -/
theorem leaves_generate {L : Line} {x : ℤ} (h : left (.line L) = some x) :
    Leaves (generate L) x := by
  by_cases hquiet : isQuiet L.mode = true
  · obtain ⟨hleft, hleaves⟩ := leaves_quiet hquiet
    rw [hleft] at h
    cases h
    exact hleaves
  · by_cases hlen : L.token.curTokenLen < 0
    · exact leaves_none fun _ _ => by rw [generate, if_neg hquiet, if_pos hlen]
    · show Leaves (fun state i => generate L state i) x
      simp only [generate, if_neg hquiet, if_neg hlen]
      rw [left] at h
      split_ifs at h with hextf hanswer
      · cases h
        rw [hanswer]
        exact leaves_answer L
      · cases h
        cases hm : L.mode with
        | user => exact leaves_named L (some .user) _
        | channel => exact leaves_named L (some .channel) _
        | peer => exact leaves_named L none _
        | chat | secretChat => exact leaves_library _
        | modifier | command => exact leaves_of_endsAt fun _ i => endsAt_stringList _ i _ _
        | fileName | fileNameEnd | period => exact leaves_of_fixed fun _ i b j h => by cases h; rfl
        | msgStringEnd => exact absurd hm hanswer
        | extf => exact absurd hm hextf
        | _ => exact absurd (by rw [hm]; rfl) hquiet

theorem left_of_cycle_line {L : Line} {x i j : ℤ} {given : List (List UInt8)}
    (hL : Leaves (generate L) x) (h : Cycle (.line L) i given j) : j = x := by
  obtain ⟨V, hstart, hstep⟩ := hL
  obtain ⟨state, h⟩ := h
  have hkeep : ∀ (s : ℕ × ℤ) (b : List UInt8) (t : ℕ × ℤ), (s.1 = 0 ∨ V s.2 ∧ (s.2 = -1 → x = -1)) →
      commandGenerator (.line L) s = some (some b, t) → (t.1 = 0 ∨ V t.2 ∧ (t.2 = -1 → x = -1)) := by
    rintro ⟨n, k⟩ b t hs hcall
    rw [commandGenerator] at hcall
    split_ifs at hcall with hzero hend
    · obtain ⟨⟨c, m⟩, hr, hc⟩ := Option.map_eq_some_iff.mp hcall
      cases hc
      exact .inr ((hstep n (-1) hstart).2 b m hr)
    · cases hcall
    · obtain ⟨⟨c, m⟩, hr, hc⟩ := Option.map_eq_some_iff.mp hcall
      cases hc
      exact .inr ((hstep n k (hs.resolve_left hzero).1).2 b m hr)
  obtain ⟨⟨n, k⟩, hs, hcall⟩ := h.last hkeep (.inl rfl)
  rw [commandGenerator] at hcall
  split_ifs at hcall with hzero hend
  · obtain ⟨⟨c, m⟩, hr, hc⟩ := Option.map_eq_some_iff.mp hcall
    cases hc
    exact (hstep n (-1) hstart).1 m hr
  · cases hcall
    rw [hend.2.2, (hs.resolve_left hzero).2 hend.2.2]
  · obtain ⟨⟨c, m⟩, hr, hc⟩ := Option.map_eq_some_iff.mp hcall
    cases hc
    exact (hstep n k (hs.resolve_left hzero).1).1 m hr

/-- **A cycle leaves** the index of its kind. -/
theorem left_of_cycle {c : Completion} {x i j : ℤ} {given : List (List UInt8)}
    (h : left c = some x) (hcycle : Cycle c i given j) : j = x := by
  cases c with
  | line L => exact left_of_cycle_line (leaves_generate h) hcycle
  | chat front text =>
    cases h
    obtain ⟨state, hfeeds⟩ := hcycle
    obtain ⟨⟨n, k⟩, -, hcall⟩ := hfeeds.last (P := fun _ => True) (fun _ _ _ _ _ => trivial) trivial
    rw [commandGenerator] at hcall
    obtain ⟨⟨b, m⟩, hr, hc⟩ := Option.map_eq_some_iff.mp hcall
    cases hc
    exact (endsAt_stringList _ _ _ _).stop m hr

/-- **Where a cycle begins** after any completions: at 0 if there were none, or at what the last one
has left. -/
theorem History.index {cs : List Completion} {k : ℤ} (h : History cs k) :
    (cs = [] → k = 0) ∧ ∀ c x, cs.getLast? = some c → left c = some x → k = x := by
  cases h with
  | start => exact ⟨fun _ => rfl, fun c x hc => absurd hc (by simp)⟩
  | next h hcycle =>
    refine ⟨fun hnil => absurd hnil (by simp), fun c x hc hx => ?_⟩
    rw [List.getLast?_append_of_ne_nil _ (List.cons_ne_nil _ _)] at hc
    cases hc
    exact left_of_cycle hx hcycle

/-- **A completion of a line that is typed** leaves -1, unless the answers to a message or an `(ext)`
are completed. -/
theorem left_of_typed {K : Lookups} {E : Ids.Env} {id : MsgId} {fuel : ℕ} {text : List UInt8}
    {op : CommandArgument} {auto : Autocomplete} {token : Scanner}
    (h : getCompleteMode E Commands.commands id fuel text = some (.ret op auto))
    (hextf : op ≠ .extf) (hanswer : op ≠ .msgStringEnd) {i j : ℤ} {given : List (List UInt8)}
    (hcycle : Cycle (.line (lineOf K token h)) i given j) : j = -1 := by
  have hleft : left (.line (lineOf K token h)) = some (-1) := by
    rw [left, if_neg (show (lineOf K token h).mode ≠ .extf from hextf),
      if_neg (show (lineOf K token h).mode ≠ .msgStringEnd from hanswer)]
  exact left_of_cycle hleft hcycle

/-- What is looked up in a library that knows one user. -/
def aliceLookups : Lookups where
  commands := Commands.commands.map fun command => lit command.name
  peers := [Interpreter.alice]
  userList := LibraryList.ofNames [lit "Alice"]
  peerList := LibraryList.ofNames [lit "Alice"]
  chatList := LibraryList.ofNames []
  encrChatList := LibraryList.ofNames []
  channelList := LibraryList.ofNames []
  extf := fun _ => some (none, -1)
  fileNames := fun _ => []
  botInfo := fun _ => none
  chatUsers := fun _ => []
  last := fun _ => []
  messageGet := fun _ => none

/-- The name is completed in `msg Al`. -/
example : ∃ L, History [.line L] (-1) := by
  have h : getCompleteMode Interpreter.aliceEnv.ids Commands.commands msgIdZero 3 (lit "msg Al") =
      some (.ret .peer ⟨none, { msgIdZero with peerType := notFound }⟩) := rfl
  have hfirst : scan (fun s => strncmpEq 2 s (lit "Al")) [lit "Alice"] 0 = 0 := by
    unfold scan
    rfl
  have hnext : scan (fun s => strncmpEq 2 s (lit "Al")) [lit "Alice"] 1 = 1 := by
    unfold scan
    rfl
  have hcycle : Cycle (.line (lineOf aliceLookups ⟨[], lit "Al", 2, true, false⟩ h)) 0 [lit "Alice"]
      (-1) := by
    refine ⟨2, .yield (t := (1, 0)) ?_ (.stop ?_)⟩
    · show Option.map _ (completeStringList [lit "Alice"] (-1) (lit "Al") 2) = _
      simp [completeStringList, hfirst]
    · show Option.map _ (completeStringList [lit "Alice"] 0 (lit "Al") 2) = _
      simp [completeStringList, hnext]
  exact ⟨_, .next .start hcycle⟩

/-- **A completion in chat mode** gives exactly what fits if and only if the index it finds, which
the completions before have left, is that of one of the commands or -1 and has nothing in front that
fits. -/
theorem chat_commands_completed_iff {cs : List Completion} {k : ℤ} (h : History cs k)
    (front text : List UInt8) :
    ((cs = [] → k = 0) ∧ ∀ c x, cs.getLast? = some c → left c = some x → k = x) ∧
      ((∃ given left, Cycle (.chat front text) k given left ∧
        given.Perm (inChatCommands.filter (fits text))) ↔
          -1 ≤ k ∧ k ≤ 3 ∧ Ready k front text) :=
  ⟨h.index, chat_cycle_exact⟩

/-- The first completion of the program. -/
theorem chat_commands_completed_iff_start :
    (([] : List Completion) = [] → (0 : ℤ) = 0) ∧
        (∀ c x, ([] : List Completion).getLast? = some c → left c = some x → (0 : ℤ) = x) ∧
      ((∃ given left, Cycle (.chat [] (lit "/h")) 0 given left ∧
        given.Perm (inChatCommands.filter (fits (lit "/h")))) ↔
          (-1 : ℤ) ≤ 0 ∧ (0 : ℤ) ≤ 3 ∧ Ready 0 [] (lit "/h")) :=
  and_assoc.mp (chat_commands_completed_iff .start [] (lit "/h"))

/-- The first completion, of a slash. -/
theorem first_command_skipped : ¬ ∀ (cs : List Completion) (k : ℤ) (front text : List UInt8),
    History cs k → ∃ given left, Cycle (.chat front text) k given left ∧
      given.Perm (inChatCommands.filter (fits text)) := by
  intro h
  obtain ⟨-, -, hready⟩ := chat_cycle_exact.mp (h [] 0 [] (lit "/") .start)
  exact absurd (hready 0 (lit "/exit") rfl rfl).1 (by decide)

end TelegramCli.Interface.Generator
