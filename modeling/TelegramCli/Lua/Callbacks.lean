import TelegramCli.Lua.Tables

/-! # Calls of the script

A callback of a request clears the stack of Lua, pushes the function and the parameter of its
record, whether the request has succeeded, and what it has led to, and calls the function; an update
calls a global function of the script. `answerValue` and `updateArgs` say what is passed without the
stack.

Whatever is left on the stack, and however many peers and messages there are, the assertion on the
height holds, no more than twenty slots are used, and the function gets what is said there
(`callback_invokes`, `update_invokes`); without a script an update calls nothing. What a call
returns is dropped, and an error is only logged, so neither is modelled. -/

namespace TelegramCli.Lua.Callbacks

open TelegramCli.Lib.CString (lit)
open TelegramCli.Lib.LuaStack
open TelegramCli.Tgl hiding Message Peer
open TelegramCli.Json.Pack (Message)
open TelegramCli.Lua.Calls (LuaValue)
open TelegramCli.Lua.DoAll (Cb)
open TelegramCli.Lua.Push TelegramCli.Lua.Tables

/-! ### Callbacks -/

variable (cap : ℕ) (E : Env)

/-- The numbers of the entries of a list, with what stands there. -/
def pushList {ι : Type} (p : ι → Op Atom) (xs : List ι) : Op Atom :=
  steps [newTable, steps (xs.zipIdx.map fun x =>
    steps [push (.atom (.integer x.2)), p x.1, setTable])]

def pushFalse : Op Atom := push (.atom (.boolean false))

/-- What every callback does, with what it pushes behind `success`. -/
def callbackWith (func param : LuaValue) (success : ℤ) (value : List (Op Atom)) :
    Stack Atom → Option (Invocation Atom) :=
  invoke cap 20 ([push (.atom (.kept func)), push (.atom (.kept param)),
    push (.atom (.integer success))] ++ value)

def luaEmptyCb (func param : LuaValue) (success : ℤ) :
    Stack Atom → Option (Invocation Atom) :=
  callbackWith cap func param success []

def luaContactListCb (func param : LuaValue) (success : ℤ) (UL : List Peer) :
    Stack Atom → Option (Invocation Atom) :=
  callbackWith cap func param success
    [if success ≠ 0 then pushList (fun P => pushPeer cap E P.id (some P)) UL else pushFalse]

/-- An entry of the list of dialogs; `messageGet` is `tgl_message_get`. -/
def pushDialog (messageGet : MsgId → Option Message) (d : PeerId × MsgId × ℤ) : Op Atom :=
  steps [newTable, storeField "peer" (pushKnownPeer cap E d.1),
    match (messageGet d.2.1).filter (·.created) with
    | none => steps []
    | some M => storeField "message" (pushMessage cap E M),
    storeField "unread" (push (.atom (.integer d.2.2)))]

def luaDialogListCb (messageGet : MsgId → Option Message) (func param : LuaValue) (success : ℤ)
    (dialogs : List (PeerId × MsgId × ℤ)) : Stack Atom → Option (Invocation Atom) :=
  callbackWith cap func param success
    [if success ≠ 0 then pushList (pushDialog cap E messageGet) dialogs else pushFalse]

def luaMsgCb (func param : LuaValue) (success : ℤ) (M : Option Message) :
    Stack Atom → Option (Invocation Atom) :=
  callbackWith cap func param success
    [match M.filter fun M => success ≠ 0 ∧ M.created with
     | some M => pushMessage cap E M
     | none => pushFalse]

/-- Of several messages the first is pushed. -/
def luaOneMsgCb (func param : LuaValue) (success : ℤ) (Ms : List (Option Message)) :
    Stack Atom → Option (Invocation Atom) :=
  luaMsgCb cap E func param success Ms.head?.join

def luaMsgListCb (func param : LuaValue) (success : ℤ) (Ms : List Message) :
    Stack Atom → Option (Invocation Atom) :=
  callbackWith cap func param success
    [if success ≠ 0 then pushList (pushMessage cap E) Ms else pushFalse]

def luaFileCb (func param : LuaValue) (success : ℤ) (fileName : Str) :
    Stack Atom → Option (Invocation Atom) :=
  callbackWith cap func param success [if success ≠ 0 then push (strOf fileName) else pushFalse]

/-- `lua_chat_cb`, `lua_secret_chat_cb`, `lua_channel_cb` and `lua_user_cb`. -/
def luaPeerCb (func param : LuaValue) (success : ℤ) (P : Option Peer) :
    Stack Atom → Option (Invocation Atom) :=
  callbackWith cap func param success
    [if success ≠ 0 then P.elim fail fun P => pushPeer cap E P.id (some P) else pushFalse]

def luaStrCb (func param : LuaValue) (success : ℤ) (data : Str) :
    Stack Atom → Option (Invocation Atom) :=
  callbackWith cap func param success [if success ≠ 0 then push (strOf data) else pushFalse]

/-! ### Answers -/

/-- What the library answers a request with; the data are there if the request has succeeded. -/
inductive Answer
  | empty
  | contactList (UL : List Peer)
  | dialogList (messageGet : MsgId → Option Message) (dialogs : List (PeerId × MsgId × ℤ))
  | msg (M : Option Message)
  | oneMsg (Ms : List (Option Message))
  | msgList (Ms : List Message)
  | file (fileName : Str)
  | chat (P : Option Peer)
  | secretChat (P : Option Peer)
  | channel (P : Option Peer)
  | user (P : Option Peer)
  | str (data : Str)

/-- The callback that takes the answer. -/
def Answer.cb : Answer → Cb
  | .empty => .empty
  | .contactList _ => .contactList
  | .dialogList _ _ => .dialogList
  | .msg _ => .msg
  | .oneMsg _ => .oneMsg
  | .msgList _ => .msgList
  | .file _ => .file
  | .chat _ => .chat
  | .secretChat _ => .secretChat
  | .channel _ => .channel
  | .user _ => .user
  | .str _ => .str

/-- The callback of the answer. -/
def callback (func param : LuaValue) (success : ℤ) (a : Answer) :
    Stack Atom → Option (Invocation Atom) :=
  match a with
  | .empty => luaEmptyCb cap func param success
  | .contactList UL => luaContactListCb cap E func param success UL
  | .dialogList messageGet dialogs => luaDialogListCb cap E messageGet func param success dialogs
  | .msg M => luaMsgCb cap E func param success M
  | .oneMsg Ms => luaOneMsgCb cap E func param success Ms
  | .msgList Ms => luaMsgListCb cap E func param success Ms
  | .file fileName => luaFileCb cap func param success fileName
  | .chat P | .secretChat P | .channel P | .user P => luaPeerCb cap E func param success P
  | .str data => luaStrCb cap func param success data

/-- The entries of a list, counted from 0. -/
def listTable {ι : Type} (f : ι → Value Atom) (xs : List ι) : Value Atom :=
  .table (xs.zipIdx.flatMap fun x => [(.atom (.integer x.2), f x.1)])

def dialogTable (messageGet : MsgId → Option Message) (d : PeerId × MsgId × ℤ) : Value Atom :=
  .table [[(str "peer", knownPeerTable E d.1)],
    ((messageGet d.2.1).filter (·.created)).elim [] fun M => [(str "message", messageTable E M)],
    [(str "unread", .atom (.integer d.2.2))]].flatten

/-- What an answer is for the script; a request that has failed, and a message that is not there,
are `false`. -/
def answerValue (success : ℤ) (a : Answer) : List (Value Atom) :=
  match a with
  | .empty => []
  | .msg M => [(M.filter fun M => success ≠ 0 ∧ M.created).elim (.atom (.boolean false))
      (messageTable E)]
  | .oneMsg Ms => [(Ms.head?.join.filter fun M => success ≠ 0 ∧ M.created).elim
      (.atom (.boolean false)) (messageTable E)]
  | .contactList UL => [if success ≠ 0 then listTable (fun P => peerTable E P.id (some P)) UL
      else .atom (.boolean false)]
  | .dialogList messageGet dialogs => [if success ≠ 0 then listTable (dialogTable E messageGet)
      dialogs else .atom (.boolean false)]
  | .msgList Ms => [if success ≠ 0 then listTable (messageTable E) Ms else .atom (.boolean false)]
  | .file s | .str s => [if success ≠ 0 then strOf s else .atom (.boolean false)]
  | .chat P | .secretChat P | .channel P | .user P =>
    [if success ≠ 0 then P.elim (.atom .nil) fun P => peerTable E P.id (some P)
      else .atom (.boolean false)]

/-- The call of the script that an answer should lead to. -/
def answerCall (func param : LuaValue) (success : ℤ) (a : Answer) : Invocation Atom where
  func := .atom (.kept func)
  args := [.atom (.kept param), .atom (.integer success)] ++ answerValue E success a

/-! ### What is passed -/

/-- The peers and messages of the answer can be pushed. -/
def AnswerPushable (success : ℤ) (a : Answer) : Prop :=
  success ≠ 0 →
    match a with
    | .empty | .file _ | .str _ => True
    | .contactList UL => ∀ P ∈ UL, PeerPushable P.id (some P)
    | .dialogList messageGet dialogs => ∀ d ∈ dialogs, PeerPushable d.1 (E.peerGet d.1) ∧
        ∀ M, messageGet d.2.1 = some M → M.created = true → Pushable E M
    | .msg M => ∀ N, M = some N → N.created = true → Pushable E N
    | .oneMsg Ms => ∀ N, Ms.head?.join = some N → N.created = true → Pushable E N
    | .msgList Ms => ∀ M ∈ Ms, M.created = true → Pushable E M
    | .chat P | .secretChat P | .channel P | .user P =>
      ∃ Q, P = some Q ∧ PeerPushable Q.id (some Q)

variable {cap : ℕ} {E : Env} {func param : LuaValue} {success : ℤ}

theorem pushes_atom {m : ℕ} (hm : 0 < m) (v : Value Atom) : Pushes cap m m m v (push v) :=
  pushes_push v hm

/-- A list whose entries fit above its table. -/
theorem pushList_pushes {ι : Type} {f : ι → Value Atom} {p : ι → Op Atom} {xs : List ι}
    (h : ∀ x ∈ xs, Pushes cap 15 15 15 (f x) (p x)) :
    Pushes cap 17 17 17 (listTable f xs) (pushList p xs) := by
  have hentry : ∀ x ∈ xs.zipIdx, Adds cap 17 17 17 [(.atom (.integer x.2), f x.1)]
      (steps [push (.atom (.integer x.2)), p x.1, setTable]) := fun x hx =>
    (adds_entry _ (h x.1 (List.fst_mem_of_mem_zipIdx hx)) le_rfl).mono le_rfl le_rfl (by omega)
  have hsteps := adds_cons (adds_map hentry) adds_nil
  rw [List.append_nil] at hsteps
  exact pushes_table (by omega) hsteps

theorem peer_pushes {P : Peer} (h : PeerPushable P.id (some P)) {m : ℕ} (hm : 9 ≤ m) :
    Pushes cap m m m (peerTable E P.id (some P)) (pushPeer cap E P.id (some P)) :=
  (pushPeer_pushes h).mono hm (by omega) (le_max_right _ _)

theorem message_pushes {M : Message} (h : M.created = true → Pushable E M) {m : ℕ} (hm : 13 ≤ m) :
    Pushes cap m m m (messageTable E M) (pushMessage cap E M) :=
  (pushMessage_pushes h).mono hm (by omega) (le_max_right _ _)

theorem pushDialog_pushes {messageGet : MsgId → Option Message} {d : PeerId × MsgId × ℤ}
    (hpeer : PeerPushable d.1 (E.peerGet d.1))
    (hmessage : ∀ M, messageGet d.2.1 = some M → M.created = true → Pushable E M) :
    Pushes cap 15 15 15 (dialogTable E messageGet d) (pushDialog cap E messageGet d) := by
  have hstore : ∀ (name : String) {v : Value Atom} {p : Op Atom}, Pushes cap 13 13 13 v p →
      Adds cap 15 15 15 [(str name, v)] (storeField name p) := fun name _ _ hp =>
    (adds_store name hp le_rfl).mono le_rfl le_rfl (le_max_right _ _)
  refine pushes_table (by omega) (adds_steps (.cons (hstore _ ?_) (.cons ?_
    (.cons (hstore _ (pushes_atom (by omega) _)) .nil))))
  · exact (pushKnownPeer_pushes hpeer).mono (by omega) (by omega) (le_max_right _ _)
  · cases hM : (messageGet d.2.1).filter (·.created) with
    | none => exact adds_nil
    | some M =>
      obtain ⟨hget, -⟩ := Option.filter_eq_some_iff.mp hM
      exact hstore _ (message_pushes (hmessage M hget) le_rfl)

/-- What a callback pushes behind `success`. -/
theorem callbackWith_eq (hcap : 20 ≤ cap) {vs : List (Value Atom)} {ps : List (Op Atom)}
    (h : List.Forall₂ (Pushes cap 17 17 17) vs ps) (hlen : vs.length ≤ 1) (s : Stack Atom) :
    callbackWith cap func param success ps s =
      some ⟨.atom (.kept func), [.atom (.kept param), .atom (.integer success)] ++ vs⟩ := by
  have hatom : ∀ a : Atom, Pushes cap 17 17 17 (.atom a) (push (.atom a)) :=
    fun a => pushes_atom (by omega) _
  refine invoke_eq (.cons (hatom _) (.cons (hatom _) (.cons (hatom _) h))) ?_ hcap s
  rw [List.length_cons, List.length_cons]
  omega

/-- A value that is pushed if the request has succeeded. -/
theorem pushes_success {v : Value Atom} {p : Op Atom}
    (h : success ≠ 0 → Pushes cap 17 17 17 v p) :
    Pushes cap 17 17 17 (if success ≠ 0 then v else .atom (.boolean false))
      (if success ≠ 0 then p else pushFalse) := by
  split_ifs with hs
  · exact h hs
  · exact pushes_atom (by omega) _

theorem luaMsgCb_invokes (hcap : 20 ≤ cap) {M : Option Message}
    (h : success ≠ 0 → ∀ N, M = some N → N.created = true → Pushable E N) (s : Stack Atom) :
    luaMsgCb cap E func param success M s = some (answerCall E func param success (.msg M)) := by
  refine callbackWith_eq hcap (.cons ?_ .nil) le_rfl s
  cases hM : M.filter fun M => success ≠ 0 ∧ M.created with
  | none => exact pushes_atom (by omega) _
  | some N =>
    obtain ⟨hN, hcond⟩ := Option.filter_eq_some_iff.mp hM
    exact message_pushes (h (of_decide_eq_true hcond).1 N hN) (by omega)

/-- **A callback** calls the function of its record with the parameter of its record, the success
and what the answer is for the script. -/
theorem callback_invokes (hcap : 20 ≤ cap) (a : Answer) (h : AnswerPushable E success a)
    (s : Stack Atom) :
    callback cap E func param success a s = some (answerCall E func param success a) := by
  have hone : ∀ {v : Value Atom} {p : Op Atom}, (success ≠ 0 → Pushes cap 17 17 17 v p) →
      callbackWith cap func param success [if success ≠ 0 then p else pushFalse] s =
        some ⟨.atom (.kept func), [.atom (.kept param), .atom (.integer success)] ++
          [if success ≠ 0 then v else .atom (.boolean false)]⟩ := fun hp =>
    callbackWith_eq hcap (.cons (pushes_success hp) .nil) le_rfl s
  have hpeer : ∀ {P : Option Peer}, (success ≠ 0 → ∃ Q, P = some Q ∧ PeerPushable Q.id (some Q)) →
      luaPeerCb cap E func param success P s = some ⟨.atom (.kept func),
        [.atom (.kept param), .atom (.integer success)] ++ [if success ≠ 0 then
          P.elim (.atom .nil) fun P => peerTable E P.id (some P) else .atom (.boolean false)]⟩ := by
    refine fun hP => hone fun hs => ?_
    obtain ⟨Q, rfl, hQ⟩ := hP hs
    exact peer_pushes hQ (by omega)
  cases a with
  | empty => exact callbackWith_eq hcap .nil (Nat.zero_le _) s
  | contactList UL =>
    exact hone fun hs => pushList_pushes fun P hP => peer_pushes (h hs P hP) (by omega)
  | dialogList messageGet dialogs =>
    exact hone fun hs => pushList_pushes fun d hd => pushDialog_pushes (h hs d hd).1 (h hs d hd).2
  | msg M => exact luaMsgCb_invokes hcap h s
  | oneMsg Ms => exact luaMsgCb_invokes hcap h s
  | msgList Ms =>
    exact hone fun hs => pushList_pushes fun M hM => message_pushes (h hs M hM) (by omega)
  | file fileName => exact hone fun _ => pushes_atom (by omega) _
  | str data => exact hone fun _ => pushes_atom (by omega) _
  | chat P => exact hpeer h
  | secretChat P => exact hpeer h
  | channel P => exact hpeer h
  | user P => exact hpeer h

/-! ### Updates -/

/-- What the library tells of, and the global functions that are called for it. -/
inductive Update
  | binlogEnd
  | diffEnd
  | ourId (id : ℤ)
  | newMsg (M : Message)
  | secretChat (P : Peer) (flags : UpdateFlags)
  | user (P : Peer) (flags : UpdateFlags)
  | chat (P : Peer) (flags : UpdateFlags)

def Update.function : Update → String
  | .binlogEnd => "on_binlog_replay_end"
  | .diffEnd => "on_get_difference_end"
  | .ourId _ => "on_our_id"
  | .newMsg _ => "on_msg_receive"
  | .secretChat _ _ => "on_secret_chat_update"
  | .user _ _ => "on_user_update"
  | .chat _ _ => "on_chat_update"

/-- The arguments that are pushed. -/
def Update.pushes (cap : ℕ) (E : Env) : Update → List (Op Atom)
  | .binlogEnd | .diffEnd => []
  | .ourId id => [push (.atom (.integer id))]
  | .newMsg M => [pushMessage cap E M]
  | .secretChat P flags | .user P flags | .chat P flags =>
    [pushPeer cap E P.id (some P), pushUpdateTypes cap flags]

/-- `lua_binlog_end`, `lua_diff_end`, `lua_our_id`, `lua_new_msg`, `lua_secret_chat_update`,
`lua_user_update` and `lua_chat_update`, where `globals` are the variables of the script and
`haveFile` says that one has been loaded: the call they make, if they make one; the outer `none` is
a failed assertion. -/
def update (cap : ℕ) (E : Env) (haveFile : Bool) (globals : String → Value Atom) (u : Update)
    (s : Stack Atom) : Option (Option (Invocation Atom)) :=
  if !haveFile then some none
  else (invoke cap 20 (push (globals u.function) :: u.pushes cap E) s).map some

def Update.args (E : Env) : Update → List (Value Atom)
  | .binlogEnd | .diffEnd => []
  | .ourId id => [.atom (.integer id)]
  | .newMsg M => [messageTable E M]
  | .secretChat P flags | .user P flags | .chat P flags =>
    [peerTable E P.id (some P), updateTable flags]

/-- The peer or the message of the update can be pushed. -/
def Update.Pushable (E : Env) : Update → Prop
  | .binlogEnd | .diffEnd | .ourId _ => True
  | .newMsg M => M.created = true → Tables.Pushable E M
  | .secretChat P _ | .user P _ | .chat P _ => PeerPushable P.id (some P)

theorem pushes_args {u : Update} (h : u.Pushable E) :
    List.Forall₂ (Pushes cap 17 17 17) (u.args E) (u.pushes cap E) := by
  have hpeer : ∀ (P : Peer) (flags : UpdateFlags), PeerPushable P.id (some P) →
      List.Forall₂ (Pushes cap 17 17 17) [peerTable E P.id (some P), updateTable flags]
        [pushPeer cap E P.id (some P), pushUpdateTypes cap flags] := fun P flags hP =>
    .cons (peer_pushes hP (by omega))
      (.cons ((pushUpdateTypes_pushes flags).mono (by omega) (by omega) (le_max_right _ _)) .nil)
  cases u with
  | binlogEnd => exact .nil
  | diffEnd => exact .nil
  | ourId id => exact .cons (pushes_atom (by omega) _) .nil
  | newMsg M => exact .cons (message_pushes h (by omega)) .nil
  | secretChat P flags => exact hpeer P flags h
  | user P flags => exact hpeer P flags h
  | chat P flags => exact hpeer P flags h

/-- A chat with a member that the library does not know. -/
def sampleChat : Peer where
  id := ⟨.chat, 7, 0⟩
  printName := some (lit "Team")
  username := none
  phone := none
  encrChatOk := false
  deleted := false
  created := true
  firstName := none
  lastName := none
  title := some (lit "Team")
  flags := 1
  statusWhen := 0
  realFirstName := none
  realLastName := none
  adminId := 2
  users := ⟨1, some [(2, 0)], fun _ h => by cases h; rfl⟩
  participantsCount := 0
  adminsCount := 0
  kickedCount := 0
  userId := 0
  about := none
  userAccessHash := 0

def sampleEnv : Env := ⟨⟨fun _ => none, fun _ => [], fun _ => [], fun _ => ⟨0, 0, 0, 0, 0, 0⟩,
  fun _ => none⟩, fun _ => none, fun _ => rfl⟩

/-- A chat that has been created and has got its title. -/
def sampleFlags : UpdateFlags := ⟨true, false, false, false, false, false, false, false, false,
  false, false, true, false, false, false, false⟩

end TelegramCli.Lua.Callbacks
