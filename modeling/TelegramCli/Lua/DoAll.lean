import TelegramCli.Interface.Actions
import TelegramCli.Lua.Calls

/-! # Serving the queue

`lua_do_all` goes through `lua_ptr` up to `pos`. The `switch` has a case for each query type, which
reads its slots by their distance from the callback record and says how many it has used; the
strings among these are freed. `none` is a failed assertion or an undefined read. -/

namespace TelegramCli.Lua.DoAll

open TelegramCli.Tgl TelegramCli.Interface.Actions TelegramCli.Lua.Functions TelegramCli.Lua.Calls

/-! ### What is issued -/

/-- The `tgl_do_*` functions, with the arguments that do not come from slots. -/
inductive Fn
  | updateContactList
  | getDialogList (limit offset : ℤ)
  | sendMessage (flags : ℤ)
  | sendTyping (status : TypingStatus)
  | renameChat
  | sendDocument (kind : DocumentKind)
  | sendText (flags : ℤ)
  | setChatPhoto
  | loadPhoto
  | loadDocument
  | loadEncrDocument
  | loadDocumentThumb
  | replyMessage (flags : ℤ)
  | forwardMessages (flags : ℤ)
  | forwardMedia (flags : ℤ)
  | getChatInfo (offline : Bool)
  | getChannelInfo (offline : Bool)
  | getUserInfo (offline : Bool)
  | getHistory (offset : ℤ) (offline : Bool)
  | addUserToChat (limit : ℤ)
  | delUserFromChat
  | addContact (force : Bool)
  | delContact
  | msgSearch (since till limit offset : ℤ)
  /-- `tgl_do_msg_search` with the peer `TGL_PEER_UNKNOWN`. -/
  | msgSearchAll (since till limit offset : ℤ)
  | markRead
  | setProfilePhoto
  | setProfileName
  | createSecretChat
  | createGroupChat
  | deleteMsg
  | restoreMsg
  | acceptEncrChatRequest
  | sendContact (flags : ℤ)
  | updateStatus (online : Bool)
  | sendExtf
  | importChatLink
  | exportChatLink
  | sendLocation (flags : ℤ)
  | channelInviteUser
  | channelKickUser
  | channelGetMembers (limit offset type : ℤ)
  deriving DecidableEq, Repr

/-- `lua_empty_cb` and its siblings. -/
inductive Cb
  | empty
  | contactList
  | dialogList
  | msg
  | oneMsg
  | msgList
  | file
  | chat
  | secretChat
  | channel
  | user
  | str
  deriving DecidableEq, Repr

/-- An argument from a slot. -/
inductive Arg
  | msgId (id : MsgId)
  | peerId (id : PeerId)
  | str (s : List UInt8)
  | num (n : ℤ)
  | dnum (d : Double)
  deriving DecidableEq, Repr

/-- What `lua_do_all` does: a request, a callback that it runs itself with `success` 0, or the
release of a string. -/
inductive Event
  | request (fn : Fn) (args : List Arg) (cb : Cb) (extra : Extra)
  | callback (cb : Cb) (extra : Extra)
  | free (v : Value)
  deriving DecidableEq, Repr

def Event.isFree : Event → Bool
  | .free _ => true
  | _ => false

/-! ### The cases -/

/-- The member that is read, if it is the one that was written. -/
def readMember : Member → Value → Option Arg
  | .msgId, .msgId id => some (.msgId id)
  | .peerId, .peerId id => some (.peerId id)
  | .str, .str _ s => some (.str s)
  | .num, .num n => some (.num n)
  | .dnum, .dnum d => some (.dnum d)
  | _, _ => none

/-- A case of the `switch`: a request whose arguments are members of slots at the distances given,
after which `p` is moved by `n`, or the loading of the file of a message. -/
inductive Case
  | issue (fn : Fn) (reads : List (Member × ℕ)) (cb : Cb) (n : ℕ)
  | load
  | loadThumb
  deriving DecidableEq, Repr

def luaCase : LqType → Option Case
  | .contactList => some (.issue .updateContactList [] .contactList 1)
  | .dialogList => some (.issue (.getDialogList 100 0) [] .dialogList 1)
  | .msg => some (.issue (.sendMessage 0) [(.peerId, 1), (.str, 2)] .msg 3)
  | .msgChannel => some (.issue (.sendMessage 256) [(.peerId, 1), (.str, 2)] .msg 3)
  | .sendTyping => some (.issue (.sendTyping .typing) [(.peerId, 1)] .empty 2)
  | .sendTypingAbort => some (.issue (.sendTyping .cancel) [(.peerId, 1)] .empty 2)
  | .renameChat => some (.issue .renameChat [(.peerId, 1), (.str, 2)] .empty 3)
  | .sendPhoto => some (.issue (.sendDocument .photo) [(.peerId, 1), (.str, 2)] .msg 3)
  | .sendVideo => some (.issue (.sendDocument .video) [(.peerId, 1), (.str, 2)] .msg 3)
  | .sendAudio => some (.issue (.sendDocument .audio) [(.peerId, 1), (.str, 2)] .msg 3)
  | .sendDocument => some (.issue (.sendDocument .plain) [(.peerId, 1), (.str, 2)] .msg 3)
  | .sendFile => some (.issue (.sendDocument .auto) [(.peerId, 1), (.str, 2)] .msg 3)
  | .sendText => some (.issue (.sendText 0) [(.peerId, 1), (.str, 2)] .msg 3)
  | .chatSetPhoto => some (.issue .setChatPhoto [(.peerId, 1), (.str, 2)] .empty 3)
  | .loadPhoto => some .load
  | .loadVideo => some .load
  | .loadAudio => some .load
  | .loadDocument => some .load
  | .loadVideoThumb => some .loadThumb
  | .loadDocumentThumb => some .loadThumb
  | .reply => some (.issue (.replyMessage 0) [(.msgId, 1), (.str, 2)] .msg 3)
  | .fwd => some (.issue (.forwardMessages 0) [(.peerId, 1), (.msgId, 2)] .oneMsg 3)
  | .fwdMedia => some (.issue (.forwardMedia 0) [(.peerId, 1), (.msgId, 2)] .msg 3)
  | .chatInfo => some (.issue (.getChatInfo false) [(.peerId, 1)] .chat 2)
  | .channelInfo => some (.issue (.getChannelInfo false) [(.peerId, 1)] .channel 2)
  | .userInfo => some (.issue (.getUserInfo false) [(.peerId, 1)] .user 2)
  | .history => some (.issue (.getHistory 0 false) [(.peerId, 1), (.num, 2)] .msgList 3)
  | .chatAddUser => some (.issue (.addUserToChat 10) [(.peerId, 1), (.peerId, 2)] .empty 3)
  | .chatDelUser => some (.issue .delUserFromChat [(.peerId, 1), (.peerId, 2)] .empty 3)
  | .addContact =>
    some (.issue (.addContact false) [(.str, 1), (.str, 2), (.str, 3)] .contactList 4)
  | .delContact => some (.issue .delContact [(.peerId, 1)] .empty 2)
  | .renameContact =>
    some (.issue (.addContact true) [(.str, 1), (.str, 2), (.str, 3)] .contactList 4)
  | .search => some (.issue (.msgSearch 0 0 40 0) [(.peerId, 1), (.str, 2)] .msgList 3)
  | .globalSearch => some (.issue (.msgSearchAll 0 0 40 0) [(.str, 1)] .msgList 2)
  | .markRead => some (.issue .markRead [(.peerId, 1)] .empty 2)
  | .setProfilePhoto => some (.issue .setProfilePhoto [(.str, 1)] .empty 2)
  | .setProfileName => some (.issue .setProfileName [(.str, 1), (.str, 2)] .user 3)
  | .createSecretChat => some (.issue .createSecretChat [(.peerId, 1)] .secretChat 2)
  | .createGroupChat => some (.issue .createGroupChat [(.peerId, 1), (.str, 2)] .empty 3)
  | .deleteMsg => some (.issue .deleteMsg [(.msgId, 1)] .empty 2)
  | .acceptSecretChat => some (.issue .acceptEncrChatRequest [(.peerId, 1)] .secretChat 2)
  | .sendContact =>
    some (.issue (.sendContact 0) [(.peerId, 1), (.str, 2), (.str, 3), (.str, 4)] .msg 5)
  | .statusOnline => some (.issue (.updateStatus true) [] .empty 1)
  | .statusOffline => some (.issue (.updateStatus false) [] .empty 1)
  | .extf => some (.issue .sendExtf [(.str, 1)] .str 2)
  | .importChatLink => some (.issue .importChatLink [(.str, 1)] .empty 2)
  | .exportChatLink => some (.issue .exportChatLink [(.peerId, 1)] .str 2)
  | .sendLocation =>
    some (.issue (.sendLocation 0) [(.peerId, 1), (.dnum, 2), (.dnum, 3)] .msg 4)
  | .channelInviteUser => some (.issue .channelInviteUser [(.peerId, 1), (.peerId, 2)] .empty 3)
  | .channelKickUser => some (.issue .channelKickUser [(.peerId, 1), (.peerId, 2)] .empty 3)
  | .channelGetAdmins => some (.issue (.channelGetMembers 100 0 1) [(.peerId, 1)] .contactList 2)
  | .channelGetUsers => some (.issue (.channelGetMembers 100 0 0) [(.peerId, 1)] .contactList 2)
  -- default: assert (0)
  | .restoreMsg => none

/-- The request that loads the file of a message, or the callback when it has none. -/
def loadFile (media : Option Media) (id : MsgId) (e : Extra) : Option Event :=
  match media with
  | some (.photo photo _) =>
    if photo = none then none else some (.request .loadPhoto [.msgId id] .file e)
  | some (.document document _) =>
    if document = none then none else some (.request .loadDocument [.msgId id] .file e)
  | some (.documentEncr _ _) => some (.request .loadEncrDocument [.msgId id] .file e)
  | _ => some (.callback .file e)

def loadFileThumb (media : Option Media) (id : MsgId) (e : Extra) : Event :=
  match media with
  | some (.document _ _) => .request .loadDocumentThumb [.msgId id] .file e
  | _ => .callback .file e

/-- The callback record of a slot. -/
def readPtr : Value → Option Extra
  | .ptr e => some e
  | _ => none

/-- The number of a slot. -/
def readNum : Value → Option ℤ
  | .num n => some n
  | _ => none

/-- The message id of a slot. -/
def readMsgId : Value → Option MsgId
  | .msgId id => some id
  | _ => none

/-- What a case issues and by how much it moves `p`; `tgl_message_get` is `messageGet`. -/
def Case.run (messageGet : MsgId → Option Message) (a : ℕ → LuaArg) (p : ℕ) :
    Case → Option (Event × ℕ)
  | .issue fn reads cb n => do
    let args ← reads.mapM fun (m, i) => readMember m (a (p + i)).value
    let e ← readPtr (a p).value
    return (.request fn args cb e, n)
  | .load => do
    let id ← readMsgId (a (p + 1)).value
    let e ← readPtr (a p).value
    let ev ← loadFile ((messageGet id).map Message.media) id e
    return (ev, 2)
  | .loadThumb => do
    let id ← readMsgId (a (p + 1)).value
    let e ← readPtr (a p).value
    return (loadFileThumb ((messageGet id).map Message.media) id e, 2)

/-! ### `lua_do_all` -/

/-- The release of the strings of the `n` slots from `q` on. -/
def frees (a : ℕ → LuaArg) (q n : ℕ) : List Event :=
  ((List.range n).filter fun i => (a (q + i)).flags).map fun i => .free (a (q + i)).value

/-- One round of the loop of `lua_do_all`. -/
def serve (messageGet : MsgId → Option Message) (q : Queue) (p : ℕ) : Option (List Event × ℕ) := do
  let l ← readNum (q.luaPtr p).value
  if ¬ p + 1 + l + 1 ≤ q.pos then none
  else
    let f ← readNum (q.luaPtr (p + 1)).value
    let c ← (LqType.ofNum f).bind luaCase
    let (ev, n) ← c.run messageGet q.luaPtr (p + 2)
    return (ev :: frees q.luaPtr (p + 2) n, p + 2 + n)

/-- The loop, for at most `fuel` rounds; every round moves `p`, so `pos` rounds are enough. -/
def serveAll (messageGet : MsgId → Option Message) (q : Queue) : ℕ → ℕ → Option (List Event × ℕ)
  | 0, p => if p < q.pos then none else some ([], p)
  | fuel + 1, p =>
    if p < q.pos then do
      let (es, p) ← serve messageGet q p
      let (rest, p) ← serveAll messageGet q fuel p
      return (es ++ rest, p)
    else some ([], p)

/-- `lua_do_all`: what it does, the last value of `p`, and the queue, which is empty after it. -/
def luaDoAll (messageGet : MsgId → Option Message) (q : Queue) :
    Option (List Event × ℕ × Queue) := do
  let (es, p) ← serveAll messageGet q q.pos 0
  return (es, p, { q with pos := 0 })

end TelegramCli.Lua.DoAll
