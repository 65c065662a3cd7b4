import TelegramCli.Interface.Ids

/-! # What a command does

A command line reads or sets a few `Globals` and then runs a handler, which performs `Action`s: it
takes a reference to its connection, starts a `Query` of the library with the `Callback` to run on
its result, runs a callback itself, answers, or changes the session. -/

namespace TelegramCli.Interface.Actions

open TelegramCli.Tgl

/-- `disable_msg_preview`. -/
inductive Preview
  | default
  | disable
  | enable
  deriving DecidableEq, Repr

/-- The variables the modifiers of a line set. -/
structure Globals where
  doHtml : Bool
  offlineMode : Bool
  replyId : ℤ
  disableMsgPreview : Preview
  count : ℤ
  deriving DecidableEq, Repr

/-- `TGL_SEND_MSG_FLAG_DOCUMENT_PHOTO` and its siblings. -/
inductive DocumentKind
  | plain
  | photo
  | auto
  | audio
  | video
  deriving DecidableEq, Repr

/-- The flags of a message to send. -/
structure SendFlags where
  reply : ℤ := 0
  preview : Preview := .default
  html : Bool := false
  post : Bool := false
  document : DocumentKind := .plain
  deriving DecidableEq, Repr

inductive TypingStatus
  | typing
  | cancel
  | other (n : ℤ)
  deriving DecidableEq, Repr

/-- The `tgl_do_*` functions, with the arguments the program chooses. -/
inductive Query
  | getTermsOfService
  | setPassword (hint : Str)
  | sendMessage (dest : PeerId) (text : Str) (flags : SendFlags) (replyMarkup : Option Str)
  | replyMessage (dest : MsgId) (text : Str) (flags : SendFlags)
  | sendText (dest : PeerId) (file : Str) (flags : SendFlags)
  | sendDocument (dest : PeerId) (file caption : Str) (flags : SendFlags)
  | replyDocument (dest : MsgId) (file caption : Str) (flags : SendFlags)
  | forwardMessages (dest : PeerId) (ids : List MsgId)
  | forwardMedia (dest : PeerId) (id : MsgId)
  | sendContact (dest : PeerId) (phone firstName lastName : Str) (flags : SendFlags)
  | replyContact (dest : MsgId) (phone firstName lastName : Str)
  | sendLocation (dest : PeerId) (latitude longitude : Double) (flags : SendFlags)
  | replyLocation (dest : MsgId) (latitude longitude : Double)
  | sendBroadcast (dest : List PeerId) (text : Str) (flags : SendFlags)
  | getUserInfo (id : PeerId) (offline : Bool)
  | setProfilePhoto (file : Str)
  | setProfileName (firstName lastName : Str)
  | setUsername (name : Str)
  | setPhoneNumber (phone : Str)
  | updateStatus (online : Bool)
  | exportCard
  | setChatPhoto (chat : PeerId) (file : Str)
  | renameChat (chat : PeerId) (name : Str)
  | getChatInfo (chat : PeerId) (offline : Bool)
  | getChannelInfo (channel : PeerId) (offline : Bool)
  | addUserToChat (chat user : PeerId) (msgs : ℤ)
  | delUserFromChat (chat user : PeerId)
  | createGroupChat (users : List PeerId) (title : Str)
  | exportChatLink (chat : PeerId)
  | importChatLink (hash : Str)
  | channelInviteUser (channel user : PeerId)
  | channelKickUser (channel user : PeerId)
  | channelGetMembers (channel : PeerId) (limit offset : ℤ) (admins : Bool)
  | upgradeGroup (chat : PeerId)
  | addContact (phone firstName lastName : Str)
  | delContact (user : PeerId)
  | importCard (card : List ℤ)
  | blockUser (user : PeerId)
  | unblockUser (user : PeerId)
  | acceptEncrChatRequest (chat : PeerId)
  | setEncrChatTtl (chat : PeerId) (ttl : ℤ)
  | createSecretChat (user : PeerId)
  | renameChannel (channel : PeerId) (name : Str)
  | setChannelPhoto (channel : PeerId) (file : Str)
  | channelSetAbout (channel : PeerId) (about : Str)
  | channelSetAdmin (channel user : PeerId) (type : ℤ)
  | channelSetUsername (channel : PeerId) (name : Str)
  | createChannel (users : List PeerId) (title about : Str)
  | joinChannel (channel : PeerId)
  | leaveChannel (channel : PeerId)
  | exportChannelLink (channel : PeerId)
  | getDialogList (limit offset : ℤ)
  | getChannelsDialogList (limit offset : ℤ)
  | contactSearch (name : Str)
  | updateContactList
  | markRead (id : PeerId)
  | getHistory (id : PeerId) (offset limit : ℤ) (offline : Bool)
  | sendTyping (dest : PeerId) (status : TypingStatus)
  | loadPhoto (id : MsgId)
  | loadDocument (id : MsgId)
  | loadVideo (id : MsgId)
  | loadAudio (id : MsgId)
  | loadEncrDocument (id : MsgId)
  | loadDocumentThumb (id : MsgId)
  | loadPhotoBig (id : PeerId)
  | msgSearch (id : PeerId) (since till limit offset : ℤ) (pattern : Str)
  | deleteMsg (id : MsgId)
  | getMessage (id : MsgId)
  | startBot (bot chat : PeerId) (data : Str)
  | sendExtf (line : List UInt8)

/-- The functions that take the result of a query. -/
inductive Callback
  | printSuccess
  | printMsgSuccess
  | printMsgListSuccess
  | printEncrChatSuccess
  | printMsgList
  | printMsgListHistory
  | printMsg
  | printUserList
  | printUser
  | printPeer
  | printFilename
  | openFilename
  | printString
  | printChatInfo
  | printChannelInfo
  | printUserInfo
  | printSecretChat
  | printDialogList
  | printCard
  | extf
  deriving DecidableEq, Repr

/-- What a handler prints itself. -/
inductive Answer
  | help (descs : List String)
  | unknownCommand (name : Str)
  | stats
  | license
  | version
  | visualizeKey (chat : PeerId)
  deriving DecidableEq, Repr

/-- The variables of the command `set`. -/
inductive Setting
  | debugVerbosity
  | logLevel
  | msgNum
  | alert
  deriving DecidableEq, Repr

inductive Action
  /-- `if (ev) { ev->refcnt ++; }`. -/
  | ref
  | query (q : Query) (cb : Callback)
  /-- A callback run by the handler itself. -/
  | callback (cb : Callback)
  | fail (text : String)
  | answer (a : Answer)
  /-- `event_incoming (ev->bev, BEV_EVENT_EOF, ev)`. -/
  | eventIncoming
  | halt
  | safeQuit
  | set (s : Setting) (n : ℤ)
  | chatWithPeer (id : PeerId)
  | mainSession
  | clear

/-- What a handler looks at besides its arguments. `ev` says that a connection gave the command, and
`replyMarkup` that a text is the form of a keyboard. -/
structure Ctx where
  ev : Bool
  daemonize : Bool
  globals : Globals
  ourId : PeerId
  peerGet : PeerId → Option Peer
  messageGet : MsgId → Option Message
  replyMarkup : Str → Bool
  commands : List (String × String)

end TelegramCli.Interface.Actions
