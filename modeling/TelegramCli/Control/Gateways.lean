import TelegramCli.Control.Conversation
import TelegramCli.Interface.Cards
import TelegramCli.Interface.MarkRead
import TelegramCli.Interface.PrintMessage

/-! # The gateways

What the callbacks of the queries and of the updates print, as a text or as a json document. These
are the printers of `Conversation` (`printers`). A connection has no colors, and the yellow around
the texts of the console is left out. -/

namespace TelegramCli.Control.Gateways

open TelegramCli.Lib.CNumber TelegramCli.Lib.CString TelegramCli.Lib.Jansson TelegramCli.Lib.Brackets
open TelegramCli.Tgl hiding Peer Message
open TelegramCli.Telegrab.DumpHtml (Str.print)
open TelegramCli.Json.Pack (setString setInteger setBoolean jsonPackPeer jsonPackMessage mkUser
  decimal4 strFormatTime)
open TelegramCli.Interface.Actions (Callback Answer)
open TelegramCli.Interface.Console TelegramCli.Interface.PrintMessage
open TelegramCli.Control.AnswerFrames (SocketAnswer)
open TelegramCli.Control.Connections (Halt)
open TelegramCli.Control.Conversation (Note Printers)

/-! ### Records -/

/-- `struct tgl_user_status`. -/
structure UserStatus where
  online : ℤ
  when : ℤ

/-- `struct tgl_bot_info`; a command has a name and a description. -/
structure BotInfo where
  shareText : Str
  description : Str
  commands : List (Str × Str)

/-- `struct tgl_user`. -/
structure User extends peer : Peer where
  status : UserStatus
  botInfo : Option BotInfo

/-- An entry of `user_list`. -/
structure ChatUser where
  userId : ℤ
  inviterId : ℤ
  date : ℤ

/-- `struct tgl_chat`. -/
structure Chat extends peer : Peer where
  adminId : ℤ
  userList : List ChatUser

/-- `struct tgl_channel`. -/
structure Channel extends peer : Peer where
  official : Bool
  broadcast : Bool
  megagroup : Bool
  deactivated : Bool
  about : Str
  participantsCount : ℤ
  adminsCount : ℤ
  kickedCount : ℤ

/-- The bits `TGL_UPDATE_CREATED` and its siblings. -/
inductive UpdateFlag
  | created
  | deleted
  | phone
  | contact
  | photo
  | blocked
  | realName
  | name
  | requested
  | working
  | flags
  | title
  | admin
  | members
  | accessHash
  | username
  deriving DecidableEq, Repr

abbrev UpdateFlags : Type := UpdateFlag → Bool

/-- What a callback takes of a query that went well. The four that only report it take nothing they
read. -/
def Payload : Callback → Type
  | .printMsgList | .printMsgListHistory => List Message
  | .printMsg => Message
  | .printUserList => List User
  | .printUser | .printUserInfo => User
  | .printPeer | .printSecretChat => Peer
  | .printFilename | .openFilename | .printString | .extf => Str
  | .printChatInfo => Chat
  | .printChannelInfo => Channel
  | .printDialogList => List (PeerId × ℤ)
  | .printCard => List (BitVec 32)
  | .printSuccess | .printMsgSuccess | .printMsgListSuccess | .printEncrChatSuccess => Unit

/-- What a callback takes: `TLS->error_code` and `TLS->error`, or the result. -/
abbrev Result (cb : Callback) : Type := Except (ℤ × Str) (Payload cb)

/-- The updates of the library that may print something. -/
inductive Update
  | user (U : User) (flags : UpdateFlags)
  | chat (U : Chat) (flags : UpdateFlags)
  | secretChat (U : Peer) (flags : UpdateFlags)
  | message (M : Message)
  | typing (U : User) (status : Json.Pack.TypingStatus)
  | typingInChat (U : User) (C : Chat) (status : Json.Pack.TypingStatus)
  | userStatus (U : User)
  | markedRead (list : List (Option Message))

/-- The options, the library, and the texts that are fixed when the program is built. -/
structure Env where
  text : Interface.PrintMessage.Env
  json : Json.Pack.Env
  enableJson : Bool
  jsonDumps : Json → Str
  statBuf : List UInt8
  license : List UInt8
  telegramCliVersion : List UInt8
  tglVersion : List UInt8
  cryptoLibrary : List UInt8
  visualizeKey : PeerId → Vector UInt8 16

/-! ### Updates that are printed -/

/-- What the callbacks check before they print. -/
structure Checks where
  binlogRead : Bool
  /-- `disable_output && !notify_ev`. -/
  muted : Bool
  logLevel : ℤ
  enableJson : Bool

/-- The update passes the checks of its callback. -/
def Update.passes (c : Checks) : Update → Bool
  | .user _ flags | .chat _ flags | .secretChat _ flags =>
    !c.muted && c.binlogRead && !flags .created
  | .message _ => c.binlogRead && !c.muted
  | .typing _ _ | .typingInChat _ _ _ => !(c.logLevel < 2) && !c.muted && !c.enableJson
  | .userStatus _ => !c.muted && c.binlogRead && !(c.logLevel < 3)
  | .markedRead _ => c.binlogRead && !(c.logLevel < 1)

/-! ### Texts -/

section Texts

variable (E : Interface.PrintMessage.Env)

def printDateFull (t : ℤ) : Print :=
  let tm := E.localtime t
  mprintf (lit "[" ++ decimal4 (tm.year + 1900) ++ lit "/" ++ decimal2 (tm.mon + 1) ++ lit "/" ++
    decimal2 tm.mday ++ lit " " ++ decimal2 tm.hour ++ lit ":" ++ decimal2 tm.min ++ lit ":" ++
    decimal2 tm.sec ++ lit "]")

def printUserStatus (S : UserStatus) : Print :=
  if 0 < S.online then steps
    [mprintf (lit "online (was online "), printDateFull E S.when, mprintf (lit ")")]
  else if S.online = 0 then mprintf (lit "offline")
  else if S.online = -1 then steps
    [mprintf (lit "offline (was online "), printDateFull E S.when, mprintf (lit ")")]
  else if S.online = -2 then mprintf (lit "offline (was online recently)")
  else if S.online = -3 then mprintf (lit "offline (was online last week)")
  else if S.online = -4 then mprintf (lit "offline (was online last month)")
  else steps []

def printSuccess : Print := if E.ev then mprintf (lit "SUCCESS\n") else steps []

def printMsgListGw (ML : List Message) : Print := steps (ML.reverse.map (printMessage E))

def printUserGw (U : Peer) : Print := steps
  [printUserName E.toEnv U.id (some U), mprintf (lit "\n")]

def printUserListGw (UL : List User) : Print :=
  steps (UL.reverse.map fun U => printUserGw E U.peer)

def printPeerGw (U : Peer) : Print :=
  match U.id.peerType with
  | .user => printUserGw E U
  | .chat => steps [printChatName E.toEnv U.id (some U), mprintf (lit "\n")]
  | .channel => steps [printChannelName E.toEnv U.id (some U), mprintf (lit "\n")]
  | _ => assertKind False

/-- The line of a member. -/
def printChatUser (adminId : ℤ) (u : ChatUser) : Print := steps
  [mprintf (lit "\t\t"), printUserById E u.userId,
   mprintf (lit " invited by "), printUserById E u.inviterId,
   mprintf (lit " at "), printDateFull E u.date,
   if u.userId = adminId then mprintf (lit " admin") else steps [],
   mprintf (lit "\n")]

def printChatInfoGw (C : Chat) : Print := steps
  [mprintf (lit "Chat "), printChatName E.toEnv C.id (some C.peer),
   mprintf (lit " (id " ++ decimal C.id.peerId ++ lit ") members:\n"),
   steps (C.userList.map (printChatUser E C.adminId))]

def printChannelInfoGw (C : Channel) : Print := steps
  [mprintf (lit "Channel " ++
    (if C.official then lit "[verified] " else []) ++
    (if C.broadcast then lit "[broadcast] " else []) ++
    (if C.megagroup then lit "[megagroup] " else []) ++
    (if C.deactivated then lit "[deactivated] " else [])),
   printChannelName E.toEnv C.id (some C.peer),
   mprintf (around " @" C.username ""),
   mprintf (lit " (#" ++ decimal C.id.peerId ++ lit "):\n"),
   mprintf (lit "\tabout: " ++ Str.print C.about ++ lit "\n"),
   mprintf (lit "\t" ++ decimal C.participantsCount ++ lit " participants, " ++
    decimal C.adminsCount ++ lit " admins, " ++ decimal C.kickedCount ++ lit " kicked\n")]

/-- What is printed of a bot. -/
def botText (B : BotInfo) : List UInt8 :=
  lit "\tshare_text:  " ++ Str.print B.shareText ++ lit "\n" ++
  lit "\tdescription: " ++ Str.print B.description ++ lit "\n" ++
  lit "\tcommands:\n" ++
  B.commands.flatMap fun c =>
    lit "\t\t/" ++ Str.print c.1 ++ lit ": " ++ Str.print c.2 ++ lit "\n"

def printUserInfoGw (U : User) : Print := steps
  [mprintf (lit "User "), printUserName E.toEnv U.id (some U.peer),
   mprintf (around " @" U.username ""),
   mprintf (lit " (#" ++ decimal U.id.peerId ++ lit "):\n"),
   mprintf (lit "\tphone: " ++ Str.print U.phone ++ lit "\n"),
   mprintf (lit "\t"), printUserStatus E U.status, mprintf (lit "\n"),
   mprintf (U.botInfo.elim [] botText)]

def printSecretChatGw (C : Peer) : Print := steps
  [mprintf (lit " Encrypted chat "), printEncrChatName E.toEnv C.id (some C),
   mprintf (lit " is now in wait state\n")]

/-- The line of a dialog; secret chats have none. -/
def printDialog (d : PeerId × ℤ) : Print :=
  let unread := mprintf (lit ": " ++ decimal d.2 ++ lit " unread\n")
  match d.1.peerType with
  | .user => steps
    [mprintf (lit "User "), printUserName E.toEnv d.1 (E.peerGet d.1), unread]
  | .chat => steps
    [mprintf (lit "Chat "), printChatName E.toEnv d.1 (E.peerGet d.1), unread]
  | .channel => steps
    [mprintf (lit "Channel "), printChannelName E.toEnv d.1 (E.peerGet d.1), unread]
  | _ => steps []

def printDialogListGw (ds : List (PeerId × ℤ)) : Print :=
  steps (ds.reverse.map (printDialog E))

/-- The texts of the results. -/
def printPayload : (cb : Callback) → Payload cb → Print
  | .printSuccess, _ | .printMsgSuccess, _ | .printMsgListSuccess, _ | .printEncrChatSuccess, _ =>
    printSuccess E
  | .printMsgList, ML | .printMsgListHistory, ML => printMsgListGw E ML
  | .printMsg, M => printMessage E M
  | .printUserList, UL => printUserListGw E UL
  | .printUser, U => printUserGw E (User.peer U)
  | .printPeer, U => printPeerGw E U
  | .printFilename, name => mprintf (lit "Saved to " ++ Str.print name ++ lit "\n")
  -- the file is opened, and nothing is printed
  | .openFilename, _ => steps []
  | .printString, name | .extf, name => mprintf (Str.print name ++ lit "\n")
  | .printChatInfo, C => printChatInfoGw E C
  | .printChannelInfo, C => printChannelInfoGw E C
  | .printUserInfo, U => printUserInfoGw E U
  | .printSecretChat, C => printSecretChatGw E C
  | .printDialogList, ds => printDialogListGw E ds
  | .printCard, card => mprintf (Interface.Cards.printCardGw card)

/-- `FAIL` with a code and a text. -/
def failText (code : ℤ) (error : Str) : List UInt8 :=
  lit "FAIL: " ++ decimal code ++ lit ": " ++ Str.print error ++ lit "\n"

end Texts

/-- The bits with their words, in the order they are printed. -/
def updateWords : List (UpdateFlag × String) :=
  [(.phone, " phone"), (.contact, " contact"), (.photo, " photo"), (.blocked, " blocked"),
   (.realName, " name"), (.name, " contact_name"), (.requested, " status"), (.working, " status"),
   (.flags, " flags"), (.title, " title"), (.admin, " admin"), (.members, " members"),
   (.accessHash, " access_hash"), (.username, " username")]

/-- `print_peer_updates`. -/
def printPeerUpdates (flags : UpdateFlags) : List UInt8 :=
  updateWords.flatMap fun w => if flags w.1 then lit w.2 else []

/-- What is printed of an update behind the name. -/
def peerUpdateText (flags : UpdateFlags) : List UInt8 :=
  (if flags .deleted then lit " deleted" else lit " updated" ++ printPeerUpdates flags) ++ lit "\n"

/-- The texts of the updates, but for `print_read_list`. -/
def printUpdate (E : Interface.PrintMessage.Env) : Update → Print
  | .user U flags => steps
    [mprintf (lit "User "), printUserName E.toEnv U.id (some U.peer),
     mprintf (peerUpdateText flags)]
  | .chat U flags => steps
    [mprintf (lit "Chat "), printChatName E.toEnv U.id (some U.peer),
     mprintf (peerUpdateText flags)]
  | .secretChat U flags => steps
    [mprintf (lit "Secret chat "), printEncrChatName E.toEnv U.id (some U),
     mprintf (peerUpdateText flags)]
  | .message M => printMessage E M
  | .typing U status => steps
    [mprintf (lit "User "), printUserName E.toEnv U.id (some U.peer), mprintf (lit " is "),
     printTyping status, mprintf (lit "\n")]
  | .typingInChat U C status => steps
    [mprintf (lit "User "), printUserName E.toEnv U.id (some U.peer), mprintf (lit " is "),
     printTyping status, mprintf (lit " in chat "), printChatName E.toEnv C.id (some C.peer),
     mprintf (lit "\n")]
  | .userStatus U => steps
    [mprintf (lit "User "), printUserName E.toEnv U.id (some U.peer), mprintf (lit " "),
     printUserStatus E U.status, mprintf (lit "\n")]
  | .markedRead _ => steps []

/-! ### Documents -/

/-- A document with one string. -/
def stringDocument (s : Str) : Option Json := setString "result" s (.object [])

/-- The array that a loop from the end appends to. -/
def arrayDocument {α : Type} (pack : α → Option Json) (xs : List α) : Option Json :=
  xs.reverse.foldlM (fun res x => jsonArrayAppend res (pack x)) (.array [])

/-- `q` of `print_card_gw`. -/
def cardString (card : List (BitVec 32)) : List UInt8 :=
  card.zipIdx.flatMap fun e =>
    Interface.Cards.hex8 e.1 ++ if e.2 = card.length - 1 then [] else lit ":"

def failDocument (code : ℤ) (error : Str) : Option Json := do
  let res ← setString "result" (some (lit "FAIL")) (.object [])
  let res ← setInteger "error_code" code res
  setString "error" error res

section Documents

variable (E : Json.Pack.Env)

/-- The documents of the results. -/
def payloadDocument : (cb : Callback) → Payload cb → Option Json
  | .printSuccess, _ | .printMsgSuccess, _ | .printMsgListSuccess, _ | .printEncrChatSuccess, _ =>
    stringDocument (some (lit "SUCCESS"))
  | .printMsgList, ML | .printMsgListHistory, ML =>
    arrayDocument (fun M : Message => jsonPackMessage E M.packed) ML
  | .printMsg, M => jsonPackMessage E (Message.packed M)
  | .printUserList, UL => arrayDocument (fun U : User => jsonPackPeer E U.id) UL
  | .printUser, U | .printUserInfo, U => jsonPackPeer E (User.peer U).id
  | .printPeer, U =>
    if (Peer.toPeer U).id.peerType = .user ∨ (Peer.toPeer U).id.peerType = .chat ∨
      (Peer.toPeer U).id.peerType = .channel then jsonPackPeer E (Peer.toPeer U).id else none
  | .printSecretChat, C => jsonPackPeer E (Peer.toPeer C).id
  | .printFilename, name => do
    let res ← stringDocument name
    setString "event" (some (lit "download")) res
  | .openFilename, _ => none
  | .printString, name | .extf, name => stringDocument name
  | .printChatInfo, C => jsonPackPeer E (Chat.peer C).id
  | .printChannelInfo, C => jsonPackPeer E (Channel.peer C).id
  | .printDialogList, ds => arrayDocument (fun d : PeerId × ℤ => jsonPackPeer E d.1) ds
  | .printCard, card => stringDocument (some (cardString card))

/-- The bits with their strings. -/
def updateStrings : List (UpdateFlag × String) :=
  [(.created, "created"), (.deleted, "deleted"), (.phone, "phone"), (.contact, "contact"),
   (.photo, "photo"), (.blocked, "blocked"), (.realName, "real_name"), (.name, "name"),
   (.requested, "requested"), (.working, "working"), (.flags, "flags"), (.title, "title"),
   (.admin, "admin"), (.members, "members"), (.username, "username")]

def jsonPackUpdates (flags : UpdateFlags) : Option Json :=
  updateStrings.foldlM (fun a w => if flags w.1 then jsonArrayAppend a (jsonString (some (lit w.2)))
    else some a) (.array [])

def jsonPeerUpdate (P : Peer) (flags : UpdateFlags) : Option Json := do
  let res ← setString "event" (some (lit "updates")) (.object [])
  let peer ← jsonPackPeer E P.id
  let res ← jsonObjectSet res "peer" (some peer)
  let updates ← jsonPackUpdates flags
  jsonObjectSet res "updates" (some updates)

/-- The field `when` of a status. -/
def statusWhen (S : UserStatus) (res : Json) : Option Json :=
  if 0 < S.online ∨ S.online = -1 then
    setString "when" (some (strFormatTime (E.localtime S.when))) res
  else if S.online = 0 then setString "when" (some (lit "long time ago")) res
  else if S.online = -2 then setString "when" (some (lit "recently")) res
  else if S.online = -3 then setString "when" (some (lit "last week")) res
  else if S.online = -4 then setString "when" (some (lit "last month")) res
  else some res

def jsonPackUserStatus (U : User) : Option Json := do
  let user ← jsonPackPeer E U.id
  let res ← jsonObjectSet (.object []) "user" (some user)
  let res ← setBoolean "online" (U.status.online = 1) res
  let res ← setInteger "state" U.status.online res
  let res ← statusWhen E U.status res
  setString "event" (some (lit "online-status")) res

/-- The documents of the updates, but for `print_read_list`. A typing notification is not printed. -/
def updateDocument : Update → Option Json
  | .user U flags => jsonPeerUpdate E U.peer flags
  | .chat U flags => jsonPeerUpdate E U.peer flags
  | .secretChat U flags => jsonPeerUpdate E U flags
  | .message M => jsonPackMessage E M.packed
  | .userStatus U => jsonPackUserStatus E U
  | .typing _ _ | .typingInChat _ _ _ | .markedRead _ => none

end Documents

/-! ### The printers -/

/-- The code of `fail_interface`. -/
def enosys : ℤ := 38

/-- The line that a document is printed as. -/
def documentLine (G : Env) (v : Json) : List UInt8 := Str.print (G.jsonDumps v) ++ lit "\n"

/-- A document, or a failed assertion. -/
def printDocument (G : Env) (users : List ℤ) (v : Option Json) :
    Except Halt (List (List UInt8) × List ℤ) :=
  v.elim (.error .abort) fun v => .ok ([documentLine G v], users)

/-- A printer from an empty screen. What it prints is taken as one piece. -/
def printText (users : List ℤ) (p : Print) : Except Halt (List (List UInt8) × List ℤ) :=
  match p ⟨[], Nat.zero_le _, ⟨[], users⟩⟩ with
  | .ok (_, s) => .ok ([s.rest.text], s.rest.unknownUserList)
  | .error (.other .pointer) => .error .fault
  | .error _ => .error .abort

/-- A cell of the picture of a key. -/
def keyCell (E : Interface.PrintMessage.Env) (x : ℕ) : List UInt8 :=
  if E.colors then lit "  "
  else lit (if x = 0 then "  " else if x = 1 then "--" else if x = 2 then "==" else "||")

/-- The pieces of a picture: four cells a byte, two bytes a line. -/
def visualizeKeyPieces (E : Interface.PrintMessage.Env) (key : Vector UInt8 16) :
    List (List UInt8) :=
  key.toList.zipIdx.flatMap fun e =>
    ((List.range 4).map fun j => keyCell E (e.1.toNat / 4 ^ j % 4)) ++
      if e.2 % 2 = 1 then [lit "\n"] else []

/-- The pieces that the handlers print themselves. -/
def ownPieces (G : Env) (E : Interface.PrintMessage.Env) : Answer → List (List UInt8)
  | .help descs => descs.map fun desc => lit desc ++ lit "\n"
  | .unknownCommand name => [lit "Unknown command '" ++ Str.print name ++ lit "'\n"]
  | .stats => [G.statBuf ++ lit "\n"]
  | .license => [G.license]
  | .version =>
    [lit "Telegram-cli version " ++ G.telegramCliVersion ++ lit " (uses tgl version " ++
      G.tglVersion ++ lit ")\n",
     lit "uses " ++ G.cryptoLibrary ++ lit " for encryption\n"]
  | .visualizeKey chat => visualizeKeyPieces E (G.visualizeKey chat)

/-- `print_fail` and `fail_interface`. -/
def printFail (G : Env) (users : List ℤ) (code : ℤ) (error : Str) :
    Except Halt (List (List UInt8) × List ℤ) :=
  if G.enableJson then printDocument G users (failDocument code error)
  else .ok ([failText code error], users)

/-- The library of `print_read_list`. -/
def Env.markRead (G : Env) : Interface.MarkRead.Env Message where
  message M := M.packed
  peers := ⟨fun id => (G.text.peerGet id).map fun P => P.toPeer, G.text.ourId, G.text.cmpPeerId⟩
  config := G.text.config
  enableJson := G.enableJson
  json := G.json
  jsonDumps := G.jsonDumps

/-- What is printed of a note for a connection or on the console, and `unknown_user_list`. -/
def printNote (G : Env) (ev : Bool) (users : List ℤ) :
    Note Result Update → Except Halt (List (List UInt8) × List ℤ)
  | .fail text => printFail G users enosys (some text)
  | .own x => .ok (ownPieces G { G.text with ev := ev } x, users)
  | .result _ (.error (code, error)) => printFail G users code error
  | .result .openFilename (.ok _) => .ok ([], users)
  | .result cb (.ok p) =>
    if G.enableJson then printDocument G users (payloadDocument G.json cb p)
    else printText users (printPayload { G.text with ev := ev } cb p)
  | .update (.markedRead list) =>
    match Interface.MarkRead.printReadList G.markRead users list with
    | some p => .ok (p.lines, p.users)
    | none => .error .abort
  | .update u =>
    if G.enableJson then printDocument G users (updateDocument G.json u)
    else printText users (printUpdate { G.text with ev := ev } u)

def printers (G : Env) (huge : SocketAnswer → List UInt8) : Printers Result Update (List ℤ) :=
  ⟨fun ev n users => printNote G ev users n, huge⟩

end TelegramCli.Control.Gateways
