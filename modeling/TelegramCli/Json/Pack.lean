import TelegramCli.Lib.Jansson
import TelegramCli.Telegrab.DumpHtml

/-! # Messages as json

The packers of `json-tg.c`. Every call of the json library stands in an assertion, so `none` is a
failed assertion, or an access through a null pointer or past an array. A chat packs its users and a
secret chat its user, and users pack no peers.

The records add to those of the library what only the packers read. -/

namespace TelegramCli.Json.Pack

open TelegramCli.Lib.CNumber TelegramCli.Lib.CString TelegramCli.Lib.Jansson TelegramCli.Tgl
open TelegramCli.Telegrab.DumpHtml (Tm)

/-! ### Records -/

/-- `users_num` and `user_list` of a chat, a user and an inviter each; a list that is there has
`users_num` entries. -/
structure ChatUsers where
  usersNum : ℕ
  userList : Option (List (ℤ × ℤ))
  length_eq : ∀ l, userList = some l → l.length = usersNum

/-- `tgl_peer_t`; `created` is `TGLPF_CREATED` and `flags` the whole word. -/
structure Peer extends Tgl.Peer where
  flags : ℤ
  statusWhen : ℤ
  realFirstName : Str
  realLastName : Str
  adminId : ℤ
  users : ChatUsers
  participantsCount : ℤ
  adminsCount : ℤ
  kickedCount : ℤ
  userId : ℤ

/-- `enum tgl_typing_status`. -/
inductive TypingStatus
  | none
  | typing
  | cancel
  | recordVideo
  | uploadVideo
  | recordAudio
  | uploadAudio
  | uploadPhoto
  | uploadDocument
  | geo
  | chooseContact
  | other
  deriving DecidableEq, Repr

/-- `struct tgl_message_action`, one constructor for each type the packer knows. -/
inductive Action
  | geoChatCreate
  | geoChatCheckin
  | chatCreate (title : Str)
  | chatEditTitle (title : Str)
  | chatEditPhoto
  | chatDeletePhoto
  | chatAddUsers (users : List ℤ)
  | chatAddUserByLink (user : ℤ)
  | chatDeleteUser (user : ℤ)
  | setMessageTtl (ttl : ℤ)
  | readMessages (readCnt : ℤ)
  | deleteMessages (deleteCnt : ℤ)
  | screenshotMessages (screenshotCnt : ℤ)
  | flushHistory
  | resend
  | notifyLayer (layer : ℤ)
  | typing (status : TypingStatus)
  | noop
  | requestKey
  | acceptKey
  | commitKey
  | abortKey
  | channelCreate (title : Str)
  | migratedTo
  | migratedFrom
  | other
  deriving DecidableEq, Repr

/-- `struct tgl_message`; `flags` is the whole word and `userId` that of a contact. -/
structure Message extends Tgl.Message where
  permanent : MsgId
  flags : ℤ
  created : Bool
  mention : Bool
  unread : Bool
  fwdDate : ℤ
  messageLen : ℤ
  userId : ℤ
  action : Action

/-- The library's peers, the bytes of its ids in memory, the clock, and `json_real`, which has no
value for some doubles. -/
structure Env where
  peerGet : PeerId → Option Peer
  peerIdBytes : PeerId → List UInt8
  msgIdBytes : MsgId → List UInt8
  localtime : ℤ → Tm
  jsonReal : Double → Option Json

/-! ### Texts -/

/-- `TGL_MK_USER`. -/
def mkUser (id : ℤ) : PeerId := ⟨.user, id, 0⟩

/-- A lower-case digit of `%x`. -/
def hexDigit (n : ℕ) : UInt8 := UInt8.ofNat (if n < 10 then 48 + n else 87 + n)

/-- `n` lower-case digits of a number, as `%0nx` prints them. -/
def hexFixed : ℕ → ℕ → List UInt8
  | 0, _ => []
  | n + 1, v => hexFixed n (v / 16) ++ [hexDigit (v % 16)]

/-- `%02x` of each byte. -/
def hexText (bytes : List UInt8) : List UInt8 :=
  bytes.flatMap fun c => [hexDigit (c.toNat / 16), hexDigit (c.toNat % 16)]

def printPermanentMsgId (E : Env) (id : MsgId) : List UInt8 := hexText (E.msgIdBytes id)

def printPermanentPeerId (E : Env) (id : PeerId) : List UInt8 := 36 :: hexText (E.peerIdBytes id)

/-- `%04d`. -/
def decimal4 (n : ℤ) : List UInt8 :=
  if n < 0 then 45 :: (List.replicate (3 - (decimalNat n.natAbs).length) 48 ++ decimalNat n.natAbs)
  else List.replicate (4 - (decimalNat n.natAbs).length) 48 ++ decimalNat n.natAbs

def strFormatTime (tm : Tm) : List UInt8 :=
  decimal4 (tm.year + 1900) ++ lit "-" ++ decimal2 (tm.mon + 1) ++ lit "-" ++ decimal2 tm.mday ++
    lit " " ++ decimal2 tm.hour ++ lit ":" ++ decimal2 tm.min ++ lit ":" ++ decimal2 tm.sec

/-! ### Fields -/

/-- A field with a string. -/
def setString (key : String) (s : Str) (res : Json) : Option Json :=
  jsonObjectSet res key (jsonString s)

/-- A field with a string, if there is one. -/
def setStringIf (key : String) (s : Str) (res : Json) : Option Json :=
  if s = none then some res else setString key s res

def setInteger (key : String) (n : ℤ) (res : Json) : Option Json :=
  jsonObjectSet res key (some (.integer n))

def setBoolean (key : String) (b : Bool) (res : Json) : Option Json :=
  jsonObjectSet res key (some (.boolean b))

/-! ### Peers -/

def jsonPackPeerType (id : PeerId) (res : Json) : Option Json :=
  match id.peerType with
  | .user => setString "peer_type" (some (lit "user")) res
  | .chat => setString "peer_type" (some (lit "chat")) res
  | .encrChat => setString "peer_type" (some (lit "encr_chat")) res
  | .channel => setString "peer_type" (some (lit "channel")) res
  | _ => none

def jsonPackUser (E : Env) (P : Peer) (res : Json) : Option Json := do
  let res ← setStringIf "first_name" P.firstName res
  let res ← (if P.statusWhen = 0 then some res
    else setString "when" (some (strFormatTime (E.localtime P.statusWhen))) res)
  let res ← setStringIf "last_name" P.lastName res
  let res ← setStringIf "real_first_name" P.realFirstName res
  let res ← setStringIf "real_last_name" P.realLastName res
  let res ← setStringIf "phone" P.phone res
  setStringIf "username" P.username res

/-- An entry of `members`. -/
def packMember (packUser : ℤ → Option Json) (user : ℤ × ℤ) : Option Json := do
  let peer ← packUser user.1
  let inviter ← packUser user.2
  jsonObjectSet peer "inviter" (some inviter)

/-- The loop over `user_list`. -/
def packMembers (packUser : ℤ → Option Json) : List (ℤ × ℤ) → Json → Option Json
  | [], m => some m
  | user :: users, m => do
    let peer ← packMember packUser user
    let m ← jsonArrayAppend m (some peer)
    packMembers packUser users m

/-- `json_pack_chat`, where `packUser` is `json_pack_peer` of a user. -/
def jsonPackChat (packUser : ℤ → Option Json) (P : Peer) (res : Json) : Option Json := do
  let res ← setString "title" P.title res
  let admin ← packUser P.adminId
  let res ← jsonObjectSet res "admin" (some admin)
  let res ← setInteger "members_num" P.users.usersNum res
  match P.users.userList with
  | none => some res
  | some users => do
    let m ← packMembers packUser users (.array [])
    jsonObjectSet res "members" (some m)

def jsonPackChannel (P : Peer) (res : Json) : Option Json := do
  let res ← setString "title" P.title res
  let res ← setInteger "participants_count" P.participantsCount res
  let res ← setInteger "admins_count" P.adminsCount res
  setInteger "kicked_count" P.kickedCount res

/-- `json_pack_encr_chat`, where `packUser` is `json_pack_peer` of a user. -/
def jsonPackEncrChat (packUser : ℤ → Option Json) (P : Peer) (res : Json) : Option Json := do
  let user ← packUser P.userId
  jsonObjectSet res "user" (some user)

/-- The name of a peer that is not known. -/
def unknownName (id : PeerId) : Str :=
  match id.peerType with
  | .user => some (lit "user#" ++ decimal id.peerId)
  | .chat => some (lit "chat#" ++ decimal id.peerId)
  | .channel => some (lit "channel#" ++ decimal id.peerId)
  | .encrChat => some (lit "encr_chat#" ++ decimal id.peerId)
  | _ => none

/-- Peers of other types than users come first. -/
def rank (id : PeerId) : ℕ := if id.peerType = .user then 0 else 1

/-- `json_pack_peer`. -/
def jsonPackPeer (E : Env) (id : PeerId) : Option Json := do
  let res ← setString "id" (some (printPermanentPeerId E id)) (.object [])
  let res ← jsonPackPeerType id res
  let res ← setInteger "peer_id" id.peerId res
  match (E.peerGet id).filter (·.created) with
  | none => setString "print_name" (unknownName id) res
  | some P => do
    let res ← setString "print_name" (some (P.printName.getD [])) res
    let res ← setInteger "flags" P.flags res
    match _h : id.peerType with
    | .user => jsonPackUser E P res
    | .chat => jsonPackChat (fun n => jsonPackPeer E (mkUser n)) P res
    | .encrChat => jsonPackEncrChat (fun n => jsonPackPeer E (mkUser n)) P res
    | .channel => jsonPackChannel P res
    | _ => none
termination_by rank id
decreasing_by all_goals simp [rank, mkUser, _h]

/-! ### Media -/

def setCoordinates (E : Env) (geo : Geo) (res : Json) : Option Json := do
  let res ← jsonObjectSet res "longitude" (E.jsonReal geo.longitude)
  jsonObjectSet res "latitude" (E.jsonReal geo.latitude)

def jsonPackMedia (E : Env) (M : Message) : Option Json :=
  let res : Json := .object []
  match M.media with
  | .photo _ caption => do
    let res ← setString "type" (some (lit "photo")) res
    setStringIf "caption" caption res
  | .document _ _ | .audio _ _ | .video _ _ | .documentEncr _ _ =>
    setString "type" (some (lit "document")) res
  | .unsupported => setString "type" (some (lit "unsupported")) res
  | .geo geo => do
    let res ← setString "type" (some (lit "geo")) res
    setCoordinates E geo res
  | .contact phone firstName lastName => do
    let res ← setString "type" (some (lit "contact")) res
    let res ← setString "phone" phone res
    let res ← setString "first_name" firstName res
    let res ← setString "last_name" lastName res
    setInteger "user_id" M.userId res
  | .webpage webpage _ => do
    let res ← setString "type" (some (lit "webpage")) res
    let w ← webpage
    let res ← setStringIf "url" w.url res
    let res ← setStringIf "title" w.title res
    let res ← setStringIf "description" w.description res
    setStringIf "author" w.author res
  | .venue geo title address provider venueId => do
    let res ← setString "type" (some (lit "venue")) res
    let res ← setCoordinates E geo res
    -- the title overwrites the type
    let res ← setStringIf "type" title res
    let res ← setStringIf "address" address res
    let res ← setStringIf "provider" provider res
    setStringIf "venue_id" venueId res
  | .none | .other => setString "type" (some (lit "???")) res

/-! ### Service messages -/

/-- The text of a typing status. -/
def typingText : TypingStatus → String
  | .none => "doing nothing"
  | .typing => "typing"
  | .cancel => "deleting typed message"
  | .recordVideo => "recording video"
  | .uploadVideo => "uploading video"
  | .recordAudio => "recording audio"
  | .uploadAudio => "uploading audio"
  | .uploadPhoto => "uploading photo"
  | .uploadDocument => "uploading document"
  | .geo => "choosing location"
  | .chooseContact => "choosing contact"
  | .other => "???"

def jsonPackTyping (status : TypingStatus) : Option Json :=
  setString "status" (some (lit (typingText status))) (.object [])

/-- The type of an action. -/
def actionType : Action → String
  | .geoChatCreate => "geo_created"
  | .geoChatCheckin => "geo_checkin"
  | .chatCreate _ => "chat_created"
  | .chatEditTitle _ => "chat_rename"
  | .chatEditPhoto => "chat_change_photo"
  | .chatDeletePhoto => "chat_delete_photo"
  | .chatAddUsers _ => "chat_add_user"
  | .chatAddUserByLink _ => "chat_add_user_link"
  | .chatDeleteUser _ => "chat_del_user"
  | .setMessageTtl _ => "set_ttl"
  | .readMessages _ => "read"
  | .deleteMessages _ => "delete"
  | .screenshotMessages _ => "screenshot"
  | .flushHistory => "flush"
  | .resend => "resend"
  | .notifyLayer _ => "notify_layer"
  | .typing _ => "typing"
  | .noop => "noop"
  | .requestKey => "request_key"
  | .acceptKey => "accept_key"
  | .commitKey => "commit_key"
  | .abortKey => "abort_key"
  | .channelCreate _ => "channel_created"
  | .migratedTo => "migrated_to"
  | .migratedFrom => "migrated_from"
  | .other => "???"

/-- `json_pack_service`: the type, and what belongs to it. -/
def jsonPackService (E : Env) (action : Action) : Option Json := do
  let res ← setString "type" (some (lit (actionType action))) (.object [])
  match action with
  | .chatCreate title | .chatEditTitle title | .channelCreate title => setString "title" title res
  | .chatAddUsers users => do
    let user ← jsonPackPeer E (mkUser (← users.head?))
    jsonObjectSet res "user" (some user)
  | .chatAddUserByLink user | .chatDeleteUser user => do
    let user ← jsonPackPeer E (mkUser user)
    jsonObjectSet res "user" (some user)
  | .setMessageTtl ttl => setInteger "ttl" ttl res
  | .readMessages cnt | .deleteMessages cnt | .screenshotMessages cnt =>
    setInteger "count" cnt res
  | .notifyLayer layer => setInteger "layer" layer res
  | .typing status => do
    -- `res` is an object
    let typing ← jsonPackTyping status
    jsonArrayAppend res (some typing)
  | _ => some res

/-! ### Messages -/

/-- The id of the message that is replied to. -/
def replyMsgId (M : Message) : MsgId := { M.permanent with id := M.replyId }

/-- The fields of every message that is created. -/
def packHeader (E : Env) (M : Message) (res : Json) : Option Json := do
  let res ← setInteger "flags" M.flags res
  let res ← (if M.fwdFromId.peerType = .other 0 then some res
    else do
      let fwd ← jsonPackPeer E M.fwdFromId
      let res ← jsonObjectSet res "fwd_from" (some fwd)
      setInteger "fwd_date" M.fwdDate res)
  let res ← (if M.replyId = 0 then some res
    else setString "reply_id" (some (printPermanentMsgId E (replyMsgId M))) res)
  let res ← (if M.mention then setBoolean "mention" true res else some res)
  let sender ← jsonPackPeer E M.fromId
  let res ← jsonObjectSet res "from" (some sender)
  let receiver ← jsonPackPeer E M.toId
  let res ← jsonObjectSet res "to" (some receiver)
  let res ← setBoolean "out" M.out res
  let res ← setBoolean "unread" M.unread res
  let res ← setBoolean "service" M.service res
  setInteger "date" M.date res

/-- The text and the media. -/
def packContent (E : Env) (M : Message) (res : Json) : Option Json := do
  let res ← (if M.messageLen = 0 ∨ M.message = none then some res
    else setString "text" M.message res)
  if M.media = .none then some res
  else do
    let media ← jsonPackMedia E M
    jsonObjectSet res "media" (some media)

/-- The event and the action of a service message. -/
def packAction (E : Env) (M : Message) (res : Json) : Option Json := do
  let res ← setString "event" (some (lit "service")) res
  let action ← jsonPackService E M.action
  jsonObjectSet res "action" (some action)

def jsonPackMessage (E : Env) (M : Message) : Option Json := do
  let res ← setString "event" (some (lit "message")) (.object [])
  let res ← setString "id" (some (printPermanentMsgId E M.permanent)) res
  if !M.created then some res
  else do
    let res ← packHeader E M res
    if M.service then packAction E M res else packContent E M res

end TelegramCli.Json.Pack
