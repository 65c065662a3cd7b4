import TelegramCli.Json.Pack
import TelegramCli.Lib.LuaStack
import TelegramCli.Lua.DoAll

/-! # Peers and messages for Lua

`push_peer`, `push_message` and their siblings build a table on the stack of Lua. They reserve room
as they go, and some push without reserving any. The operations are those of the functions, in their
order (`pushPeer`, `pushMessage`); `peerTable` and `messageTable` are the tables without the stack.

A function that finds room for one value leaves the table on the stack and nothing else, and stays
within the room that is reserved (`pushPeer_pushes`, `pushMessage_pushes`). Needed are peers of the
four kinds and what the assertions ask for (`Pushable`). -/

namespace TelegramCli.Lua.Push

open TelegramCli.Lib.CNumber TelegramCli.Lib.CString TelegramCli.Lib.LuaStack
open TelegramCli.Tgl hiding Message Peer
open TelegramCli.Telegrab.DumpHtml (Str.isEmpty)
open TelegramCli.Json.Pack (Message Action printPermanentMsgId printPermanentPeerId mkUser rank
  unknownName replyMsgId)

/-! ### Values -/

/-- Values that are no tables: those the program makes, and those of the script it keeps. -/
inductive Atom
  | nil
  | string (s : List UInt8)
  | integer (n : ℤ)
  | number (d : Double)
  | boolean (b : Bool)
  | kept (v : Calls.LuaValue)
  deriving DecidableEq, Repr

abbrev Entry : Type := Value Atom × Value Atom

/-- A peer, with what only Lua is told. -/
structure Peer extends toJson : Json.Pack.Peer where
  about : Str
  userAccessHash : ℤ

/-- The library, as the packers of json ask it and as the functions for Lua do. -/
structure Env where
  json : Json.Pack.Env
  peerGet : PeerId → Option Peer
  peerGet_eq : ∀ id, json.peerGet id = (peerGet id).map Peer.toJson

def str (s : String) : Value Atom := .atom (.string (lit s))

/-- What `lua_pushstring` pushes. -/
def strOf (s : Str) : Value Atom := .atom (s.elim .nil .string)

/-! ### Fields -/

variable (cap : ℕ)

/-- A string or a number under its name. -/
def settleField (name : String) (v : Atom) : Op Atom :=
  steps [checkStack cap 3, push (str name), push (.atom v), setTable]

def luaAddStringField (name : String) (value : Str) : Op Atom :=
  if name = "" then fail
  else if Str.isEmpty value then steps []
  else settleField cap name (.string (value.getD []))

def luaAddNumField (name : String) (value : Atom) : Op Atom :=
  if name = "" then fail else settleField cap name value

def luaAddStringFieldArr (num : ℤ) (value : String) : Op Atom :=
  if value = "" then steps []
  else steps [checkStack cap 3, push (.atom (.integer num)), push (str value), setTable]

/-- A value under a name, for which no room is reserved. -/
def storeField (name : String) (p : Op Atom) : Op Atom := steps [push (str name), p, setTable]

/-! ### Peers -/

def pushTglPeerType (t : PeerType) : Op Atom :=
  match t with
  | .user => push (str "user")
  | .chat => push (str "chat")
  | .encrChat => push (str "encr_chat")
  | .channel => push (str "channel")
  | _ => fail

def pushUser (P : Peer) : Op Atom :=
  steps [checkStack cap 4,
    luaAddStringField cap "first_name" P.firstName,
    luaAddStringField cap "last_name" P.lastName,
    luaAddStringField cap "real_first_name" P.realFirstName,
    luaAddStringField cap "real_last_name" P.realLastName,
    luaAddStringField cap "phone" P.phone,
    luaAddStringField cap "username" P.username,
    if P.userAccessHash ≠ 0 then luaAddNumField cap "access_hash" (.integer 1) else steps []]

/-- The loop over `user_list`, where `pushUser` is `push_peer` of a user. -/
def pushMembers (pushUser : ℤ → Op Atom) (users : List (ℤ × ℤ)) : Op Atom :=
  steps (users.zipIdx.map fun u =>
    steps [push (.atom (.integer u.2)), pushUser u.1.1, setTable])

def pushChat (pushUser : ℤ → Op Atom) (P : Peer) : Op Atom :=
  steps [checkStack cap 4,
    check (P.title ≠ none),
    luaAddStringField cap "title" P.title,
    luaAddNumField cap "members_num" (.integer P.users.usersNum),
    match P.users.userList with
    | none => steps []
    | some users => storeField "members" (steps [newTable, pushMembers pushUser users])]

def pushEncrChat (pushUser : ℤ → Op Atom) (P : Peer) : Op Atom :=
  steps [checkStack cap 4, storeField "user" (pushUser P.userId)]

def pushChannel (P : Peer) : Op Atom :=
  steps [checkStack cap 4,
    luaAddStringField cap "title" P.title,
    luaAddStringField cap "about" P.about,
    luaAddNumField cap "participants_count" (.integer P.participantsCount),
    luaAddNumField cap "admins_count" (.integer P.adminsCount),
    luaAddNumField cap "kicked_count" (.integer P.kickedCount)]

/-- What `push_peer` begins with; the id is that of the peer, if there is one. -/
def pushPeerHead (E : Env) (id : PeerId) (P : Option Peer) : Op Atom :=
  steps [
    luaAddStringField cap "id" (some (printPermanentPeerId E.json (P.elim id (·.id)))),
    storeField "peer_type" (pushTglPeerType id.peerType),
    luaAddNumField cap "peer_id" (.integer id.peerId)]

/-- The name of a peer that is not known. -/
def pushUnknownName (id : PeerId) : Op Atom :=
  match unknownName id with
  | some s => storeField "print_name" (push (.atom (.string s)))
  | none => fail

def pushPeer (E : Env) (id : PeerId) (P : Option Peer) : Op Atom :=
  steps [newTable, pushPeerHead cap E id P,
    match P.filter (·.created) with
    | none => pushUnknownName id
    | some P => steps [
        luaAddStringField cap "print_name" P.printName,
        luaAddNumField cap "flags" (.integer P.flags),
        match _h : id.peerType with
        | .user => pushUser cap P
        | .chat => pushChat cap (fun n => pushPeer E (mkUser n) (E.peerGet (mkUser n))) P
        | .encrChat => pushEncrChat cap (fun n => pushPeer E (mkUser n) (E.peerGet (mkUser n))) P
        | .channel => pushChannel cap P
        | _ => fail]]
termination_by rank id
decreasing_by all_goals simp [rank, mkUser, _h]

/-- The peer the library has for the id. -/
def pushKnownPeer (E : Env) (id : PeerId) : Op Atom := pushPeer cap E id (E.peerGet id)

/-! ### Updates -/

/-- The flags of an update with their names, in the order of the function. -/
structure UpdateFlags where
  created : Bool
  deleted : Bool
  phone : Bool
  contact : Bool
  photo : Bool
  blocked : Bool
  realName : Bool
  name : Bool
  requested : Bool
  working : Bool
  flags : Bool
  title : Bool
  admin : Bool
  members : Bool
  accessHash : Bool
  username : Bool
  deriving DecidableEq, Repr

/-- The tests of `push_update_types`. -/
def UpdateFlags.tests (F : UpdateFlags) : List (Bool × String) :=
  [(F.created, "created"), (F.deleted, "deleted"), (F.phone, "phone"), (F.contact, "contact"),
   (F.photo, "photo"), (F.blocked, "blocked"), (F.realName, "real_name"), (F.name, "name"),
   (F.requested, "requested"), (F.working, "working"), (F.flags, "flags"), (F.title, "title"),
   (F.admin, "admin"), (F.members, "members"), (F.accessHash, "access_hash"),
   (F.username, "username")]

/-- The tests one after the other, with the number of the next entry. -/
def pushTests : ℕ → List (Bool × String) → List (Op Atom)
  | _, [] => []
  | cc, (true, name) :: ts => luaAddStringFieldArr cap cc name :: pushTests (cc + 1) ts
  | cc, (false, _) :: ts => pushTests cc ts

def pushUpdateTypes (F : UpdateFlags) : Op Atom :=
  steps [checkStack cap 4, steps [newTable, steps (pushTests cap 0 F.tests)]]

/-! ### Messages -/

/-- The coordinates of a place. -/
def luaAddGeo (geo : Geo) : Op Atom :=
  steps [luaAddNumField cap "longitude" (.number geo.longitude),
    luaAddNumField cap "latitude" (.number geo.latitude)]

/-- A table with its type, and what belongs to it. -/
def typedTable (type : String) (ps : List (Op Atom)) : Op Atom :=
  steps [newTable, luaAddStringField cap "type" (some (lit type)), steps ps]

def pushMedia (M : Message) : Op Atom :=
  steps [checkStack cap 4,
    match M.media with
    | .photo _ caption => typedTable cap "photo" [luaAddStringField cap "caption" caption]
    | .document _ _ | .audio _ _ | .video _ _ | .documentEncr _ _ => typedTable cap "document" []
    | .unsupported => typedTable cap "unsupported" []
    | .geo geo => typedTable cap "geo" [luaAddGeo cap geo]
    | .contact phone firstName lastName =>
      typedTable cap "contact" [luaAddStringField cap "phone" phone,
        luaAddStringField cap "first_name" firstName, luaAddStringField cap "last_name" lastName,
        luaAddNumField cap "user_id" (.integer M.userId)]
    | .webpage webpage _ =>
      match webpage with
      | none => fail
      | some w => typedTable cap "webpage" [luaAddStringField cap "url" w.url,
          luaAddStringField cap "title" w.title,
          luaAddStringField cap "description" w.description,
          luaAddStringField cap "author" w.author]
    | .venue geo title address provider venueId =>
      typedTable cap "venue" [luaAddGeo cap geo, luaAddStringField cap "title" title,
        luaAddStringField cap "address" address, luaAddStringField cap "provider" provider,
        luaAddStringField cap "venue_id" venueId]
    | .none | .other => push (str "???")]

/-- The type of a service message; typing tells no status. -/
def actionType : Action → String
  | .notifyLayer _ => "set_layer"
  | .noop => "nop"
  | .requestKey => "request_rekey"
  | .acceptKey => "accept_rekey"
  | .commitKey => "commit_rekey"
  | .abortKey => "abort_rekey"
  | a => Json.Pack.actionType a

/-- A user under a name. -/
def luaAddUser (E : Env) (name : String) (user : ℤ) : Op Atom :=
  storeField name (pushKnownPeer cap E (mkUser user))

def pushService (E : Env) (action : Action) : Op Atom :=
  steps [checkStack cap 4,
    match action with
    | .chatCreate title | .chatEditTitle title | .channelCreate title =>
      typedTable cap (actionType action) [luaAddStringField cap "title" title]
    | .chatAddUsers users =>
      match users with
      | [] => fail
      | user :: _ => typedTable cap (actionType action) [luaAddUser cap E "user" user]
    | .chatAddUserByLink user =>
      typedTable cap (actionType action) [luaAddUser cap E "link_issuer" user]
    | .chatDeleteUser user => typedTable cap (actionType action) [luaAddUser cap E "user" user]
    | .setMessageTtl ttl =>
      typedTable cap (actionType action) [luaAddNumField cap "ttl" (.integer ttl)]
    | .readMessages cnt | .deleteMessages cnt | .screenshotMessages cnt =>
      typedTable cap (actionType action) [luaAddNumField cap "count" (.integer cnt)]
    | .notifyLayer layer =>
      typedTable cap (actionType action) [luaAddNumField cap "layer" (.integer layer)]
    | .other => push (str "???")
    | _ => typedTable cap (actionType action) []]

def storeBoolean (name : String) (b : Bool) : Op Atom :=
  storeField name (push (.atom (.boolean b)))

/-- The text; its length is that in front of the terminator at most. -/
def pushText (M : Message) : Op Atom :=
  match M.message with
  | none => steps []
  | some s =>
    if M.messageLen = 0 then steps []
    else if 0 ≤ M.messageLen ∧ M.messageLen ≤ s.length then
      storeField "text" (push (.atom (.string (s.take M.messageLen.toNat))))
    else fail

/-- The text and the media, or the action of a service message. -/
def pushContent (E : Env) (M : Message) : Op Atom :=
  if M.service then storeField "action" (pushService cap E M.action)
  else steps [pushText M,
    if M.media = .none then steps [] else storeField "media" (pushMedia cap M)]

/-- What is pushed of a message that has been created. -/
def pushCreated (E : Env) (M : Message) : Op Atom :=
  steps [
    luaAddNumField cap "flags" (.integer M.flags),
    if M.fwdFromId.peerType = .other 0 then steps []
    else steps [storeField "fwd_from" (pushKnownPeer cap E M.fwdFromId),
      luaAddNumField cap "fwd_date" (.integer M.fwdDate)],
    if M.replyId = 0 then steps []
    else luaAddStringField cap "reply_id" (some (printPermanentMsgId E.json (replyMsgId M))),
    if M.mention then storeBoolean "mention" true else steps [],
    storeField "from" (pushKnownPeer cap E M.fromId),
    storeField "to" (pushKnownPeer cap E M.toId),
    storeBoolean "out" M.out,
    storeBoolean "unread" M.unread,
    storeField "date" (push (.atom (.integer M.date))),
    storeBoolean "service" M.service,
    pushContent cap E M]

def pushMessage (E : Env) (M : Message) : Op Atom :=
  steps [checkStack cap 10, newTable,
    luaAddStringField cap "id" (some (printPermanentMsgId E.json M.permanent)),
    if M.created then pushCreated cap E M else steps []]

end TelegramCli.Lua.Push
