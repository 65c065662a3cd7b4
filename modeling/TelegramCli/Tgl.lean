/-! # The records of the library

The peers and messages the program gets from the library, with the fields it reads. A string is the
list of its bytes in front of the terminator, `none` is a null pointer, a flag of a flag word is a
Boolean. The members of a union that belong to one kind of value are the arguments of that kind's
constructor. -/

namespace TelegramCli.Tgl

/-- The string at a pointer that may be null. -/
abbrev Str := Option (List UInt8)

/-- The bit pattern of a `double`. -/
abbrev Double := BitVec 64

/-- `TGL_PEER_USER` and its siblings, which are positive numbers, or any other number. -/
inductive PeerType
  | user
  | chat
  | geoChat
  | encrChat
  | channel
  | other (n : Int)
  deriving DecidableEq, Repr

/-- Users, chats, channels and secret chats. -/
def PeerType.IsChat (t : PeerType) : Prop := t = .user ∨ t = .chat ∨ t = .channel ∨ t = .encrChat

/-- `tgl_peer_id_t`. -/
structure PeerId where
  peerType : PeerType
  peerId : Int
  accessHash : Int
  deriving DecidableEq, Repr

/-- `tgl_message_id_t`. -/
structure MsgId where
  peerType : Int
  peerId : Int
  id : Int
  accessHash : Int
  deriving DecidableEq, Repr

/-- `tgl_peer_t`; `phone` is the one of a user, `title` the one of a chat or a channel, and
`encrChatOk` says that a secret chat is in state `sc_ok`. -/
structure Peer where
  id : PeerId
  printName : Str
  username : Str
  phone : Str
  encrChatOk : Bool
  deleted : Bool
  created : Bool
  firstName : Str
  lastName : Str
  title : Str
  deriving DecidableEq, Repr

/-- `struct tgl_document` and `struct tgl_encr_document`. -/
structure Document where
  caption : Str
  image : Bool
  audio : Bool
  video : Bool
  sticker : Bool
  deriving DecidableEq, Repr

structure Webpage where
  url : Str
  title : Str
  description : Str
  author : Str
  deriving DecidableEq, Repr

structure Geo where
  latitude : Double
  longitude : Double
  deriving DecidableEq, Repr

/-- `struct tgl_message_media`, one constructor for each type the program knows. A photo, document
or webpage is a pointer. -/
inductive Media
  | none
  | photo (photo : Option Unit) (caption : Str)
  | document (document : Option Document) (caption : Str)
  | audio (document : Option Document) (caption : Str)
  | video (document : Option Document) (caption : Str)
  | documentEncr (encrDocument : Option Document) (caption : Str)
  | geo (geo : Geo)
  | contact (phone firstName lastName : Str)
  | unsupported
  | webpage (webpage : Option Webpage) (caption : Str)
  | venue (geo : Geo) (title address provider venueId : Str)
  | other
  deriving DecidableEq, Repr

/-- `struct tgl_message`. -/
structure Message where
  permanentId : Int
  out : Bool
  service : Bool
  fwdFromId : PeerId
  fromId : PeerId
  toId : PeerId
  replyId : Int
  date : Int
  message : Str
  media : Media
  deriving DecidableEq, Repr

end TelegramCli.Tgl
