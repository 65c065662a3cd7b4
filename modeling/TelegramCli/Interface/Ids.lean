import TelegramCli.Interface.Token
import TelegramCli.Lib.CNumber
import TelegramCli.Tgl

/-! # Reading numbers and ids

The parsers the argument loop runs on an unquoted token. Each has a value that stands for failure:
`notFound` for numbers and doubles, an id with the number `notFound` for peers, a peer type of 0 for
messages. What the library knows about peers, the layout of its ids, and `strtod` are in `Env`. -/

namespace TelegramCli.Interface.Ids

open TelegramCli.Lib.CNumber TelegramCli.Lib.CString TelegramCli.Tgl

/-- `sizeof (tgl_peer_id_t)` and `sizeof (tgl_message_id_t)`, the ids made of these bytes,
`TGL_PEER_TEMP_ID`, `strtod` with the string at its end, and the lookups of peers. -/
structure Env where
  sizeofPeerId : ℕ
  sizeofMsgId : ℕ
  peerIdOf : List UInt8 → PeerId
  msgIdOf : List UInt8 → MsgId
  peerTempId : ℤ
  strtod : List UInt8 → Double × List UInt8
  peerGet : PeerId → Option Peer
  peerGetByName : List UInt8 → Option Peer
  lookupUsername : List UInt8 → Option Peer

/-- `NOT_FOUND`. -/
def notFound : ℤ := -2147483648

/-- `NOT_FOUND` as a `double`. -/
def notFoundDouble : Double := 0xC1E0000000000000

/-- `TGL_PEER_NOT_FOUND`. -/
def peerNotFound : PeerId := ⟨.other 0, notFound, 0⟩

def curTokenInt (tok : List UInt8) : ℤ :=
  if tok = [] then notFound
  else
    let (x, rest) := strtoll none tok
    if rest ≠ [] then notFound else x

def curTokenDouble (E : Env) (tok : List UInt8) : Double :=
  if tok = [] then notFoundDouble
  else
    let (x, rest) := E.strtod tok
    if rest ≠ [] then notFoundDouble else x

/-- A lower-case hexadecimal digit. -/
def isHex (c : UInt8) : Bool := (48 ≤ c && c ≤ 57) || (97 ≤ c && c ≤ 102)

/-- `hex2int`; `none` is its `assert (0)`. -/
def hex2int (c : UInt8) : Option ℕ :=
  if 48 ≤ c && c ≤ 57 then some (c.toNat - 48)
  else if 97 ≤ c && c ≤ 102 then some (c.toNat - 87)
  else none

/-- The bytes spelled by pairs of digits. -/
def hexBytes : List UInt8 → Option (List UInt8)
  | a :: b :: p => do
    let hi ← hex2int a
    let lo ← hex2int b
    let bs ← hexBytes p
    return UInt8.ofNat (hi * 16 + lo) :: bs
  | _ => some []

/-- The id whose `peer_type` is 0. -/
def msgIdZero : MsgId := ⟨0, 0, 0, 0⟩

/-- The check of the digits stops after `sizeof (tgl_message_id_t)` of them, the conversion does
not. -/
def parseInputMsgId (E : Env) (tok : List UInt8) : Option MsgId :=
  if tok = [] then some msgIdZero
  else if tok.length = 2 * E.sizeofMsgId then
    if (tok.take E.sizeofMsgId).all isHex then (hexBytes tok).map E.msgIdOf else some msgIdZero
  else
    let (x, rest) := strtoll none tok
    if rest ≠ [] then some msgIdZero else some { msgIdZero with peerType := E.peerTempId, id := x }

/-- The spellings of ids by number. -/
def idPrefixes : List (List UInt8 × PeerType) :=
  [(lit "user#id", .user), (lit "user#", .user), (lit "chat#id", .chat), (lit "chat#", .chat),
   (lit "secret_chat#id", .encrChat), (lit "secret_chat#", .encrChat),
   (lit "channel#id", .channel), (lit "channel#", .channel)]

/-- A peer that was looked up, if it is of the type asked for. -/
def masked (mask : Option PeerType) (P : Option Peer) : PeerId :=
  match P with
  | some P => if mask = none ∨ mask = some P.id.peerType then P.id else peerNotFound
  | none => peerNotFound

/-- `parse_input_peer_id`; no mask is 0. -/
def parseInputPeerId (E : Env) (tok : List UInt8) (mask : Option PeerType) : PeerId :=
  if tok = [] then peerNotFound
  else if deref tok = 36 then
    let s := tok.drop 1
    if s.length ≠ 2 * E.sizeofPeerId then peerNotFound
    else if !s.all isHex then peerNotFound
    else
      let res := E.peerIdOf ((hexBytes s).getD [])
      if mask ≠ none ∧ mask ≠ some res.peerType then peerNotFound else res
  else if deref tok = 64 then masked mask (E.lookupUsername (cstring (tok.drop 1)))
  else
    let sc := cstring tok
    match idPrefixes.find? fun (ss, tt) =>
        (mask = none || mask = some tt) && ss.length < tok.length && ss.isPrefixOf tok with
    | some (ss, tt) =>
      let r := atoi (sc.drop ss.length)
      if r < 0 then peerNotFound
      else ((E.peerGet ⟨tt, r, 0⟩).map Peer.id).getD peerNotFound
    | none => masked mask (E.peerGetByName sc)

end TelegramCli.Interface.Ids
