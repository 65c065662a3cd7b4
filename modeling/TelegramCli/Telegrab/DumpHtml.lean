import TelegramCli.Lib.CNumber
import TelegramCli.Telegrab.Escape
import TelegramCli.Tgl

/-! # The fragment of a message

`dumpMessageHtml` is the fragment `dump_message_html` appends to the chat's file, as the pieces its
`xsprintf` calls print in order: the texts of the format strings, what the conversions of numbers
and dates generate, and the strings, printed as they are (`raw`), through `htmlspecialchars`
(`escaped`) or through `htmlspecialchars` and `nl2br` (`body`). `none` is a failed assertion or an
access through a null or an uninitialised pointer. Files, downloads and the chat list are not
modelled. -/

namespace TelegramCli.Telegrab.DumpHtml

open TelegramCli.Lib.CNumber TelegramCli.Lib.CString TelegramCli.Lib.Tags TelegramCli.Tgl
open TelegramCli.Telegrab.Escape

/-! ### Numbers -/

/-- Digits, the sign, and the separators of a date. -/
def isNumeric (c : UInt8) : Bool := c = 32 || c = 45 || (47 ≤ c && c ≤ 58)

theorem plain_of_numeric {s : List UInt8} (h : s.all isNumeric = true) : Plain s := by
  have hne : ∀ c : UInt8, isNumeric c = false → c ∉ s := fun c hc hmem => by
    rw [List.all_eq_true.mp h c hmem] at hc
    exact absurd hc (by decide)
  exact ⟨hne _ (by decide), hne _ (by decide), hne _ (by decide), hne _ (by decide)⟩

theorem decimalNat_numeric (n : ℕ) : (decimalNat n).all isNumeric = true := by
  rw [decimalNat]
  split_ifs with h
  · decide
  · rw [List.all_map, List.all_reverse, List.all_eq_true]
    intro d hd
    have hlt : d < 10 := Nat.digits_lt_base (by decide) hd
    interval_cases d <;> decide

theorem decimal_numeric (n : ℤ) : (decimal n).all isNumeric = true := by
  rw [decimal]
  split_ifs
  · rw [List.all_cons, decimalNat_numeric]; decide
  · exact decimalNat_numeric _

theorem decimal2_numeric (n : ℤ) : (decimal2 n).all isNumeric = true := by
  rw [decimal2]
  split_ifs
  · rw [List.all_cons, decimal_numeric]; decide
  · exact decimal_numeric n

/-! ### Pieces -/

/-- Text between the conversions of a format string. No conversion stands inside a tag's name. -/
abbrev Format := {s : List UInt8 // Settled s}

/-- Text a conversion of a number or a date generates. -/
abbrev Generated := {s : List UInt8 // Plain s}

inductive Piece
  | text (s : Format)
  | generated (s : Generated)
  | raw (s : List UInt8)
  | escaped (s : List UInt8)
  | body (s : List UInt8)

/-- What is printed. -/
def Piece.bytes : Piece → List UInt8
  | .text s => s.1
  | .generated s => s.1
  | .raw s => s
  | .escaped s => htmlspecialchars s
  | .body s => nl2br (htmlspecialchars s)

/-- The bytes of the fragment. -/
def html (ps : List Piece) : List UInt8 := ps.flatMap Piece.bytes

/-- A piece of a format string. -/
def txt (s : String) (h : Settled (lit s) := by decide) : Piece := .text ⟨lit s, h⟩

/-- `%s` of a string as it is. -/
def str : Str → Piece
  | none => txt "(null)"
  | some s => .raw s

/-- `%d` and `%lld` as a piece. -/
def num (n : ℤ) : Piece := .generated ⟨decimal n, plain_of_numeric (decimal_numeric n)⟩

/-- `struct tm`. -/
structure Tm where
  hour : ℤ
  min : ℤ
  sec : ℤ
  mday : ℤ
  mon : ℤ
  year : ℤ

/-- `date2string`. -/
def date2string (tm : Tm) : List UInt8 :=
  decimal2 tm.hour ++ [58] ++ decimal2 tm.min ++ [58] ++ decimal2 tm.sec ++ [32] ++
    decimal2 tm.mon ++ [47] ++ decimal2 tm.mday ++ [47] ++ decimal (tm.year + 1900)

theorem date2string_numeric (tm : Tm) : (date2string tm).all isNumeric = true := by
  simp only [date2string, List.all_append, decimal2_numeric, decimal_numeric, Bool.true_and]
  decide

/-! ### The environment -/

/-- What the function asks for: the library's peers, the clock, random numbers, the printing of a
`double` with `%.6lf`, and `u8_is_rtl`, which looks at the byte behind the terminator and so depends
on more than the string. -/
structure Env where
  peerGet : PeerId → Option Peer
  ourId : PeerId
  cmpPeerId : PeerId → PeerId → ℤ
  localtime : ℤ → Tm
  rand : ℕ × ℕ
  fmtReal : Double → Generated
  u8IsRtl : List UInt8 → Bool

/-- The value of `tgl_get_peer_type`, as far as its sign goes. -/
def peerTypePos : PeerType → Bool
  | .other n => 0 < n
  | _ => true

/-! ### Names -/

/-- The bytes `%s` prints. -/
def Str.print (s : Str) : List UInt8 := s.getD (lit "(null)")

/-- `!s || !strlen (s)`. -/
def Str.isEmpty (s : Str) : Bool := s.getD [] = []

def getPeerTitle (P : Peer) : List UInt8 :=
  match P.id.peerType with
  | .user =>
    if P.deleted then lit "deleted user#" ++ decimal P.id.peerId
    else if !P.created then lit "user#" ++ decimal P.id.peerId
    else if Str.isEmpty P.firstName then Str.print P.lastName
    else if Str.isEmpty P.lastName then Str.print P.firstName
    else Str.print P.firstName ++ lit " " ++ Str.print P.lastName
  | .chat => Str.print P.title
  | .channel => Str.print P.title
  | .encrChat => Str.print P.printName
  | _ => lit "unknown#" ++ decimal P.id.peerId

def getPeerFilename (P : Peer) : List Piece :=
  match P.id.peerType with
  | .user => [txt "user_", num P.id.peerId]
  | .chat => [txt "chat_", num P.id.peerId]
  | .channel => [txt "channel_", num P.id.peerId]
  | .encrChat => [txt "encrypted-chat_", num P.id.peerId]
  | _ => [txt "unknown_", num P.id.peerId]

/-- `strrchr`: the string from the last `c` on. -/
def strrchr (c : UInt8) : List UInt8 → Option (List UInt8)
  | [] => none
  | d :: p =>
    match strrchr c p with
    | some q => some q
    | none => if d = c then some (d :: p) else none

def getExtension (filename : List UInt8) : List UInt8 :=
  match strrchr 46 filename with
  | none => lit "dat"
  | some dot => if dot.length = filename.length then lit "dat" else dot.drop 1

/-- The path `create_download_file` makes up for a new file of the folder. -/
def createDownloadFile (E : Env) (folder : List Piece) (extension : Piece) : List Piece :=
  [txt "grab/"] ++ folder ++ [txt "/", num E.rand.1, num E.rand.2, txt ".", extension]

/-- The variable `extension` of the document branches; without a flag and a caption it is not
initialised. -/
def extension (d : Document) : Option Piece :=
  if d.image then some (txt "jpg")
  else if d.audio then some (txt "mp3")
  else if d.video then some (txt "avi")
  else if d.sticker then some (txt "png")
  else d.caption.map fun c => .raw (getExtension c)

/-! ### The fragment -/

def senderThumbnail (sender : Peer) : List Piece :=
  [ txt "<a href='https://telegram.me/", str sender.username,
    txt "'><object class='avatar' data='_html/avatars/", num sender.id.peerId,
    txt ".jpg' type='image/jpg'>",
    txt "<img class='avatar' src='_html/avatars/default.jpg' /></object></a>" ]

def senderName (sender : Peer) : List Piece :=
  [ txt "\t<div class='sysem'><a href='https://telegram.me/", str sender.username, txt "'>",
    .escaped (getPeerTitle sender), txt "</a></div>\n" ]

def forwarded (fwd : Peer) : List Piece :=
  [ txt "\t<div class='sysem'>Forwarded from <a href='https://telegram.me/", str fwd.username,
    txt "'>", .escaped (getPeerTitle fwd), txt "</a></div>\n" ]

def reply (replyId : ℤ) : List Piece :=
  [ txt "\t<div class='sysem'>Reply to <a href='#message_", num replyId, txt "'>", num replyId,
    txt "</a></div>\n" ]

/-- A document, audio, video or encrypted document: the link to the file, with the caption of the
message or else the one of the document. -/
def documentPart (E : Env) (folder : List Piece) (document : Option Document) (caption : Str) :
    Option (List Piece) := do
  let d ← document
  let ext ← extension d
  return [txt "<div class='content'><a href='../"] ++ createDownloadFile E folder ext ++
    [txt "'>", str (if Str.isEmpty caption then d.caption else caption), txt "</a>"]

/-- An optional field of a webpage or a venue. -/
def field (label : Piece) : Str → List Piece
  | none => []
  | some s => [label, .raw s, txt "'"]

/-- The branches on the type of the media. -/
def mediaPart (E : Env) (folder : List Piece) : Media → Option (List Piece)
  | .none => some []
  | .photo photo caption => do
    let _ ← photo
    let imageFile := createDownloadFile E folder (txt "jpg")
    return [txt "<a href='../"] ++ imageFile ++ [txt "'><img src='../"] ++ imageFile ++
      [txt "' class='media' /></a><div class='content'>", caption.elim (txt "") .raw]
  | .document d caption => documentPart E folder d caption
  | .audio d caption => documentPart E folder d caption
  | .video d caption => documentPart E folder d caption
  | .documentEncr d caption => documentPart E folder d caption
  | .geo g => some [
      txt "<div class='content'><a href='https://maps.google.com/?q=",
      .generated (E.fmtReal g.latitude), txt ",", .generated (E.fmtReal g.longitude),
      txt "'>Map Location</a>" ]
  | .contact phone firstName lastName => some [
      txt "<div class='content'>Contact: ", str firstName, txt " ", str lastName, txt " (",
      str phone, txt ")" ]
  | .unsupported => some [txt "<div class='content'>[Unsupported Message]"]
  | .webpage webpage caption => do
    let w ← webpage
    return [txt "\t<div class='content'>"] ++
      caption.elim [] (fun c => [txt "<a href='", .raw c, txt "'>", .raw c, txt "</a>"]) ++
      field (txt " url:'") w.url ++ field (txt " title:'") w.title ++
      field (txt " description:'") w.description ++ field (txt " author:'") w.author
  | .venue g title address provider venueId => some (
      [ txt "<div class='content'><a href='https://maps.google.com/?q=",
        .generated (E.fmtReal g.latitude), txt ",", .generated (E.fmtReal g.longitude),
        txt "'>Venue</a>" ] ++
      field (txt " title:'") title ++ field (txt " address:'") address ++
      field (txt " provider:'") provider ++ field (txt " id:'") venueId)
  | .other => some [txt "\t<div class='content'>", txt "[Unknown Media]"]

/-- The text of the message. -/
def bodyPart (E : Env) (message : Str) : List Piece :=
  match message with
  | none => []
  | some [] => []
  | some (c :: m) =>
    [ txt "\t<div class='content'", if E.u8IsRtl (c :: m) then txt " dir='rtl'" else txt "",
      txt ">", .body (c :: m) ]

/-- The dialog is a group, a secret chat or a channel. -/
def isGroup : PeerType → Bool
  | .chat => true
  | .encrChat => true
  | .geoChat => true
  | .channel => true
  | _ => false

/-- The peer whose file the message goes to. -/
def chatPeer (E : Env) (M : Message) : Option Peer :=
  if M.toId.peerType = .user then
    if M.out then E.peerGet M.toId else E.peerGet M.fromId
  else E.peerGet M.toId

/-- The class of the message's `div`, where `own` says that the sender of a group message is the
user. -/
def operation (M : Message) (own : Bool) : Piece :=
  if M.toId.peerType = .user then
    if M.out then txt "send" else txt "receive"
  else if isGroup M.toId.peerType && own then txt "send" else txt "receive"

/-- The sender, where a group message shows one: not the user. -/
def shownSender (E : Env) (M : Message) : Option (Option Peer) :=
  if isGroup M.toId.peerType then do
    let sender ← E.peerGet M.fromId
    return if E.cmpPeerId sender.id E.ourId = 0 then none else some sender
  else some none

/-- The peer a message is forwarded from. -/
def forwardedFrom (E : Env) (M : Message) : Option (Option Peer) :=
  if peerTypePos M.fwdFromId.peerType then (E.peerGet M.fwdFromId).map some else some none

def dumpMessageHtml (E : Env) (M : Message) : Option (List Piece) := do
  let sender ← shownSender E M
  let chat ← chatPeer E M
  let fwd ← forwardedFrom E M
  let chatFolder := getPeerFilename chat ++ [txt "_files"]
  let media ← mediaPart E chatFolder M.media
  return [ txt "<div class='message_container'><a name='message_", num M.permanentId,
      txt "'></a>" ] ++
    sender.elim [] senderThumbnail ++
    [txt "<div class='message ", operation M sender.isNone, txt "'>\n"] ++
    sender.elim [] senderName ++
    fwd.elim [] forwarded ++
    (if M.replyId ≠ 0 then reply M.replyId else []) ++
    media ++
    bodyPart E M.message ++
    [ txt "<span class='date'>",
      .generated ⟨date2string (E.localtime M.date), plain_of_numeric (date2string_numeric _)⟩,
      txt "</span></div>", txt "</div><!-- msgid: ", num M.permanentId, txt " --></div>\n" ]

end TelegramCli.Telegrab.DumpHtml
