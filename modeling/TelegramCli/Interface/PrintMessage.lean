import TelegramCli.Interface.Console

/-! # Messages on the console

`print_message` prints a message in colors. Of every pair of a push and a pop one may stand in a
nested printer or in another branch than the other. Whatever the message, the stack of colors is
empty again at the end, is never popped when it is empty, and needs room for three colors
(`print_message_balanced`).

The records add to those of the library what only the printers read. What `dump_message` does at the
end has no part in the colors. -/

namespace TelegramCli.Interface.PrintMessage

open TelegramCli.Lib.CNumber TelegramCli.Lib.CString TelegramCli.Lib.Brackets
open TelegramCli.Tgl hiding Peer Message
open TelegramCli.Telegrab.DumpHtml (Tm Str.print Str.isEmpty peerTypePos)
open TelegramCli.Json.Pack (Action TypingStatus typingText mkUser hexFixed)
open TelegramCli.Interface.Console
open TelegramCli.Interface.UnknownUsers (addUnknown)

/-! ### Records -/

/-- The fields of a document that are printed. -/
structure DocumentInfo where
  mimeType : Str
  w : ℤ
  h : ℤ
  duration : ℤ
  size : ℤ

/-- The fields of `action`. The actions the library has and the json packer does not know are `other`
there, and `noAction` is one of them. -/
structure ActionInfo where
  noAction : Bool
  userNum : ℤ
  title : Str
  exchangeId : BitVec 64

/-- `struct tgl_message`; the document is that of the media. -/
structure Message extends packed : Json.Pack.Message where
  empty : Bool
  deleted : Bool
  tempId : ℤ
  photoCaption : Str
  document : DocumentInfo
  actionInfo : ActionInfo

/-- The library also has the messages; a reply asks for the `temp_id` of one. -/
structure Env extends Console.Env where
  messageGet : MsgId → Option ℤ

/-! ### Media -/

/-- A text around a string, if there is one. -/
def around (before : String) (s : Str) (after : String) : List UInt8 :=
  s.elim [] fun s => lit before ++ s ++ lit after

def sizeText (size : ℤ) : List UInt8 :=
  if size < 2 ^ 10 then decimal size ++ lit "B"
  else if size < 2 ^ 20 then decimal (size / 2 ^ 10) ++ lit "KiB"
  else if size < 2 ^ 30 then decimal (size / 2 ^ 20) ++ lit "MiB"
  else decimal (size / 2 ^ 30) ++ lit "GiB"

/-- The text of a document, secret or not. -/
def documentText (d : Document) (info : DocumentInfo) : List UInt8 :=
  lit "[" ++
  lit (if d.image then "image" else if d.audio then "audio" else if d.video then "video"
    else if d.sticker then "sticker" else "document") ++
  (if !Str.isEmpty d.caption then lit " " ++ Str.print d.caption ++ lit ":" else lit ":") ++
  around " type=" info.mimeType "" ++
  (if info.w ≠ 0 ∧ info.h ≠ 0 then lit " size=" ++ decimal info.w ++ lit "x" ++ decimal info.h
    else []) ++
  (if info.duration ≠ 0 then lit " duration=" ++ decimal info.duration else []) ++
  lit " size=" ++ sizeText info.size ++ lit "]"

def printMedia (E : Env) (M : Message) : Print :=
  match M.media with
  | .none => steps []
  | .photo photo caption => steps
    [mprintf
      (if photo = none then lit "[photo bad]"
      else if !Str.isEmpty M.photoCaption then
        lit "[photo " ++ Str.print M.photoCaption ++ lit "]"
      else lit "[photo]"),
     mprintf (around " " caption "")]
  | .document document caption | .audio document caption | .video document caption =>
    behindPointer document fun d => steps
      [mprintf (documentText d M.document), mprintf (around " " caption "")]
  | .documentEncr document _ => behindPointer document fun d =>
    mprintf (documentText d M.document)
  | .geo geo => mprintf
    (lit "[geo https://maps.google.com/?q=" ++ E.fmtReal geo.latitude ++ lit "," ++
      E.fmtReal geo.longitude ++ lit "]")
  | .contact phone firstName lastName => steps
    [mprintf (lit "[contact] "),
     mpushColor E.toEnv .red,
     mprintf (Str.print firstName ++ lit " " ++ Str.print lastName ++ lit " "),
     mpopColor E.toEnv,
     mprintf (Str.print phone)]
  | .unsupported => mprintf (lit "[unsupported]")
  | .webpage webpage _ => behindPointer webpage fun W => mprintf
    (lit "[webpage:" ++ around " url:'" W.url "'" ++ around " title:'" W.title "'" ++
      around " description:'" W.description "'" ++ around " author:'" W.author "'" ++ lit "]")
  | .venue geo title address provider venueId => mprintf
    (lit "[geo https://maps.google.com/?q=" ++ E.fmtReal geo.latitude ++ lit "," ++
      E.fmtReal geo.longitude ++ around " title:'" title "'" ++ around " address:'" address "'" ++
      around " provider:'" provider "'" ++ around " id:'" venueId "'" ++ lit "]")
  | .other => assertKind False

/-! ### Service messages -/

def printTyping (status : TypingStatus) : Print :=
  mprintf (if status = .other then [] else lit (typingText status))

/-- `print_user_name` of a user by its number. -/
def printUserById (E : Env) (user : ℤ) : Print :=
  printUserName E.toEnv (mkUser user) (E.peerGet (mkUser user))

/-- The text of a rekeying. -/
def keyText (word : String) (exchangeId : BitVec 64) : List UInt8 :=
  lit word ++ lit " rekey #" ++ hexFixed 16 exchangeId.toNat ++ lit "\n"

/-- The `switch` over the actions. -/
def printAction (E : Env) (M : Message) : Print :=
  let info := M.actionInfo
  if info.noAction then mprintf (lit "\n")
  else
    match M.action with
    | .geoChatCreate => mprintf (lit "Created geo chat\n")
    | .geoChatCheckin => mprintf (lit "Checkin in geochat\n")
    | .chatCreate title => mprintf
      (lit " created chat " ++ Str.print title ++ lit ". " ++ decimal info.userNum ++ lit " users\n")
    | .chatEditTitle title => mprintf (lit " changed title to " ++ Str.print title ++ lit "\n")
    | .chatEditPhoto => mprintf (lit " changed photo\n")
    | .chatDeletePhoto => mprintf (lit " deleted photo\n")
    | .chatAddUsers users => steps
      [mprintf (lit " added users:"), steps (users.map (printUserById E)), mprintf (lit "\n")]
    | .chatAddUserByLink user => steps
      [mprintf (lit " added by link from "), printUserById E user, mprintf (lit "\n")]
    | .chatDeleteUser user => steps
      [mprintf (lit " deleted user "), printUserById E user, mprintf (lit "\n")]
    | .setMessageTtl ttl => mprintf
      (lit " set ttl to " ++ decimal ttl ++ lit " seconds. Unsupported yet\n")
    | .readMessages cnt => mprintf (lit " " ++ decimal cnt ++ lit " messages marked read\n")
    | .deleteMessages cnt => mprintf (lit " " ++ decimal cnt ++ lit " messages deleted\n")
    | .screenshotMessages cnt => mprintf (lit " " ++ decimal cnt ++ lit " messages screenshoted\n")
    | .flushHistory => mprintf (lit " cleared history\n")
    | .resend => mprintf (lit " resend query\n")
    | .notifyLayer layer => mprintf (lit " updated layer to " ++ decimal layer ++ lit "\n")
    | .typing status => steps [mprintf (lit " is "), printTyping status]
    | .noop => mprintf (lit " noop\n")
    | .requestKey => mprintf (keyText " request" info.exchangeId)
    | .acceptKey => mprintf (keyText " accept" info.exchangeId)
    | .commitKey => mprintf (keyText " commit" info.exchangeId)
    | .abortKey => mprintf (keyText " abort" info.exchangeId)
    | .channelCreate title => mprintf (lit " created channel " ++ Str.print title ++ lit "\n")
    | .migratedTo => mprintf (lit " migrated to channel\n")
    | .migratedFrom => mprintf (lit " migrated from group '" ++ Str.print info.title ++ lit "'\n")
    | .other => steps []

def printServiceMessage (E : Env) (M : Message) : Print := steps
  [mpushColor E.toEnv .grey,
   if M.toId.peerType = .channel then mpushColor E.toEnv .cyan else mpushColor E.toEnv .magenta,
   printMsgId E.toEnv M.permanent (some M.tempId),
   mprintf (lit " "),
   printDate E.toEnv M.date,
   mpopColor E.toEnv,
   mprintf (lit " "),
   if M.toId.peerType = .chat then printChatName E.toEnv M.toId (E.peerGet M.toId)
   else if M.toId.peerType = .channel then printChannelName E.toEnv M.toId (E.peerGet M.toId)
   else steps
    [assertKind (M.toId.peerType = .encrChat),
     printEncrChatName E.toEnv M.toId (E.peerGet M.toId)],
   if M.fromId.peerType = .user then steps
    [mprintf (lit " "), printUserName E.toEnv M.fromId (E.peerGet M.fromId)]
   else steps [],
   printAction E M,
   mpopColor E.toEnv]

/-! ### Messages -/

/-- The arrow of a message that was received or sent. -/
def arrow (out unread : Bool) : Print :=
  mprintf (lit (if out then (if unread then " <<< " else " ««« ")
    else (if unread then " >>> " else " »»» ")))

/-- The id, a space and the date. -/
def printStamp (E : Env) (M : Message) : Print := steps
  [printMsgId E.toEnv M.permanent (some M.tempId), mprintf (lit " "), printDate E.toEnv M.date]

/-- The part in front of the text for a message to a user. -/
def userHead (E : Env) (M : Message) : Print :=
  if M.out then steps
    [mpushColor E.toEnv .green, printStamp E M, mpopColor E.toEnv, mprintf (lit " "),
     printUserName E.toEnv M.toId (E.peerGet M.toId),
     mpushColor E.toEnv .green,
     arrow true M.unread]
  else steps
    [mpushColor E.toEnv .blue, printStamp E M, mpopColor E.toEnv, mprintf (lit " "),
     printUserName E.toEnv M.fromId (E.peerGet M.fromId),
     mpushColor E.toEnv .blue,
     arrow false M.unread]

/-- For a secret chat the name is in its own color, and the first one is not popped. -/
def encrChatHead (E : Env) (M : Message) : Print :=
  behindPointer (E.peerGet M.toId) fun P =>
    if M.unread then steps
      [mpushColor E.toEnv .green, printStamp E M, mprintf (lit " "),
       mpushColor E.toEnv .cyan, mprintf (lit " " ++ Str.print P.printName), mpopColor E.toEnv,
       arrow true M.unread]
    else steps
      [mpushColor E.toEnv .blue, printStamp E M,
       mpushColor E.toEnv .cyan, mprintf (lit " " ++ Str.print P.printName), mpopColor E.toEnv,
       arrow false M.unread]

/-- The color behind the name of a sender. -/
def pushSender (E : Env) (M : Message) : Print :=
  if E.cmpPeerId M.fromId E.ourId = 0 then mpushColor E.toEnv .green
  else mpushColor E.toEnv .blue

def chatHead (E : Env) (M : Message) : Print := steps
  [mpushColor E.toEnv .magenta, printStamp E M, mpopColor E.toEnv, mprintf (lit " "),
   printChatName E.toEnv M.toId (E.peerGet M.toId),
   mprintf (lit " "),
   printUserName E.toEnv M.fromId (E.peerGet M.fromId),
   pushSender E M,
   arrow false M.unread]

def channelHead (E : Env) (M : Message) : Print := steps
  [assertKind (M.toId.peerType = .channel),
   mpushColor E.toEnv .cyan, printStamp E M, mpopColor E.toEnv, mprintf (lit " "),
   printChannelName E.toEnv M.toId (E.peerGet M.toId),
   if M.fromId.peerType = .user then steps
    [mprintf (lit " "), printUserName E.toEnv M.fromId (E.peerGet M.fromId), pushSender E M]
   else mpushColor E.toEnv .blue,
   arrow false M.unread]

/-- The four ways a message begins; they leave one color pushed. -/
def printHead (E : Env) (M : Message) : Print :=
  if M.toId.peerType = .user then userHead E M
  else if M.toId.peerType = .encrChat then encrChatHead E M
  else if M.toId.peerType = .chat then chatHead E M
  else channelHead E M

/-- The part behind the arrow. -/
def printBody (E : Env) (M : Message) : Print := steps
  [if peerTypePos M.fwdFromId.peerType then steps
    [mprintf (lit "[fwd from "),
     printPeerName E.toEnv M.fwdFromId (E.peerGet M.fwdFromId),
     mprintf (lit " "), printDate E.toEnv M.date, mprintf (lit "] ")]
   else steps [],
   if M.replyId ≠ 0 then
    let msgId : MsgId := { M.permanent with id := M.replyId }
    steps [mprintf (lit "[reply to "), printMsgId E.toEnv msgId (E.messageGet msgId),
      mprintf (lit "] ")]
   else steps [],
   if M.mention then mprintf (lit "[mention] ") else steps [],
   if !Str.isEmpty M.message then mprintf (Str.print M.message) else steps [],
   if M.media ≠ .none then steps
    [if !Str.isEmpty M.message then mprintf (lit " ") else steps [], printMedia E M]
   else steps []]

def printMessage (E : Env) (M : Message) : Print :=
  if M.empty || M.deleted then steps []
  else if !M.created then steps []
  else if M.service then printServiceMessage E M
  else if M.toId.peerType = .other 0 then mprintf (E.logprintf (lit "Bad msg\n"))
  else steps
    [steps [printHead E M, printBody E M, mpopColor E.toEnv], assertEmpty, mprintf (lit "\n")]

/-! ### Kinds -/

/-- The assertions on the kinds of peers and media, each where it is reached. -/
structure Kinds (M : Message) : Prop where
  service : M.service = true →
    M.toId.peerType = .chat ∨ M.toId.peerType = .channel ∨ M.toId.peerType = .encrChat
  toId : M.service = false → M.toId.peerType = .other 0 ∨ M.toId.peerType.IsChat
  fromId : M.service = false →
    M.toId.peerType = .chat ∨ (M.toId.peerType = .user ∧ M.out = false) →
    M.fromId.peerType = .user
  fwdFromId : M.service = false → peerTypePos M.fwdFromId.peerType = true →
    M.fwdFromId.peerType.IsChat
  media : M.service = false → M.media ≠ .other

/-- What stands in the media is there. -/
def MediaPresent : Media → Prop
  | .document document _ | .audio document _ | .video document _ => document ≠ none
  | .documentEncr document _ => document ≠ none
  | .webpage webpage _ => webpage ≠ none
  | _ => True

/-- How a message whose kinds are right can fail: the secret chat, the document or the web page is
missing, or the list of unknown users has no room for one more. -/
def MayFail (E : Env) (M : Message) : Fault → Prop
  | .kind => False
  | .pointer => (M.toId.peerType = .encrChat ∧ E.peerGet M.toId = none) ∨ ¬ MediaPresent M.media
  | .unknownUser users id => E.peerGet id = none ∧ addUnknown users id.peerId = none

/-! ### The stack of colors -/

section Stack

variable {E : Env} {F : Fault → Prop} {M : Message} {n a b : ℕ}

theorem levels_printMedia (hkind : M.media ≠ .other) (hF : ¬ MediaPresent M.media → F .pointer) :
    Levels E.colors F 1 0 0 (printMedia E M) := by
  have hdocument : ∀ (document : Option Document) (caption : Str),
      (document = none → F .pointer) →
      Levels E.colors F 1 0 0 (behindPointer document fun d => steps
        [mprintf (documentText d M.document), mprintf (around " " caption "")]) :=
    fun document caption h => levels_behindPointer h fun d _ =>
      levels_cons (levels_mprintf _ _) (levels_cons (levels_mprintf _ _) levels_nil)
  unfold printMedia
  cases hmedia : M.media with
  | none => exact levels_nil
  | photo photo caption =>
    exact levels_cons (levels_mprintf _ _) (levels_cons (levels_mprintf _ _) levels_nil)
  | document document caption =>
    exact hdocument document caption fun h => hF (by rw [hmedia, h]; exact fun hne => hne rfl)
  | audio document caption =>
    exact hdocument document caption fun h => hF (by rw [hmedia, h]; exact fun hne => hne rfl)
  | video document caption =>
    exact hdocument document caption fun h => hF (by rw [hmedia, h]; exact fun hne => hne rfl)
  | documentEncr document caption =>
    exact levels_behindPointer (fun h => hF (by rw [hmedia, h]; exact fun hne => hne rfl))
      fun d _ => levels_mprintf _ _
  | geo geo => exact levels_mprintf _ _
  | contact phone firstName lastName =>
    exact levels_cons (levels_mprintf _ _)
      (levels_cons (levels_push draw .red Nat.zero_lt_one)
        (levels_cons (levels_mprintf _ _)
          (levels_cons (levels_pop draw) (levels_cons (levels_mprintf _ _) levels_nil))))
  | unsupported => exact levels_mprintf _ _
  | webpage webpage caption =>
    exact levels_behindPointer (fun h => hF (by rw [hmedia, h]; exact fun hne => hne rfl))
      fun W _ => levels_mprintf _ _
  | venue geo title address provider venueId => exact levels_mprintf _ _
  | other => exact absurd hmedia hkind

theorem levels_printStamp : Levels E.colors F n a a (printStamp E M) :=
  levels_cons (levels_printMsgId _ _)
    (levels_cons (levels_mprintf _ _) (levels_cons (levels_printDate _) levels_nil))

/-- The id and the date are in a color of their own. -/
theorem levels_stamped (color : Color) {ps : List Print} (h : Levels E.colors F 3 0 b (steps ps)) :
    Levels E.colors F 3 0 b (steps (mpushColor E.toEnv color :: printStamp E M ::
      mpopColor E.toEnv :: mprintf (lit " ") :: ps)) :=
  levels_cons (levels_push draw color (by omega))
    (levels_cons levels_printStamp
      (levels_cons (levels_pop draw) (levels_cons (levels_mprintf _ _) h)))

theorem levels_pushSender : Levels E.colors F 3 0 1 (pushSender E M) :=
  levels_ite (fun _ => levels_push draw .green (by omega))
    fun _ => levels_push draw .blue (by omega)

theorem levels_encrChatHead
    (hF : E.peerGet M.toId = none → F .pointer) : Levels E.colors F 3 0 1 (encrChatHead E M) := by
  refine levels_behindPointer hF fun P _ => levels_ite (fun _ => ?_) fun _ => ?_
  · exact levels_cons (levels_push draw .green (by omega))
      (levels_cons levels_printStamp
        (levels_cons (levels_mprintf _ _)
          (levels_cons (levels_push draw .cyan (by omega))
            (levels_cons (levels_mprintf _ _)
              (levels_cons (levels_pop draw) (levels_cons (levels_mprintf _ _) levels_nil))))))
  · exact levels_cons (levels_push draw .blue (by omega))
      (levels_cons levels_printStamp
        (levels_cons (levels_push draw .cyan (by omega))
          (levels_cons (levels_mprintf _ _)
            (levels_cons (levels_pop draw) (levels_cons (levels_mprintf _ _) levels_nil)))))

variable (hunknown : ∀ id : PeerId, E.peerGet id = none →
  ∀ users, addUnknown users id.peerId = none → F (.unknownUser users id))

include hunknown

/-- A user the library is asked for. -/
theorem levels_user {id : PeerId} (h : id.peerType = .user) :
    Levels E.colors F 2 0 0 (printUserName E.toEnv id (E.peerGet id)) :=
  levels_printUserName _ (hunknown id) (.inl h)

/-- **The actions** leave the stack as it was. -/
theorem levels_printAction : Levels E.colors F 2 0 0 (printAction E M) := by
  have huser : ∀ user, Levels E.colors F 2 0 0 (printUserById E user) :=
    fun user => levels_user hunknown rfl
  unfold printAction
  refine levels_ite (fun _ => levels_mprintf _ _) fun _ => ?_
  cases M.action with
  | chatAddUsers users =>
    refine levels_cons (levels_mprintf _ _)
      (levels_cons (levels_steps ?_) (levels_cons (levels_mprintf _ _) levels_nil))
    intro p hp
    obtain ⟨user, -, rfl⟩ := List.mem_map.mp hp
    exact huser user
  | chatAddUserByLink user =>
    exact levels_cons (levels_mprintf _ _)
      (levels_cons (huser user) (levels_cons (levels_mprintf _ _) levels_nil))
  | chatDeleteUser user =>
    exact levels_cons (levels_mprintf _ _)
      (levels_cons (huser user) (levels_cons (levels_mprintf _ _) levels_nil))
  | typing status =>
    exact levels_cons (levels_mprintf _ _) (levels_cons (levels_mprintf _ _) levels_nil)
  | other => exact levels_nil
  | _ => exact levels_mprintf _ _

/-- **A service message** in a chat, a channel or a secret chat leaves the stack as it was. -/
theorem levels_printServiceMessage (hservice : M.toId.peerType = .chat ∨
    M.toId.peerType = .channel ∨ M.toId.peerType = .encrChat) :
    Levels E.colors F 3 0 0 (printServiceMessage E M) := by
  have hcolor : Levels E.colors F 3 1 2
      (if M.toId.peerType = .channel then mpushColor E.toEnv .cyan
      else mpushColor E.toEnv .magenta) :=
    levels_ite (fun _ => levels_push draw .cyan (by omega))
      fun _ => levels_push draw .magenta (by omega)
  have hname : Levels E.colors F 2 0 0
      (if M.toId.peerType = .chat then printChatName E.toEnv M.toId (E.peerGet M.toId)
      else if M.toId.peerType = .channel then printChannelName E.toEnv M.toId (E.peerGet M.toId)
      else steps
        [assertKind (M.toId.peerType = .encrChat),
         printEncrChatName E.toEnv M.toId (E.peerGet M.toId)]) := by
    refine levels_ite (fun hchat => ?_) fun hchat => levels_ite (fun hchannel => ?_)
      fun hchannel => ?_
    · exact (levels_printTitle _ (.inl hchat)).above (by omega)
    · exact (levels_printTitle _ (.inl hchannel)).above (by omega)
    · have hencr : M.toId.peerType = .encrChat :=
        (hservice.resolve_left hchat).resolve_left hchannel
      exact levels_cons (levels_assertKind (.inl hencr))
        (levels_cons ((levels_printTitle _ (.inl hencr)).above (by omega)) levels_nil)
  have hfrom : Levels E.colors F 2 0 0
      (if M.fromId.peerType = .user then steps
        [mprintf (lit " "), printUserName E.toEnv M.fromId (E.peerGet M.fromId)]
      else steps []) :=
    levels_ite (fun h => levels_cons (levels_mprintf _ _)
      (levels_cons (levels_user hunknown h) levels_nil)) fun _ => levels_nil
  exact levels_cons (levels_push draw .grey (by omega))
    (levels_cons hcolor
      (levels_cons (levels_printMsgId _ _)
        (levels_cons (levels_mprintf _ _)
          (levels_cons (levels_printDate _)
            (levels_cons (levels_pop draw)
              (levels_cons (levels_mprintf _ _)
                (levels_cons (hname.above le_rfl)
                  (levels_cons (hfrom.above le_rfl)
                    (levels_cons ((levels_printAction hunknown).above le_rfl)
                      (levels_cons (levels_pop draw) levels_nil))))))))))

/-- **The beginning of a message** leaves one color pushed, of whatever kind the peers are. -/
theorem levels_printHead (hto : M.toId.peerType.IsChat)
    (hfrom : M.toId.peerType = .chat ∨ (M.toId.peerType = .user ∧ M.out = false) →
      M.fromId.peerType = .user)
    (hF : M.toId.peerType = .encrChat → E.peerGet M.toId = none → F .pointer) :
    Levels E.colors F 3 0 1 (printHead E M) := by
  refine levels_ite (fun huser => ?_) fun huser => levels_ite (fun hencr => ?_) fun hencr =>
    levels_ite (fun hchat => ?_) fun hchat => ?_
  · refine levels_ite (fun _ => levels_stamped .green ?_) fun hout => levels_stamped .blue ?_
    · exact levels_cons ((levels_user hunknown huser).above (by omega))
        (levels_cons (levels_push draw .green (by omega))
          (levels_cons (levels_mprintf _ _) levels_nil))
    · have h : M.fromId.peerType = .user := hfrom (.inr ⟨huser, Bool.eq_false_iff.mpr hout⟩)
      exact levels_cons ((levels_user hunknown h).above (by omega))
        (levels_cons (levels_push draw .blue (by omega))
          (levels_cons (levels_mprintf _ _) levels_nil))
  · exact levels_encrChatHead (hF hencr)
  · exact levels_stamped .magenta
      (levels_cons ((levels_printTitle _ (.inl hchat)).above (by omega))
        (levels_cons (levels_mprintf _ _)
          (levels_cons ((levels_user hunknown (hfrom (.inl hchat))).above (by omega))
            (levels_cons levels_pushSender (levels_cons (levels_mprintf _ _) levels_nil)))))
  · have hchannel : M.toId.peerType = .channel := by
      rcases hto with h | h | h | h
      · exact absurd h huser
      · exact absurd h hchat
      · exact h
      · exact absurd h hencr
    have hsender : Levels E.colors F 3 0 1
        (if M.fromId.peerType = .user then steps
          [mprintf (lit " "), printUserName E.toEnv M.fromId (E.peerGet M.fromId), pushSender E M]
        else mpushColor E.toEnv .blue) :=
      levels_ite (fun h => levels_cons (levels_mprintf _ _)
        (levels_cons ((levels_user hunknown h).above (by omega))
          (levels_cons levels_pushSender levels_nil))) fun _ => levels_push draw .blue (by omega)
    exact levels_cons (levels_assertKind (.inl hchannel))
      (levels_stamped .cyan
        (levels_cons ((levels_printTitle _ (.inl hchannel)).above (by omega))
          (levels_cons hsender (levels_cons (levels_mprintf _ _) levels_nil))))

/-- **The part behind the arrow** leaves the stack as it was. -/
theorem levels_printBody
    (hfwd : peerTypePos M.fwdFromId.peerType = true → M.fwdFromId.peerType.IsChat)
    (hmedia : M.media ≠ .other) (hF : ¬ MediaPresent M.media → F .pointer) :
    Levels E.colors F 2 0 0 (printBody E M) := by
  refine levels_cons (levels_ite (fun h => ?_) fun _ => levels_nil)
    (levels_cons (levels_ite (fun _ => ?_) fun _ => levels_nil)
      (levels_cons (levels_ite (fun _ => levels_mprintf _ _) fun _ => levels_nil)
        (levels_cons (levels_ite (fun _ => levels_mprintf _ _) fun _ => levels_nil)
          (levels_cons (levels_ite (fun _ => ?_) fun _ => levels_nil) levels_nil))))
  · exact levels_cons (levels_mprintf _ _)
      (levels_cons (levels_printPeerName _ (hunknown _) (.inl (hfwd h)))
        (levels_cons (levels_mprintf _ _)
          (levels_cons (levels_printDate _) (levels_cons (levels_mprintf _ _) levels_nil))))
  · exact levels_cons (levels_mprintf _ _)
      (levels_cons (levels_printMsgId _ _) (levels_cons (levels_mprintf _ _) levels_nil))
  · exact levels_cons (levels_ite (fun _ => levels_mprintf _ _) fun _ => levels_nil)
      (levels_cons ((levels_printMedia hmedia hF).above (by omega)) levels_nil)

end Stack

/-- **The stack of colors after a message.** From an empty stack a message whose kinds are right
leads to an empty stack. The stack, which holds 10 colors at most (`Screen.held`), never overflows,
is never popped when it is empty and has nothing left at the end; what can fail is something else. -/
theorem print_message_balanced (E : Env) (M : Message) (hkinds : Kinds M)
    (s : Screen Color Output colorMax) (hs : s.marks = []) :
    (∃ s', printMessage E M s = .ok ((), s') ∧ s'.marks = []) ∨
      ∃ e, MayFail E M e ∧ printMessage E M s = .error (.other e) := by
  have hunknown : ∀ id : PeerId, E.peerGet id = none → ∀ users,
      addUnknown users id.peerId = none → MayFail E M (.unknownUser users id) :=
    fun _ hnone _ hfull => ⟨hnone, hfull⟩
  have hclears : Clears (MayFail E M) (printMessage E M) := by
    refine clears_ite (fun _ => clears_nil) fun _ => clears_ite (fun _ => clears_nil) fun _ =>
      clears_ite (fun hservice => ?_) fun hservice => clears_ite (fun _ => ?_) fun hbad => ?_
    · exact (levels_printServiceMessage hunknown (hkinds.service hservice)).clears (by decide)
    · exact (levels_mprintf E.colors _).clears (n := 0) (Nat.zero_le _)
    · have hplain : M.service = false := Bool.eq_false_iff.mpr hservice
      have hhead := levels_printHead (F := MayFail E M) hunknown
        ((hkinds.toId hplain).resolve_left hbad) (hkinds.fromId hplain)
        fun hencr hnone => .inl ⟨hencr, hnone⟩
      have hbody := levels_printBody (F := MayFail E M) hunknown (hkinds.fwdFromId hplain)
        (hkinds.media hplain) .inr
      have hlevels : Levels E.colors (MayFail E M) 3 0 0
          (steps [printHead E M, printBody E M, mpopColor E.toEnv]) :=
        levels_cons hhead
          (levels_cons (hbody.above le_rfl) (levels_cons (levels_pop draw) levels_nil))
      exact clears_cons (hlevels.clears (by decide))
        (clears_cons clears_assertEmpty
          (clears_cons ((levels_mprintf E.colors _).clears (n := 0) (Nat.zero_le _)) clears_nil))
  exact hclears s hs

/-- A console with colors; every peer is a contact of the same name. -/
def sampleEnv : Env where
  config := PeerNames.idsConfig
  ev := false
  disableColors := false
  msgNumMode := true
  permanentMsgIdMode := false
  printPermanentMsgId _ := []
  peerGet _ := some { PeerNames.sampleChat .user with selfOrContact := true }
  ourId := mkUser 1
  cmpPeerId a b := if a = b then 0 else 1
  localtime _ := ⟨12, 0, 0, 1, 0, 116⟩
  time := 1460000000
  fmtReal _ := lit "0.000000"
  logprintf text := text
  messageGet _ := none

/-- A contact that was sent to a chat and is forwarded from a channel, with a reply. -/
def sampleMessage : Message where
  permanentId := 1
  out := false
  service := false
  fwdFromId := ⟨.channel, 6, 0⟩
  fromId := mkUser 7
  toId := ⟨.chat, 5, 0⟩
  replyId := 2
  date := 1460000000
  message := some (lit "hi")
  media := .contact (some (lit "1")) (some (lit "A")) none
  permanent := ⟨2, 5, 1, 0⟩
  flags := 1
  created := true
  mention := true
  unread := true
  fwdDate := 0
  messageLen := 2
  userId := 0
  action := .other
  empty := false
  deleted := false
  tempId := 3
  photoCaption := none
  document := ⟨none, 0, 0, 0, 0⟩
  actionInfo := ⟨true, 0, none, 0⟩

theorem sampleMessage_kinds : Kinds sampleMessage where
  service h := by cases h
  toId _ := .inr (.inr (.inl rfl))
  fromId _ _ := rfl
  fwdFromId _ _ := .inr (.inr (.inl rfl))
  media _ h := by cases h

theorem sampleMessage_safe : ∀ e, ¬ MayFail sampleEnv sampleMessage e
  | .kind, h => h
  | .pointer, h => by
    rcases h with ⟨h, -⟩ | h
    · cases h
    · exact h trivial
  | .unknownUser _ _, h => by cases h.1

/-- The message is printed to its end. -/
theorem print_message_balanced_contact : ∃ s', printMessage sampleEnv sampleMessage
    ⟨[], Nat.zero_le _, ⟨[], []⟩⟩ = .ok ((), s') ∧ s'.marks = [] :=
  (print_message_balanced sampleEnv sampleMessage sampleMessage_kinds _ rfl).resolve_right
    fun ⟨e, he, _⟩ => sampleMessage_safe e he

end TelegramCli.Interface.PrintMessage
