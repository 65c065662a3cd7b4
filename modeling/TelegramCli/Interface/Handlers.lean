import TelegramCli.Interface.ArgReader
import TelegramCli.Interface.Actions

/-! # The handlers of the commands

A handler asserts something about the number of its arguments, reads them, and performs actions.
Most handlers only take a reference to the connection and start a query: they are `ask` with the
number of arguments, the callback and the query. The others have their own bodies. -/

namespace TelegramCli.Interface.Handlers

open TelegramCli.Lib.CNumber (toInt32)
open TelegramCli.Lib.CString TelegramCli.Tgl TelegramCli.Interface.Ids
open TelegramCli.Interface.Args TelegramCli.Interface.Args.ArgReader TelegramCli.Interface.Actions

structure Handler where
  /-- The assertion on `arg_num`. -/
  argNum : ℕ → Bool
  /-- The body for so many arguments. -/
  body : ℕ → ArgReader (Ctx → List Action)

/-- A reference and a query. -/
def askIf (argNum : ℕ → Bool) (cb : Callback) (req : ℕ → ArgReader (Ctx → Query)) : Handler where
  argNum := argNum
  body n := (fun q c => [.ref, .query (q c) cb]) <$> req n

def ask (n : ℕ) (cb : Callback) (req : ArgReader (Ctx → Query)) : Handler :=
  askIf (· = n) cb fun _ => req

/-- A handler that starts no query. -/
def quiet (argNum : ℕ → Bool) (body : ArgReader (Ctx → List Action)) : Handler :=
  ⟨argNum, fun _ => body⟩

/-- `args[n].num != NOT_FOUND ? args[n].num : def`. -/
def numOr (n : ℤ) (dflt : ℤ) : ℤ := if n ≠ notFound then n else dflt

/-- `TGL_SEND_MSG_FLAG_REPLY(reply_id) | disable_msg_preview | do_html`. -/
def textFlags (c : Ctx) : SendFlags :=
  { reply := c.globals.replyId, preview := c.globals.disableMsgPreview, html := c.globals.doHtml }

/-- `TGL_SEND_MSG_FLAG_REPLY(reply_id)`. -/
def replyFlags (c : Ctx) : SendFlags := { reply := c.globals.replyId }

/-! ### Client methods -/

def doHelp : Handler := quiet (· = 1) <|
  (fun s c =>
    let shown := c.commands.filter fun cmd => s = none || s = some (lit cmd.1)
    if shown = [] then [.answer (.unknownCommand s)] else [.answer (.help (shown.map Prod.snd))]) <$>
  str 0

def doGetTermsOfService : Handler := ask 0 .printString <| pure fun _ => .getTermsOfService

def doStats : Handler := quiet (· = 0) <| pure fun _ => [.answer .stats]

def doShowLicense : Handler := quiet (· = 0) <| pure fun _ => [.answer .license]

def doQuit : Handler := quiet (fun _ => true) <| pure fun c =>
  (if c.daemonize then [.eventIncoming] else []) ++ [.halt]

def doSafeQuit : Handler := quiet (fun _ => true) <| pure fun c =>
  (if c.daemonize then [.eventIncoming] else []) ++ [.safeQuit]

def doSet : Handler := quiet (fun _ => true) <|
  (fun num s _ =>
    if s = some (lit "debug_verbosity") then [.set .debugVerbosity num]
    else if s = some (lit "log_level") then [.set .logLevel num]
    else if s = some (lit "msg_num") then [.set .msgNum num]
    else if s = some (lit "alert") then [.set .alert num]
    else []) <$>
  num 1 <*> str 0

def doChatWithPeer : Handler := quiet (fun _ => true) <|
  (fun id c => if !c.ev then [.chatWithPeer id] else []) <$> peerId 0

def doMainSession : Handler := quiet (fun _ => true) <| pure fun _ => [.mainSession]

def doVersion : Handler := quiet (· = 0) <| pure fun _ => [.answer .version]

/-! ### Work with the account -/

def doSetPassword : Handler := ask 1 .printSuccess <|
  (fun s _ => .setPassword (some (s.getD (lit "empty")))) <$> str 0

/-! ### Sending messages -/

def doMsg : Handler := ask 2 .printMsgSuccess <|
  (fun dest s c => .sendMessage dest s (textFlags c) none) <$> peerId 0 <*> str 1

def doPost : Handler := ask 2 .printMsgSuccess <|
  (fun dest s c => .sendMessage dest s { textFlags c with post := true } none) <$> peerId 0 <*> str 1

/-- The reference is taken before the keyboard is parsed. -/
def doMsgKbd : Handler where
  argNum := (· = 3)
  body _ := (fun kbd dest s c =>
    [.ref] ++
      if !c.replyMarkup kbd then [.fail "can not parse reply markup"]
      else [.query (.sendMessage dest s (textFlags c) (some kbd)) .printMsgSuccess]) <$>
    str 1 <*> peerId 0 <*> str 2

def doReply : Handler := ask 2 .printMsgSuccess <|
  (fun dest s c => .replyMessage dest s { textFlags c with reply := 0 }) <$> msgId 0 <*> str 1

def doSendText : Handler := ask 2 .printMsgSuccess <|
  (fun dest s c => .sendText dest s (textFlags c)) <$> peerId 0 <*> str 1

def doPostText : Handler := ask 2 .printMsgSuccess <|
  (fun dest s c => .sendText dest s { textFlags c with post := true }) <$> peerId 0 <*> str 1

/-- The optional third argument, a caption. -/
def caption (argNum : ℕ) : ArgReader Str := if argNum = 2 then pure none else str 2

/-- `_do_send_file`. -/
def sendFile (flags : SendFlags) : Handler := askIf (2 ≤ ·) .printMsgSuccess fun n =>
  (fun dest file s c => .sendDocument dest file s { flags with reply := c.globals.replyId }) <$>
    peerId 0 <*> str 1 <*> caption n

def doSendPhoto : Handler := sendFile { document := .photo }

def doSendFile : Handler := sendFile { document := .auto }

def doSendAudio : Handler := sendFile { document := .audio }

def doSendVideo : Handler := sendFile { document := .video }

def doSendDocument : Handler := sendFile {}

def doPostPhoto : Handler := sendFile { document := .photo, post := true }

def doPostFile : Handler := sendFile { document := .auto, post := true }

def doPostAudio : Handler := sendFile { document := .audio, post := true }

def doPostVideo : Handler := sendFile { document := .video, post := true }

def doPostDocument : Handler := sendFile { post := true }

/-- `_do_reply_file`. -/
def replyFile (flags : SendFlags) : Handler := askIf (2 ≤ ·) .printMsgSuccess fun n =>
  (fun dest file s _ => .replyDocument dest file s flags) <$> msgId 0 <*> str 1 <*> caption n

def doReplyPhoto : Handler := replyFile { document := .photo }

def doReplyFile : Handler := replyFile { document := .auto }

def doReplyVideo : Handler := replyFile { document := .video }

def doReplyDocument : Handler := replyFile {}

def doFwd : Handler := askIf (fun n => 2 ≤ n && n ≤ 1000) .printMsgListSuccess fun n =>
  (fun dest ids _ => .forwardMessages dest ids) <$>
    peerId 0 <*> many ((List.range (n - 1)).map fun i => msgId (i + 1))

def doFwdMedia : Handler := ask 2 .printMsgSuccess <|
  (fun dest id _ => .forwardMedia dest id) <$> peerId 0 <*> msgId 1

def doSendContact : Handler := ask 4 .printMsgSuccess <|
  (fun dest phone first last c => .sendContact dest phone first last (replyFlags c)) <$>
    peerId 0 <*> str 1 <*> str 2 <*> str 3

def doReplyContact : Handler := ask 4 .printMsgSuccess <|
  (fun dest phone first last _ => .replyContact dest phone first last) <$>
    msgId 0 <*> str 1 <*> str 2 <*> str 3

def doSendLocation : Handler := ask 3 .printMsgSuccess <|
  (fun dest x y c => .sendLocation dest x y (replyFlags c)) <$> peerId 0 <*> dval 1 <*> dval 2

def doPostLocation : Handler := ask 3 .printMsgSuccess <|
  (fun dest x y c => .sendLocation dest x y { replyFlags c with post := true }) <$>
    peerId 0 <*> dval 1 <*> dval 2

def doReplyLocation : Handler := ask 3 .printMsgSuccess <|
  (fun dest x y _ => .replyLocation dest x y) <$> msgId 0 <*> dval 1 <*> dval 2

def doBroadcast : Handler := askIf (fun n => 1 ≤ n && n ≤ 1000) .printMsgListSuccess fun n =>
  (fun dest s c => .sendBroadcast dest s { textFlags c with reply := 0 }) <$>
    many ((List.range (n - 1)).map peerId) <*> str (n - 1)

/-! ### Editing the own profile -/

def doGetSelf : Handler := askIf (fun _ => true) .printUserInfo fun _ =>
  pure fun c => .getUserInfo c.ourId false

def doSetProfilePhoto : Handler := ask 1 .printSuccess <| (fun s _ => .setProfilePhoto s) <$> str 0

def doSetProfileName : Handler := ask 2 .printUser <|
  (fun first last _ => .setProfileName first last) <$> str 0 <*> str 1

def doSetUsername : Handler := ask 1 .printUser <| (fun s _ => .setUsername s) <$> str 0

def doSetPhoneNumber : Handler := ask 1 .printSuccess <| (fun s _ => .setPhoneNumber s) <$> str 0

def doStatusOnline : Handler := ask 0 .printSuccess <| pure fun _ => .updateStatus true

def doStatusOffline : Handler := ask 0 .printSuccess <| pure fun _ => .updateStatus false

def doExportCard : Handler := ask 0 .printCard <| pure fun _ => .exportCard

/-! ### Working with group chats -/

def doChatSetPhoto : Handler := ask 2 .printSuccess <|
  (fun id s _ => .setChatPhoto id s) <$> peerId 0 <*> str 1

def doRenameChat : Handler := ask 2 .printSuccess <|
  (fun id s _ => .renameChat id s) <$> peerId 0 <*> str 1

def doChatInfo : Handler := ask 1 .printChatInfo <|
  (fun id c => .getChatInfo id c.globals.offlineMode) <$> peerId 0

def doChannelInfo : Handler := ask 1 .printChannelInfo <|
  (fun id c => .getChannelInfo id c.globals.offlineMode) <$> peerId 0

def doChatAddUser : Handler := ask 3 .printSuccess <|
  (fun chat user n _ => .addUserToChat chat user (numOr n 100)) <$>
    peerId 0 <*> peerId 1 <*> num 2

def doChatDelUser : Handler := ask 2 .printSuccess <|
  (fun chat user _ => .delUserFromChat chat user) <$> peerId 0 <*> peerId 1

def doCreateGroupChat : Handler := askIf (fun n => 1 ≤ n && n ≤ 1000) .printSuccess fun n =>
  (fun users s _ => .createGroupChat users s) <$>
    many ((List.range (n - 1)).map fun i => peerId (i + 1)) <*> str 0

def doExportChatLink : Handler := ask 1 .printString <| (fun id _ => .exportChatLink id) <$> peerId 0

def doImportChatLink : Handler := ask 1 .printSuccess <| (fun s _ => .importChatLink s) <$> str 0

def doChannelInvite : Handler := ask 2 .printSuccess <|
  (fun id user _ => .channelInviteUser id user) <$> peerId 0 <*> peerId 1

def doChannelKick : Handler := ask 2 .printSuccess <|
  (fun id user _ => .channelKickUser id user) <$> peerId 0 <*> peerId 1

/-- The bodies of `do_channel_get_members` and `do_channel_get_admins`. -/
def channelGet (admins : Bool) : Handler := ask 3 .printUserList <|
  (fun id limit offset _ => .channelGetMembers id (numOr limit 100) (numOr offset 0) admins) <$>
    peerId 0 <*> num 1 <*> num 2

def doChannelGetMembers : Handler := channelGet false

def doChannelGetAdmins : Handler := channelGet true

def doChatUpgrade : Handler := ask 1 .printSuccess <| (fun id _ => .upgradeGroup id) <$> peerId 0

/-! ### Working with users -/

def doUserInfo : Handler := ask 1 .printUserInfo <|
  (fun id c => .getUserInfo id c.globals.offlineMode) <$> peerId 0

def doAddContact : Handler := ask 3 .printUserList <|
  (fun phone first last _ => .addContact phone first last) <$> str 0 <*> str 1 <*> str 2

def doRenameContact : Handler where
  argNum := (· = 3)
  body _ := (fun id first last c =>
    match (c.peerGet id).bind (·.phone) with
    | some phone => [.ref, .query (.addContact (some phone) first last) .printUserList]
    | none => [.ref, .callback .printSuccess]) <$> peerId 0 <*> str 1 <*> str 2

def doDelContact : Handler := ask 1 .printSuccess <| (fun id _ => .delContact id) <$> peerId 0

/-- The loop of `do_import_card` with the numbers `p` read and `cur` being read; `none` is `!ok`. -/
def cardLoop : List ℤ → ℤ → List UInt8 → Option (List ℤ)
  | p, cur, [] => some (p ++ [cur])
  | p, cur, c :: s =>
    if 48 ≤ c && c ≤ 57 then cardLoop p (toInt32 (cur * 16 + c.toNat - 48)) s
    else if 97 ≤ c && c ≤ 102 then cardLoop p (toInt32 (cur * 16 + c.toNat - 97 + 10)) s
    else if c = 58 then
      if 9 ≤ p.length then none else cardLoop (p ++ [cur]) 0 s
    else cardLoop p cur s

def doImportCard : Handler where
  argNum := (· = 1)
  body _ := (fun s _ =>
    if 0 < (s.getD []).length then
      match cardLoop [] 0 (s.getD []) with
      | some p => [.ref, .query (.importCard p) .printUser]
      | none => []
    else []) <$> str 0

def doBlockUser : Handler := ask 1 .printSuccess <| (fun id _ => .blockUser id) <$> peerId 0

def doUnblockUser : Handler := ask 1 .printSuccess <| (fun id _ => .unblockUser id) <$> peerId 0

/-! ### Working with secret chats -/

def doAcceptSecretChat : Handler where
  argNum := (· = 1)
  body _ := (fun id c =>
    [.ref] ++
      match c.peerGet id with
      | some P => [.query (.acceptEncrChatRequest P.id) .printEncrChatSuccess]
      | none => [.callback .printSuccess]) <$> peerId 0

def doSetTtl : Handler where
  argNum := (· = 2)
  body _ := (fun id ttl c =>
    [.ref] ++
      match c.peerGet id with
      | some P =>
        if P.encrChatOk then [.query (.setEncrChatTtl P.id ttl) .printMsgSuccess]
        else [.callback .printSuccess]
      | none => [.callback .printSuccess]) <$> peerId 0 <*> num 1

def doVisualizeKey : Handler := quiet (· = 1) <|
  (fun id _ => [.answer (.visualizeKey id)]) <$> peerId 0

def doCreateSecretChat : Handler := ask 1 .printSecretChat <|
  (fun id _ => .createSecretChat id) <$> peerId 0

/-! ### Working with channels -/

def doRenameChannel : Handler := ask 2 .printSuccess <|
  (fun id s _ => .renameChannel id s) <$> peerId 0 <*> str 1

def doChannelSetPhoto : Handler := ask 2 .printSuccess <|
  (fun id s _ => .setChannelPhoto id s) <$> peerId 0 <*> str 1

def doChannelSetAbout : Handler := ask 2 .printSuccess <|
  (fun id s _ => .channelSetAbout id s) <$> peerId 0 <*> str 1

def doChannelSetAdmin : Handler := ask 3 .printSuccess <|
  (fun id user n _ => .channelSetAdmin id user n) <$> peerId 0 <*> peerId 1 <*> num 2

def doChannelSetUsername : Handler := ask 2 .printSuccess <|
  (fun id s _ => .channelSetUsername id s) <$> peerId 0 <*> str 1

def doCreateChannel : Handler := askIf (fun n => 2 ≤ n && n ≤ 1000) .printSuccess fun n =>
  (fun users s about _ => .createChannel users s about) <$>
    many ((List.range (n - 2)).map fun i => peerId (i + 2)) <*> str 0 <*> str 1

def doJoinChannel : Handler := ask 1 .printSuccess <| (fun id _ => .joinChannel id) <$> peerId 0

def doLeaveChannel : Handler := ask 1 .printSuccess <| (fun id _ => .leaveChannel id) <$> peerId 0

def doExportChannelLink : Handler := ask 1 .printString <|
  (fun id _ => .exportChannelLink id) <$> peerId 0

/-! ### Working with the dialog list -/

def doDialogList : Handler := askIf (· ≤ 2) .printDialogList fun _ =>
  (fun limit offset _ => .getDialogList (numOr limit 100) (numOr offset 0)) <$> num 0 <*> num 1

def doChannelList : Handler := askIf (· ≤ 2) .printDialogList fun _ =>
  (fun limit offset _ => .getChannelsDialogList (numOr limit 100) (numOr offset 0)) <$>
    num 0 <*> num 1

def doResolveUsername : Handler := ask 1 .printPeer <| (fun s _ => .contactSearch s) <$> str 0

def doContactList : Handler := ask 0 .printUserList <| pure fun _ => .updateContactList

/-! ### Working with one dialog -/

def doMarkRead : Handler := ask 1 .printSuccess <| (fun id _ => .markRead id) <$> peerId 0

def doHistory : Handler := ask 3 .printMsgListHistory <|
  (fun id limit offset c =>
    .getHistory id (numOr offset 0) (numOr limit 40) c.globals.offlineMode) <$>
    peerId 0 <*> num 1 <*> num 2

def doSendTyping : Handler where
  argNum := (· = 2)
  body _ := (fun n id _ =>
    if n ≠ notFound && (0 < n && 10 < n) then [.fail "illegal typing status"]
    else [.ref, .query (.sendTyping id (if n ≠ notFound then .other n else .typing))
      .printSuccess]) <$> num 1 <*> peerId 0

def doSendTypingAbort : Handler := ask 1 .printSuccess <|
  (fun id _ => .sendTyping id .cancel) <$> peerId 0

/-! ### Working with media -/

/-- The message with the id, unless it is a service message. -/
def plainMessage (c : Ctx) (id : MsgId) : Option Message := (c.messageGet id).filter (!·.service)

/-- The branches of `DO_LOAD_PHOTO` on the type of the media. -/
def loadMedia (actf : Callback) (id : MsgId) : Media → List Action
  | .photo _ _ => [.query (.loadPhoto id) actf]
  | .document _ _ => [.query (.loadDocument id) actf]
  | .video _ _ => [.query (.loadVideo id) actf]
  | .audio _ _ => [.query (.loadAudio id) actf]
  | .documentEncr _ _ => [.query (.loadEncrDocument id) actf]
  | .webpage _ _ => [.callback actf]
  | .geo _ => [.callback actf]
  | .venue _ _ _ _ _ => [.callback actf]
  | _ => []

/-- `DO_LOAD_PHOTO`: the reference is taken before the type of the media is looked at. -/
def loadHandler (actf : Callback) : Handler where
  argNum := (· = 1)
  body _ := (fun id c =>
    match plainMessage c id with
    | some M => [.ref] ++ loadMedia actf id M.media
    | none => []) <$> msgId 0

/-- `DO_LOAD_PHOTO_THUMB`. -/
def thumbHandler (actf : Callback) : Handler where
  argNum := (· = 1)
  body _ := (fun id c =>
    match (plainMessage c id).map (·.media) with
    | some (Media.document _ _) => [.ref, .query (.loadDocumentThumb id) actf]
    | _ => []) <$> msgId 0

def doLoadPhoto : Handler := loadHandler .printFilename

def doLoadVideo : Handler := loadHandler .printFilename

def doLoadAudio : Handler := loadHandler .printFilename

def doLoadDocument : Handler := loadHandler .printFilename

def doLoadFile : Handler := loadHandler .printFilename

def doLoadVideoThumb : Handler := thumbHandler .printFilename

def doLoadDocumentThumb : Handler := thumbHandler .printFilename

def doLoadFileThumb : Handler := thumbHandler .printFilename

def doOpenPhoto : Handler := loadHandler .openFilename

def doOpenVideo : Handler := loadHandler .openFilename

def doOpenAudio : Handler := loadHandler .openFilename

def doOpenDocument : Handler := loadHandler .openFilename

def doOpenFile : Handler := loadHandler .openFilename

def doOpenVideoThumb : Handler := thumbHandler .openFilename

def doOpenDocumentThumb : Handler := thumbHandler .openFilename

def doOpenFileThumb : Handler := thumbHandler .openFilename

def doOpenAny : Handler := loadHandler .openFilename

/-- `do_load_user_photo` and `do_view_user_photo`, which differ in the callback for an unknown
peer. -/
def userPhoto (unknown : Callback) : Handler where
  argNum := (· = 1)
  body _ := (fun id c =>
    [.ref] ++
      match c.peerGet id with
      | some P => [.query (.loadPhotoBig P.id) .printFilename]
      | none => [.callback unknown]) <$> peerId 0

def doLoadUserPhoto : Handler := userPhoto .printFilename

def doViewUserPhoto : Handler := userPhoto .openFilename

/-! ### Other message functions -/

def doSearch : Handler := ask 6 .printMsgList <|
  (fun id limit since till offset s _ =>
    .msgSearch id (numOr since 0) (numOr till 0) (numOr limit 40) (numOr offset 0) s) <$>
    peerId 0 <*> num 1 <*> num 2 <*> num 3 <*> num 4 <*> str 5

def doDeleteMsg : Handler := askIf (fun _ => true) .printSuccess fun _ =>
  (fun id _ => .deleteMsg id) <$> msgId 0

def doGetMessage : Handler := ask 1 .printMsg <| (fun id _ => .getMessage id) <$> msgId 0

def doStartBot : Handler := ask 3 .printSuccess <|
  (fun bot chat s _ => .startBot bot chat s) <$> peerId 0 <*> peerId 1 <*> str 2

def doClear : Handler := quiet (fun _ => true) <| pure fun _ => [.clear, .halt]

/-! ### Calls -/

/-- How a call can break the handler's contract. -/
inductive Breach
  | argNum
  | member
  deriving DecidableEq, Repr

/-- A call of the handler. -/
def Handler.run (h : Handler) (args : List Arg) (c : Ctx) : Except Breach (List Action) :=
  if h.argNum args.length then
    match (h.body args.length).get args with
    | some acts => .ok (acts c)
    | none => .error .member
  else .error .argNum

/-- The contract of a handler, as far as the members of the arguments go. -/
def Handler.Accepts (h : Handler) (tags : List Member) : Prop :=
  h.argNum tags.length = true ∧ Fits tags (h.body tags.length).reads

instance (h : Handler) (tags : List Member) : Decidable (h.Accepts tags) := by
  unfold Handler.Accepts; infer_instance

/-- **A call meets the contract** exactly when the members of its arguments do. -/
theorem Handler.run_isOk (h : Handler) (args : List Arg) (c : Ctx) :
    (h.run args c).isOk = true ↔ h.Accepts (args.map Arg.member) := by
  have hget := (h.body args.length).get_isSome args
  rw [Handler.run, Handler.Accepts, List.length_map, ← hget]
  split_ifs with hn
  · cases (h.body args.length).get args <;> simp [hn, Except.isOk, Except.toBool]
  · simp [hn, Except.isOk, Except.toBool]

end TelegramCli.Interface.Handlers
