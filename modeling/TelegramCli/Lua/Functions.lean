import Mathlib.Tactic

/-! # The functions Lua may call

The table `functions` gives each function its query type and the kinds of its parameters, which end
with `lfp_none`. -/

namespace TelegramCli.Lua.Functions

/-- `enum lua_query_type`. -/
inductive LqType
  | contactList
  | dialogList
  | msg
  | msgChannel
  | sendTyping
  | sendTypingAbort
  | renameChat
  | sendPhoto
  | chatSetPhoto
  | setProfilePhoto
  | setProfileName
  | sendVideo
  | sendText
  | reply
  | fwd
  | fwdMedia
  | loadPhoto
  | loadVideoThumb
  | loadVideo
  | chatInfo
  | channelInfo
  | userInfo
  | history
  | chatAddUser
  | chatDelUser
  | addContact
  | delContact
  | renameContact
  | search
  | globalSearch
  | markRead
  | createSecretChat
  | createGroupChat
  | sendAudio
  | sendDocument
  | sendFile
  | loadAudio
  | loadDocument
  | loadDocumentThumb
  | deleteMsg
  | restoreMsg
  | acceptSecretChat
  | sendContact
  | statusOnline
  | statusOffline
  | sendLocation
  | extf
  | importChatLink
  | exportChatLink
  | channelInviteUser
  | channelKickUser
  | channelGetAdmins
  | channelGetUsers
  deriving DecidableEq, Repr

/-- `enum lua_function_param`. -/
inductive Param
  | none
  | peer
  | chat
  | channel
  | user
  | secretChat
  | string
  | number
  | positiveNumber
  | nonnegativeNumber
  | msg
  | double
  deriving DecidableEq, Repr

/-- `struct lua_function`. -/
structure LuaFunction where
  name : String
  type : LqType
  params : List Param
  deriving DecidableEq, Repr

/-- The query types in the order of their numbers. -/
def LqType.all : List LqType :=
  [.contactList, .dialogList, .msg, .msgChannel, .sendTyping, .sendTypingAbort, .renameChat,
   .sendPhoto, .chatSetPhoto, .setProfilePhoto, .setProfileName, .sendVideo, .sendText, .reply,
   .fwd, .fwdMedia, .loadPhoto, .loadVideoThumb, .loadVideo, .chatInfo, .channelInfo, .userInfo,
   .history, .chatAddUser, .chatDelUser, .addContact, .delContact, .renameContact, .search,
   .globalSearch, .markRead, .createSecretChat, .createGroupChat, .sendAudio, .sendDocument,
   .sendFile, .loadAudio, .loadDocument, .loadDocumentThumb, .deleteMsg, .restoreMsg,
   .acceptSecretChat, .sendContact, .statusOnline, .statusOffline, .sendLocation, .extf,
   .importChatLink, .exportChatLink, .channelInviteUser, .channelKickUser, .channelGetAdmins,
   .channelGetUsers]

def LqType.toNum (t : LqType) : ℤ := LqType.all.idxOf t

/-- The query type with the number. -/
def LqType.ofNum (n : ℤ) : Option LqType := if n < 0 then Option.none else LqType.all[n.toNat]?

theorem LqType.mem_all (t : LqType) : t ∈ LqType.all := by cases t <;> decide

@[simp] theorem LqType.ofNum_toNum (t : LqType) : LqType.ofNum t.toNum = some t := by
  unfold LqType.ofNum LqType.toNum
  rw [if_neg (by omega), Int.toNat_natCast, List.getElem?_idxOf t.mem_all]

/-- The parameters in front of `lfp_none`. -/
def LuaFunction.args (F : LuaFunction) : List Param := F.params.takeWhile (· ≠ .none)

def functions : List LuaFunction :=
  [⟨"get_contact_list", .contactList, [.none]⟩,
   ⟨"get_dialog_list", .dialogList, [.none]⟩,
   ⟨"rename_chat", .renameChat, [.chat, .string, .none]⟩,
   ⟨"send_msg", .msg, [.peer, .string, .none]⟩,
   ⟨"post_msg", .msgChannel, [.channel, .string, .none]⟩,
   ⟨"send_typing", .sendTyping, [.peer, .none]⟩,
   ⟨"send_typing_abort", .sendTypingAbort, [.peer, .none]⟩,
   ⟨"send_photo", .sendPhoto, [.peer, .string, .none]⟩,
   ⟨"send_video", .sendVideo, [.peer, .string, .none]⟩,
   ⟨"send_audio", .sendAudio, [.peer, .string, .none]⟩,
   ⟨"send_document", .sendDocument, [.peer, .string, .none]⟩,
   ⟨"send_file", .sendFile, [.peer, .string, .none]⟩,
   ⟨"send_text", .sendText, [.peer, .string, .none]⟩,
   ⟨"chat_set_photo", .chatSetPhoto, [.chat, .string, .none]⟩,
   ⟨"load_photo", .loadPhoto, [.msg, .none]⟩,
   ⟨"load_video", .loadVideo, [.msg, .none]⟩,
   ⟨"load_video_thumb", .loadVideoThumb, [.msg, .none]⟩,
   ⟨"load_audio", .loadAudio, [.msg, .none]⟩,
   ⟨"load_document", .loadDocument, [.msg, .none]⟩,
   ⟨"load_document_thumb", .loadDocumentThumb, [.msg, .none]⟩,
   ⟨"reply_msg", .reply, [.msg, .string, .none]⟩,
   ⟨"fwd_msg", .fwd, [.peer, .msg, .none]⟩,
   ⟨"fwd_media", .fwdMedia, [.peer, .msg, .none]⟩,
   ⟨"chat_info", .chatInfo, [.chat, .none]⟩,
   ⟨"channel_info", .channelInfo, [.channel, .none]⟩,
   ⟨"user_info", .userInfo, [.user, .none]⟩,
   ⟨"get_history", .history, [.peer, .nonnegativeNumber, .none]⟩,
   ⟨"chat_add_user", .chatAddUser, [.chat, .user, .none]⟩,
   ⟨"chat_del_user", .chatDelUser, [.chat, .user, .none]⟩,
   ⟨"add_contact", .addContact, [.string, .string, .string, .none]⟩,
   ⟨"del_contact", .delContact, [.user, .none]⟩,
   ⟨"rename_contact", .renameContact, [.string, .string, .string, .none]⟩,
   ⟨"msg_search", .search, [.peer, .string, .none]⟩,
   ⟨"msg_global_search", .globalSearch, [.string, .none]⟩,
   ⟨"mark_read", .markRead, [.peer, .none]⟩,
   ⟨"set_profile_photo", .setProfilePhoto, [.string, .none]⟩,
   ⟨"set_profile_name", .setProfileName, [.string, .none]⟩,
   ⟨"create_secret_chat", .createSecretChat, [.user, .none]⟩,
   ⟨"create_group_chat", .createGroupChat, [.user, .string, .none]⟩,
   ⟨"delete_msg", .deleteMsg, [.msg, .none]⟩,
   ⟨"restore_msg", .restoreMsg, [.positiveNumber, .none]⟩,
   ⟨"accept_secret_chat", .acceptSecretChat, [.secretChat, .none]⟩,
   ⟨"send_contact", .sendContact, [.peer, .string, .string, .string, .none]⟩,
   ⟨"status_online", .statusOnline, [.none]⟩,
   ⟨"status_offline", .statusOffline, [.none]⟩,
   ⟨"send_location", .sendLocation, [.peer, .double, .double, .none]⟩,
   ⟨"ext_function", .extf, [.string, .none]⟩,
   ⟨"import_chat_link", .importChatLink, [.string, .none]⟩,
   ⟨"export_chat_link", .exportChatLink, [.chat, .none]⟩,
   ⟨"channel_invite_user", .channelInviteUser, [.channel, .user, .none]⟩,
   ⟨"channel_kick_user", .channelKickUser, [.channel, .user, .none]⟩,
   ⟨"channel_get_admins", .channelGetAdmins, [.channel, .none]⟩,
   ⟨"channel_get_users", .channelGetUsers, [.channel, .none]⟩]

end TelegramCli.Lua.Functions
