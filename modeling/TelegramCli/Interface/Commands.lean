import TelegramCli.Interface.Handlers

/-! # The table of commands

The built-in table of command names, signatures, handlers and descriptions. A signature is written
without the `ca_none` that ends it. -/

namespace TelegramCli.Interface.Commands

open TelegramCli.Interface.Args TelegramCli.Interface.Handlers

/-- `struct command`. -/
structure Command where
  name : String
  args : List Slot
  handler : Handler
  desc : String

/-- An entry without `ca_optional`. -/
def req (op : CommandArgument) : Slot := ⟨op, false⟩

/-- An entry with `ca_optional`. -/
def opt (op : CommandArgument) : Slot := ⟨op, true⟩

def commands : List Command :=
  [ ⟨"accept_secret_chat", [req .secretChat], doAcceptSecretChat,
      "accept_secret_chat <secret chat>\tAccepts secret chat. Only useful with -E option"⟩,
    ⟨"add_contact", [req .string, req .string, req .string], doAddContact,
      "add_contact <phone> <first name> <last name>\tTries to add user to contact list"⟩,
    ⟨"block_user", [req .user], doBlockUser,
      "block_user <user>\tBlocks user"⟩,
    ⟨"broadcast", [req .user, req .period, req .stringEnd], doBroadcast,
      "broadcast <user>+ <text>\tSends text to several users at once"⟩,
    ⟨"channel_get_admins", [req .channel, opt .number, opt .number], doChannelGetAdmins,
      "channel_get_admins <channel> [limit=100] [offset=0]\tGets channel admins"⟩,
    ⟨"channel_get_members", [req .channel, opt .number, opt .number], doChannelGetMembers,
      "channel_get_members <channel> [limit=100] [offset=0]\tGets channel members"⟩,
    ⟨"channel_info", [req .channel], doChannelInfo,
      "channel_info <channel>\tPrints info about channel (id, members, admin, etc.)"⟩,
    ⟨"channel_invite", [req .channel, req .user], doChannelInvite,
      "channel_invite <channel> <user>\tInvites user to channel"⟩,
    ⟨"channel_join", [req .channel], doJoinChannel,
      "channel_join <channel>\tJoins to channel"⟩,
    ⟨"channel_kick", [req .channel, req .user], doChannelKick,
      "channel_kick <channel> <user>\tKicks user from channel"⟩,
    ⟨"channel_leave", [req .channel], doLeaveChannel,
      "channel_leave <channel>\tLeaves from channel"⟩,
    ⟨"channel_list", [opt .number, opt .number], doChannelList,
      "channel_list [limit=100] [offset=0]\tList of last channels"⟩,
    ⟨"channel_set_about", [req .channel, req .string], doChannelSetAbout,
      "channel_set_about <channel> <about>\tSets channel about info."⟩,
    ⟨"channel_set_admin", [req .channel, req .user, req .number], doChannelSetAdmin,
      "channel_set_admin <channel> <admin> <type>\tSets channel admin. 0 - not admin, 1 - " ++
      "moderator, 2 - editor"⟩,
    ⟨"channel_set_username", [req .channel, req .string], doChannelSetUsername,
      "channel_set_username <channel> <username>\tSets channel username info."⟩,
    ⟨"channel_set_photo", [req .channel, req .fileNameEnd], doChannelSetPhoto,
      "channel_set_photo <channel> <filename>\tSets channel photo. Photo will be cropped to " ++
      "square"⟩,
    ⟨"chat_add_user", [req .chat, req .user, opt .number], doChatAddUser,
      "chat_add_user <chat> <user> [msgs-to-forward]\tAdds user to chat. Sends him last " ++
      "msgs-to-forward message from this chat. Default 100"⟩,
    ⟨"chat_del_user", [req .chat, req .user], doChatDelUser,
      "chat_del_user <chat> <user>\tDeletes user from chat"⟩,
    ⟨"chat_info", [req .chat], doChatInfo,
      "chat_info <chat>\tPrints info about chat (id, members, admin, etc.)"⟩,
    ⟨"chat_set_photo", [req .chat, req .fileNameEnd], doChatSetPhoto,
      "chat_set_photo <chat> <filename>\tSets chat photo. Photo will be cropped to square"⟩,
    ⟨"chat_upgrade", [req .chat], doChatUpgrade,
      "chat_upgrade <chat>\tUpgrades chat to megagroup"⟩,
    ⟨"chat_with_peer", [req .peer], doChatWithPeer,
      "chat_with_peer <peer>\tInterface option. All input will be treated as messages to this " ++
      "peer. Type /quit to end this mode"⟩,
    ⟨"clear", [], doClear,
      "clear\tClears all data and exits. For debug."⟩,
    ⟨"contact_list", [], doContactList,
      "contact_list\tPrints contact list"⟩,
    ⟨"contact_search", [req .string], doResolveUsername,
      "contact_search username\tSearches user by username"⟩,
    ⟨"create_channel", [req .string, req .string, opt .user, req .period], doCreateChannel,
      "create_channel <name> <about> <user>+\tCreates channel with users"⟩,
    ⟨"create_group_chat", [req .string, req .user, req .period], doCreateGroupChat,
      "create_group_chat <name> <user>+\tCreates group chat with users"⟩,
    ⟨"create_secret_chat", [req .user], doCreateSecretChat,
      "create_secret_chat <user>\tStarts creation of secret chat"⟩,
    ⟨"del_contact", [req .user], doDelContact,
      "del_contact <user>\tDeletes contact from contact list"⟩,
    ⟨"delete_msg", [req .msgId], doDeleteMsg,
      "delete_msg <msg-id>\tDeletes message"⟩,
    ⟨"dialog_list", [opt .number, opt .number], doDialogList,
      "dialog_list [limit=100] [offset=0]\tList of last conversations"⟩,
    ⟨"export_card", [], doExportCard,
      "export_card\tPrints card that can be imported by another user with import_card method"⟩,
    ⟨"export_channel_link", [req .channel], doExportChannelLink,
      "export_channel_link\tPrints channel link that can be used to join to channel"⟩,
    ⟨"export_chat_link", [req .chat], doExportChatLink,
      "export_chat_link\tPrints chat link that can be used to join to chat"⟩,
    ⟨"fwd", [req .peer, req .msgId, req .period], doFwd,
      "fwd <peer> <msg-id>+\tForwards message to peer. Forward to secret chats is forbidden"⟩,
    ⟨"fwd_media", [req .peer, req .msgId], doFwdMedia,
      "fwd_media <peer> <msg-id>\tForwards message media to peer. Forward to secret chats is " ++
      "forbidden. Result slightly differs from fwd"⟩,
    ⟨"get_terms_of_service", [], doGetTermsOfService,
      "get_terms_of_service\tPrints telegram's terms of service"⟩,
    ⟨"get_message", [req .msgId], doGetMessage,
      "get_message <msg-id>\tGet message by id"⟩,
    ⟨"get_self", [], doGetSelf,
      "get_self \tGet our user info"⟩,
    ⟨"help", [opt .command], doHelp,
      "help [command]\tPrints this help"⟩,
    ⟨"history", [req .peer, opt .number, opt .number], doHistory,
      "history <peer> [limit] [offset]\tPrints messages with this peer (most recent message " ++
      "lower). Also marks messages as read"⟩,
    ⟨"import_card", [req .string], doImportCard,
      "import_card <card>\tGets user by card and prints it name. You can then send messages to " ++
      "him as usual"⟩,
    ⟨"import_chat_link", [req .string], doImportChatLink,
      "import_chat_link <hash>\tJoins to chat by link"⟩,
    ⟨"import_channel_link", [req .string], doImportChatLink,
      "import_channel_link <hash>\tJoins to channel by link"⟩,
    ⟨"load_audio", [req .msgId], doLoadAudio,
      "load_audio <msg-id>\tDownloads file to downloads dirs. Prints file name after download end"⟩,
    ⟨"load_channel_photo", [req .channel], doLoadUserPhoto,
      "load_channel_photo <channel>\tDownloads file to downloads dirs. Prints file name after " ++
      "download end"⟩,
    ⟨"load_chat_photo", [req .chat], doLoadUserPhoto,
      "load_chat_photo <chat>\tDownloads file to downloads dirs. Prints file name after download " ++
      "end"⟩,
    ⟨"load_document", [req .msgId], doLoadDocument,
      "load_document <msg-id>\tDownloads file to downloads dirs. Prints file name after download " ++
      "end"⟩,
    ⟨"load_document_thumb", [req .msgId], doLoadDocumentThumb,
      "load_document_thumb <msg-id>\tDownloads file to downloads dirs. Prints file name after " ++
      "download end"⟩,
    ⟨"load_file", [req .msgId], doLoadFile,
      "load_file <msg-id>\tDownloads file to downloads dirs. Prints file name after download end"⟩,
    ⟨"load_file_thumb", [req .msgId], doLoadFileThumb,
      "load_file_thumb <msg-id>\tDownloads file to downloads dirs. Prints file name after " ++
      "download end"⟩,
    ⟨"load_photo", [req .msgId], doLoadPhoto,
      "load_photo <msg-id>\tDownloads file to downloads dirs. Prints file name after download end"⟩,
    ⟨"load_user_photo", [req .user], doLoadUserPhoto,
      "load_user_photo <user>\tDownloads file to downloads dirs. Prints file name after download " ++
      "end"⟩,
    ⟨"load_video", [req .msgId], doLoadVideo,
      "load_video <msg-id>\tDownloads file to downloads dirs. Prints file name after download end"⟩,
    ⟨"load_video_thumb", [req .msgId], doLoadVideoThumb,
      "load_video_thumb <msg-id>\tDownloads file to downloads dirs. Prints file name after " ++
      "download end"⟩,
    ⟨"main_session", [], doMainSession,
      "main_session\tSends updates to this connection (or terminal). Useful only with listening " ++
      "socket"⟩,
    ⟨"mark_read", [req .peer], doMarkRead,
      "mark_read <peer>\tMarks messages with peer as read"⟩,
    ⟨"msg", [req .peer, req .msgStringEnd], doMsg,
      "msg <peer> <text>\tSends text message to peer"⟩,
    ⟨"msg_kbd", [req .peer, req .string, req .msgStringEnd], doMsgKbd,
      "msg <peer> <kbd> <text>\tSends text message to peer with custom kbd"⟩,
    ⟨"post", [req .peer, req .msgStringEnd], doPost,
      "post <peer> <text>\tSends text message to peer as admin"⟩,
    ⟨"post_audio", [req .peer, req .fileName], doPostAudio,
      "post_audio <peer> <file>\tPosts audio to peer"⟩,
    ⟨"post_document", [req .peer, req .fileName], doPostDocument,
      "post_document <peer> <file>\tPosts document to peer"⟩,
    ⟨"post_file", [req .peer, req .fileName], doPostFile,
      "post_file <peer> <file>\tSends document to peer"⟩,
    ⟨"post_location", [req .peer, req .double, req .double], doPostLocation,
      "post_location <peer> <latitude> <longitude>\tSends geo location"⟩,
    ⟨"post_photo", [req .peer, req .fileName, opt .stringEnd], doPostPhoto,
      "post_photo <peer> <file> [caption]\tSends photo to peer"⟩,
    ⟨"post_text", [req .peer, req .fileNameEnd], doPostText,
      "post_text <peer> <file>\tSends contents of text file as plain text message"⟩,
    ⟨"post_video", [req .peer, req .fileName, opt .stringEnd], doPostVideo,
      "post_video <peer> <file> [caption]\tSends video to peer"⟩,
    ⟨"quit", [], doQuit,
      "quit\tQuits immediately"⟩,
    ⟨"rename_channel", [req .channel, req .stringEnd], doRenameChannel,
      "rename_channel <channel> <new name>\tRenames channel"⟩,
    ⟨"rename_chat", [req .chat, req .stringEnd], doRenameChat,
      "rename_chat <chat> <new name>\tRenames chat"⟩,
    ⟨"rename_contact", [req .user, req .string, req .string], doRenameContact,
      "rename_contact <user> <first name> <last name>\tRenames contact"⟩,
    ⟨"reply", [req .msgId, req .msgStringEnd], doReply,
      "reply <msg-id> <text>\tSends text reply to message"⟩,
    ⟨"reply_audio", [req .msgId, req .fileName], doSendAudio,
      "reply_audio <msg-id> <file>\tSends audio to peer"⟩,
    ⟨"reply_contact", [req .msgId, req .string, req .string, req .string], doReplyContact,
      "reply_contact <msg-id> <phone> <first-name> <last-name>\tSends contact (not necessary " ++
      "telegram user)"⟩,
    ⟨"reply_document", [req .msgId, req .fileName], doReplyDocument,
      "reply_document <msg-id> <file>\tSends document to peer"⟩,
    ⟨"reply_file", [req .msgId, req .fileName], doReplyFile,
      "reply_file <msg-id> <file>\tSends document to peer"⟩,
    ⟨"reply_location", [req .msgId, req .double, req .double], doReplyLocation,
      "reply_location <msg-id> <latitude> <longitude>\tSends geo location"⟩,
    ⟨"reply_photo", [req .msgId, req .fileName, opt .stringEnd], doReplyPhoto,
      "reply_photo <msg-id> <file> [caption]\tSends photo to peer"⟩,
    ⟨"reply_video", [req .msgId, req .fileName], doReplyVideo,
      "reply_video <msg-id> <file>\tSends video to peer"⟩,
    ⟨"resolve_username", [req .string], doResolveUsername,
      "resolve_username username\tSearches user by username"⟩,
    ⟨"safe_quit", [], doSafeQuit,
      "safe_quit\tWaits for all queries to end, then quits"⟩,
    ⟨"search",
      [opt .peer, opt .number, opt .number, opt .number, opt .number, req .stringEnd],
      doSearch,
      "search [peer] [limit] [from] [to] [offset] pattern\tSearch for pattern in messages from " ++
      "date from to date to (unixtime) in messages with peer (if peer not present, in all " ++
      "messages)"⟩,
    ⟨"send_audio", [req .peer, req .fileName, opt .stringEnd], doSendAudio,
      "send_audio <peer> <file>\tSends audio to peer"⟩,
    ⟨"send_contact", [req .peer, req .string, req .string, req .string], doSendContact,
      "send_contact <peer> <phone> <first-name> <last-name>\tSends contact (not necessary " ++
      "telegram user)"⟩,
    ⟨"send_document", [req .peer, req .fileName, opt .stringEnd], doSendDocument,
      "send_document <peer> <file>\tSends document to peer"⟩,
    ⟨"send_file", [req .peer, req .fileName, opt .stringEnd], doSendFile,
      "send_file <peer> <file>\tSends document to peer"⟩,
    ⟨"send_location", [req .peer, req .double, req .double], doSendLocation,
      "send_location <peer> <latitude> <longitude>\tSends geo location"⟩,
    ⟨"send_photo", [req .peer, req .fileName, opt .stringEnd], doSendPhoto,
      "send_photo <peer> <file> [caption]\tSends photo to peer"⟩,
    ⟨"send_text", [req .peer, req .fileNameEnd], doSendText,
      "send_text <peer> <file>\tSends contents of text file as plain text message"⟩,
    ⟨"send_typing", [req .peer, opt .number], doSendTyping,
      "send_typing <peer> [status]\tSends typing notification. You can supply a custom status " ++
      "(range 0-10): none, typing, cancel, record video, upload video, record audio, upload " ++
      "audio, upload photo, upload document, geo, choose contact."⟩,
    ⟨"send_typing_abort", [req .peer], doSendTypingAbort,
      "send_typing_abort <peer>\tSends typing notification abort"⟩,
    ⟨"send_video", [req .peer, req .fileName, opt .stringEnd], doSendVideo,
      "send_video <peer> <file> [caption]\tSends video to peer"⟩,
    ⟨"set", [req .string, req .number], doSet,
      "set <param> <value>\tSets value of param. Currently available: log_level, " ++
      "debug_verbosity, alarm, msg_num"⟩,
    ⟨"set_password", [opt .string], doSetPassword,
      "set_password <hint>\tSets password"⟩,
    ⟨"set_profile_name", [req .string, req .string], doSetProfileName,
      "set_profile_name <first-name> <last-name>\tSets profile name."⟩,
    ⟨"set_profile_photo", [req .fileNameEnd], doSetProfilePhoto,
      "set_profile_photo <filename>\tSets profile photo. Photo will be cropped to square"⟩,
    ⟨"set_ttl", [req .secretChat, req .number], doSetTtl,
      "set_ttl <secret chat>\tSets secret chat ttl. Client itself ignores ttl"⟩,
    ⟨"set_username", [req .string], doSetUsername,
      "set_username <name>\tSets username."⟩,
    ⟨"set_phone_number", [req .string], doSetPhoneNumber,
      "set_phone_number <phone>\tChanges the phone number of this account"⟩,
    ⟨"show_license", [], doShowLicense,
      "show_license\tPrints contents of GPL license"⟩,
    ⟨"start_bot", [req .user, req .chat, req .string], doStartBot,
      "start_bot <bot> <chat> <data>\tAdds bot to chat"⟩,
    ⟨"stats", [], doStats,
      "stats\tFor debug purpose"⟩,
    ⟨"status_online", [], doStatusOnline,
      "status_online\tSets status as online"⟩,
    ⟨"status_offline", [], doStatusOffline,
      "status_offline\tSets status as offline"⟩,
    ⟨"unblock_user", [req .user], doUnblockUser,
      "unblock_user <user>\tUnblocks user"⟩,
    ⟨"user_info", [req .user], doUserInfo,
      "user_info <user>\tPrints info about user (id, last online, phone)"⟩,
    ⟨"version", [], doVersion,
      "version\tPrints client and library version"⟩,
    ⟨"view_audio", [req .msgId], doOpenAudio,
      "view_audio <msg-id>\tDownloads file to downloads dirs. Then tries to open it with system " ++
      "default action"⟩,
    ⟨"view_channel_photo", [req .channel], doViewUserPhoto,
      "view_channel_photo <channel>\tDownloads file to downloads dirs. Then tries to open it " ++
      "with system default action"⟩,
    ⟨"view_chat_photo", [req .chat], doViewUserPhoto,
      "view_chat_photo <chat>\tDownloads file to downloads dirs. Then tries to open it with " ++
      "system default action"⟩,
    ⟨"view_document", [req .msgId], doOpenDocument,
      "view_document <msg-id>\tDownloads file to downloads dirs. Then tries to open it with " ++
      "system default action"⟩,
    ⟨"view_document_thumb", [req .msgId], doOpenDocumentThumb,
      "view_document_thumb <msg-id>\tDownloads file to downloads dirs. Then tries to open it " ++
      "with system default action"⟩,
    ⟨"view_file", [req .msgId], doOpenFile,
      "view_file <msg-id>\tDownloads file to downloads dirs. Then tries to open it with system " ++
      "default action"⟩,
    ⟨"view_file_thumb", [req .msgId], doOpenFileThumb,
      "view_file_thumb <msg-id>\tDownloads file to downloads dirs. Then tries to open it with " ++
      "system default action"⟩,
    ⟨"view_photo", [req .msgId], doOpenPhoto,
      "view_photo <msg-id>\tDownloads file to downloads dirs. Then tries to open it with system " ++
      "default action"⟩,
    ⟨"view_user_photo", [req .user], doViewUserPhoto,
      "view_user_photo <user>\tDownloads file to downloads dirs. Then tries to open it with " ++
      "system default action"⟩,
    ⟨"view_video", [req .msgId], doOpenVideo,
      "view_video <msg-id>\tDownloads file to downloads dirs. Then tries to open it with system " ++
      "default action"⟩,
    ⟨"view_video_thumb", [req .msgId], doOpenVideoThumb,
      "view_video_thumb <msg-id>\tDownloads file to downloads dirs. Then tries to open it with " ++
      "system default action"⟩,
    ⟨"view", [req .msgId], doOpenAny,
      "view <msg-id>\tTries to view message contents"⟩,
    ⟨"visualize_key", [req .secretChat], doVisualizeKey,
      "visualize_key <secret chat>\tPrints visualization of encryption key (first 16 bytes sha1 " ++
      "of it in fact)"⟩ ]

end TelegramCli.Interface.Commands
