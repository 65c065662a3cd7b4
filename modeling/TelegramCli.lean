import TelegramCli.Control.AnswerFrames
import TelegramCli.Control.Owed
import TelegramCli.Control.Progress
import TelegramCli.Control.Release
import TelegramCli.Control.Service
import TelegramCli.Interface.Cards
import TelegramCli.Interface.Contract
import TelegramCli.Interface.EndTokens
import TelegramCli.Interface.Generator
import TelegramCli.Interface.MarkRead
import TelegramCli.Interface.Modifiers
import TelegramCli.Interface.Numbers
import TelegramCli.Interface.PeerKinds
import TelegramCli.Interface.PermanentIds
import TelegramCli.Interface.PrintMessage
import TelegramCli.Interface.Usernames
import TelegramCli.Json.Media
import TelegramCli.Json.Packed
import TelegramCli.Loop.AuthFile
import TelegramCli.Loop.Prompts
import TelegramCli.Loop.StateFile
import TelegramCli.Loop.StdinLines
import TelegramCli.Loop.TornFile
import TelegramCli.Lua.Completions
import TelegramCli.Lua.Passed
import TelegramCli.Telegrab.Dialogs
import TelegramCli.Telegrab.Downloads
import TelegramCli.Telegrab.EscapedText
import TelegramCli.Telegrab.Escaping
import TelegramCli.Telegrab.Nesting
import TelegramCli.Telegrab.StrReplace
import TelegramCli.Telegrab.Transcript
import TelegramCli.Telegrab.Utf8Safety
