import TelegramCli.Interface.Interpreter

/-! # Line after line

The variables that live from one line to the next are a `Session`: the chat mode of the console, its
partner, and the variables that modifiers set. `interpret` handles a line in a session: it gives the
`Effect`s of the line in order, and the session it leaves. In chat mode a line never reaches the
commands, and the variables stay as they are. -/

namespace TelegramCli.Interface.Sessions

open TelegramCli.Lib.CString TelegramCli.Tgl TelegramCli.Interface.Token TelegramCli.Interface.Args
open TelegramCli.Interface.Actions TelegramCli.Interface.Handlers TelegramCli.Interface.Commands
open TelegramCli.Interface.Interpreter

/-- `in_chat_mode`, `chat_mode_id` and the variables of modifiers. -/
structure Session where
  inChatMode : Bool
  chatModeId : PeerId
  globals : Globals

/-- The session when the program starts. -/
def Session.start : Session := ⟨false, ⟨.other 0, 0, 0⟩, Globals.reset⟩

/-- What the library answers while a line is handled; `answersNow` says that it runs the callback of
a query before the function returns. -/
structure Library where
  env : Env
  ourId : PeerId
  peerGet : PeerId → Option Peer
  messageGet : MsgId → Option Message
  replyMarkup : Str → Bool
  answersNow : Query → Bool

inductive Effect
  | call (cmd : Command) (g : Globals) (args : List Arg)
  | fail (text : List UInt8)
  | extf (line : List UInt8)
  /-- A query of the chat mode, which no connection asks for; `none` is no callback. -/
  | chat (q : Query) (cb : Option Callback)
  /-- `do_safe_quit` without a connection. -/
  | safeQuit

/-- What `interpreter_chat_mode` asks the library for. -/
def chatEffects (σ : Session) : ChatCommand → List Effect
  | .exit => []
  | .history limit =>
    [.chat (.getHistory σ.chatModeId 0 limit σ.globals.offlineMode) (some .printMsgList)]
  | .read => [.chat (.markRead σ.chatModeId) none]
  | .send text => [.chat (.sendMessage σ.chatModeId (some text) {} none) none]
  | .nothing => []

/-- The effects of a line; `none` is a failed assertion. -/
def effects (σ : Session) : Outcome → Option (List Effect)
  | .dispatched cmd g args => some (List.replicate g.count.toNat (.call cmd g args))
  | .failed text => some [.fail text]
  | .silent => some []
  | .empty => some []
  | .extf line => some [.extf line]
  | .safeQuit => some [.safeQuit]
  | .chat c => some (chatEffects σ c)
  | .abort => none
  | .hang => none

/-- The variables of modifiers behind a line that is not in chat mode. -/
def globalsAfter (E : Env) : Option (List UInt8) → Globals
  | none => Globals.reset
  | some line =>
    if deref line = 0 ∨ deref line = 40 then Globals.reset
    else
      match parseHead E line with
      | .fail g _ => g
      | .name g _ => g
      | .abort => Globals.reset
      | .hang => Globals.reset

/-- The variables behind a line, as far as `interpreter_ex` itself goes. -/
def afterLine (E : Env) (σ : Session) (line : Option (List UInt8)) : Session :=
  if σ.inChatMode then
    match interpreterChatMode line with
    | .exit => { σ with inChatMode := false }
    | _ => σ
  else { σ with globals := globalsAfter E line }

/-- What a handler does; `ev` says that a connection gave the command. -/
def handlerActions (lib : Library) (daemonize ev : Bool) (cmd : Command) (g : Globals)
    (args : List Arg) : Except Breach (List Action) :=
  cmd.handler.run args
    { ev := ev, daemonize := daemonize, globals := g, ourId := lib.ourId
      peerGet := lib.peerGet, messageGet := lib.messageGet, replyMarkup := lib.replyMarkup
      commands := commands.map fun cmd => (cmd.name, cmd.desc) }

def Session.act (σ : Session) : Action → Session
  | .chatWithPeer id => { σ with inChatMode := true, chatModeId := id }
  | _ => σ

/-- The session behind an effect; `none` when a handler's contract is broken. -/
def Session.after (lib : Library) (daemonize ev : Bool) (σ : Session) : Effect → Option Session
  | .call cmd g args =>
    match handlerActions lib daemonize ev cmd g args with
    | .ok acts => some (acts.foldl Session.act σ)
    | .error _ => none
  | _ => some σ

/-- **A line**: its effects, and the session behind it. -/
def interpret (lib : Library) (daemonize ev : Bool) (σ : Session) (line : Option (List UInt8)) :
    Option (List Effect × Session) := do
  let es ← effects σ (interpreterEx lib.env commands σ.inChatMode line)
  let τ ← es.foldlM (Session.after lib daemonize ev) (afterLine lib.env σ line)
  return (es, τ)

/-- The library of `aliceEnv`. -/
def aliceLibrary : Library where
  env := aliceEnv
  ourId := ⟨.user, 2, 0⟩
  peerGet := fun id => if id = alice.id then some alice else none
  messageGet := fun _ => none
  replyMarkup := fun _ => false
  answersNow := fun _ => false

end TelegramCli.Interface.Sessions
