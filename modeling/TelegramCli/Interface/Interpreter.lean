import TelegramCli.Interface.Commands

/-! # A command line

`interpreterEx` takes one line: it works through the modifiers in brackets, looks the command up,
runs the argument loop, and calls the handler as often as `count` says. Whatever it does on the way
to an `Outcome`, the handler calls and the `FAIL` answers a line leads to are its `events`. -/

namespace TelegramCli.Interface.Interpreter

open TelegramCli.Lib.CNumber TelegramCli.Lib.CString TelegramCli.Tgl
open TelegramCli.Interface.Token TelegramCli.Interface.Args TelegramCli.Interface.Handlers
open TelegramCli.Interface.Actions TelegramCli.Interface.Commands

/-- The ids, whether the program was built with `ALLOW_MULT` and runs with `enable_json`, and the
texts `json_string` accepts. -/
structure Env where
  ids : Ids.Env
  allowMult : Bool
  enableJson : Bool
  jsonString : List UInt8 → Bool

/-- What a line in chat mode asks for. -/
inductive ChatCommand
  | exit
  | history (limit : ℤ)
  | read
  | send (text : List UInt8)
  | nothing

inductive Outcome
  /-- The handler is called `count` times. -/
  | dispatched (cmd : Command) (g : Globals) (args : List Arg)
  /-- `fail_interface` sends a `FAIL`. -/
  | failed (text : List UInt8)
  /-- The line is left without an answer. -/
  | silent
  | empty
  | extf (line : List UInt8)
  | safeQuit
  | chat (c : ChatCommand)
  /-- An assertion fails. -/
  | abort
  /-- A loop spins. -/
  | hang

/-- A call of a handler, or a `FAIL` answer. -/
inductive Event
  | call (cmd : Command) (g : Globals) (args : List Arg)
  | fail (text : List UInt8)

def Outcome.events : Outcome → List Event
  | .dispatched cmd g args => List.replicate g.count.toNat (.call cmd g args)
  | .failed text => [.fail text]
  | _ => []

/-- `fail_interface`, which prints into 1000 bytes. With `enable_json` the text has to be a JSON
string. -/
def failInterface (E : Env) (text : List UInt8) : Outcome :=
  let error := text.take 999
  if E.enableJson && !E.jsonString error then .abort else .failed error

/-! ### Modifiers -/

/-- `sscanf` with a format that is a word and `%d`. -/
def scanWord (word s : List UInt8) : Option ℤ :=
  if word.isPrefixOf s then scanInt (s.drop word.length) else none

/-- `work_modifier` on the current token; `sscanf` reads on behind it. -/
def workModifier (E : Env) (t : Scanner) (g : Globals) : Globals :=
  let g := if t.tok = lit "[offline]" then { g with offlineMode := true } else g
  let g := (scanWord (lit "[reply=") t.curToken).elim g fun n => { g with replyId := n }
  let g := if t.tok = lit "[html]" then { g with doHtml := true } else g
  let g := if t.tok = lit "[disable_preview]" then { g with disableMsgPreview := .disable } else g
  let g := if t.tok = lit "[enable_preview]" then { g with disableMsgPreview := .enable } else g
  if E.allowMult then
    (scanWord (lit "[x") t.curToken).elim g fun n => { g with count := n }
  else g

/-- What the start of a line is found to be. -/
inductive Head
  /-- A text for `fail_interface`. -/
  | fail (g : Globals) (text : List UInt8)
  | abort
  | hang
  /-- The name of a command as the current token. -/
  | name (g : Globals) (t : Scanner)

/-- At most `fuel` tokens of the loop over the modifiers. -/
def modifierLoop (E : Env) : ℕ → Globals → Scanner → Head
  | 0, _, _ => .hang
  | fuel + 1, g, s =>
    match nextToken true s with
    | none => .abort
    | some t =>
      if t.curTokenQuoted then .fail g (lit "can not parse modifier")
      else if t.curTokenLen ≤ 0 then .fail g (lit "can not parse modifier")
      else if deref t.curToken = 91 then
        if t.curTokenEndStr then .fail g (lit "can not parse modifier")
        else if t.tok.getLast? ≠ some 93 then .fail g (lit "can not parse modifier")
        else modifierLoop E fuel (workModifier E t g) t
      else .name g t

/-- The variables as a line finds them. -/
def Globals.reset : Globals := ⟨false, false, 0, .default, 1⟩

/-- The start of a line; every modifier takes at least a byte of it. -/
def parseHead (E : Env) (line : List UInt8) : Head :=
  modifierLoop E (line.length + 1) Globals.reset (Scanner.start line)

/-- The command with the current token as its name. -/
def findCommand (table : List Command) (t : Scanner) : Option Command :=
  table.find? fun cmd => t.tok = lit cmd.name

/-! ### The interpreter -/

/-- `interpreter_chat_mode`. -/
def interpreterChatMode (line : Option (List UInt8)) : ChatCommand :=
  match line with
  | none => .exit
  | some line =>
    if (lit "/exit").isPrefixOf line || (lit "/quit").isPrefixOf line then .exit
    else if (lit "/history").isPrefixOf line then
      -- the format is `/history %99d`
      let rest := (line.drop 8).dropWhile isSpace
      let limit := (scanInt (rest.take 99)).getD 40
      .history (if limit < 0 || 1000 < limit then 40 else limit)
    else if (lit "/read").isPrefixOf line then .read
    else if deref line ≠ 0 then .send (cstring line)
    else .nothing

/-- The end of the argument loop for a command. -/
def finish (E : Env) (cmd : Command) (g : Globals) : Exit → Outcome
  | .dispatch args => .dispatched cmd g args
  | .fail text => failInterface E text
  | .silent => .silent
  | .abort => .abort
  | .hang => .hang

/-- A line that is neither empty nor an `extf` query. -/
def interpretLine (E : Env) (table : List Command) (line : List UInt8) : Outcome :=
  match parseHead E line with
  | .fail _ text => failInterface E text
  | .abort => .abort
  | .hang => .hang
  | .name g t =>
    if t.curTokenQuoted || t.curTokenEndStr then failInterface E (lit "can not parse command name")
    else
      match findCommand table t with
      | none => failInterface E (lit "can not find command '" ++ cstring t.tok ++ lit "'")
      | some cmd => finish E cmd g (parseArgs E.ids cmd.args t)

/-- `interpreter_ex`; no line is the end of the input. -/
def interpreterEx (E : Env) (table : List Command) (inChatMode : Bool)
    (line : Option (List UInt8)) : Outcome :=
  if inChatMode then .chat (interpreterChatMode line)
  else
    match line with
    | none => .safeQuit
    | some line =>
      if deref line = 0 then .empty
      else if deref line = 40 then .extf (cstring line)
      else interpretLine E table line

/-! ### A library for examples -/

/-- The user `Alice`. -/
def alice : Peer :=
  { id := ⟨.user, 1, 0⟩, printName := some (lit "Alice"), username := none, phone := none
    encrChatOk := false, deleted := false, created := true
    firstName := some (lit "Alice"), lastName := none, title := none }

/-- A library that knows one user. -/
def aliceEnv : Env where
  ids :=
    { sizeofPeerId := 16, sizeofMsgId := 24
      peerIdOf := fun _ => Ids.peerNotFound, msgIdOf := fun _ => Ids.msgIdZero
      peerTempId := 100, strtod := fun s => (0, s)
      peerGet := fun id =>
        if id.peerType = .user ∧ id.peerId = alice.id.peerId then some alice else none
      peerGetByName := fun s => if s = lit "Alice" then some alice else none
      lookupUsername := fun _ => none }
  allowMult := false
  enableJson := false
  jsonString := fun _ => true

end TelegramCli.Interface.Interpreter
