import TelegramCli.Interface.Ids

/-! # The argument loop

`argLoop` is the loop of `interpreter_ex` over the slots of a command's signature. The pointer
`flags` is an index into the signature, which the table fills up with `ca_none`; a round either goes
on (`next`), or leaves the loop: it calls the command (`dispatch`), sends a `FAIL` (`fail`), or just
breaks (`silent`). The values of `union arg` keep the member they were stored
through. -/

namespace TelegramCli.Interface.Args

open TelegramCli.Lib.CNumber TelegramCli.Lib.CString TelegramCli.Tgl
open TelegramCli.Interface.Token TelegramCli.Interface.Ids

/-- `enum command_argument` without `ca_optional`. -/
inductive CommandArgument
  | none
  | user
  | chat
  | secretChat
  | channel
  | peer
  | fileName
  | fileNameEnd
  | period
  | number
  | double
  | stringEnd
  | msgStringEnd
  | string
  | modifier
  | command
  | extf
  | msgId
  deriving DecidableEq, Repr

/-- An entry of a signature, with the bit `ca_optional`. -/
structure Slot where
  op : CommandArgument
  opt : Bool
  deriving DecidableEq, Repr

/-- The entry an array of entries is filled up with. -/
def Slot.none : Slot := ⟨.none, false⟩

/-- The member of `union arg` a value is stored through. -/
inductive Member
  | str
  | num
  | dval
  | msgId
  | peerId
  deriving DecidableEq, Repr

/-- A value stored in `struct arg`. -/
inductive Arg
  | str (s : Str)
  | num (n : ℤ)
  | dval (x : Double)
  | msgId (id : MsgId)
  | peerId (id : PeerId)
  deriving DecidableEq, Repr

def Arg.member : Arg → Member
  | .str _ => .str
  | .num _ => .num
  | .dval _ => .dval
  | .msgId _ => .msgId
  | .peerId _ => .peerId

/-- The slots that take a number or an id. -/
def isId : CommandArgument → Bool
  | .user | .chat | .secretChat | .peer | .number | .double | .msgId | .channel => true
  | _ => false

/-- The slots that take a word. -/
def isWord : CommandArgument → Bool
  | .string | .fileName | .command => true
  | _ => false

/-- The slots that take the rest of the line. -/
def isEnd : CommandArgument → Bool
  | .stringEnd | .fileNameEnd | .msgStringEnd => true
  | _ => false

/-- The member a slot's value is stored through. -/
def CommandArgument.member : CommandArgument → Member
  | .number => .num
  | .double => .dval
  | .msgId => .msgId
  | .user | .chat | .secretChat | .channel | .peer => .peerId
  | _ => .str

/-- What an optional number or id slot stores when there is no token for it. -/
def missing : CommandArgument → Arg
  | .number => .num notFound
  | .msgId => .msgId msgIdZero
  | .double => .dval notFoundDouble
  | _ => .peerId peerNotFound

def peerArg (E : Env) (tok : List UInt8) (mask : Option PeerType) : Arg × Bool :=
  let id := parseInputPeerId E tok mask
  (.peerId id, id.peerId ≠ notFound)

/-- The value of a number or id slot for an unquoted token, and the flag `ok`; `none` is a failed
assertion. -/
def readId (E : Env) (op : CommandArgument) (tok : List UInt8) : Option (Arg × Bool) :=
  match op with
  | .user => some (peerArg E tok (some .user))
  | .chat => some (peerArg E tok (some .chat))
  | .secretChat => some (peerArg E tok (some .encrChat))
  | .channel => some (peerArg E tok (some .channel))
  | .peer => some (peerArg E tok none)
  | .number => let x := curTokenInt tok; some (.num x, x ≠ notFound)
  | .msgId => (parseInputMsgId E tok).map fun id => (.msgId id, id.peerType ≠ 0)
  | .double => let x := curTokenDouble E tok; some (.dval x, x ≠ notFoundDouble)
  | _ => none

/-! ### One round -/

structure LoopState where
  flags : ℕ
  args : List Arg
  scan : Scanner

inductive Round
  /-- `flags += move`. -/
  | next (move : ℕ) (args : List Arg) (scan : Scanner)
  | dispatch (args : List Arg)
  | fail (text : List UInt8)
  | silent
  | abort
  /-- No branch takes the slot, and the loop spins. -/
  | hang

/-- The most arguments there are, the size of `args`. -/
def argsMax : ℕ := 1000

/-- `*(flags + i)`. -/
def slotAt (sig : List Slot) (i : ℕ) : Slot := sig.getD i Slot.none

/-- `ca_period`. -/
def Slot.period : Slot := ⟨.period, false⟩

/-- Before a `ca_period` the pointer steps back to the slot it repeats. -/
def stepBack (sig : List Slot) (flags : ℕ) : ℕ :=
  if slotAt sig flags = Slot.period then flags - 1 else flags

/-- The slot is followed by `ca_period`. -/
def repeated (sig : List Slot) (flags : ℕ) : Bool :=
  slotAt sig flags ≠ Slot.none && slotAt sig (flags + 1) = Slot.period

/-- A number or id slot, with the token `t` behind the scanner `s`. -/
def idRound (E : Env) (slot : Slot) (period : Bool) (args : List Arg) (s t : Scanner) : Round :=
  let save : Scanner := { t with linePtr := s.linePtr }
  if t.curTokenQuoted || t.curTokenEndStr then
    if slot.opt then .next 1 (args ++ [missing slot.op]) save
    else if period then .next 2 args save
    else .silent
  else
    match readId E slot.op t.tok with
    | none => .abort
    | some (a, ok) =>
      if period && !ok then .next 2 args save
      else if slot.opt && !ok then .next 1 (args ++ [a]) save
      else if !ok then .fail (lit "can not parse arg #" ++ decimal (args.length + 1))
      else .next 1 (args ++ [a]) t

/-- A word slot. -/
def wordRound (slot : Slot) (args : List Arg) (t : Scanner) : Round :=
  if t.curTokenEndStr || t.curTokenLen < 0 then
    if slot.opt then .next 1 (args ++ [.str none]) t
    else .fail (lit "can not parse string arg #" ++ decimal args.length)
  else .next 1 (args ++ [.str (some (cstring t.tok))]) t

/-- One round at a slot that is not `ca_period`. -/
def slotRound (E : Env) (slot : Slot) (period : Bool) (args : List Arg) (s : Scanner) : Round :=
  if slot.op = .none then
    match nextToken true s with
    | none => .abort
    | some t =>
      if t.curTokenEndStr then .dispatch args
      else .fail (lit "too many args #" ++ decimal args.length)
  else if isEnd slot.op then
    match nextTokenEnd true s with
    | none => .abort
    | some t =>
      if t.curTokenLen < 0 then .fail (lit "can not parse string_end arg #" ++ decimal args.length)
      else .dispatch (args ++ [.str (some (cstring t.tok))])
  else
    match nextToken true s with
    | none => .abort
    | some t =>
      if period && t.curTokenEndStr then .dispatch args
      else if isId slot.op then idRound E slot period args s t
      else if isWord slot.op then wordRound slot args t
      else .hang

/-! ### The loop -/

/-- How the loop ends. -/
inductive Exit
  | dispatch (args : List Arg)
  | fail (text : List UInt8)
  | silent
  | abort
  | hang
  deriving DecidableEq, Repr

/-- At most `fuel` rounds. -/
def argLoop (E : Env) (sig : List Slot) : ℕ → LoopState → Exit
  | 0, _ => .hang
  | fuel + 1, st =>
    if st.args.length < argsMax then
      let flags := stepBack sig st.flags
      match slotRound E (slotAt sig flags) (repeated sig flags) st.args st.scan with
      | .next move args scan => argLoop E sig fuel ⟨flags + move, args, scan⟩
      | .dispatch args => .dispatch args
      | .fail text => .fail text
      | .silent => .silent
      | .abort => .abort
      | .hang => .hang
    else .abort

/-- A bound of the rounds left: a round takes an argument or goes past a slot for good. -/
def roundsLeft (sig : List Slot) (st : LoopState) : ℕ :=
  (argsMax - st.args.length) * (sig.length + 3) + (sig.length + 2 - st.flags)

/-- The whole loop. -/
def parseArgs (E : Env) (sig : List Slot) (scan : Scanner) : Exit :=
  argLoop E sig (roundsLeft sig ⟨0, [], scan⟩ + 1) ⟨0, [], scan⟩

end TelegramCli.Interface.Args
