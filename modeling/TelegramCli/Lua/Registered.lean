import TelegramCli.Interface.ArgMemory

/-! # Commands registered from Lua

`lua-tg.c` fills in an entry of the table of commands, and reads the arguments that `interpreter_ex`
passes to it, with declarations of its own: its `enum command_argument` has no `ca_msg_string_end`
and no `ca_msg_id`, and its `struct arg` has a member for each kind of value where the one of
`interface.c` has a union. So what is registered is the numbers (`LuaSlot.code`), what
`interpreter_ex` sees is what they mean to it (`LuaSlot.seen`), and what `do_interface_from_lua`
reads is words of the memory.

The memory is that of a 64-bit platform, in words of 8 bytes. A value that is stored in a union
leaves the words it does not need as they were; the padding behind `flags` is zero, as `args` is
static. The conversion of a `long long` to a Lua number is not modelled. -/

namespace TelegramCli.Lua.Registered

open TelegramCli.Lib.CString TelegramCli.Tgl TelegramCli.Interface.Token
open TelegramCli.Interface.Ids hiding Env
open TelegramCli.Interface.Args TelegramCli.Interface.ArgMemory

/-! ### The two enumerations -/

/-- `enum command_argument` of `lua-tg.c` without `ca_optional`. -/
inductive LuaArgument
  | none
  | user
  | chat
  | secretChat
  | channel
  | peer
  | fileName
  | fileNameEnd
  | period
  | number
  | double
  | stringEnd
  | string
  | modifier
  | command
  | extf
  deriving DecidableEq, Repr

/-- The kinds in the order of their numbers. -/
def LuaArgument.all : List LuaArgument :=
  [.none, .user, .chat, .secretChat, .channel, .peer, .fileName, .fileNameEnd, .period, .number,
   .double, .stringEnd, .string, .modifier, .command, .extf]

def LuaArgument.toNum (a : LuaArgument) : ℕ := LuaArgument.all.idxOf a

/-- The kinds of `interface.c` in the order of their numbers. -/
def interfaceKinds : List CommandArgument :=
  [.none, .user, .chat, .secretChat, .channel, .peer, .fileName, .fileNameEnd, .period, .number,
   .double, .stringEnd, .msgStringEnd, .string, .modifier, .command, .extf, .msgId]

/-- The kind of `interface.c` with the name of the kind. -/
def LuaArgument.named : LuaArgument → CommandArgument
  | .none => .none
  | .user => .user
  | .chat => .chat
  | .secretChat => .secretChat
  | .channel => .channel
  | .peer => .peer
  | .fileName => .fileName
  | .fileNameEnd => .fileNameEnd
  | .period => .period
  | .number => .number
  | .double => .double
  | .stringEnd => .stringEnd
  | .string => .string
  | .modifier => .modifier
  | .command => .command
  | .extf => .extf

/-- A slot as it is registered. -/
structure LuaSlot where
  op : LuaArgument
  opt : Bool
  deriving DecidableEq, Repr

/-- `ca_optional`. -/
def caOptional : ℕ := 256

/-- The number in the table. -/
def LuaSlot.code (s : LuaSlot) : ℕ := s.op.toNum + if s.opt then caOptional else 0

/-- The slot with the names that were registered. -/
def LuaSlot.kind (s : LuaSlot) : Slot := ⟨s.op.named, s.opt⟩

/-- The slot that `interpreter_ex` finds in the table. -/
def LuaSlot.seen (s : LuaSlot) : Slot :=
  ⟨interfaceKinds.getD (s.code % 256) .none, caOptional ≤ s.code⟩

/-- **Only strings are seen as another kind**. -/
theorem seen_eq_kind_iff (s : LuaSlot) : s.seen = s.kind ↔
    s.op ∉ [.string, .modifier, .command, .extf] := by
  obtain ⟨op, opt⟩ := s
  cases op <;> cases opt <;> decide

example : LuaSlot.seen ⟨.string, true⟩ = ⟨.msgStringEnd, true⟩ := by decide

/-! ### Registration -/

/-- The names `VARIANT` knows. -/
def variants : List (List UInt8 × LuaArgument) :=
  [(lit "user", .user), (lit "chat", .chat), (lit "secret_chat", .secretChat), (lit "peer", .peer),
   (lit "file_name", .fileName), (lit "file_name_end", .fileNameEnd), (lit "period", .period),
   (lit "number", .number), (lit "double", .double), (lit "string_end", .stringEnd),
   (lit "string", .string)]

def optionalSuffix : List UInt8 := lit " optional"

/-- The slot a string of the signature stands for. -/
def parseVariant (s : List UInt8) : Option LuaSlot :=
  let opt := 9 < s.length && optionalSuffix.isSuffixOf s
  let word := if opt then s.take (s.length - 9) else s
  (variants.find? (·.1 = word)).map fun v => ⟨v.2, opt⟩

/-- `register_interface_from_lua`: the slots of the entry, if there are one to eight strings and it
knows them all. -/
def registerArgs (names : List Str) : Option (List LuaSlot) :=
  if 1 ≤ names.length ∧ names.length ≤ 8 then names.mapM fun s => s.bind parseVariant else none

/-- A signature that is accepted. -/
structure Signature where
  names : List Str
  slots : List LuaSlot
  accepted : registerArgs names = some slots

/-! ### Memory -/

/-- The numbers of the peer types, and the addresses `strndup` gives. -/
structure Platform where
  peerType : PeerType → BitVec 32
  addr : ℕ → BitVec 64
  addr_ne : ∀ a, addr a ≠ 0

/-- Two `int`s in a word. -/
def pair (lo hi : BitVec 32) : BitVec 64 := hi ++ lo

/-- The words that a value takes, from the start of the union on. -/
def valueWords (L : Platform) : Value → List (BitVec 64)
  | .dup a _ => [L.addr a]
  | .stored (.str _) => [0]
  | .stored (.num n) => [BitVec.ofInt 64 n]
  | .stored (.dval x) => [x]
  | .stored (.peerId id) =>
    [pair (L.peerType id.peerType) (BitVec.ofInt 32 id.peerId), BitVec.ofInt 64 id.accessHash]
  | .stored (.msgId id) =>
    [pair (BitVec.ofInt 32 id.peerType) (BitVec.ofInt 32 id.peerId), BitVec.ofInt 64 id.id,
     BitVec.ofInt 64 id.accessHash]

/-- **The memory holds the array** of `interface.c`, whose entries are `flags` and a union of three
words, four words each. -/
structure Represents (L : Platform) (mem : ℕ → BitVec 64) (f : Frame) : Prop where
  flags : ∀ i < argsMax, mem (4 * i) = if (f.args i).flag then 1 else 0
  value : ∀ i < argsMax, ∀ k w, (valueWords L (f.args i).value)[k]? = some w →
    mem (4 * i + 1 + k) = w

/-- The strings and the peers in the memory. -/
structure Heap where
  stringAt : BitVec 64 → Option (List UInt8)
  peerAt : BitVec 64 → Option PeerId

/-- The strings of the arguments stand where they were duplicated to. -/
def Heap.HasStrings (H : Heap) (L : Platform) (f : Frame) : Prop :=
  ∀ i < f.argsNum, ∀ a s, (f.args i).value = .dup a s → H.stringAt (L.addr a) = some s

/-! ### `do_interface_from_lua` -/

/-- A value on the stack of Lua. -/
inductive LuaValue
  | nil
  | peer (id : PeerId)
  | string (s : List UInt8)
  | integer (n : ℤ)
  | number (x : Double)
  /-- No slot that can be registered takes a message id. -/
  | message (id : MsgId)
  deriving DecidableEq

/-- `command->args[j]`. -/
def entryCode (slots : List LuaSlot) (j : ℕ) : ℕ := (slots.map LuaSlot.code).getD j 0

/-- The loop over `j`; `none` is the assertion behind it. -/
def codeFrom (slots : List LuaSlot) : ℕ → Option ℕ
  | 0 =>
    if entryCode slots 0 = LuaArgument.period.toNum ∨ entryCode slots 0 = 0 then none
    else some (entryCode slots 0)
  | j + 1 =>
    if entryCode slots (j + 1) = LuaArgument.period.toNum ∨ entryCode slots (j + 1) = 0 then
      codeFrom slots j
    else some (entryCode slots (j + 1))

/-- `command->args[j] & 0xff`. -/
def codeKind (code : ℕ) : LuaArgument := LuaArgument.all.getD (code % 256) .none

/-- What is pushed for the argument `i`, whose `struct arg` is `flags` and the members `P`, `M`,
`str`, `num` and `dval`, six words; `none` is a failed assertion or an access to memory that is not
there. -/
def pushArg (H : Heap) (mem : ℕ → BitVec 64) (i : ℕ) (code : ℕ) : Option LuaValue :=
  match codeKind code with
  | .user | .chat | .secretChat | .peer =>
    if mem (6 * i + 1) = 0 then some .nil else (H.peerAt (mem (6 * i + 1))).map .peer
  | .fileName | .fileNameEnd | .stringEnd | .string =>
    if mem (6 * i + 3) = 0 then some .nil else (H.stringAt (mem (6 * i + 3))).map .string
  | .number =>
    if (mem (6 * i + 4)).toInt = notFound then some .nil
    else some (.integer (mem (6 * i + 4)).toInt)
  | .double =>
    if mem (6 * i + 5) = notFoundDouble then some .nil else some (.number (mem (6 * i + 5)))
  -- `assert (0)` for a `period` that is optional; the others cannot be registered
  | _ => none

/-- The values passed to the Lua function. -/
def doInterfaceFromLua (H : Heap) (slots : List LuaSlot) (argNum : ℕ) (mem : ℕ → BitVec 64) :
    Option (List LuaValue) :=
  (List.range argNum).mapM fun i => (codeFrom slots (min i 9)).bind (pushArg H mem i)

/-! ### What a line comes to -/

/-- The value of an argument, `nil` if it is absent. -/
def valueOf : Arg → LuaValue
  | .str none => .nil
  | .str (some s) => .string s
  | .num n => if n = notFound then .nil else .integer n
  | .dval x => if x = notFoundDouble then .nil else .number x
  | .peerId id => if id.peerId = notFound then .nil else .peer id
  | .msgId id => .message id

/-- The argument loop for a registered command, from the array that the line finds; `none` is an
access in front of the signature. -/
def parseRegistered (E : Interface.Ids.Env) (slots : List LuaSlot) (args : ℕ → Entry)
    (t : Scanner) : Option MemExit :=
  if (slots.map LuaSlot.seen).head? = some Slot.period then none
  else some (memParseArgs E (slots.map LuaSlot.seen) ⟨true, args, 0, []⟩ t)

/-- The loop neither fails an assertion nor spins. -/
def Answers : Exit → Bool
  | .abort | .hang => false
  | _ => true

/-- **A line is served right**, whatever the array was before and whatever the words are that no
value needs: the loop ends, each slot is parsed as the kind that was registered, and the Lua
function gets the values parsed. -/
def ServesLine (E : Interface.Ids.Env) (slots : List LuaSlot) (t : Scanner) : Prop :=
  ∀ args, ∃ exit, parseRegistered E slots args t = some exit ∧ Answers exit.view = true ∧
    exit.view = parseArgs E (slots.map LuaSlot.kind) t ∧
    ∀ f, exit = .dispatch f → ∀ L H mem, Represents L mem f → H.HasStrings L f →
      doInterfaceFromLua H slots f.argsNum mem = some (f.view.map valueOf)

/-! ### The lines with nothing to pass -/

/-- The loop comes to a slot for a string, within as many rounds. -/
def meetsString (E : Interface.Ids.Env) (sig : List Slot) : ℕ → LoopState → Bool
  | 0, _ => false
  | fuel + 1, st =>
    if st.args.length < argsMax then
      let flags := stepBack sig st.flags
      if (slotAt sig flags).op = .string then true
      else
        match slotRound E (slotAt sig flags) (repeated sig flags) st.args st.scan with
        | .next move args scan => meetsString E sig fuel ⟨flags + move, args, scan⟩
        | _ => false
    else false

/-- The slots whose argument is read as the address of a peer. -/
def isPointer : LuaArgument → Bool
  | .user | .chat | .secretChat | .peer => true
  | _ => false

/-- **Nothing to pass**: the only argument, if there is one, is an absent file name that stands
where a peer is read, or 0 where a number is read. -/
def NothingAtStake (slots : List LuaSlot) (args : List Arg) : Prop :=
  args = [] ∨ ∃ slot a, slots.head? = some slot ∧ args = [a] ∧
    (a = .str none ∧ isPointer slot.op = true ∨ a = .num 0 ∧ slot.op = .number)

/-- **No value is at stake**: the signature does not start with `period`, and for the kinds that are
registered the line does not come to a string and is refused or has nothing to pass. -/
structure Harmless (E : Interface.Ids.Env) (slots : List LuaSlot) (t : Scanner) : Prop where
  start : slots.head? ≠ some ⟨.period, false⟩
  string : meetsString E (slots.map LuaSlot.kind)
    (roundsLeft (slots.map LuaSlot.kind) ⟨0, [], t⟩ + 1) ⟨0, [], t⟩ = false
  answers : Answers (parseArgs E (slots.map LuaSlot.kind) t) = true
  nothing : ∀ args, parseArgs E (slots.map LuaSlot.kind) t = .dispatch args →
    NothingAtStake slots args

end TelegramCli.Lua.Registered
