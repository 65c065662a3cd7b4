import TelegramCli.Interface.Ids
import TelegramCli.Lua.Functions

/-! # The queue of Lua calls

A call of Lua is put into the array `lua_ptr`: the number of slots that follow, its type, its
callback record, and a slot for each argument. A member of the union of a slot that was not written
last is undefined. `none` is a failed assertion.

An accepted call writes its slots from `pos` on and moves `pos` behind them
(`parseLuaFunction_accepted`). A rejected one leaves `pos` as it is, but not the slots. -/

namespace TelegramCli.Lua.Calls

open TelegramCli.Tgl TelegramCli.Interface.Ids TelegramCli.Lua.Functions

/-! ### Slots -/

/-- A value on the stack of Lua: what refers to it, its string form up to the terminator, and its
number form, also converted to `long long`. -/
structure LuaValue where
  ref : ℕ
  string : Str
  number : Double
  integer : ℤ
  deriving DecidableEq, Repr

/-- `struct lua_query_extra` in a block of memory. -/
structure Extra where
  block : ℕ
  func : LuaValue
  param : LuaValue
  deriving DecidableEq, Repr

/-- Whose memory a string is in: Lua's, or a block of our own. -/
inductive Owner
  | lua
  | block (n : ℕ)
  deriving DecidableEq, Repr

/-- The union of `struct lua_arg`. -/
inductive Value
  | msgId (id : MsgId)
  | peerId (id : PeerId)
  | str (owner : Owner) (s : List UInt8)
  | num (n : ℤ)
  | dnum (d : Double)
  | ptr (e : Extra)
  deriving DecidableEq, Repr

/-- A member of the union that is not the callback record. -/
inductive Member
  | msgId
  | peerId
  | str
  | num
  | dnum
  deriving DecidableEq, Repr

/-- `struct lua_arg`; of its flags only the lowest one is used. -/
structure LuaArg where
  flags : Bool
  value : Value
  deriving DecidableEq, Repr

/-- `lua_ptr` and `pos`; `next` is the next free block of memory. -/
structure Queue where
  luaPtr : ℕ → LuaArg
  pos : ℕ
  next : ℕ

/-- `MAX_LUA_COMMANDS`. -/
def maxLuaCommands : ℕ := 1000

/-- Slot `i` gets a value. -/
def setValue (a : ℕ → LuaArg) (i : ℕ) (v : Value) : ℕ → LuaArg :=
  Function.update a i { a i with value := v }

/-- The first three slots of a call. -/
def putHeader (a : ℕ → LuaArg) (i : ℕ) (l : ℤ) (type : LqType) (e : Extra) : ℕ → LuaArg :=
  setValue (setValue (setValue a i (.num l)) (i + 1) (.num type.toNum)) (i + 2) (.ptr e)

/-! ### `parse_lua_function` -/

/-- What the `switch` does to the slot of an argument. -/
structure Parsed where
  value : Option Value
  flag : Bool
  ok : Bool
  deriving DecidableEq, Repr

/-- `ok = 0; break;`. -/
def Parsed.bad : Parsed := ⟨none, false, false⟩

/-- A peer of the type asked for. -/
def parsePeer (E : Env) (mask : Option PeerType) (v : LuaValue) : Parsed :=
  match v.string with
  | none => .bad
  | some s =>
    let peerId := parseInputPeerId E s mask
    if peerId.peerType = .other 0 then .bad else ⟨some (.peerId peerId), false, true⟩

def parseParam (E : Env) (v : LuaValue) : Param → Option Parsed
  | .none => none
  | .peer => some (parsePeer E none v)
  | .user => some (parsePeer E (some .user) v)
  | .chat => some (parsePeer E (some .chat) v)
  | .secretChat => some (parsePeer E (some .encrChat) v)
  | .channel => some (parsePeer E (some .channel) v)
  | .string =>
    match v.string with
    | none => some .bad
    | some s => some ⟨some (.str .lua s), true, true⟩
  | .number => some ⟨some (.num v.integer), false, true⟩
  | .double => some ⟨some (.dnum v.number), false, true⟩
  | .msg =>
    match v.string with
    | none => some .bad
    | some s => (parseInputMsgId E s).map fun id => ⟨some (.msgId id), false, id.peerType ≠ 0⟩
  | .positiveNumber =>
    if v.integer ≤ 0 then some .bad else some ⟨some (.num v.integer), false, true⟩
  | .nonnegativeNumber =>
    if v.integer < 0 then some .bad else some ⟨some (.num v.integer), false, true⟩

/-- The loop over the arguments, the last one first, whose slots start at `i`. -/
def parseArgs (E : Env) : ℕ → List (Param × LuaValue) → (ℕ → LuaArg) → Option ((ℕ → LuaArg) × Bool)
  | _, [], a => some (a, true)
  | i, (F, v) :: args, a => do
    let (a, ok) ← parseArgs E (i + 1) args a
    let r ← parseParam E v F
    return (Function.update a i ⟨r.flag, r.value.getD (a i).value⟩, ok && r.ok)

/-- `tstrdup` of the strings among the arguments. -/
def dupStrings : ℕ → List Param → (ℕ → LuaArg) → ℕ → Option ((ℕ → LuaArg) × ℕ)
  | _, [], a, next => some (a, next)
  | i, F :: params, a, next =>
    if F = .string then
      match (a i).value with
      | .str _ s => dupStrings (i + 1) params (setValue a i (.str (.block next) s)) (next + 1)
      | _ => none
    else dupStrings (i + 1) params a next

/-- The call of a function with the stack of Lua, from its bottom up; says if it is accepted. -/
def parseLuaFunction (E : Env) (stack : List LuaValue) (F : LuaFunction) (q : Queue) :
    Option (Queue × Bool) :=
  let p := F.args.length
  match stack.drop p with
  | [func, param] => do
    let e : Extra := ⟨q.next, func, param⟩
    if ¬ q.pos + 3 + p < maxLuaCommands then none
    else
      let a := putHeader q.luaPtr q.pos (p + 1) F.type e
      let (a, ok) ← parseArgs E (q.pos + 3) (F.args.zip stack) a
      if ok then
        let (a, next) ← dupStrings (q.pos + 3) F.args a (q.next + 1)
        return (⟨a, q.pos + 3 + p, next⟩, true)
      else return (⟨a, q.pos, q.next + 1⟩, false)
  -- the number of values is not that of the parameters and two
  | _ => some (q, false)

/-- A call of a global function of Lua: the name it was registered with and the stack. -/
structure LuaCall where
  name : String
  stack : List LuaValue
  deriving DecidableEq, Repr

def LuaCall.function (c : LuaCall) : Option LuaFunction :=
  functions.find? fun F => F.name = c.name

def universalFromLua (E : Env) (c : LuaCall) (q : Queue) : Option (Queue × Bool) :=
  match c.function with
  | some F => parseLuaFunction E c.stack F q
  | none => some (q, false)

/-- The calls one after the other. -/
def callAll (E : Env) : List LuaCall → Queue → Option Queue
  | [], q => some q
  | c :: cs, q => do
    let (q, _) ← universalFromLua E c q
    callAll E cs q

/-! ### The slots of a call -/

/-- What a value is, wherever its string is kept. -/
def Value.content : Value → Value
  | .str _ s => .str .lua s
  | v => v

/-- The member that was written. -/
def Value.member : Value → Option Member
  | .msgId _ => some .msgId
  | .peerId _ => some .peerId
  | .str _ _ => some .str
  | .num _ => some .num
  | .dnum _ => some .dnum
  | .ptr _ => none

theorem member_content (v : Value) : v.content.member = v.member := by cases v <;> rfl

/-- The member that holds arguments of the kind. -/
def member : Param → Member
  | .none => .num
  | .peer => .peerId
  | .chat => .peerId
  | .channel => .peerId
  | .user => .peerId
  | .secretChat => .peerId
  | .string => .str
  | .number => .num
  | .positiveNumber => .num
  | .nonnegativeNumber => .num
  | .msg => .msgId
  | .double => .dnum

def Value.isStr : Value → Bool
  | .str _ _ => true
  | _ => false

/-- The value that an argument is parsed to, if it is accepted. -/
def parsedValue (E : Env) (arg : Param × LuaValue) : Option Value :=
  (parseParam E arg.2 arg.1).bind fun r => if r.ok then r.value else none

/-- The slots from `i` on hold the values, and those of strings are flagged. -/
def HoldsValues (a : ℕ → LuaArg) : ℕ → List Value → Prop
  | _, [] => True
  | i, v :: vs => a i = ⟨v.isStr, v⟩ ∧ HoldsValues a (i + 1) vs

theorem HoldsValues.congr {a b : ℕ → LuaArg} : ∀ {i : ℕ} {vs : List Value}, HoldsValues a i vs →
    (∀ k, i ≤ k → k < i + vs.length → b k = a k) → HoldsValues b i vs
  | _, [], _, _ => trivial
  | i, v :: vs, h, hab => by
    rw [List.length_cons] at hab
    refine ⟨?_, HoldsValues.congr h.2 fun k hik hk => hab k (by omega) (by omega)⟩
    rw [hab i le_rfl (by omega)]
    exact h.1

theorem parsePeer_ok {E : Env} {mask : Option PeerType} {v : LuaValue}
    (hok : (parsePeer E mask v).ok = true) :
    ∃ id, parsePeer E mask v = ⟨some (.peerId id), false, true⟩ := by
  unfold parsePeer at hok ⊢
  cases hs : v.string with
  | none => simp [hs, Parsed.bad] at hok
  | some s =>
    simp only [hs] at hok ⊢
    split_ifs at hok ⊢ with hid
    · cases hok
    · exact ⟨_, rfl⟩

/-- An accepted argument leaves its value, flagged if it is a string. -/
theorem parseParam_ok {E : Env} {v : LuaValue} {F : Param} {r : Parsed}
    (h : parseParam E v F = some r) (hok : r.ok = true) :
    ∃ w, r.value = some w ∧ r.flag = w.isStr ∧ w.member = some (member F) := by
  have hpeer : ∀ mask, parsePeer E mask v = r →
      ∃ w, r.value = some w ∧ r.flag = w.isStr ∧ w.member = some .peerId := by
    rintro mask rfl
    obtain ⟨id, hid⟩ := parsePeer_ok hok
    rw [hid]
    exact ⟨_, rfl, rfl, rfl⟩
  cases F with
  | none => cases h
  | peer => exact hpeer _ (Option.some.inj h)
  | chat => exact hpeer _ (Option.some.inj h)
  | channel => exact hpeer _ (Option.some.inj h)
  | user => exact hpeer _ (Option.some.inj h)
  | secretChat => exact hpeer _ (Option.some.inj h)
  | string =>
    unfold parseParam at h
    cases hs : v.string with
    | none =>
      rw [hs] at h
      cases h
      cases hok
    | some s =>
      rw [hs] at h
      cases h
      exact ⟨_, rfl, rfl, rfl⟩
  | number =>
    cases h
    exact ⟨_, rfl, rfl, rfl⟩
  | double =>
    cases h
    exact ⟨_, rfl, rfl, rfl⟩
  | msg =>
    unfold parseParam at h
    cases hs : v.string with
    | none =>
      rw [hs] at h
      cases h
      cases hok
    | some s =>
      rw [hs] at h
      obtain ⟨id, -, rfl⟩ := Option.map_eq_some_iff.mp h
      exact ⟨_, rfl, rfl, rfl⟩
  | positiveNumber =>
    rw [parseParam] at h
    split_ifs at h
    · cases h
      cases hok
    · cases h
      exact ⟨_, rfl, rfl, rfl⟩
  | nonnegativeNumber =>
    rw [parseParam] at h
    split_ifs at h
    · cases h
      cases hok
    · cases h
      exact ⟨_, rfl, rfl, rfl⟩

/-- An argument is accepted. -/
def acceptsArg (E : Env) (arg : Param × LuaValue) : Bool :=
  ((parseParam E arg.2 arg.1).map Parsed.ok).getD false

theorem parseArgs_all {E : Env} : ∀ {i : ℕ} {args : List (Param × LuaValue)} {a b : ℕ → LuaArg}
    {ok : Bool}, parseArgs E i args a = some (b, ok) → ok = args.all (acceptsArg E)
  | _, [], _, _, _, h => by
    cases h
    rfl
  | i, (F, v) :: args, a, b, ok, h => by
    simp only [parseArgs, Option.bind_eq_bind, Option.bind_eq_some_iff, Prod.exists] at h
    obtain ⟨c, ok', hargs, r, hr, h⟩ := h
    cases h
    have hhead : acceptsArg E (F, v) = r.ok := by
      rw [acceptsArg, hr, Option.map_some, Option.getD_some]
    rw [List.all_cons, ← parseArgs_all hargs, hhead, Bool.and_comm]

theorem parseArgs_frame {E : Env} : ∀ {i : ℕ} {args : List (Param × LuaValue)} {a b : ℕ → LuaArg}
    {ok : Bool}, parseArgs E i args a = some (b, ok) →
    ∀ k, k < i ∨ i + args.length ≤ k → b k = a k
  | _, [], _, _, _, h, _, _ => by
    cases h
    rfl
  | i, (F, v) :: args, a, b, ok, h, k, hk => by
    simp only [parseArgs, Option.bind_eq_bind, Option.bind_eq_some_iff, Prod.exists] at h
    obtain ⟨c, ok', hargs, r, hr, h⟩ := h
    cases h
    rw [List.length_cons] at hk
    rw [Function.update_of_ne (by omega)]
    exact parseArgs_frame hargs k (by omega)

/-- **Accepted arguments** are in their slots. -/
theorem parseArgs_ok {E : Env} : ∀ {i : ℕ} {args : List (Param × LuaValue)} {a b : ℕ → LuaArg},
    parseArgs E i args a = some (b, true) →
    ∃ vs : List Value, args.map (parsedValue E) = vs.map some ∧
      vs.map Value.member = args.map (fun arg => some (member arg.1)) ∧ HoldsValues b i vs
  | _, [], _, _, _ => ⟨[], rfl, rfl, trivial⟩
  | i, (F, v) :: args, a, b, h => by
    simp only [parseArgs, Option.bind_eq_bind, Option.bind_eq_some_iff, Prod.exists] at h
    obtain ⟨c, ok, hargs, r, hr, h⟩ := h
    simp only [Option.pure_def, Option.some.injEq, Prod.mk.injEq, Bool.and_eq_true] at h
    obtain ⟨rfl, rfl, hok⟩ := h
    obtain ⟨vs, hvs, hmembers, hholds⟩ := parseArgs_ok hargs
    obtain ⟨w, hw, hflag, hmember⟩ := parseParam_ok hr hok
    refine ⟨w :: vs, ?_, by rw [List.map_cons, List.map_cons, hmembers, hmember], ?_,
      hholds.congr fun k hik _ => Function.update_of_ne (by omega) _ _⟩
    · rw [List.map_cons, List.map_cons, hvs, parsedValue, hr, Option.bind_some, if_pos hok, hw]
    · rw [Function.update_self, hw, hflag, Option.getD_some]

theorem dupStrings_frame : ∀ {i : ℕ} {params : List Param} {a b : ℕ → LuaArg} {n m : ℕ},
    dupStrings i params a n = some (b, m) → ∀ k, k < i ∨ i + params.length ≤ k → b k = a k
  | _, [], _, _, _, _, h, _, _ => by
    cases h
    rfl
  | i, F :: params, a, b, n, m, h, k, hk => by
    rw [List.length_cons] at hk
    rw [dupStrings] at h
    split_ifs at h
    · split at h
      · rw [dupStrings_frame h k (by omega), setValue, Function.update_of_ne (by omega)]
      · cases h
    · exact dupStrings_frame h k (by omega)

/-- **The copies of the strings** stand in the slots of the strings. -/
theorem dupStrings_holds : ∀ {i : ℕ} {params : List Param} {a b : ℕ → LuaArg} {n m : ℕ}
    {vs : List Value}, dupStrings i params a n = some (b, m) → HoldsValues a i vs →
    vs.map Value.member = params.map (fun F => some (member F)) →
    ∃ ws : List Value, ws.map Value.content = vs.map Value.content ∧ HoldsValues b i ws
  | _, [], _, _, _, _, [], _, _, _ => ⟨[], rfl, trivial⟩
  | i, F :: params, a, b, n, m, v :: vs, h, hholds, hmembers => by
    rw [List.map_cons, List.map_cons, List.cons.injEq] at hmembers
    have hslot := hholds.1
    rw [dupStrings] at h
    split_ifs at h with hF
    · rw [hslot] at h
      cases v with
      | str owner s =>
        simp only at h
        have hframe := dupStrings_frame h i (by omega)
        have hrest : HoldsValues (setValue a i (.str (.block n) s)) (i + 1) vs :=
          hholds.2.congr fun k hik _ => Function.update_of_ne (by omega) _ _
        obtain ⟨ws, hws, hb⟩ := dupStrings_holds h hrest hmembers.2
        refine ⟨.str (.block n) s :: ws, ?_, ?_, hb⟩
        · rw [List.map_cons, List.map_cons, hws]
          rfl
        · rw [hframe, setValue, Function.update_self, hslot]
          rfl
      | _ => cases h
    · obtain ⟨ws, hws, hb⟩ := dupStrings_holds h hholds.2 hmembers.2
      refine ⟨v :: ws, by rw [List.map_cons, List.map_cons, hws], ?_, hb⟩
      rw [dupStrings_frame h i (by omega), hslot]

/-- A call in the queue: its type, the values of its arguments and its callback record. -/
structure Queued where
  type : LqType
  values : List Value
  extra : Extra

/-- The slots from `i` on hold the call. -/
structure HoldsCall (a : ℕ → LuaArg) (i : ℕ) (c : Queued) : Prop where
  length : (a i).value = .num (c.values.length + 1)
  type : (a (i + 1)).value = .num c.type.toNum
  extra : (a (i + 2)).value = .ptr c.extra
  values : HoldsValues a (i + 3) c.values

theorem HoldsCall.congr {a b : ℕ → LuaArg} {i : ℕ} {c : Queued} (h : HoldsCall a i c)
    (hab : ∀ k < i + 3 + c.values.length, b k = a k) : HoldsCall b i c where
  length := by rw [hab i (by omega)]; exact h.length
  type := by rw [hab (i + 1) (by omega)]; exact h.type
  extra := by rw [hab (i + 2) (by omega)]; exact h.extra
  values := h.values.congr fun k _ hk => hab k hk

/-- The values are what the arguments are parsed to, and are kept in the members for them. -/
structure AreArgs (E : Env) (args : List (Param × LuaValue)) (vs : List Value) : Prop where
  parsed : args.map (fun arg => (parsedValue E arg).map Value.content) =
    vs.map fun v => some v.content
  members : vs.map Value.member = args.map fun arg => some (member arg.1)

theorem putHeader_frame {a : ℕ → LuaArg} {i : ℕ} {l : ℤ} {type : LqType} {e : Extra} {k : ℕ}
    (hk : k < i) : putHeader a i l type e k = a k := by
  unfold putHeader setValue
  rw [Function.update_of_ne (by omega), Function.update_of_ne (by omega),
    Function.update_of_ne (by omega)]

theorem putHeader_slots (a : ℕ → LuaArg) (i : ℕ) (l : ℤ) (type : LqType) (e : Extra) :
    (putHeader a i l type e i).value = .num l ∧
      (putHeader a i l type e (i + 1)).value = .num type.toNum ∧
      (putHeader a i l type e (i + 2)).value = .ptr e := by
  unfold putHeader setValue
  refine ⟨?_, ?_, ?_⟩
  · rw [Function.update_of_ne (by omega), Function.update_of_ne (by omega), Function.update_self]
  · rw [Function.update_of_ne (by omega), Function.update_self]
  · rw [Function.update_self]

theorem areArgs_of_parsed {E : Env} {args : List (Param × LuaValue)} {vs ws : List Value}
    (hvs : args.map (parsedValue E) = vs.map some)
    (hmembers : vs.map Value.member = args.map fun arg => some (member arg.1))
    (hws : ws.map Value.content = vs.map Value.content) : AreArgs E args ws where
  parsed := by
    calc args.map (fun arg => (parsedValue E arg).map Value.content)
        = (args.map (parsedValue E)).map (Option.map Value.content) := by
          rw [List.map_map]
          rfl
      _ = (vs.map Value.content).map some := by
          rw [hvs, List.map_map, List.map_map]
          rfl
      _ = ws.map fun v => some v.content := by
          rw [← hws, List.map_map]
          rfl
  members := by
    have hcontent : ∀ us : List Value,
        us.map Value.member = (us.map Value.content).map Value.member := by
      intro us
      rw [List.map_map]
      exact List.map_congr_left fun v _ => (member_content v).symm
    rw [hcontent, hws, ← hcontent, hmembers]

/-- What an accepted call of a function with the stack has put into the queue. -/
structure Accepted (E : Env) (stack : List LuaValue) (F : LuaFunction) (q q' : Queue)
    (c : Queued) : Prop where
  type : c.type = F.type
  args : AreArgs E (F.args.zip stack) c.values
  length : c.values.length = F.args.length
  extra : ∃ func param, stack.drop F.args.length = [func, param] ∧ c.extra = ⟨q.next, func, param⟩
  pos : q'.pos = q.pos + 3 + F.args.length
  fits : q'.pos < maxLuaCommands
  holds : HoldsCall q'.luaPtr q.pos c
  frame : ∀ k < q.pos, q'.luaPtr k = q.luaPtr k

/-- The number of values is that of the parameters and two, and all arguments are accepted. -/
def acceptsStack (E : Env) (stack : List LuaValue) (F : LuaFunction) : Bool :=
  stack.length = F.args.length + 2 && (F.args.zip stack).all (acceptsArg E)

theorem parseLuaFunction_result {E : Env} {stack : List LuaValue} {F : LuaFunction}
    {q q' : Queue} {ok : Bool} (h : parseLuaFunction E stack F q = some (q', ok)) :
    ok = acceptsStack E stack F := by
  unfold parseLuaFunction at h
  simp only at h
  split at h
  · rename_i func param hstack
    have hlen : stack.length = F.args.length + 2 := by
      have hdrop := congrArg List.length hstack
      rw [List.length_drop, List.length_cons, List.length_singleton] at hdrop
      omega
    split_ifs at h with hpos
    simp only [Option.bind_eq_bind, Option.bind_eq_some_iff, Prod.exists] at h
    obtain ⟨a, ok', hargs, h⟩ := h
    rw [acceptsStack, decide_eq_true hlen, Bool.true_and, ← parseArgs_all hargs]
    cases ok' with
    | false =>
      cases h
      rfl
    | true =>
      rw [if_pos rfl] at h
      simp only [Option.bind_eq_some_iff, Prod.exists] at h
      obtain ⟨b, next, hdup, h⟩ := h
      cases h
      rfl
  · rename_i hstack
    cases h
    have hlen : stack.length ≠ F.args.length + 2 := by
      intro hlen
      have hdrop : (stack.drop F.args.length).length = 2 := by rw [List.length_drop]; omega
      obtain ⟨func, param, hlist⟩ := List.length_eq_two.mp hdrop
      exact hstack func param hlist
    rw [acceptsStack, decide_eq_false hlen, Bool.false_and]

/-- **An accepted call** is in the queue. -/
theorem parseLuaFunction_accepted {E : Env} {stack : List LuaValue} {F : LuaFunction}
    {q q' : Queue} (h : parseLuaFunction E stack F q = some (q', true)) :
    ∃ c, Accepted E stack F q q' c := by
  unfold parseLuaFunction at h
  simp only at h
  split at h
  · rename_i func param hstack
    have hlen : (F.args.zip stack).length = F.args.length := by
      have hdrop := congrArg List.length hstack
      rw [List.length_drop, List.length_cons, List.length_singleton] at hdrop
      rw [List.length_zip]
      omega
    split_ifs at h with hpos
    simp only [Option.bind_eq_bind, Option.bind_eq_some_iff, Prod.exists] at h
    obtain ⟨a, ok, hargs, h⟩ := h
    cases ok with
    | false => cases h
    | true =>
      rw [if_pos rfl] at h
      simp only [Option.bind_eq_some_iff, Prod.exists] at h
      obtain ⟨b, next, hdup, h⟩ := h
      cases h
      obtain ⟨vs, hvs, hmembers, hvalues⟩ := parseArgs_ok hargs
      have hzip : (F.args.zip stack).map (fun arg => some (member arg.1)) =
          F.args.map fun G => some (member G) := by
        have hfst : (F.args.zip stack).map Prod.fst = F.args :=
          List.map_fst_zip (by rw [List.length_zip] at hlen; omega)
        calc (F.args.zip stack).map (fun arg => some (member arg.1))
            = ((F.args.zip stack).map Prod.fst).map fun G => some (member G) := by
              rw [List.map_map]
              rfl
          _ = F.args.map fun G => some (member G) := by rw [hfst]
      obtain ⟨ws, hws, hholds⟩ := dupStrings_holds hdup hvalues (hmembers.trans hzip)
      have hwslen : ws.length = F.args.length := by
        have hl := congrArg List.length hws
        have hl' := congrArg List.length hvs
        rw [List.length_map, List.length_map] at hl hl'
        omega
      have hframe : ∀ k < q.pos + 3, b k =
          putHeader q.luaPtr q.pos (F.args.length + 1) F.type ⟨q.next, func, param⟩ k := by
        intro k hk
        rw [dupStrings_frame hdup k (by omega), parseArgs_frame hargs k (by omega)]
      obtain ⟨hnum, htype, hptr⟩ :=
        putHeader_slots q.luaPtr q.pos (F.args.length + 1) F.type ⟨q.next, func, param⟩
      refine ⟨⟨F.type, ws, ⟨q.next, func, param⟩⟩, rfl, areArgs_of_parsed hvs hmembers hws, hwslen,
        ⟨func, param, hstack, rfl⟩, rfl, by simp only; omega, ⟨?_, ?_, ?_, hholds⟩, fun k hk => ?_⟩
      · simp only
        rw [hframe _ (by omega), hnum, hwslen]
      · simp only
        rw [hframe _ (by omega), htype]
      · simp only
        rw [hframe _ (by omega), hptr]
      · simp only
        rw [hframe k (by omega), putHeader_frame hk]
  · cases h

/-- A rejected call leaves what is in the queue. -/
theorem parseLuaFunction_rejected {E : Env} {stack : List LuaValue} {F : LuaFunction}
    {q q' : Queue} (h : parseLuaFunction E stack F q = some (q', false)) :
    q'.pos = q.pos ∧ ∀ k < q.pos, q'.luaPtr k = q.luaPtr k := by
  unfold parseLuaFunction at h
  simp only at h
  split at h
  · split_ifs at h with hpos
    simp only [Option.bind_eq_bind, Option.bind_eq_some_iff, Prod.exists] at h
    obtain ⟨a, ok, hargs, h⟩ := h
    cases ok with
    | true =>
      rw [if_pos rfl] at h
      simp only [Option.bind_eq_some_iff, Prod.exists] at h
      obtain ⟨b, next, hdup, h⟩ := h
      cases h
    | false =>
      cases h
      refine ⟨rfl, fun k hk => ?_⟩
      simp only
      rw [parseArgs_frame hargs k (by omega), putHeader_frame hk]
  · cases h
    exact ⟨rfl, fun _ _ => rfl⟩

end TelegramCli.Lua.Calls
