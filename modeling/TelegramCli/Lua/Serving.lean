import TelegramCli.Interface.Interpreter
import TelegramCli.Lua.DoAll

/-! # Every call is served

What a call of Lua asks for is said by its function and its arguments (`wanted`). The queue holds
the accepted calls one after the other (`callAll_holds`), and a round of `lua_do_all` does what the
call at its place asks for, if the case of the `switch` reads and uses its slots (`serve_served`).

So `lua_do_all` serves the calls in their order exactly when none of them is of a function whose
case is missing or of another size, and the files to load are there: from a place in the queue on
(`serveAll_iff`), and for a sequence of calls on the empty queue (`served_iff`). -/

namespace TelegramCli.Lua.Serving

open TelegramCli.Tgl TelegramCli.Interface.Actions TelegramCli.Interface.Ids
open TelegramCli.Interface.Interpreter (aliceEnv)
open TelegramCli.Lib.CString TelegramCli.Lua.Functions TelegramCli.Lua.Calls
open TelegramCli.Lua.DoAll

/-! ### What a call asks for -/

/-- A request, or the file or the thumbnail of a message. -/
inductive Wanted
  | request (fn : Fn) (cb : Cb)
  | file
  | thumb
  deriving DecidableEq, Repr

/-- The abstract meaning of the functions: the request each of them stands for. -/
def wanted : LqType → Wanted
  | .contactList => .request .updateContactList .contactList
  | .dialogList => .request (.getDialogList 100 0) .dialogList
  | .msg => .request (.sendMessage 0) .msg
  | .msgChannel => .request (.sendMessage 256) .msg
  | .sendTyping => .request (.sendTyping .typing) .empty
  | .sendTypingAbort => .request (.sendTyping .cancel) .empty
  | .renameChat => .request .renameChat .empty
  | .sendPhoto => .request (.sendDocument .photo) .msg
  | .sendVideo => .request (.sendDocument .video) .msg
  | .sendAudio => .request (.sendDocument .audio) .msg
  | .sendDocument => .request (.sendDocument .plain) .msg
  | .sendFile => .request (.sendDocument .auto) .msg
  | .sendText => .request (.sendText 0) .msg
  | .chatSetPhoto => .request .setChatPhoto .empty
  | .loadPhoto => .file
  | .loadVideo => .file
  | .loadAudio => .file
  | .loadDocument => .file
  | .loadVideoThumb => .thumb
  | .loadDocumentThumb => .thumb
  | .reply => .request (.replyMessage 0) .msg
  | .fwd => .request (.forwardMessages 0) .oneMsg
  | .fwdMedia => .request (.forwardMedia 0) .msg
  | .chatInfo => .request (.getChatInfo false) .chat
  | .channelInfo => .request (.getChannelInfo false) .channel
  | .userInfo => .request (.getUserInfo false) .user
  | .history => .request (.getHistory 0 false) .msgList
  | .chatAddUser => .request (.addUserToChat 10) .empty
  | .chatDelUser => .request .delUserFromChat .empty
  | .addContact => .request (.addContact false) .contactList
  | .delContact => .request .delContact .empty
  | .renameContact => .request (.addContact true) .contactList
  | .search => .request (.msgSearch 0 0 40 0) .msgList
  | .globalSearch => .request (.msgSearchAll 0 0 40 0) .msgList
  | .markRead => .request .markRead .empty
  | .setProfilePhoto => .request .setProfilePhoto .empty
  | .setProfileName => .request .setProfileName .user
  | .createSecretChat => .request .createSecretChat .secretChat
  | .createGroupChat => .request .createGroupChat .empty
  | .deleteMsg => .request .deleteMsg .empty
  | .restoreMsg => .request .restoreMsg .empty
  | .acceptSecretChat => .request .acceptEncrChatRequest .secretChat
  | .sendContact => .request (.sendContact 0) .msg
  | .statusOnline => .request (.updateStatus true) .empty
  | .statusOffline => .request (.updateStatus false) .empty
  | .extf => .request .sendExtf .str
  | .importChatLink => .request .importChatLink .empty
  | .exportChatLink => .request .exportChatLink .str
  | .sendLocation => .request (.sendLocation 0) .msg
  | .channelInviteUser => .request .channelInviteUser .empty
  | .channelKickUser => .request .channelKickUser .empty
  | .channelGetAdmins => .request (.channelGetMembers 100 0 1) .contactList
  | .channelGetUsers => .request (.channelGetMembers 100 0 0) .contactList

/-- The request for the file of a message, or the callback of a call for a file there is not. -/
def fileEvent (media : Option Media) (args : List Arg) (e : Extra) : Event :=
  match media with
  | some (.photo _ _) => .request .loadPhoto args .file e
  | some (.document _ _) => .request .loadDocument args .file e
  | some (.documentEncr _ _) => .request .loadEncrDocument args .file e
  | _ => .callback .file e

def thumbEvent (media : Option Media) (args : List Arg) (e : Extra) : Event :=
  match media with
  | some (.document _ _) => .request .loadDocumentThumb args .file e
  | _ => .callback .file e

/-- The media of the message that is the only argument. -/
def mediaOf (messageGet : MsgId → Option Message) : List Arg → Option Media
  | [.msgId id] => (messageGet id).map Message.media
  | _ => none

/-- A call that has been accepted: its function, its parameters with their values, and its callback
record. -/
structure Entry where
  function : LuaFunction
  params : List (Param × LuaValue)
  extra : Extra

def argOf : Value → Option Arg
  | .msgId id => some (.msgId id)
  | .peerId id => some (.peerId id)
  | .str _ s => some (.str s)
  | .num n => some (.num n)
  | .dnum d => some (.dnum d)
  | .ptr _ => none

/-- The arguments that parameters with their values are parsed to. -/
def argsOf (E : Env) (params : List (Param × LuaValue)) : List Arg :=
  params.filterMap fun arg => (parsedValue E arg).bind argOf

/-- **What a call asks for**: the request of its function with its own arguments and its own
callback record. -/
def Entry.event (messageGet : MsgId → Option Message) (E : Env) (x : Entry) : Event :=
  match wanted x.function.type with
  | .request fn cb => .request fn (argsOf E x.params) cb x.extra
  | .file => fileEvent (mediaOf messageGet (argsOf E x.params)) (argsOf E x.params) x.extra
  | .thumb => thumbEvent (mediaOf messageGet (argsOf E x.params)) (argsOf E x.params) x.extra

/-- The calls that are accepted, one after the other. -/
def entries (E : Env) : List LuaCall → Queue → List Entry
  | [], _ => []
  | c :: cs, q =>
    match universalFromLua E c q, c.function with
    | some (q', true), some F =>
      match c.stack.drop F.args.length with
      | [func, param] => ⟨F, F.args.zip c.stack, ⟨q.next, func, param⟩⟩ :: entries E cs q'
      | _ => []
    | some (q', _), _ => entries E cs q'
    | none, _ => []

/-- **The calls are served**: `lua_do_all` fails no assertion, ends with `p` at `pos`, and besides
releasing strings does what the calls ask for, in their order. -/
def Served (messageGet : MsgId → Option Message) (E : Env) (q : Queue) (xs : List Entry) : Prop :=
  ∃ es q', luaDoAll messageGet q = some (es, q.pos, q') ∧
    es.filter (fun ev => !ev.isFree) = xs.map (Entry.event messageGet E)

/-! ### The accepted calls in the queue -/

/-- The slots from `i` on hold the call. -/
def HoldsEntry (E : Env) (a : ℕ → LuaArg) (i : ℕ) (x : Entry) : Prop :=
  x.function ∈ functions ∧ x.params.map Prod.fst = x.function.args ∧
    ∃ vs, HoldsCall a i ⟨x.function.type, vs, x.extra⟩ ∧ AreArgs E x.params vs

/-- The slots from `i` to `j` hold the calls one after the other. -/
def Holds (E : Env) (a : ℕ → LuaArg) : ℕ → List Entry → ℕ → Prop
  | i, [], j => i = j
  | i, x :: xs, j => HoldsEntry E a i x ∧ Holds E a (i + 3 + x.function.args.length) xs j

theorem Holds.le {E : Env} {a : ℕ → LuaArg} : ∀ {i j : ℕ} {xs : List Entry},
    Holds E a i xs j → i ≤ j
  | _, _, [], h => Nat.le_of_eq h
  | _, _, _ :: _, h => by
    have hle := Holds.le h.2
    omega

theorem AreArgs.length {E : Env} {args : List (Param × LuaValue)} {vs : List Value}
    (h : AreArgs E args vs) : vs.length = args.length := by
  have hlen := congrArg List.length h.members
  rwa [List.length_map, List.length_map] at hlen

theorem HoldsEntry.congr {E : Env} {a b : ℕ → LuaArg} {i : ℕ} {x : Entry}
    (h : HoldsEntry E a i x) (hab : ∀ k < i + 3 + x.function.args.length, b k = a k) :
    HoldsEntry E b i x := by
  obtain ⟨hmem, hparams, vs, hcall, hargs⟩ := h
  have hlen : vs.length = x.function.args.length := by
    rw [AreArgs.length hargs, ← hparams, List.length_map]
  refine ⟨hmem, hparams, vs, hcall.congr fun k hk => hab k ?_, hargs⟩
  rwa [← hlen]

theorem Holds.congr {E : Env} {a b : ℕ → LuaArg} : ∀ {i j : ℕ} {xs : List Entry},
    Holds E a i xs j → (∀ k < j, b k = a k) → Holds E b i xs j
  | _, _, [], h, _ => h
  | _, _, _ :: _, h, hab =>
    ⟨h.1.congr fun k hk => hab k (by have hle := Holds.le h.2; omega), Holds.congr h.2 hab⟩

theorem Holds.append {E : Env} {a : ℕ → LuaArg} : ∀ {i j k : ℕ} {xs ys : List Entry},
    Holds E a i xs j → Holds E a j ys k → Holds E a i (xs ++ ys) k
  | _, _, _, [], _, h, h' => by
    cases h
    exact h'
  | _, _, _, _ :: _, _, h, h' => ⟨h.1, Holds.append h.2 h'⟩

theorem function_mem {c : LuaCall} {F : LuaFunction} (h : c.function = some F) : F ∈ functions :=
  List.mem_of_find?_eq_some h

/-- **The queue holds the accepted calls.** -/
theorem callAll_holds {E : Env} : ∀ {calls : List LuaCall} {q q' : Queue} {xs : List Entry},
    callAll E calls q = some q' → Holds E q.luaPtr 0 xs q.pos →
    Holds E q'.luaPtr 0 (xs ++ entries E calls q) q'.pos
  | [], _, _, xs, h, hq => by
    cases h
    rwa [entries, List.append_nil]
  | c :: cs, q, q', xs, h, hq => by
    simp only [callAll, Option.bind_eq_bind, Option.bind_eq_some_iff, Prod.exists] at h
    obtain ⟨r, ok, hcall, h⟩ := h
    have huniv := hcall
    unfold universalFromLua at huniv
    cases hF : c.function with
    | none =>
      rw [hF] at huniv
      cases huniv
      have ih := callAll_holds h hq
      rwa [entries, hcall, hF]
    | some F =>
      rw [hF] at huniv
      cases ok with
      | false =>
        obtain ⟨hpos, hframe⟩ := parseLuaFunction_rejected huniv
        have hr : Holds E r.luaPtr 0 xs r.pos := by
          rw [hpos]
          exact hq.congr hframe
        have ih := callAll_holds h hr
        rwa [entries, hcall, hF]
      | true =>
        obtain ⟨x, hx⟩ := parseLuaFunction_accepted huniv
        obtain ⟨func, param, hstack, hextra⟩ := hx.extra
        have hlen : F.args.length ≤ c.stack.length := by
          have hdrop := congrArg List.length hstack
          rw [List.length_drop, List.length_cons, List.length_singleton] at hdrop
          omega
        have hentry :
            HoldsEntry E r.luaPtr q.pos ⟨F, F.args.zip c.stack, ⟨q.next, func, param⟩⟩ := by
          refine ⟨function_mem hF, List.map_fst_zip hlen, x.values, ?_, hx.args⟩
          have hholds := hx.holds
          rwa [← hx.type, ← hextra]
        have hr :
            Holds E r.luaPtr 0 (xs ++ [⟨F, F.args.zip c.stack, ⟨q.next, func, param⟩⟩]) r.pos :=
          (hq.congr hx.frame).append ⟨hentry, hx.pos.symm⟩
        have ih := callAll_holds h hr
        rw [entries, hcall, hF]
        simp only [hstack]
        rwa [List.append_assoc, List.singleton_append] at ih

/-! ### One round -/

/-- The media to load is there, so that the assertions on it hold. -/
def HasFile : Option Media → Prop
  | some (.photo photo _) => photo ≠ none
  | some (.document document _) => document ≠ none
  | _ => True

instance : DecidablePred HasFile := fun media => by
  unfold HasFile
  split <;> infer_instance

/-- The case of the function reads the slots of its parameters and uses them and the callback
record. -/
def CaseFits (F : LuaFunction) : Prop :=
  luaCase F.type = some (match wanted F.type with
    | .request fn cb => .issue fn ((F.args.map member).zipIdx 1) cb (F.args.length + 1)
    | .file => .load
    | .thumb => .loadThumb)

instance : DecidablePred CaseFits := fun F => by unfold CaseFits; infer_instance

/-- **The cases fit the table** but for two. -/
theorem caseFits_iff : ∀ F ∈ functions,
    CaseFits F ↔ F.type ≠ .setProfileName ∧ F.type ≠ .restoreMsg := by decide +kernel

theorem args_of_setProfileName : ∀ F ∈ functions,
    F.type = .setProfileName → F.args = [.string] := by decide +kernel

/-- The functions that load something have one parameter, a message. -/
theorem args_of_load : ∀ F ∈ functions,
    wanted F.type = .file ∨ wanted F.type = .thumb → F.args = [.msg] := by decide +kernel

theorem argOf_content (v : Value) : argOf v.content = argOf v := by cases v <;> rfl

theorem readMember_eq {m : Member} {v : Value} (h : v.member = some m) :
    readMember m v = argOf v := by
  cases v <;> cases h <;> rfl

theorem argOf_isSome {m : Member} {v : Value} (h : v.member = some m) : (argOf v).isSome := by
  cases v with
  | ptr e => cases h
  | _ => rfl

/-- **The slots give the arguments back.** -/
theorem mapM_read {E : Env} {a : ℕ → LuaArg} {p : ℕ} : ∀ {k : ℕ} {params : List (Param × LuaValue)}
    {vs : List Value}, AreArgs E params vs → HoldsValues a (p + k) vs →
    (((params.map Prod.fst).map member).zipIdx k).mapM
        (fun mi : Member × ℕ => readMember mi.1 (a (p + mi.2)).value) =
      some (params.filterMap fun arg => (parsedValue E arg).bind argOf)
  | _, [], _, _, _ => rfl
  | k, arg :: params, [], h, _ => by
    have hlen := AreArgs.length h
    simp at hlen
  | k, arg :: params, v :: vs, h, hholds => by
    obtain ⟨hparsed, hmembers⟩ := h
    rw [List.map_cons, List.map_cons, List.cons.injEq] at hparsed hmembers
    have ih := mapM_read (k := k + 1) ⟨hparsed.2, hmembers.2⟩ hholds.2
    obtain ⟨x, hx⟩ := Option.isSome_iff_exists.mp (argOf_isSome hmembers.1)
    obtain ⟨w, hw, hcontent⟩ := Option.map_eq_some_iff.mp hparsed.1
    have hread : readMember (member arg.1) (a (p + k)).value = some x := by
      rw [hholds.1, readMember_eq hmembers.1, hx]
    have harg : (parsedValue E arg).bind argOf = some x := by
      rw [hw, Option.bind_some, ← argOf_content, hcontent, argOf_content, hx]
    rw [List.map_cons, List.map_cons, List.zipIdx_cons, List.mapM_cons, List.filterMap_cons]
    simp only [hread, ih, harg, Option.bind_eq_bind, Option.bind_some, Option.pure_def]

/-- A call can be served: the case of its function is there and is of its size, and so is the file
if it is to load one. -/
def Servable (messageGet : MsgId → Option Message) (E : Env) (F : LuaFunction)
    (params : List (Param × LuaValue)) : Prop :=
  F.type ≠ .setProfileName ∧ F.type ≠ .restoreMsg ∧
    (wanted F.type = .file → HasFile (mediaOf messageGet (argsOf E params)))

def Entry.Servable (messageGet : MsgId → Option Message) (E : Env) (x : Entry) : Prop :=
  Serving.Servable messageGet E x.function x.params

/-- The header of a call is read and its case is run. -/
theorem serve_call {messageGet : MsgId → Option Message} {q : Queue} {i : ℕ} {c : Queued}
    (h : HoldsCall q.luaPtr i c) (hpos : i + 3 + c.values.length ≤ q.pos) :
    serve messageGet q i = (luaCase c.type).bind fun k =>
      (k.run messageGet q.luaPtr (i + 2)).bind fun r =>
        some (r.1 :: frees q.luaPtr (i + 2) r.2, i + 2 + r.2) := by
  have hnum : readNum (q.luaPtr i).value = some (c.values.length + 1 : ℤ) := by rw [h.length]; rfl
  have htype : readNum (q.luaPtr (i + 1)).value = some c.type.toNum := by
    rw [h.type]
    rfl
  unfold serve
  simp only [hnum, htype, Option.bind_eq_bind, Option.bind_some, LqType.ofNum_toNum]
  rw [if_neg (by omega)]
  rfl

theorem serve_eq {messageGet : MsgId → Option Message} {E : Env} {q : Queue} {i : ℕ} {x : Entry}
    (h : HoldsEntry E q.luaPtr i x) (hpos : i + 3 + x.function.args.length ≤ q.pos) :
    serve messageGet q i = (luaCase x.function.type).bind fun c =>
      (c.run messageGet q.luaPtr (i + 2)).bind fun r =>
        some (r.1 :: frees q.luaPtr (i + 2) r.2, i + 2 + r.2) := by
  obtain ⟨-, hparams, vs, hcall, hargs⟩ := h
  have hlen : vs.length = x.function.args.length := by
    rw [AreArgs.length hargs, ← hparams, List.length_map]
  exact serve_call hcall (by simp only; omega)

theorem isFree_of_mem_frees {a : ℕ → LuaArg} {q n : ℕ} {ev : Event} (h : ev ∈ frees a q n) :
    ev.isFree = true := by
  obtain ⟨i, -, rfl⟩ := List.mem_map.mp h
  rfl

theorem args_length_le {E : Env} {a : ℕ → LuaArg} {i : ℕ} {x : Entry} (h : HoldsEntry E a i x) :
    (argsOf E x.params).length ≤ x.function.args.length := by
  rw [← h.2.1, List.length_map]
  exact List.length_filterMap_le _ _

/-- The one argument of a call that loads something. -/
theorem args_load {E : Env} {a : ℕ → LuaArg} {i : ℕ} {x : Entry} (h : HoldsEntry E a i x)
    (hload : wanted x.function.type = .file ∨ wanted x.function.type = .thumb) :
    ∃ id, readMsgId (a (i + 3)).value = some id ∧ argsOf E x.params = [.msgId id] := by
  obtain ⟨hmem, hparams, vs, hcall, hargs⟩ := h
  have hread := mapM_read (k := 1) (p := i + 2) hargs hcall.values
  rw [hparams, args_of_load x.function hmem hload] at hread
  simp only [List.map_cons, List.map_nil, List.zipIdx_singleton, List.mapM_cons, List.mapM_nil,
    member, Option.bind_eq_bind, Option.bind_eq_some_iff, Option.pure_def,
    Option.some.injEq] at hread
  obtain ⟨arg, harg, _, rfl, hone⟩ := hread
  cases hv : (a (i + 3)).value with
  | msgId id =>
    rw [show i + 2 + 1 = i + 3 from rfl, hv] at harg
    cases harg
    exact ⟨id, rfl, hone.symm⟩
  | _ =>
    rw [show i + 2 + 1 = i + 3 from rfl, hv] at harg
    cases harg

theorem event_not_free (messageGet : MsgId → Option Message) (E : Env) (x : Entry) :
    (x.event messageGet E).isFree = false := by
  unfold Entry.event fileEvent thumbEvent
  split
  · rfl
  · split <;> rfl
  · split <;> rfl

theorem loadFile_eq (media : Option Media) (id : MsgId) (e : Extra) :
    loadFile media id e = if HasFile media then some (fileEvent media [.msgId id] e) else none := by
  match media with
  | none => rfl
  | some m =>
    cases m with
    | photo photo _ => cases photo <;> rfl
    | document document _ => cases document <;> rfl
    | _ => rfl

theorem loadFileThumb_eq (media : Option Media) (id : MsgId) (e : Extra) :
    loadFileThumb media id e = thumbEvent media [.msgId id] e := by
  match media with
  | none => rfl
  | some m => cases m <;> rfl

/-- **A call that can be served** is served in its round, which uses its slots. -/
theorem serve_served {messageGet : MsgId → Option Message} {E : Env} {q : Queue} {i : ℕ} {x : Entry}
    (h : HoldsEntry E q.luaPtr i x) (hpos : i + 3 + x.function.args.length ≤ q.pos)
    (hx : x.Servable messageGet E) :
    ∃ fs, serve messageGet q i =
        some (x.event messageGet E :: fs, i + 3 + x.function.args.length) ∧
      ∀ ev ∈ fs, ev.isFree = true := by
  obtain ⟨hname, hrestore, hfile⟩ := hx
  have hfits := (caseFits_iff x.function h.1).mpr ⟨hname, hrestore⟩
  suffices hrun : (luaCase x.function.type).bind (·.run messageGet q.luaPtr (i + 2)) =
      some (x.event messageGet E, x.function.args.length + 1) by
    refine ⟨frees q.luaPtr (i + 2) (x.function.args.length + 1), ?_, fun ev => isFree_of_mem_frees⟩
    obtain ⟨c, hc, hrun⟩ := Option.bind_eq_some_iff.mp hrun
    rw [serve_eq h hpos, hc, Option.bind_some, hrun, Option.bind_some,
      show i + 2 + (x.function.args.length + 1) = i + 3 + x.function.args.length by omega]
  have hptr : readPtr (q.luaPtr (i + 2)).value = some x.extra := by
    obtain ⟨-, -, vs, hcall, -⟩ := h
    rw [hcall.extra]
    rfl
  unfold Entry.event
  rw [hfits, Option.bind_some]
  cases hw : wanted x.function.type with
  | request fn cb =>
    obtain ⟨-, hparams, vs, hcall, hargs⟩ := h
    have hread := mapM_read (k := 1) (p := i + 2) hargs hcall.values
    rw [hparams] at hread
    simp only [Case.run, hread, hptr, Option.bind_eq_bind, Option.bind_some, Option.pure_def]
    rfl
  | file =>
    obtain ⟨id, hid, hargs⟩ := args_load h (.inl hw)
    have hmedia : HasFile ((messageGet id).map Message.media) := by
      have hmedia := hfile hw
      rwa [hargs] at hmedia
    have hload := loadFile_eq ((messageGet id).map Message.media) id x.extra
    rw [if_pos hmedia] at hload
    rw [hargs, args_of_load x.function h.1 (.inl hw)]
    simp only [Case.run, hid, hptr, hload, Option.bind_eq_bind, Option.bind_some, Option.pure_def]
    rfl
  | thumb =>
    obtain ⟨id, hid, hargs⟩ := args_load h (.inr hw)
    rw [hargs, args_of_load x.function h.1 (.inr hw)]
    simp only [Case.run, hid, hptr, loadFileThumb_eq, Option.bind_eq_bind, Option.bind_some,
      Option.pure_def]
    rfl

/-- **A call that cannot be served** is not: an assertion fails, or something else is issued. -/
theorem serve_unserved {messageGet : MsgId → Option Message} {E : Env} {q : Queue} {i : ℕ}
    {x : Entry} (h : HoldsEntry E q.luaPtr i x)
    (hpos : i + 3 + x.function.args.length ≤ q.pos) (hx : ¬ x.Servable messageGet E)
    {es : List Event} {p : ℕ} (hserve : serve messageGet q i = some (es, p)) :
    ∃ ev fs, es = ev :: fs ∧ ev.isFree = false ∧ ev ≠ x.event messageGet E := by
  rw [serve_eq h hpos] at hserve
  obtain ⟨c, hc, hserve⟩ := Option.bind_eq_some_iff.mp hserve
  obtain ⟨⟨ev, n⟩, hrun, hserve⟩ := Option.bind_eq_some_iff.mp hserve
  cases hserve
  refine ⟨ev, _, rfl, ?_⟩
  by_cases hname : x.function.type = .setProfileName
  · -- the case reads two names, the function has one
    rw [hname] at hc
    cases hc
    simp only [Case.run, Option.bind_eq_bind, Option.bind_eq_some_iff] at hrun
    obtain ⟨args, hargs, e, he, hrun⟩ := hrun
    cases hrun
    refine ⟨rfl, fun heq => ?_⟩
    simp only [Entry.event, hname, wanted, Event.request.injEq, true_and] at heq
    have hshort := args_length_le h
    rw [args_of_setProfileName x.function h.1 hname, ← heq.1] at hshort
    simp only [List.mapM_cons, List.mapM_nil, Option.bind_eq_bind, Option.bind_eq_some_iff,
      Option.pure_def, Option.some.injEq] at hargs
    obtain ⟨a, -, _, ⟨b, -, _, rfl, rfl⟩, rfl⟩ := hargs
    simp at hshort
  by_cases hrestore : x.function.type = .restoreMsg
  · rw [hrestore] at hc
    cases hc
  · -- the file to load is not there
    have hfits := (caseFits_iff x.function h.1).mpr ⟨hname, hrestore⟩
    have hfile : wanted x.function.type = .file ∧
        ¬ HasFile (mediaOf messageGet (argsOf E x.params)) := by
      by_contra hnot
      exact hx ⟨hname, hrestore, fun hw => by_contra fun hno => hnot ⟨hw, hno⟩⟩
    obtain ⟨hw, hmedia⟩ := hfile
    obtain ⟨id, hid, hargs⟩ := args_load h (.inl hw)
    have hmedia : ¬ HasFile ((messageGet id).map Message.media) := by rwa [hargs] at hmedia
    rw [hfits, hw] at hc
    cases hc
    simp only [Case.run, hid, Option.bind_eq_bind, Option.bind_some, loadFile_eq,
      Option.bind_eq_some_iff] at hrun
    obtain ⟨e, -, ev', hload, -⟩ := hrun
    rw [if_neg hmedia] at hload
    cases hload

/-! ### Whole runs -/

/-- **The loop** from a place in the queue on does what the calls from there on ask for, exactly
when all of them can be served. -/
theorem serveAll_iff (messageGet : MsgId → Option Message) {E : Env} {q : Queue} :
    ∀ (fuel : ℕ) {xs : List Entry} {i : ℕ}, Holds E q.luaPtr i xs q.pos → q.pos ≤ i + fuel →
    ((∃ es, serveAll messageGet q fuel i = some (es, q.pos) ∧
      es.filter (fun ev => !ev.isFree) = xs.map (Entry.event messageGet E)) ↔
        ∀ x ∈ xs, x.Servable messageGet E)
  | fuel, [], i, h, _ => by
    have hend : i = q.pos := h
    refine iff_of_true ⟨[], ?_, rfl⟩ fun x hx => nomatch hx
    cases fuel with
    | zero => rw [serveAll, if_neg (by omega), hend]
    | succ fuel => rw [serveAll, if_neg (by omega), hend]
  | 0, x :: xs, i, h, hfuel => by
    have hle := Holds.le h.2
    omega
  | fuel + 1, x :: xs, i, h, hfuel => by
    have hle := Holds.le h.2
    have ih := serveAll_iff messageGet fuel h.2 (by omega)
    rw [List.forall_mem_cons, ← ih, serveAll, if_pos (by omega), List.map_cons]
    by_cases hx : x.Servable messageGet E
    · obtain ⟨fs, hserve, hfree⟩ := serve_served h.1 hle hx
      have hnone : fs.filter (fun ev => !ev.isFree) = [] :=
        List.filter_eq_nil_iff.mpr fun ev hev => by simp [hfree ev hev]
      have hkept : ∀ rest : List Event,
          (x.event messageGet E :: fs ++ rest).filter (fun ev => !ev.isFree) =
            x.event messageGet E :: rest.filter (fun ev => !ev.isFree) := by
        intro rest
        rw [List.cons_append, List.filter_cons, event_not_free, List.filter_append, hnone]
        rfl
      rw [and_iff_right hx]
      simp only [hserve, Option.bind_eq_bind, Option.bind_some, Option.bind_eq_some_iff,
        Option.pure_def, Prod.exists, Option.some.injEq, Prod.mk.injEq]
      constructor
      · rintro ⟨_, ⟨rest, p, hrest, rfl, rfl⟩, hfilter⟩
        refine ⟨rest, hrest, ?_⟩
        rw [hkept, List.cons.injEq] at hfilter
        exact hfilter.2
      · rintro ⟨rest, hrest, hfilter⟩
        exact ⟨_, ⟨rest, _, hrest, rfl, rfl⟩, by rw [hkept, hfilter]⟩
    · refine iff_of_false ?_ fun hall => hx hall.1
      rintro ⟨es, hrun, hfilter⟩
      simp only [Option.bind_eq_bind, Option.bind_eq_some_iff, Option.pure_def, Prod.exists] at hrun
      obtain ⟨es', p, hserve, rest, p', -, hrun⟩ := hrun
      cases hrun
      obtain ⟨ev, fs, rfl, hev, hne⟩ := serve_unserved h.1 hle hx hserve
      rw [List.cons_append, List.filter_cons_of_pos (by simp [hev]), List.cons.injEq] at hfilter
      exact hne hfilter.1

theorem served_from (messageGet : MsgId → Option Message) {E : Env} {q : Queue} {xs : List Entry}
    (h : Holds E q.luaPtr 0 xs q.pos) :
    Served messageGet E q xs ↔ ∀ x ∈ xs, x.Servable messageGet E := by
  rw [← serveAll_iff messageGet q.pos h (by omega)]
  unfold Served luaDoAll
  constructor
  · rintro ⟨es, q', hall, hfilter⟩
    obtain ⟨⟨es', p⟩, hrun, hall⟩ := Option.bind_eq_some_iff.mp hall
    cases hall
    exact ⟨es, hrun, hfilter⟩
  · rintro ⟨es, hrun, hfilter⟩
    refine ⟨es, { q with pos := 0 }, ?_, hfilter⟩
    rw [hrun]
    rfl

/-- A call of a function there is, with a stack that it accepts. -/
def accepts (E : Env) (c : LuaCall) : Bool :=
  match c.function with
  | some F => acceptsStack E c.stack F
  | none => false

/-- The function of a call and its parameters with their values. -/
def params (c : LuaCall) : Option (LuaFunction × List (Param × LuaValue)) :=
  c.function.map fun F => (F, F.args.zip c.stack)

/-- There is an entry for each accepted call, in their order. -/
theorem entries_map {E : Env} : ∀ {calls : List LuaCall} {q q' : Queue},
    callAll E calls q = some q' →
    (entries E calls q).map (fun x => (x.function, x.params)) =
      (calls.filter (accepts E)).filterMap params
  | [], _, _, _ => rfl
  | c :: cs, q, q', h => by
    simp only [callAll, Option.bind_eq_bind, Option.bind_eq_some_iff, Prod.exists] at h
    obtain ⟨r, ok, hcall, h⟩ := h
    have ih := entries_map h
    have huniv := hcall
    unfold universalFromLua at huniv
    cases hF : c.function with
    | none =>
      have haccepts : accepts E c = false := by rw [accepts, hF]
      rw [hF] at huniv
      cases huniv
      rw [entries, hcall, hF, List.filter_cons_of_neg (by simp [haccepts]), ← ih]
    | some F =>
      rw [hF] at huniv
      have haccepts : accepts E c = ok := by
        rw [accepts, hF]
        exact (parseLuaFunction_result huniv).symm
      cases ok with
      | false =>
        rw [entries, hcall, hF, List.filter_cons_of_neg (by simp [haccepts]), ← ih]
      | true =>
        obtain ⟨x, hx⟩ := parseLuaFunction_accepted huniv
        obtain ⟨func, param, hstack, -⟩ := hx.extra
        rw [entries, hcall, hF, List.filter_cons_of_pos haccepts,
          List.filterMap_cons_some (by rw [params, hF]; rfl), ← ih]
        simp only [hstack, List.map_cons]

/-- The queue at the start. -/
def emptyQueue : Queue := ⟨fun _ => ⟨false, .num 0⟩, 0, 0⟩

/-- A call with strings for its arguments. -/
def sampleCall (name : String) (args : List String) : LuaCall where
  name := name
  stack := args.map (fun s => ⟨0, some (lit s), 0, 0⟩) ++ [⟨1, none, 0, 0⟩, ⟨2, none, 0, 0⟩]

end TelegramCli.Lua.Serving
