import TelegramCli.Lib.References
import TelegramCli.Lua.Callbacks
import TelegramCli.Lua.Ownership
import TelegramCli.Lua.Registered

/-! # Calls of the script are answered

A call of the script keeps its function and its parameter by references, in a callback record. The
record goes with the call into the queue, from there with a request to the library, and to the
callback of the answer, which calls the function and gives the references and the record back. A
timer keeps references of its own, and so does a command that the script registers, for good. `World`
has all of this, and the steps may come in any order: the script may call while `lua_do_all` is at
work, and the library may answer at once or never.

No accepted call is lost or answered twice, and an answer can always be given: its callback finds
the function and the parameter of its own call, whatever else has been put into the registry since
(`run_fulfilled`). The references in use are those of the calls and timers to come and of the
commands. Needed is that no callback record is served from a flagged slot, and that each function has
as many parameters as its case uses. -/

namespace TelegramCli.Lua.Completions

open TelegramCli.Lib.CString (lit)
open TelegramCli.Lib.References TelegramCli.Lib.LuaStack TelegramCli.Lib.Run
open TelegramCli.Tgl hiding Peer
open TelegramCli.Interface.Interpreter (aliceEnv)
open TelegramCli.Lua.Functions
open TelegramCli.Lua.Calls hiding Value
open TelegramCli.Lua.DoAll hiding Arg
open TelegramCli.Lua.Serving (serve_call sampleCall emptyQueue isFree_of_mem_frees)
open TelegramCli.Lua.Push (Atom)
open TelegramCli.Lua.Callbacks
open TelegramCli.Lua.Ownership (Matches strings freedValues)
open TelegramCli.Lua.Registered (LuaSlot registerArgs)

/-! ### The program -/

/-- The references of a function and of its parameter. -/
structure Refs where
  func : Ref
  param : Ref

/-- A timer: the references in `t`, and what they have been made for. -/
structure Timer where
  refs : Refs
  func : LuaValue
  param : LuaValue

/-- A function of the script that has been called and has not returned yet. -/
inductive Running
  | callback (e : Extra)
  | alarm (t : Timer)

/-- The queue and where `lua_do_all` is in it, the registry of Lua, the callback records in memory,
the requests that the library has to answer, the timers, and the commands of the script. Kept for the
account are the records of the calls in the queue, the functions and parameters of the calls that
were accepted, and the calls of the script's functions. -/
structure World where
  queue : Queue
  place : Option ℕ
  registry : Table LuaValue
  records : Table Refs
  queued : List Extra
  inFlight : List (Cb × Extra)
  timers : List Timer
  commands : List (List LuaSlot × Extra)
  running : Option Running
  promised : List (LuaValue × LuaValue)
  calls : List (Invocation Atom)

def World.start : World :=
  ⟨emptyQueue, none, fun _ => none, fun _ => none, [], [], [], [], none, [], []⟩

/-- What happens; the numbers are those that Lua takes for the references, and a stack is what is
left on that of Lua. -/
inductive Label
  | call (E : Interface.Ids.Env) (c : LuaCall) (r : ℕ × ℕ)
  | postpone (stack : List LuaValue) (r : ℕ × ℕ)
  | register (stack : List LuaValue) (r : ℕ × ℕ)
  | enter
  | round (messageGet : MsgId → Option Message) (s : Stack Atom)
  | leave
  | answer (i : ℕ) (E : Push.Env) (success : ℤ) (a : Answer) (s : Stack Atom)
  | alarm (i : ℕ) (s : Stack Atom)
  | returned

variable (cap : ℕ) (nil : LuaValue)

/-- The references of a parameter and of a function, in the order of the stack. -/
def keep (func param : LuaValue) (r : ℕ × ℕ) (R : Table LuaValue) :
    Option (Refs × Table LuaValue) := do
  let (a1, R) ← put nil param r.1 R
  let (a2, R) ← put nil func r.2 R
  return (⟨a2, a1⟩, R)

/-- A call of a registered function of the script. -/
def World.call (E : Interface.Ids.Env) (c : LuaCall) (r : ℕ × ℕ) (w : World) : Option World :=
  match c.function with
  | none => some w
  | some F =>
    match c.stack.drop F.args.length with
    | [func, param] => do
      let (refs, registry) ← keep nil func param r w.registry
      let e : Extra := ⟨w.queue.next, func, param⟩
      let records := Function.update w.records e.block (some refs)
      let (q, ok) ← parseLuaFunction E c.stack F w.queue
      if ok then
        return { w with queue := q, registry := registry, records := records,
                        queued := w.queued ++ [e], promised := w.promised ++ [(func, param)] }
      else
        let registry ← dropAll registry [refs.param, refs.func]
        return { w with queue := q, registry := registry,
                        records := Function.update records e.block none }
    -- the number of values is not that of the parameters and two
    | _ => some w

/-- A double less than zero. -/
def isNegative (d : Double) : Bool :=
  0x8000000000000000 < d.toNat && d.toNat ≤ 0xfff0000000000000

/-- `postpone_from_lua`. -/
def World.postpone (stack : List LuaValue) (r : ℕ × ℕ) (w : World) : Option World :=
  match stack with
  | [func, param, timeout] =>
    if isNegative timeout.number then some w
    else do
      let (refs, registry) ← keep nil func param r w.registry
      return { w with registry := registry, timers := w.timers ++ [⟨refs, func, param⟩],
                      promised := w.promised ++ [(func, param)] }
  | _ => some w

/-- `MAX_COMMANDS_SIZE`. -/
def maxCommandsSize : ℕ := 1000

/-- `register_interface_from_lua`: the description, the record and the name get a block each. -/
def World.register (stack : List LuaValue) (r : ℕ × ℕ) (w : World) : Option World :=
  match stack with
  | _ :: func :: param :: _ :: args =>
    match registerArgs (args.map LuaValue.string) with
    | none => some w
    | some slots => do
      let (refs, registry) ← keep nil func param r w.registry
      let e : Extra := ⟨w.queue.next + 1, func, param⟩
      if Interface.Commands.commands.length + w.commands.length < maxCommandsSize - 1 then
        return { w with queue := { w.queue with next := w.queue.next + 3 }, registry := registry,
                        records := Function.update w.records e.block (some refs),
                        commands := w.commands ++ [(slots, e)] }
      else none
  | _ => some w

/-- The callback of a record begins: the references are read, and the function is called. -/
def World.answer (e : Extra) (invoke : LuaValue → LuaValue → Option (Invocation Atom)) (w : World) :
    Option World := do
  let refs ← w.records e.block
  let func ← get nil w.registry refs.func
  let param ← get nil w.registry refs.param
  let i ← invoke func param
  return { w with running := some (.callback e), calls := w.calls ++ [i] }

/-- What `lua_do_all` does with a call; a string is not kept in the world, but its place may be that
of a callback record. -/
def World.perform (s : Stack Atom) (w : World) : Event → Option World
  | .request _ _ cb e => some { w with inFlight := w.inFlight ++ [(cb, e)] }
  | .callback _ e => w.answer nil e fun func param => luaFileCb cap func param 0 none s
  | .free (.ptr e) => some { w with records := Function.update w.records e.block none }
  | .free _ => some w

/-- One round of `lua_do_all`. -/
def World.round (messageGet : MsgId → Option Message) (s : Stack Atom) (w : World) :
    Option World := do
  let p ← w.place
  if ¬ p < w.queue.pos then none
  else
    let (es, p) ← serve messageGet w.queue p
    es.foldlM (World.perform cap nil s) { w with place := some p, queued := w.queued.tail }

/-- `lua_postpone_alarm` up to the call. -/
def World.alarm (i : ℕ) (s : Stack Atom) (w : World) : Option World := do
  let t ← w.timers[i]?
  let func ← get nil w.registry t.refs.func
  let param ← get nil w.registry t.refs.param
  let c ← invoke cap 20 [push (.atom (.kept func)), push (.atom (.kept param))] s
  return { w with timers := w.timers.eraseIdx i, running := some (.alarm t),
                  calls := w.calls ++ [c] }

/-- The function that was called returns. -/
def World.returned (w : World) : Option World :=
  match w.running with
  | none => none
  | some (.callback e) => do
    let refs ← w.records e.block
    let registry ← dropAll w.registry [refs.func, refs.param]
    return { w with registry := registry, records := Function.update w.records e.block none,
                    running := none }
  | some (.alarm t) => do
    let registry ← dropAll w.registry [t.refs.param, t.refs.func]
    return { w with registry := registry, running := none }

/-- A step of the program; only the script runs while one of its functions does. -/
def World.step (w : World) : Label → Option World
  | .call E c r => w.call nil E c r
  | .postpone stack r => w.postpone nil stack r
  | .register stack r => w.register nil stack r
  | .returned => w.returned
  | .enter =>
    if w.running.isNone ∧ w.place.isNone then some { w with place := some 0 } else none
  | .round messageGet s => if w.running.isNone then w.round cap nil messageGet s else none
  | .leave => do
    let p ← w.place
    if w.running.isNone ∧ ¬ p < w.queue.pos then
      return { w with place := none, queue := { w.queue with pos := 0 } }
    else none
  | .answer i E success a s =>
    if w.running.isNone then do
      let (cb, e) ← w.inFlight[i]?
      if a.cb = cb then
        World.answer nil e (fun func param => callback cap E func param success a s)
          { w with inFlight := w.inFlight.eraseIdx i }
      else none
    else none
  | .alarm i s => if w.running.isNone then w.alarm cap nil i s else none

/-- What is asked of a step: the function that is called has as many parameters as its case uses,
no callback record is served from a flagged slot, and what the library answers can be pushed. -/
def Fits (w : World) : Label → Prop
  | .call _ c _ => ∀ F, c.function = some F → Matches F.type F.args.length
  | .round _ _ => ∀ p, w.place = some p → (w.queue.luaPtr (p + 2)).flags = false
  | .answer _ E success a _ => AnswerPushable E success a
  | _ => True

def Step (w : World) (l : Label) (v : World) : Prop := Fits w l ∧ w.step cap nil l = some v

/-! ### What is owed -/

/-- The records of the calls that have not been answered. -/
def World.unanswered (w : World) : List Extra := w.queued ++ w.inFlight.map Prod.snd

/-- The functions that are still to be called, with their parameters. -/
def World.pending (w : World) : List (LuaValue × LuaValue) :=
  w.unanswered.map (fun e => (e.func, e.param)) ++ w.timers.map fun t => (t.func, t.param)

/-- The record and the timer of the function that runs. -/
def Running.extra : Running → Option Extra
  | .callback e => some e
  | .alarm _ => none

def Running.timer : Running → Option Timer
  | .callback _ => none
  | .alarm t => some t

/-- The records in memory. -/
def World.extras (w : World) : List Extra :=
  (w.running.bind Running.extra).toList ++ (w.commands.map Prod.snd ++ w.unanswered)

/-- The timers whose references are in use. -/
def World.alarms (w : World) : List Timer := (w.running.bind Running.timer).toList ++ w.timers

/-- What a call of a function begins with. -/
def promise (x : LuaValue × LuaValue) : Value Atom × Option (Value Atom) :=
  (.atom (.kept x.1), some (.atom (.kept x.2)))

def head (i : Invocation Atom) : Value Atom × Option (Value Atom) := (i.func, i.args.head?)

/-- The values whose references are in use. -/
def World.held (w : World) : List LuaValue :=
  w.extras.flatMap (fun e => [e.func, e.param]) ++ w.alarms.flatMap fun t => [t.func, t.param]

/-- **The script gets what it was promised**: a call of its function for each call that was
accepted and each timer, now or later, each once; whoever is to be answered can be answered, with
the function and the parameter of the call; and of callback records only those are in memory that
this takes. The block of a timer and its event are not part of the world: no code frees them. -/
structure Fulfilled (w : World) : Prop where
  once : (w.calls.map head ++ w.pending.map promise).Perm (w.promised.map promise)
  references : ∃ ks, Keeps nil w.registry ks ∧ (ks.map Prod.snd).Perm w.held
  records : ∃ rs, Exactly w.records rs ∧ (rs.map Prod.fst).Perm (w.extras.map Extra.block)
  answers : w.running = none → ∀ i cb e, w.inFlight[i]? = some (cb, e) →
    ∀ E success a s, a.cb = cb → AnswerPushable E success a →
    ∃ v, w.step cap nil (.answer i E success a s) = some v ∧
      v.calls = w.calls ++ [answerCall E e.func e.param success a]
  alarms : w.running = none → ∀ i t, w.timers[i]? = some t → ∀ s,
    ∃ v, w.step cap nil (.alarm i s) = some v ∧
      v.calls = w.calls ++ [⟨.atom (.kept t.func), [.atom (.kept t.param)]⟩]
  returns : w.running ≠ none → ∃ v, w.step cap nil .returned = some v
  commands : ∀ c ∈ w.commands, ∃ refs, w.records c.2.block = some refs ∧
    get nil w.registry refs.func = some c.2.func ∧ get nil w.registry refs.param = some c.2.param

/-! ### Whose references are in use -/

/-- The references of a record and of a timer, with their values. -/
def extraRefs (x : Extra × Refs) : List (Ref × LuaValue) :=
  [(x.2.func, x.1.func), (x.2.param, x.1.param)]

def timerRefs (t : Timer) : List (Ref × LuaValue) := [(t.refs.func, t.func), (t.refs.param, t.param)]

variable {cap : ℕ} {nil : LuaValue}

/-- In memory are the records, and in use the references of the records and the timers. -/
structure Owns (nil : LuaValue) (R : Table LuaValue) (T : Table Refs) (rs : List (Extra × Refs))
    (ts : List Timer) : Prop where
  records : Exactly T (rs.map fun x => (x.1.block, x.2))
  registry : Keeps nil R (rs.flatMap extraRefs ++ ts.flatMap timerRefs)

variable {R S : Table LuaValue} {T : Table Refs} {rs rs' : List (Extra × Refs)} {ts ts' : List Timer}
  {func param : LuaValue} {refs : Refs} {r : ℕ × ℕ} {e : Extra} {t : Timer}

theorem Owns.perm (h : Owns nil R T rs ts) (hrs : rs.Perm rs') (hts : ts.Perm ts') :
    Owns nil R T rs' ts' where
  records := h.records.perm (hrs.map _)
  registry := h.registry.perm ((hrs.flatMap_right _).append (hts.flatMap_right _))

theorem keep_keeps {k : List (Ref × LuaValue)} (h : Keeps nil R k)
    (hkeep : keep nil func param r R = some (refs, S)) :
    Keeps nil S ((refs.func, func) :: (refs.param, param) :: k) := by
  simp only [keep, Option.bind_eq_bind, Option.bind_eq_some_iff, Prod.exists] at hkeep
  obtain ⟨a1, R₁, h1, a2, R₂, h2, hkeep⟩ := hkeep
  cases hkeep
  exact (h.put h1).put h2

/-- A record in a new block. -/
theorem Owns.take (h : Owns nil R T rs ts) (hkeep : keep nil func param r R = some (refs, S)) {b : ℕ}
    (hb : T b = none) :
    Owns nil S (Function.update T b (some refs)) ((⟨b, func, param⟩, refs) :: rs) ts :=
  ⟨h.records.insert hb refs, keep_keeps h.registry hkeep⟩

theorem Owns.takeTimer (h : Owns nil R T rs ts)
    (hkeep : keep nil func param r R = some (refs, S)) :
    Owns nil S T rs (⟨refs, func, param⟩ :: ts) := by
  refine ⟨h.records, (keep_keeps h.registry hkeep).perm ?_⟩
  exact (List.perm_append_comm_assoc [(refs.func, func), (refs.param, param)] _ _)

/-- **A record is given back**, with its references, in either order. -/
theorem Owns.give (h : Owns nil R T ((e, refs) :: rs) ts) {xs : List (Ref × LuaValue)}
    (hxs : (extraRefs (e, refs)).Perm xs) : ∃ S, dropAll R (xs.map Prod.fst) = some S ∧
      Owns nil S (Function.update T e.block none) rs ts := by
  have hkeeps : Keeps nil R (xs ++ (rs.flatMap extraRefs ++ ts.flatMap timerRefs)) :=
    h.registry.perm (hxs.append_right _)
  obtain ⟨S, hS, hrest⟩ := hkeeps.dropAll
  exact ⟨S, hS, h.records.erase, hrest⟩

theorem Owns.giveTimer (h : Owns nil R T rs (t :: ts)) {xs : List (Ref × LuaValue)}
    (hxs : (timerRefs t).Perm xs) : ∃ S, dropAll R (xs.map Prod.fst) = some S ∧
      Owns nil S T rs ts := by
  have hperm : (rs.flatMap extraRefs ++ (timerRefs t ++ ts.flatMap timerRefs)).Perm
      (xs ++ (rs.flatMap extraRefs ++ ts.flatMap timerRefs)) :=
    (List.perm_append_comm_assoc _ _ _).trans (hxs.append_right _)
  obtain ⟨S, hS, hrest⟩ := (h.registry.perm hperm).dropAll
  exact ⟨S, hS, h.records, hrest⟩

/-- **A record is read**, and its references. -/
theorem Owns.read (h : Owns nil R T ((e, refs) :: rs) ts) :
    T e.block = some refs ∧ get nil R refs.func = some e.func ∧
      get nil R refs.param = some e.param :=
  ⟨h.records.get List.mem_cons_self, h.registry.get List.mem_cons_self,
    h.registry.get (List.mem_cons_of_mem _ List.mem_cons_self)⟩

theorem Owns.readTimer (h : Owns nil R T rs (t :: ts)) :
    get nil R t.refs.func = some t.func ∧ get nil R t.refs.param = some t.param := by
  have hmem : ∀ x ∈ timerRefs t, x ∈ rs.flatMap extraRefs ++ (t :: ts).flatMap timerRefs :=
    fun x hx => List.mem_append_right _ (List.mem_append_left _ hx)
  exact ⟨h.registry.get (hmem _ List.mem_cons_self),
    h.registry.get (hmem _ (List.mem_cons_of_mem _ List.mem_cons_self))⟩

/-- The record of a call is one of those in memory. -/
theorem exists_refs {es : List Extra} (h : (rs.map Prod.fst).Perm (e :: es)) :
    ∃ refs rs', rs.Perm ((e, refs) :: rs') ∧ (rs'.map Prod.fst).Perm es := by
  obtain ⟨x, hmem, rfl⟩ := List.mem_map.mp (h.mem_iff.mpr List.mem_cons_self)
  obtain ⟨xs, ys, rfl⟩ := List.append_of_mem hmem
  have hperm : (xs ++ x :: ys).Perm (x :: (xs ++ ys)) := List.perm_middle
  exact ⟨x.2, xs ++ ys, hperm, ((hperm.map Prod.fst).symm.trans h).cons_inv⟩

/-! ### The account -/

/-- The records `es`, the timers `ts` and the calls `ps` to come are accounted for. -/
structure Core (nil : LuaValue) (w : World) (es : List Extra) (ts : List Timer)
    (ps : List (LuaValue × LuaValue)) : Prop where
  memory : ∃ rs, Owns nil w.registry w.records rs ts ∧ (rs.map Prod.fst).Perm es
  fresh : ∀ e ∈ es, e.block < w.queue.next
  once : (w.calls.map head ++ ps.map promise).Perm (w.promised.map promise)

variable {w v : World} {es es' : List Extra} {ps ps' : List (LuaValue × LuaValue)}

theorem Core.perm (h : Core nil w es ts ps) (hes : es.Perm es') (hts : ts.Perm ts')
    (hps : ps.Perm ps') : Core nil w es' ts' ps' := by
  obtain ⟨rs, howns, hrs⟩ := h.memory
  refine ⟨⟨rs, howns.perm (.refl _) hts, hrs.trans hes⟩, fun e he => h.fresh e (hes.mem_iff.mpr he),
    .trans ?_ h.once⟩
  exact (hps.symm.map promise).append_left _

/-- A new block is not that of a record. -/
theorem Core.block_free (h : Core nil w es ts ps) {b : ℕ} (hb : w.queue.next ≤ b) :
    w.records b = none := by
  obtain ⟨rs, howns, hrs⟩ := h.memory
  refine Option.eq_none_iff_forall_ne_some.mpr fun refs hrefs => ?_
  obtain ⟨x, hx, hblock⟩ := List.mem_map.mp ((howns.records.entries _ _).mp hrefs)
  have hlt := h.fresh x.1 (hrs.mem_iff.mp (List.mem_map_of_mem hx))
  have heq : x.1.block = b := congrArg Prod.fst hblock
  omega

/-- A promise more. -/
theorem once_promised {cs : List (Invocation Atom)} {qs : List (LuaValue × LuaValue)}
    (h : (cs.map head ++ ps.map promise).Perm (qs.map promise)) (x : LuaValue × LuaValue) :
    (cs.map head ++ (x :: ps).map promise).Perm ((qs ++ [x]).map promise) := by
  rw [List.map_cons, List.map_append, List.map_singleton]
  exact (List.perm_middle.trans (h.cons _)).trans (List.perm_append_singleton _ _).symm

/-- A promise that is kept. -/
theorem once_called {cs : List (Invocation Atom)} {qs : List (LuaValue × LuaValue)}
    {x : LuaValue × LuaValue} {i : Invocation Atom} (hi : head i = promise x)
    (h : (cs.map head ++ (x :: ps).map promise).Perm (qs.map promise)) :
    ((cs ++ [i]).map head ++ ps.map promise).Perm (qs.map promise) := by
  rwa [List.map_append, List.map_singleton, List.append_assoc, List.singleton_append, hi]

/-- **The callback of a record** finds the function and the parameter of its call. -/
theorem Core.answer_eq (h : Core nil w (e :: es) ts ps)
    (f : LuaValue → LuaValue → Option (Invocation Atom)) :
    w.answer nil e f = (f e.func e.param).map fun i =>
      { w with running := some (.callback e), calls := w.calls ++ [i] } := by
  obtain ⟨rs, howns, hrs⟩ := h.memory
  obtain ⟨refs, rs', hperm, -⟩ := exists_refs hrs
  obtain ⟨hrecord, hfunc, hparam⟩ := (howns.perm hperm (.refl _)).read
  rw [World.answer, hrecord, Option.bind_eq_bind, Option.bind_some, hfunc, Option.bind_eq_bind,
    Option.bind_some, hparam, Option.bind_eq_bind, Option.bind_some, Option.map_eq_bind]
  rfl


/-- A record gets a new block. -/
theorem Core.take (h : Core nil w es ts ps)
    (hkeep : keep nil func param r w.registry = some (refs, S)) {b : ℕ} (hb : w.queue.next ≤ b)
    (hregistry : v.registry = S) (hrecords : v.records = Function.update w.records b (some refs))
    (hnext : b < v.queue.next)
    (honce : (v.calls.map head ++ ps'.map promise).Perm (v.promised.map promise)) :
    Core nil v (⟨b, func, param⟩ :: es) ts ps' := by
  obtain ⟨rs, howns, hrs⟩ := h.memory
  refine ⟨⟨(⟨b, func, param⟩, refs) :: rs, ?_, hrs.cons _⟩, fun e he => ?_, honce⟩
  · rw [hregistry, hrecords]
    exact howns.take hkeep (h.block_free hb)
  · rcases List.mem_cons.mp he with rfl | he
    · exact hnext
    · exact (h.fresh e he).trans_le (hb.trans hnext.le)

/-- A call that is rejected gives back what it has taken. -/
theorem Core.reject (h : Core nil w es ts ps)
    (hkeep : keep nil func param r w.registry = some (refs, S))
    (hregistry : dropAll S [refs.param, refs.func] = some v.registry)
    (hrecords : v.records =
      Function.update (Function.update w.records w.queue.next (some refs)) w.queue.next none)
    (hnext : w.queue.next ≤ v.queue.next) (hcalls : v.calls = w.calls)
    (hpromised : v.promised = w.promised) : Core nil v es ts ps := by
  obtain ⟨rs, howns, hrs⟩ := h.memory
  have hswap : (extraRefs (⟨w.queue.next, func, param⟩, refs)).Perm
      [(refs.param, param), (refs.func, func)] := .swap _ _ _
  obtain ⟨U, hU, hgiven⟩ := (howns.take hkeep (h.block_free le_rfl)).give hswap
  obtain rfl := Option.some.inj (hU.symm.trans hregistry)
  refine ⟨⟨rs, ?_, hrs⟩, fun e he => (h.fresh e he).trans_le hnext, ?_⟩
  · rw [hrecords]
    exact hgiven
  · rw [hcalls, hpromised]
    exact h.once

/-- Who has run gives back its record and its references. -/
theorem Core.give (h : Core nil w (e :: es) ts ps) : ∃ refs S, w.records e.block = some refs ∧
    dropAll w.registry [refs.func, refs.param] = some S ∧
    ∀ v : World, v.registry = S → v.records = Function.update w.records e.block none →
      v.queue = w.queue → v.calls = w.calls → v.promised = w.promised → Core nil v es ts ps := by
  obtain ⟨rs, howns, hrs⟩ := h.memory
  obtain ⟨refs, rs', hperm, hrest⟩ := exists_refs hrs
  have howns' := howns.perm hperm (.refl ts)
  obtain ⟨S, hS, hgiven⟩ := howns'.give (.refl _)
  refine ⟨refs, S, howns'.read.1, hS, fun v hregistry hrecords hqueue hcalls hpromised => ?_⟩
  refine ⟨⟨rs', ?_, hrest⟩, fun e' he' => ?_, ?_⟩
  · rw [hregistry, hrecords]
    exact hgiven
  · rw [hqueue]
    exact h.fresh e' (List.mem_cons_of_mem _ he')
  · rw [hcalls, hpromised]
    exact h.once

/-! ### One step -/

/-- The slots from the place on hold the calls in the queue, and everything is accounted for. -/
structure Inv (nil : LuaValue) (w : World) : Prop where
  queue : ∃ cs, Ownership.Holds w.queue.luaPtr (w.place.getD 0) cs w.queue.pos ∧
    cs.map Queued.extra = w.queued
  core : Core nil w w.extras w.alarms w.pending

theorem Inv.start : Inv nil World.start where
  queue := ⟨[], rfl, rfl⟩
  core := ⟨⟨[], ⟨exactly_empty, keeps_empty⟩, .refl _⟩, fun _ h => absurd h List.not_mem_nil,
    .refl _⟩

/-- A call that is to be answered is one more record and one more promise. -/
theorem perm_unanswered (h : v.unanswered.Perm (e :: w.unanswered))
    (hrunning : v.running = w.running) (hcommands : v.commands = w.commands)
    (htimers : v.timers = w.timers) :
    v.extras.Perm (e :: w.extras) ∧ v.pending.Perm ((e.func, e.param) :: w.pending) := by
  unfold World.extras World.pending
  rw [hrunning, hcommands, htimers, ← List.append_assoc, ← List.append_assoc]
  exact ⟨(h.append_left _).trans List.perm_middle,
    (h.map fun e : Extra => (e.func, e.param)).append_right _⟩

/-- A call that was taken is to be answered. -/
theorem Core.enter (h : Core nil v (e :: w.extras) w.alarms ((e.func, e.param) :: w.pending))
    (hperm : v.unanswered.Perm (e :: w.unanswered)) (hrunning : v.running = w.running)
    (hcommands : v.commands = w.commands) (htimers : v.timers = w.timers) :
    Core nil v v.extras v.alarms v.pending := by
  obtain ⟨hextras, hpending⟩ := perm_unanswered hperm hrunning hcommands htimers
  refine h.perm hextras.symm (.of_eq ?_) hpending.symm
  rw [World.alarms, World.alarms, hrunning, htimers]

/-- A call is taken from those to be answered. -/
theorem Core.leave (h : Core nil w w.extras w.alarms w.pending)
    (hperm : w.unanswered.Perm (e :: v.unanswered)) (hrunning : w.running = v.running)
    (hcommands : w.commands = v.commands) (htimers : w.timers = v.timers) :
    Core nil w (e :: v.extras) v.alarms ((e.func, e.param) :: v.pending) := by
  obtain ⟨hextras, hpending⟩ := perm_unanswered hperm hrunning hcommands htimers
  refine h.perm hextras (.of_eq ?_) hpending
  rw [World.alarms, World.alarms, hrunning, htimers]

/-- How a call of the script ends. -/
theorem World.call_cases {E : Interface.Ids.Env} {c : LuaCall} (h : w.call nil E c r = some v) :
    v = w ∨ ∃ F func param refs S q ok, c.function = some F ∧
      c.stack.drop F.args.length = [func, param] ∧
      keep nil func param r w.registry = some (refs, S) ∧
      parseLuaFunction E c.stack F w.queue = some (q, ok) ∧
      ((ok = true ∧ v = { w with
          queue := q, registry := S,
          records := Function.update w.records w.queue.next (some refs),
          queued := w.queued ++ [⟨w.queue.next, func, param⟩],
          promised := w.promised ++ [(func, param)] }) ∨
        ∃ U, ok = false ∧ dropAll S [refs.param, refs.func] = some U ∧ v = { w with
          queue := q, registry := U,
          records := Function.update (Function.update w.records w.queue.next (some refs))
            w.queue.next none }) := by
  unfold World.call at h
  cases hF : c.function with
  | none =>
    rw [hF] at h
    exact .inl (Option.some.inj h).symm
  | some F =>
    rw [hF] at h
    simp only at h
    split at h
    · rename_i func param hstack
      simp only [Option.bind_eq_bind, Option.bind_eq_some_iff, Prod.exists] at h
      obtain ⟨refs, S, hkeep, q, ok, hcall, h⟩ := h
      refine .inr ⟨F, func, param, refs, S, q, ok, rfl, hstack, hkeep, hcall, ?_⟩
      cases ok with
      | true => exact .inl ⟨rfl, (Option.some.inj h).symm⟩
      | false =>
        simp only [Bool.false_eq_true, if_false, Option.bind_eq_some_iff] at h
        obtain ⟨U, hU, h⟩ := h
        exact .inr ⟨U, rfl, hU, (Option.some.inj h).symm⟩
    · exact .inl (Option.some.inj h).symm

theorem Inv.call (h : Inv nil w) {E : Interface.Ids.Env} {c : LuaCall}
    (hfits : ∀ F, c.function = some F → Matches F.type F.args.length)
    (hcall : w.call nil E c r = some v) : Inv nil v := by
  obtain ⟨cs, hcs, hqueued⟩ := h.queue
  obtain rfl | ⟨F, func, param, refs, S, q, ok, hF, hstack, hkeep, hparse, ⟨rfl, rfl⟩ |
    ⟨U, rfl, hU, rfl⟩⟩ := World.call_cases hcall
  · exact h
  · obtain ⟨x, hx, -, hnext⟩ := Ownership.accepted_strings hparse
    obtain ⟨func', param', hdrop, hextra⟩ := hx.extra
    rw [hstack, List.cons.injEq, List.cons.injEq] at hdrop
    obtain ⟨rfl, rfl, -⟩ := hdrop
    have hmatch : Matches x.type x.values.length := by
      rw [hx.type, hx.length]
      exact hfits F hF
    refine ⟨⟨cs ++ [x], (hcs.congr hx.frame).append ⟨hx.holds, hmatch, ?_⟩, ?_⟩, ?_⟩
    · rw [Ownership.Holds, hx.length, hx.pos]
    · rw [List.map_append, hqueued, List.map_singleton, hextra]
    · have hlt : w.queue.next < q.next := by omega
      let e : Extra := ⟨w.queue.next, func, param⟩
      have hperm : ((w.queued ++ [e]) ++ w.inFlight.map Prod.snd).Perm (e :: w.unanswered) := by
        rw [List.append_assoc, List.singleton_append]
        exact List.perm_middle
      have honce := once_promised h.core.once (func, param)
      exact Core.enter (h.core.take hkeep le_rfl rfl rfl hlt honce) hperm rfl rfl rfl
  · have huniv : universalFromLua E c w.queue = some (q, false) := by
      unfold universalFromLua
      rw [hF]
      exact hparse
    obtain ⟨hnext, hpos, hframe⟩ := Ownership.rejected_next huniv
    refine ⟨⟨cs, ?_, hqueued⟩, h.core.reject hkeep hU rfl hnext rfl rfl⟩
    rw [hpos]
    exact hcs.congr hframe

theorem World.postpone_cases {stack : List LuaValue} (h : w.postpone nil stack r = some v) :
    v = w ∨ ∃ func param refs S, keep nil func param r w.registry = some (refs, S) ∧
      v = { w with registry := S, timers := w.timers ++ [⟨refs, func, param⟩],
                   promised := w.promised ++ [(func, param)] } := by
  unfold World.postpone at h
  split at h
  · rename_i func param timeout
    split_ifs at h
    · exact .inl (Option.some.inj h).symm
    · simp only [Option.bind_eq_bind, Option.bind_eq_some_iff, Prod.exists] at h
      obtain ⟨refs, S, hkeep, h⟩ := h
      exact .inr ⟨func, param, refs, S, hkeep, (Option.some.inj h).symm⟩
  · exact .inl (Option.some.inj h).symm

theorem Inv.postpone (h : Inv nil w) {stack : List LuaValue}
    (hpostpone : w.postpone nil stack r = some v) : Inv nil v := by
  obtain rfl | ⟨func, param, refs, S, hkeep, rfl⟩ := World.postpone_cases hpostpone
  · exact h
  · obtain ⟨rs, howns, hrs⟩ := h.core.memory
    let t : Timer := ⟨refs, func, param⟩
    have hperm : (w.timers ++ [t]).Perm (t :: w.timers) := List.perm_append_singleton _ _
    refine ⟨h.queue, ⟨rs, (howns.takeTimer hkeep).perm (.refl _) ?_, hrs⟩, h.core.fresh, ?_⟩
    · exact List.perm_middle.symm.trans (hperm.symm.append_left _)
    · refine .trans (.append_left _ (.map promise ?_)) (once_promised h.core.once (func, param))
      exact ((hperm.map fun t : Timer => (t.func, t.param)).append_left _).trans List.perm_middle

theorem Inv.register (h : Inv nil w) {stack : List LuaValue}
    (hregister : w.register nil stack r = some v) : Inv nil v := by
  unfold World.register at hregister
  split at hregister
  · rename_i name func param desc args
    split at hregister
    · exact Option.some.inj hregister ▸ h
    · rename_i slots hslots
      simp only [Option.bind_eq_bind, Option.bind_eq_some_iff, Prod.exists] at hregister
      obtain ⟨refs, S, hkeep, hregister⟩ := hregister
      split_ifs at hregister with hroom
      cases hregister
      let e : Extra := ⟨w.queue.next + 1, func, param⟩
      refine ⟨h.queue, Core.perm (h.core.take hkeep (Nat.le_succ _) rfl rfl ?_ h.core.once)
        ?_ (.refl _) (.refl _)⟩
      · exact Nat.lt_succ_of_lt (Nat.lt_succ_self _)
      · have hperm : (w.commands.map Prod.snd ++ [e] ++ w.unanswered).Perm
            (e :: (w.commands.map Prod.snd ++ w.unanswered)) := by
          rw [List.append_assoc, List.singleton_append]
          exact List.perm_middle
        refine .trans (List.perm_middle.symm.trans (hperm.symm.append_left _)) (.of_eq ?_)
        rw [World.extras, List.map_append, List.map_singleton]
        rfl
  · exact Option.some.inj hregister ▸ h

/-- What `lua_do_all` does with a call, it does with the record of the call. -/
theorem run_extra {messageGet : MsgId → Option Message} {a : ℕ → LuaArg} {p : ℕ} {k : Case}
    {ev : Event} {n : ℕ} (h : k.run messageGet a p = some (ev, n)) (hptr : (a p).value = .ptr e) :
    (∃ fn args cb, ev = .request fn args cb e) ∨ ev = .callback .file e := by
  cases k with
  | issue fn reads cb m =>
    simp only [Case.run, Option.bind_eq_bind, Option.bind_eq_some_iff] at h
    obtain ⟨args, -, e', he, h⟩ := h
    rw [hptr] at he
    cases he
    cases h
    exact .inl ⟨fn, args, cb, rfl⟩
  | load =>
    simp only [Case.run, Option.bind_eq_bind, Option.bind_eq_some_iff] at h
    obtain ⟨id, -, e', he, ev', hload, h⟩ := h
    rw [hptr] at he
    cases he
    cases h
    unfold loadFile at hload
    split at hload
    · split_ifs at hload
      cases hload
      exact .inl ⟨_, _, _, rfl⟩
    · split_ifs at hload
      cases hload
      exact .inl ⟨_, _, _, rfl⟩
    · cases hload
      exact .inl ⟨_, _, _, rfl⟩
    · cases hload
      exact .inr rfl
  | loadThumb =>
    simp only [Case.run, Option.bind_eq_bind, Option.bind_eq_some_iff] at h
    obtain ⟨id, -, e', he, h⟩ := h
    rw [hptr] at he
    cases he
    cases h
    unfold loadFileThumb
    split
    · exact .inl ⟨_, _, _, rfl⟩
    · exact .inr rfl

/-- Strings that are freed are not in the world. -/
theorem perform_frees {s : Stack Atom} : ∀ {es : List Event}, (∀ ev ∈ es, ev.isFree = true) →
    (∀ x ∈ freedValues es, x.isStr = true) → es.foldlM (World.perform cap nil s) w = some w
  | [], _, _ => rfl
  | ev :: es, hfree, hstr => by
    have hrest : es.foldlM (World.perform cap nil s) w = some w := by
      refine perform_frees (fun x hx => hfree x (List.mem_cons_of_mem _ hx)) fun x hx => hstr x ?_
      rw [show ev :: es = [ev] ++ es from rfl, Ownership.freedValues_append]
      exact List.mem_append_right _ hx
    have hev := hfree ev List.mem_cons_self
    cases ev with
    | free x =>
      cases x with
      | ptr e => exact absurd (hstr _ List.mem_cons_self) Bool.false_ne_true
      | _ => exact hrest
    | _ => cases hev

/-- **A round** serves the first call of the queue: its request goes to the library, or its callback
is run for a message without a file. -/
theorem World.round_cases {messageGet : MsgId → Option Message} {s : Stack Atom} {cs : List Queued}
    (hcs : Ownership.Holds w.queue.luaPtr (w.place.getD 0) cs w.queue.pos)
    (hqueued : cs.map Queued.extra = w.queued)
    (hfits : ∀ p, w.place = some p → (w.queue.luaPtr (p + 2)).flags = false)
    (hround : w.round cap nil messageGet s = some v) :
    ∃ e p cs', w.queued = e :: w.queued.tail ∧
      Ownership.Holds w.queue.luaPtr p cs' w.queue.pos ∧ cs'.map Queued.extra = w.queued.tail ∧
      ((∃ cb, v = { w with place := some p, queued := w.queued.tail,
                           inFlight := w.inFlight ++ [(cb, e)] }) ∨
        World.answer nil e (fun func param => luaFileCb cap func param 0 none s)
          { w with place := some p, queued := w.queued.tail } = some v) := by
  simp only [World.round, Option.bind_eq_bind, Option.bind_eq_some_iff] at hround
  obtain ⟨p, hplace, hround⟩ := hround
  split_ifs at hround with hp
  simp only [Option.bind_eq_some_iff, Prod.exists] at hround
  obtain ⟨es, p', hserve, hperform⟩ := hround
  have hclear := hfits p hplace
  rw [hplace, Option.getD_some] at hcs
  cases cs with
  | nil =>
    have hend : p = w.queue.pos := hcs
    omega
  | cons c cs =>
    obtain ⟨hcall, hmatch, hrest⟩ := hcs
    rw [serve_call hcall (Ownership.Holds.le hrest)] at hserve
    simp only [Option.bind_eq_some_iff, Prod.exists] at hserve
    obtain ⟨k, hk, ev, n, hrun, hserve⟩ := hserve
    cases hserve
    have hmoves : n = c.values.length + 1 := by
      unfold Matches at hmatch
      rw [hk, Option.map_some, Option.some.injEq] at hmatch
      rw [(Ownership.Case.run_moves hrun).1]
      omega
    have hfreed : freedValues (frees w.queue.luaPtr (p + 2) n) = strings c.values := by
      rw [hmoves, Ownership.frees_succ, hclear, if_neg Bool.false_ne_true, List.nil_append]
      exact Ownership.freedValues_frees hcall.values
    have hnext : p + 2 + n = p + 3 + c.values.length := by omega
    have hperformed : ∀ u : World,
        (frees w.queue.luaPtr (p + 2) n).foldlM (World.perform cap nil s) u = some u := by
      refine fun u => perform_frees (fun ev hev => isFree_of_mem_frees hev) fun x hx => ?_
      rw [hfreed] at hx
      exact (List.mem_filter.mp hx).2
    rw [List.map_cons] at hqueued
    rw [← hqueued, List.tail_cons] at hperform ⊢
    rw [List.foldlM_cons] at hperform
    obtain ⟨u, hu, hperform⟩ := Option.bind_eq_some_iff.mp hperform
    obtain rfl := Option.some.inj ((hperformed u).symm.trans hperform)
    refine ⟨c.extra, p + 2 + n, cs, rfl, by rw [hnext]; exact hrest, rfl, ?_⟩
    obtain ⟨fn, args, cb, rfl⟩ | rfl := run_extra hrun hcall.extra
    · exact .inl ⟨cb, (Option.some.inj hu).symm⟩
    · exact .inr hu

/-- The callback that `lua_do_all` runs itself. -/
theorem file_failed (hcap : 20 ≤ cap) (s : Stack Atom) : luaFileCb cap func param 0 none s =
    some ⟨.atom (.kept func), [.atom (.kept param), .atom (.integer 0)] ++
      [.atom (.boolean false)]⟩ := by
  have hfalse : (if (0 : ℤ) ≠ 0 then push (Push.strOf none) else pushFalse) = pushFalse :=
    if_neg fun h => h rfl
  rw [luaFileCb, hfalse]
  exact callbackWith_eq hcap (.cons (pushes_atom (by omega) _) .nil) le_rfl s

/-- **The function of a record** has been called. -/
theorem Core.answered (h : Core nil w (e :: w.extras) w.alarms ((e.func, e.param) :: w.pending))
    (hrun : w.running = none) {i : Invocation Atom} (hi : head i = promise (e.func, e.param))
    (hv : v = { w with running := some (.callback e), calls := w.calls ++ [i] }) :
    Core nil v v.extras v.alarms v.pending := by
  subst hv
  have hcore : Core nil { w with running := some (.callback e), calls := w.calls ++ [i] }
      (e :: w.extras) w.alarms w.pending := ⟨h.memory, h.fresh, once_called hi h.once⟩
  refine hcore.perm (.of_eq ?_) (.of_eq ?_) (.refl _)
  · unfold World.extras
    rw [hrun]
    rfl
  · unfold World.alarms
    rw [hrun]
    rfl

theorem Inv.round (hcap : 20 ≤ cap) (h : Inv nil w) (hrun : w.running = none)
    {messageGet : MsgId → Option Message} {s : Stack Atom}
    (hfits : ∀ p, w.place = some p → (w.queue.luaPtr (p + 2)).flags = false)
    (hround : w.round cap nil messageGet s = some v) : Inv nil v := by
  obtain ⟨cs, hcs, hqueued⟩ := h.queue
  obtain ⟨e, p, cs', hhead, hcs', hqueued', ⟨cb, rfl⟩ | hanswer⟩ :=
    World.round_cases hcs hqueued hfits hround
  · have hperm : w.unanswered.Perm
        (w.queued.tail ++ (w.inFlight ++ [(cb, e)]).map Prod.snd) := by
      rw [World.unanswered, hhead, List.tail_cons, List.map_append, List.map_singleton,
        ← List.append_assoc]
      exact (List.perm_append_singleton e _).symm
    have hcore : Core nil
        { w with place := some p, queued := w.queued.tail, inFlight := w.inFlight ++ [(cb, e)] }
        w.extras w.alarms w.pending :=
      ⟨h.core.memory, h.core.fresh, h.core.once⟩
    exact ⟨⟨cs', hcs', hqueued'⟩, hcore.perm ((hperm.append_left _).append_left _) (.refl _)
      ((hperm.map _).append_right _)⟩
  · let u : World := { w with place := some p, queued := w.queued.tail }
    have hperm : w.unanswered.Perm (e :: u.unanswered) := by
      rw [World.unanswered, hhead]
      exact .refl _
    have hleft := h.core.leave (v := u) hperm rfl rfl rfl
    have hcore : Core nil u (e :: u.extras) u.alarms ((e.func, e.param) :: u.pending) :=
      ⟨hleft.memory, hleft.fresh, hleft.once⟩
    rw [hcore.answer_eq, file_failed hcap s] at hanswer
    have hv := (Option.some.inj hanswer).symm
    refine ⟨⟨cs', ?_, ?_⟩, hcore.answered hrun rfl hv⟩
    · rw [hv]
      exact hcs'
    · rw [hv]
      exact hqueued'

/-- **An answer** from the library calls the function of its request. -/
theorem Inv.answer (hcap : 20 ≤ cap) (h : Inv nil w) (hrun : w.running = none) {i : ℕ} {cb : Cb}
    (hi : w.inFlight[i]? = some (cb, e)) {E : Push.Env} {success : ℤ} {a : Answer} (hcb : a.cb = cb)
    (ha : AnswerPushable E success a) (s : Stack Atom) :
    ∃ v, w.step cap nil (.answer i E success a s) = some v ∧ Inv nil v ∧
      v.calls = w.calls ++ [answerCall E e.func e.param success a] := by
  obtain ⟨hlt, hget⟩ := List.getElem?_eq_some_iff.mp hi
  let u : World := { w with inFlight := w.inFlight.eraseIdx i }
  have hperm : w.unanswered.Perm (e :: u.unanswered) := by
    have herase := List.getElem_cons_eraseIdx_perm hlt
    rw [hget] at herase
    exact ((herase.symm.map Prod.snd).append_left _).trans List.perm_middle
  have hleft := h.core.leave (v := u) hperm rfl rfl rfl
  have hcore : Core nil u (e :: u.extras) u.alarms ((e.func, e.param) :: u.pending) :=
    ⟨hleft.memory, hleft.fresh, hleft.once⟩
  have hstep : w.step cap nil (.answer i E success a s) = some
      { u with running := some (.callback e),
               calls := w.calls ++ [answerCall E e.func e.param success a] } := by
    rw [World.step, if_pos (Option.isNone_iff_eq_none.mpr hrun), hi, Option.bind_eq_bind,
      Option.bind_some]
    simp only [if_pos hcb]
    rw [hcore.answer_eq, callback_invokes hcap a ha s]
    rfl
  exact ⟨_, hstep, ⟨h.queue, hcore.answered hrun rfl rfl⟩, rfl⟩

/-- **A timer** calls its function. -/
theorem Inv.alarm (hcap : 20 ≤ cap) (h : Inv nil w) (hrun : w.running = none) {i : ℕ}
    (hi : w.timers[i]? = some t) (s : Stack Atom) :
    ∃ v, w.step cap nil (.alarm i s) = some v ∧ Inv nil v ∧
      v.calls = w.calls ++ [⟨.atom (.kept t.func), [.atom (.kept t.param)]⟩] := by
  obtain ⟨hlt, hget⟩ := List.getElem?_eq_some_iff.mp hi
  have herase := (List.getElem_cons_eraseIdx_perm hlt).symm
  rw [hget] at herase
  have halarms : w.alarms.Perm (t :: w.timers.eraseIdx i) := by
    rw [World.alarms, hrun]
    exact herase
  obtain ⟨rs, howns, hrs⟩ := h.core.memory
  obtain ⟨hfunc, hparam⟩ := (howns.perm (.refl _) halarms).readTimer
  have hcall : invoke cap 20 [push (.atom (.kept t.func)), push (.atom (.kept t.param))] s =
      some ⟨.atom (.kept t.func), [.atom (.kept t.param)]⟩ := by
    have hatom : ∀ v : LuaValue,
        Pushes cap 17 17 17 (.atom (.kept v)) (push (.atom (Atom.kept v))) :=
      fun v => pushes_atom (by omega) _
    exact invoke_eq (.cons (hatom _) (.cons (hatom _) .nil)) (by simp) hcap s
  let v : World := { w with timers := w.timers.eraseIdx i, running := some (.alarm t),
                            calls := w.calls ++ [⟨.atom (.kept t.func), [.atom (.kept t.param)]⟩] }
  have hstep : w.step cap nil (.alarm i s) = some v := by
    rw [World.step, hrun, Option.isNone_none, if_pos rfl, World.alarm, hi, Option.bind_eq_bind,
      Option.bind_some, hfunc, Option.bind_eq_bind, Option.bind_some, hparam, Option.bind_eq_bind,
      Option.bind_some, hcall]
    rfl
  refine ⟨v, hstep, ⟨h.queue, ⟨⟨rs, howns.perm (.refl _) ?_, ?_⟩, ?_, ?_⟩⟩, rfl⟩
  · exact halarms
  · refine hrs.trans (.of_eq ?_)
    rw [World.extras, hrun]
    rfl
  · intro e he
    refine h.core.fresh e ?_
    rw [World.extras, hrun]
    exact he
  · refine once_called (x := (t.func, t.param)) rfl (.trans (.append_left _ (.map _ ?_)) h.core.once)
    refine .trans List.perm_middle.symm (.append_left _ ?_)
    exact (herase.map fun t : Timer => (t.func, t.param)).symm

/-- **A function returns**, and gives back what was kept for it. -/
theorem Inv.returned (h : Inv nil w) (hrun : w.running ≠ none) :
    ∃ v, w.returned = some v ∧ Inv nil v := by
  obtain ⟨x, hx⟩ := Option.ne_none_iff_exists'.mp hrun
  cases x with
  | callback e =>
    have hcore : Core nil w (e :: (w.commands.map Prod.snd ++ w.unanswered)) w.timers w.pending := by
      refine h.core.perm (.of_eq ?_) (.of_eq ?_) (.refl _)
      · rw [World.extras, hx]
        rfl
      · rw [World.alarms, hx]
        rfl
    obtain ⟨refs, S, hrefs, hS, hgive⟩ := hcore.give
    refine ⟨{ w with registry := S, records := Function.update w.records e.block none,
                     running := none }, ?_, ⟨h.queue, ?_⟩⟩
    · rw [World.returned, hx]
      simp only [Option.bind_eq_bind]
      rw [hrefs, Option.bind_some, hS]
      rfl
    · exact hgive _ rfl rfl rfl rfl rfl
  | alarm t =>
    obtain ⟨rs, howns, hrs⟩ := h.core.memory
    have halarms : w.alarms = t :: w.timers := by
      rw [World.alarms, hx]
      rfl
    have hextras : w.extras = w.commands.map Prod.snd ++ w.unanswered := by
      rw [World.extras, hx]
      rfl
    have hswap : (timerRefs t).Perm [(t.refs.param, t.param), (t.refs.func, t.func)] :=
      .swap _ _ _
    rw [halarms] at howns
    obtain ⟨S, hS, hgiven⟩ := howns.giveTimer hswap
    refine ⟨{ w with registry := S, running := none }, ?_,
      ⟨h.queue, ⟨⟨rs, hgiven, ?_⟩, ?_, h.core.once⟩⟩⟩
    · rw [World.returned, hx]
      change (dropAll w.registry [t.refs.param, t.refs.func]).bind _ = _
      rw [show dropAll w.registry [t.refs.param, t.refs.func] = some S from hS]
      rfl
    · rw [hextras] at hrs
      exact hrs
    · intro e he
      refine h.core.fresh e ?_
      rw [hextras]
      exact he

theorem Inv.enter (h : Inv nil w) (hplace : w.place.isNone) :
    Inv nil { w with place := some 0 } := by
  obtain ⟨cs, hcs, hqueued⟩ := h.queue
  rw [Option.isNone_iff_eq_none.mp hplace] at hcs
  exact ⟨⟨cs, hcs, hqueued⟩, ⟨h.core.memory, h.core.fresh, h.core.once⟩⟩

/-- At the end of the loop the queue is empty. -/
theorem Inv.leave (h : Inv nil w) {p : ℕ} (hplace : w.place = some p) (hp : ¬ p < w.queue.pos) :
    Inv nil { w with place := none, queue := { w.queue with pos := 0 } } := by
  obtain ⟨cs, hcs, hqueued⟩ := h.queue
  rw [hplace, Option.getD_some] at hcs
  cases cs with
  | nil => exact ⟨⟨[], rfl, hqueued⟩, ⟨h.core.memory, h.core.fresh, h.core.once⟩⟩
  | cons c cs =>
    have hle := Ownership.Holds.le hcs.2.2
    omega

/-- **A step** keeps the account. -/
theorem step_inv (hcap : 20 ≤ cap) (h : Inv nil w) {l : Label} (hs : Step cap nil w l v) :
    Inv nil v := by
  obtain ⟨hfits, hs⟩ := hs
  cases l with
  | call E c r => exact h.call hfits hs
  | postpone stack r => exact h.postpone hs
  | register stack r => exact h.register hs
  | enter =>
    rw [World.step] at hs
    split_ifs at hs with hidle
    cases hs
    exact h.enter hidle.2
  | round messageGet s =>
    rw [World.step] at hs
    split_ifs at hs with hidle
    exact h.round hcap (Option.isNone_iff_eq_none.mp hidle) hfits hs
  | leave =>
    simp only [World.step, Option.bind_eq_bind, Option.bind_eq_some_iff] at hs
    obtain ⟨p, hplace, hs⟩ := hs
    split_ifs at hs with hidle
    cases hs
    exact h.leave hplace hidle.2
  | answer i E success a s =>
    have hcases := hs
    simp only [World.step] at hcases
    split_ifs at hcases with hidle
    simp only [Option.bind_eq_bind, Option.bind_eq_some_iff, Prod.exists] at hcases
    obtain ⟨cb, e, hi, hcases⟩ := hcases
    split_ifs at hcases with hcb
    obtain ⟨u, hu, hinv, -⟩ :=
      h.answer hcap (Option.isNone_iff_eq_none.mp hidle) hi hcb hfits s
    obtain rfl := Option.some.inj (hu.symm.trans hs)
    exact hinv
  | alarm i s =>
    have hcases := hs
    simp only [World.step] at hcases
    split_ifs at hcases with hidle
    simp only [World.alarm, Option.bind_eq_bind, Option.bind_eq_some_iff] at hcases
    obtain ⟨t, hi, -⟩ := hcases
    obtain ⟨u, hu, hinv, -⟩ := h.alarm hcap (Option.isNone_iff_eq_none.mp hidle) hi s
    obtain rfl := Option.some.inj (hu.symm.trans hs)
    exact hinv
  | returned =>
    have hrun : w.running ≠ none := by
      intro hnone
      rw [World.step, World.returned, hnone] at hs
      cases hs
    obtain ⟨u, hu, hinv⟩ := h.returned hrun
    obtain rfl := Option.some.inj (hu.symm.trans hs)
    exact hinv

/-- The references in use are those of the calls and timers to come, and of what runs. -/
theorem Inv.fulfilled (hcap : 20 ≤ cap) (h : Inv nil w) : Fulfilled cap nil w := by
  obtain ⟨rs, howns, hrs⟩ := h.core.memory
  refine ⟨h.core.once, ⟨_, howns.registry, ?_⟩, ⟨_, howns.records, ?_⟩, ?_, ?_, fun hrun => ?_,
    fun c hc => ?_⟩
  · rw [List.map_append, List.map_flatMap, List.map_flatMap]
    refine .append_right _ ?_
    have hperm := hrs.flatMap_right fun e : Extra => [e.func, e.param]
    rwa [List.flatMap_map] at hperm
  · rw [List.map_map]
    have hperm := hrs.map Extra.block
    rwa [List.map_map] at hperm
  · intro hrun i cb e hi E success a s hcb ha
    obtain ⟨v, hv, -, hcalls⟩ := h.answer hcap hrun hi hcb ha s
    exact ⟨v, hv, hcalls⟩
  · intro hrun i t hi s
    obtain ⟨v, hv, -, hcalls⟩ := h.alarm hcap hrun hi s
    exact ⟨v, hv, hcalls⟩
  · obtain ⟨v, hv, -⟩ := h.returned hrun
    exact ⟨v, hv⟩
  · have hmem : c.2 ∈ w.extras :=
      List.mem_append_right _ (List.mem_append_left _ (List.mem_map_of_mem hc))
    obtain ⟨x, hx, heq⟩ := List.mem_map.mp (hrs.mem_iff.mpr hmem)
    obtain ⟨xs, ys, rfl⟩ := List.append_of_mem hx
    have hread := (howns.perm List.perm_middle (.refl _)).read
    rw [heq] at hread
    exact ⟨x.2, hread⟩

/-- **The script gets what it was promised**, in whatever order calls, answers and timers come. -/
theorem run_fulfilled (hcap : 20 ≤ cap) {ls : List Label}
    (hrun : Runs (Step cap nil) World.start ls w) : Fulfilled cap nil w :=
  (Runs.induction (fun _ _ _ hs h => step_inv hcap h hs) hrun Inv.start).fulfilled hcap

/-! ### A call and a timer -/

/-- A check of `Fits`, where answers are those to requests that have failed. -/
def fits (w : World) : Label → Bool
  | .call _ c _ => c.function.all fun F => decide (Matches F.type F.args.length)
  | .round _ _ => w.place.all fun p => !(w.queue.luaPtr (p + 2)).flags
  | .answer _ _ success _ _ => success = 0
  | _ => true

def run (cap : ℕ) (nil : LuaValue) : List Label → World → Option World
  | [], w => some w
  | l :: ls, w => if fits w l then (w.step cap nil l).bind (run cap nil ls) else none

theorem fits_of_check {l : Label} (h : fits w l = true) : Fits w l := by
  cases l with
  | call E c r => exact fun F hF => of_decide_eq_true (by rw [fits, hF] at h; exact h)
  | round messageGet s =>
    exact fun p hp => by rwa [fits, hp, Option.all_some, Bool.not_eq_true'] at h
  | answer i E success a s => exact fun hs => absurd (of_decide_eq_true h) hs
  | _ => trivial

theorem runs_of_run : ∀ {ls : List Label} {w v : World}, run cap nil ls w = some v →
    Runs (Step cap nil) w ls v
  | [], w, _, h => by
    cases h
    exact .nil w
  | l :: ls, w, v, h => by
    rw [run] at h
    split_ifs at h with hfits
    obtain ⟨u, hu, h⟩ := Option.bind_eq_some_iff.mp h
    exact .cons ⟨fits_of_check hfits, hu⟩ (runs_of_run h)

def sampleString (s : String) : LuaValue := ⟨0, some (lit s), 0, 0⟩

/-- The timer goes off before the library has answered, and its references are taken again. -/
def timerFirst : List Label :=
  [.register [sampleString "greet", ⟨6, none, 0, 0⟩, ⟨7, none, 0, 0⟩, sampleString "greet <user>",
     sampleString "user"] (5, 6),
   .call aliceEnv.ids (sampleCall "mark_read" ["Alice"]) (1, 2),
   .postpone [⟨3, none, 0, 0⟩, ⟨4, none, 0, 0⟩, ⟨5, none, 0, 0⟩] (3, 4), .enter,
   .round (fun _ => none) ⟨[], 0⟩, .leave, .alarm 0 ⟨[], 0⟩, .returned,
   .call aliceEnv.ids (sampleCall "get_contact_list" []) (3, 4),
   .answer 0 sampleEnv 0 .empty ⟨[], 0⟩, .returned]

theorem run_fulfilled_timer : ∃ w : World, (w.calls.length, w.pending.length) = (2, 1) ∧
    Fulfilled 20 ⟨9, none, 0, 0⟩ w := by
  have hlen : (run 20 ⟨9, none, 0, 0⟩ timerFirst World.start).map
      (fun w => (w.calls.length, w.pending.length)) = some (2, 1) := by decide +kernel
  obtain ⟨w, hw, hlen⟩ := Option.map_eq_some_iff.mp hlen
  exact ⟨w, hlen, run_fulfilled le_rfl (runs_of_run hw)⟩

end TelegramCli.Lua.Completions
