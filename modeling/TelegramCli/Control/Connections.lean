import TelegramCli.Interface.Sessions
import TelegramCli.Lib.Run

/-! # The control connections

A connection is a `struct in_ev` on the heap, with a count of the references to it: its bufferevent
holds one, every query of the library that carries it does, and so does `notify_ev`. The steps of
the program are a new connection, a line of a connection or of the console, the result of a query,
and the end of a connection. A step that touches a freed `in_ev` is a `fault`; a failed assertion
and the end of the process are no steps either. -/

namespace TelegramCli.Control.Connections

open TelegramCli.Interface.Actions TelegramCli.Interface.Args TelegramCli.Interface.Commands
open TelegramCli.Interface.Interpreter TelegramCli.Interface.Sessions TelegramCli.Lib.Run

/-- A `struct in_ev`: whether `bev` is set, and `refcnt`. -/
structure InEv where
  bevOpen : Bool
  refcnt : ℤ
  deriving DecidableEq, Repr

/-- The `in_ev`s by address, `notify_ev`, what the queries under way carry with their callbacks, and
the session. -/
structure World where
  heap : ℕ → Option InEv
  notifyEv : Option ℕ
  outstanding : List (Option ℕ × Option Callback)
  session : Session

/-- Why the program does not go on. -/
inductive Halt
  /-- `exit`. -/
  | exit
  /-- A failed assertion, or arguments that a handler cannot read. -/
  | abort
  /-- A freed `in_ev` or a missing bufferevent is used. -/
  | fault
  deriving DecidableEq, Repr

def World.set (w : World) (a : ℕ) (e : Option InEv) : World :=
  { w with heap := Function.update w.heap a e }

/-- `if (ev) { ev->refcnt ++; }`. -/
def retain (w : World) : Option ℕ → Except Halt World
  | none => .ok w
  | some a =>
    match w.heap a with
    | none => .error .fault
    | some e => .ok (w.set a (some { e with refcnt := e.refcnt + 1 }))

/-- `if (ev && !--ev->refcnt) { free (ev); }`, with which every callback starts. -/
def release (w : World) : Option ℕ → Except Halt World
  | none => .ok w
  | some a =>
    match w.heap a with
    | none => .error .fault
    | some e =>
      .ok (w.set a (if e.refcnt - 1 = 0 then none else some { e with refcnt := e.refcnt - 1 }))

/-- An answer is printed: `ev->bev` is looked at. -/
def touch (w : World) : Option ℕ → Except Halt World
  | none => .ok w
  | some a => if (w.heap a).isSome then .ok w else .error .fault

/-- `event_incoming` for the end of a connection. -/
def eventIncoming (w : World) : Option ℕ → Except Halt World
  | none => .error .fault
  | some a =>
    match w.heap a with
    | none => .error .fault
    | some e =>
      if e.bevOpen then release (w.set a (some { e with bevOpen := false })) (some a)
      else .error .fault

/-- A query is started. -/
def ask (lib : Library) (ev : Option ℕ) (w : World) (q : Query) (cb : Option Callback) :
    Except Halt World :=
  if lib.answersNow q then release w ev
  else .ok { w with outstanding := w.outstanding ++ [(ev, cb)] }

def mainSession (w : World) (ev : Option ℕ) : Except Halt World := do
  let w ← release w w.notifyEv
  retain { w with notifyEv := ev } ev

/-- An action of a handler. -/
def perform (lib : Library) (daemonize : Bool) (ev : Option ℕ) (w : World) :
    Action → Except Halt World
  | .ref => retain w ev
  | .query q cb => ask lib ev w q (some cb)
  | .callback _ => release w ev
  | .fail _ => touch w ev
  | .answer _ => touch w ev
  | .eventIncoming => eventIncoming w ev
  | .halt => if daemonize then .ok w else .error .exit
  | .safeQuit => .ok w
  | .set _ _ => .ok w
  | .chatWithPeer id => .ok { w with session := w.session.act (.chatWithPeer id) }
  | .mainSession => mainSession w ev
  | .clear => .ok w

/-- An effect of a line. -/
def handleEffect (lib : Library) (daemonize : Bool) (ev : Option ℕ) (w : World) :
    Effect → Except Halt World
  | .call cmd g args =>
    match handlerActions lib daemonize ev.isSome cmd g args with
    | .ok acts => acts.foldlM (perform lib daemonize ev) w
    | .error _ => .error .abort
  | .fail _ => touch w ev
  | .extf line => [.ref, .query (.sendExtf line) .extf].foldlM (perform lib daemonize ev) w
  | .chat q cb => ask lib none w q cb
  | .safeQuit => if daemonize then .error .fault else .ok w

/-- The effects of a line, before anything is done; `none` is a failed assertion. -/
def lineEffects (lib : Library) (w : World) (line : Option (List UInt8)) : Option (List Effect) :=
  effects w.session (interpreterEx lib.env commands w.session.inChatMode line)

/-- `interpreter_ex`. -/
def handleLine (lib : Library) (daemonize : Bool) (ev : Option ℕ) (w : World)
    (line : Option (List UInt8)) : Except Halt World :=
  match lineEffects lib w line with
  | none => .error .abort
  | some es =>
    es.foldlM (handleEffect lib daemonize ev)
      { w with session := afterLine lib.env w.session line }

/-! ### Steps -/

inductive Label
  /-- `accept_incoming`, with the new `in_ev` at `a`. -/
  | accept (a : ℕ)
  /-- A line of a connection, or of the console. -/
  | line (lib : Library) (ev : Option ℕ) (line : Option (List UInt8))
  /-- The callback of the query number `i` under way. -/
  | complete (i : ℕ)
  /-- `event_incoming` from libevent. -/
  | close (a : ℕ)

/-- The connection `a` has not been closed. -/
def World.isOpen (w : World) (a : ℕ) : Prop := ∃ e, w.heap a = some e ∧ e.bevOpen = true

inductive Step (daemonize : Bool) : World → Label → World → Prop
  | accept {w : World} {a : ℕ} : w.heap a = none →
    Step daemonize w (.accept a) (w.set a (some ⟨true, 1⟩))
  | line {w w' : World} {lib : Library} {ev : Option ℕ} {line : Option (List UInt8)} :
    (∀ a, ev = some a → w.isOpen a) → handleLine lib daemonize ev w line = .ok w' →
    Step daemonize w (.line lib ev line) w'
  | complete {w w' : World} {i : ℕ} {ev : Option ℕ} {cb : Option Callback} :
    w.outstanding[i]? = some (ev, cb) →
    release { w with outstanding := w.outstanding.eraseIdx i } ev = .ok w' →
    Step daemonize w (.complete i) w'
  | close {w w' : World} {a : ℕ} : w.isOpen a → eventIncoming w (some a) = .ok w' →
    Step daemonize w (.close a) w'

/-- The program before the first connection. -/
def World.start (σ : Session) : World := ⟨fun _ => none, none, [], σ⟩

end TelegramCli.Control.Connections
