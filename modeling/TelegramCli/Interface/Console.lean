import TelegramCli.Interface.PeerNames
import TelegramCli.Json.Pack
import TelegramCli.Lib.Brackets

/-! # Colors and names on the console

The printers of names, dates and ids write to the console in colors. A color is pushed on a stack of
10 and popped again behind the text it is for; an answer to a socket has no colors. Every printer
leaves the stack as it was and needs room for two colors at most, and without colors it prints what
`PeerNames.printPeerName` says (`printPeerName_plain`). -/

namespace TelegramCli.Interface.Console

open TelegramCli.Lib.CNumber TelegramCli.Lib.CString TelegramCli.Lib.Brackets
open TelegramCli.Tgl hiding Peer Message
open TelegramCli.Telegrab.DumpHtml (Tm Str.print Str.isEmpty)
open TelegramCli.Interface.UnknownUsers (Config addUnknown)

/-! ### The console -/

inductive Color
  | red
  | redb
  | green
  | grey
  | blue
  | magenta
  | cyan
  deriving DecidableEq, Repr

/-- `COLOR_RED` and its siblings. -/
def Color.code : Color → String
  | .red => "\x1b[0;31m"
  | .redb => "\x1b[1;31m"
  | .green => "\x1b[32;1m"
  | .grey => "\x1b[37;1m"
  | .blue => "\x1b[34;1m"
  | .magenta => "\x1b[35;1m"
  | .cyan => "\x1b[36;1m"

/-- `COLOR_NORMAL`. -/
def colorNormal : String := "\x1b[0m"

/-- What was printed, and `unknown_user_list`. -/
structure Output where
  text : List UInt8
  unknownUserList : List ℤ

/-- What fails apart from the stack. -/
inductive Fault
  /-- The assertion on a kind. -/
  | kind
  /-- A null pointer. -/
  | pointer
  /-- The assertion on the room in `unknown_user_list`, which has no room for the user. -/
  | unknownUser (users : List ℤ) (id : PeerId)
  deriving DecidableEq, Repr

/-- The size of `color_stack`. -/
abbrev colorMax : ℕ := 10

abbrev Print : Type := Printer Color Output Fault colorMax

/-- `tgl_peer_t`; the last field is `TGLUF_SELF | TGLUF_CONTACT` of a user. -/
structure Peer extends Tgl.Peer where
  selfOrContact : Bool

/-- The options and the answers of the library; `ev` says that there is one. -/
structure Env where
  config : Config
  ev : Bool
  disableColors : Bool
  msgNumMode : Bool
  permanentMsgIdMode : Bool
  printPermanentMsgId : MsgId → List UInt8
  peerGet : PeerId → Option Peer
  ourId : PeerId
  cmpPeerId : PeerId → PeerId → ℤ
  localtime : ℤ → Tm
  time : ℤ
  /-- `%.6lf`. -/
  fmtReal : Double → List UInt8
  /-- What `logprintf` prints for a text. -/
  logprintf : List UInt8 → List UInt8

/-- Colors are shown. -/
def Env.colors (E : Env) : Bool := !E.ev && !E.disableColors

def mprintf (text : List UInt8) : Print := write fun r => .ok { r with text := r.text ++ text }

/-- What is printed for the color on top of the stack. -/
def draw (color : Option Color) (r : Output) : Output :=
  { r with text := r.text ++ lit (color.elim colorNormal Color.code) }

/-- `mpush_color`, and in it `push_color`. -/
def mpushColor (E : Env) (color : Color) : Print := push E.colors draw color

def mpopColor (E : Env) : Print := pop E.colors draw

/-- An assertion on a kind. -/
def assertKind (p : Prop) [Decidable p] : Print := write fun r => if p then .ok r else .error .kind

/-- What stands behind a pointer that must not be null. -/
def behindPointer {α : Type} (p : Option α) (print : α → Print) : Print :=
  p.elim (write fun _ => .error .pointer) print

/-! ### Names -/

def printPeerPermanentName (E : Env) (id : PeerId) : Print :=
  mprintf (E.config.printPermanentPeerId id)

/-- The id of a user the library does not know is kept in the list. -/
def noteUnknown (id : PeerId) : Print := write fun r =>
  match addUnknown r.unknownUserList id.peerId with
  | some users => .ok { r with unknownUserList := users }
  | none => .error (.unknownUser r.unknownUserList id)

/-- The branch for a user the library does not know. -/
def printUnknownUser (id : PeerId) : Print := steps
  [mprintf (lit "user#" ++ decimal id.peerId), noteUnknown id]

/-- The text for a user the library knows. -/
def knownUserText (E : Env) (id : PeerId) (U : Peer) : List UInt8 :=
  if U.deleted then lit "deleted user#" ++ decimal id.peerId
  else if !U.created then lit "user#" ++ decimal id.peerId
  else if E.config.useIds then lit "user#" ++ decimal id.peerId
  else if Str.isEmpty U.firstName then Str.print U.lastName
  else if Str.isEmpty U.lastName then Str.print U.firstName
  else Str.print U.firstName ++ lit " " ++ Str.print U.lastName

/-- The other branch. -/
def printKnownUser (E : Env) (id : PeerId) (U : Peer) : Print := steps
  [if U.selfOrContact then mpushColor E .redb else steps [],
   mprintf (knownUserText E id U),
   if U.selfOrContact then mpopColor E else steps []]

def printUserName (E : Env) (id : PeerId) (U : Option Peer) : Print := steps
  [assertKind (id.peerType = .user),
   mpushColor E .red,
   if E.config.permanentPeerIdMode then steps [printPeerPermanentName E id, mpopColor E]
   else steps [U.elim (printUnknownUser id) (printKnownUser E id), mpopColor E]]

/-- What the printers of the other kinds print of a peer. -/
def titleText (E : Env) (word : String) (title : Peer → Str) (id : PeerId) (C : Option Peer) :
    List UInt8 :=
  match C with
  | none => lit word ++ decimal id.peerId
  | some C => if E.config.useIds then lit word ++ decimal id.peerId else Str.print (title C)

/-- The printers of the other kinds. -/
def printTitle (E : Env) (kind : PeerType) (color : Color) (word : String) (title : Peer → Str)
    (id : PeerId) (C : Option Peer) : Print := steps
  [assertKind (id.peerType = kind),
   mpushColor E color,
   if E.config.permanentPeerIdMode then steps [printPeerPermanentName E id, mpopColor E]
   else steps [mprintf (titleText E word title id C), mpopColor E]]

def printChatName (E : Env) : PeerId → Option Peer → Print :=
  printTitle E .chat .magenta "chat#" fun C => C.title

def printChannelName (E : Env) : PeerId → Option Peer → Print :=
  printTitle E .channel .cyan "channel#" fun C => C.title

def printEncrChatName (E : Env) : PeerId → Option Peer → Print :=
  printTitle E .encrChat .magenta "encr_chat#" fun C => C.printName

def printPeerName (E : Env) (id : PeerId) (C : Option Peer) : Print :=
  match id.peerType with
  | .user => printUserName E id C
  | .chat => printChatName E id C
  | .channel => printChannelName E id C
  | .encrChat => printEncrChatName E id C
  | _ => assertKind False

/-! ### Dates and ids -/

def monthes : List String :=
  ["Jan", "Feb", "Mar", "Apr", "May", "Jun", "Jul", "Aug", "Sep", "Oct", "Nov", "Dec"]

def printDate (E : Env) (t : ℤ) : Print :=
  let tm := E.localtime t
  let month := lit (monthes.getD tm.mon.toNat "")
  mprintf
    (if E.time - t < 12 * 60 * 60 then
      lit "[" ++ decimal2 tm.hour ++ lit ":" ++ decimal2 tm.min ++ lit "] "
    else if E.time - t < 24 * 60 * 60 * 180 then
      lit "[" ++ decimal2 tm.mday ++ lit " " ++ month ++ lit "]"
    else
      lit "[" ++ decimal2 tm.mday ++ lit " " ++ month ++ lit " " ++ decimal (tm.year + 1900) ++
        lit "]")

/-- The message, if there is one, is asked for its `temp_id`. -/
def printMsgId (E : Env) (msgId : MsgId) (tempId : Option ℤ) : Print :=
  mprintf
    (if !E.msgNumMode then []
    else if !E.permanentMsgIdMode then tempId.elim (lit "???") decimal
    else E.printPermanentMsgId msgId)

/-! ### The stack -/

variable {E : Env} {F : Fault → Prop} {n a : ℕ}

theorem levels_mprintf (on : Bool) (text : List UInt8) : Levels on F n a a (mprintf text) :=
  levels_write fun _ _ h => by cases h

theorem levels_assertKind {on : Bool} {p : Prop} [Decidable p] (h : p ∨ F .kind) :
    Levels on F n a a (assertKind p) := by
  refine levels_write fun r e he => ?_
  split_ifs at he with hp
  cases he
  exact h.resolve_left hp

theorem levels_noteUnknown {on : Bool} {id : PeerId}
    (hF : ∀ users, addUnknown users id.peerId = none → F (.unknownUser users id)) :
    Levels on F n a a (noteUnknown id) := by
  refine levels_write fun r e he => ?_
  cases hadd : addUnknown r.unknownUserList id.peerId with
  | none =>
    rw [hadd] at he
    cases he
    exact hF r.unknownUserList hadd
  | some users =>
    rw [hadd] at he
    cases he

theorem levels_behindPointer {α : Type} {on : Bool} {p : Option α} {print : α → Print}
    (hF : p = none → F .pointer) {b : ℕ} (h : ∀ x, p = some x → Levels on F n a b (print x)) :
    Levels on F n a b (behindPointer p print) := by
  cases p with
  | none => exact fun base s hs hroom => .inr ⟨.pointer, hF rfl, rfl⟩
  | some x => exact h x rfl

theorem levels_printKnownUser (id : PeerId) (U : Peer) :
    Levels E.colors F 1 0 0 (printKnownUser E id U) := by
  unfold printKnownUser
  split_ifs
  · exact levels_within (n := 0) draw .redb (levels_mprintf _ _) le_rfl
  · exact levels_cons levels_nil
      (levels_cons (levels_mprintf _ _) (levels_cons levels_nil levels_nil))

/-- **The printer of users** pops what it pushes. -/
theorem levels_printUserName {id : PeerId} (U : Option Peer)
    (hF : U = none → ∀ users, addUnknown users id.peerId = none → F (.unknownUser users id))
    (hk : id.peerType = .user ∨ F .kind) : Levels E.colors F 2 0 0 (printUserName E id U) := by
  refine levels_cons (levels_assertKind hk)
    (levels_cons (levels_push draw .red (by omega)) (levels_cons (b := 0) ?_ levels_nil))
  refine levels_ite (fun _ => ?_) fun _ => ?_
  · exact levels_cons (levels_mprintf _ _) (levels_cons (levels_pop draw) levels_nil)
  · refine levels_cons (b := 1) ?_ (levels_cons (levels_pop draw) levels_nil)
    cases U with
    | none =>
      exact levels_cons (levels_mprintf _ _)
        (levels_cons (levels_noteUnknown (hF rfl)) levels_nil)
    | some U => exact (levels_printKnownUser id U).above (by omega)

theorem levels_printTitle {kind : PeerType} {color : Color} {word : String} {title : Peer → Str}
    {id : PeerId} (C : Option Peer) (hk : id.peerType = kind ∨ F .kind) :
    Levels E.colors F 1 0 0 (printTitle E kind color word title id C) := by
  refine levels_cons (levels_assertKind hk)
    (levels_cons (levels_push draw color (by omega)) (levels_cons (b := 0) ?_ levels_nil))
  refine levels_ite (fun _ => ?_) fun _ => ?_
  · exact levels_cons (levels_mprintf _ _) (levels_cons (levels_pop draw) levels_nil)
  · exact levels_cons (levels_mprintf _ _) (levels_cons (levels_pop draw) levels_nil)

/-- **A peer of the four kinds** is printed with the stack left as it was. -/
theorem levels_printPeerName {id : PeerId} (C : Option Peer)
    (hF : C = none → ∀ users, addUnknown users id.peerId = none → F (.unknownUser users id))
    (hk : id.peerType.IsChat ∨ F .kind) : Levels E.colors F 2 0 0 (printPeerName E id C) := by
  unfold printPeerName
  split
  · next h => exact levels_printUserName C hF (.inl h)
  · next h => exact (levels_printTitle C (.inl h)).above (by omega)
  · next h => exact (levels_printTitle C (.inl h)).above (by omega)
  · next h => exact (levels_printTitle C (.inl h)).above (by omega)
  · next huser hchat hchannel hencr =>
    refine levels_assertKind (.inr (hk.resolve_left ?_))
    rintro (h | h | h | h)
    · exact huser h
    · exact hchat h
    · exact hchannel h
    · exact hencr h

theorem levels_printDate (t : ℤ) : Levels E.colors F n a a (printDate E t) := levels_mprintf _ _

theorem levels_printMsgId (msgId : MsgId) (tempId : Option ℤ) :
    Levels E.colors F n a a (printMsgId E msgId tempId) := levels_mprintf _ _

/-! ### Without colors -/

/-- The text is printed and the list is left, or there is a fault if they are missing. -/
def Shows (s : Screen Color Output colorMax) (r : Option (List UInt8 × List ℤ))
    (x : Except (Failure Fault) (Unit × Screen Color Output colorMax)) : Prop :=
  match r with
  | some (text, users) => x = .ok ((), { s with rest := ⟨s.rest.text ++ text, users⟩ })
  | none => ∃ e, x = .error (.other e)

theorem steps_cons_ok {p : Print} {s t : Screen Color Output colorMax} (h : p s = .ok ((), t))
    (ps : List Print) : steps (p :: ps) s = steps ps t := by
  show (p s).bind _ = _
  rw [h]
  rfl

theorem steps_cons_error {p : Print} {s : Screen Color Output colorMax} {e : Failure Fault}
    (h : p s = .error e) (ps : List Print) : steps (p :: ps) s = .error e := by
  show (p s).bind _ = _
  rw [h]
  rfl

theorem mpushColor_plain (h : E.colors = false) (color : Color)
    (s : Screen Color Output colorMax) : mpushColor E color s = .ok ((), s) := by
  rw [mpushColor, push, h]
  rfl

theorem mpopColor_plain (h : E.colors = false) (s : Screen Color Output colorMax) :
    mpopColor E s = .ok ((), s) := by
  rw [mpopColor, pop, h]
  rfl

theorem assertKind_pos {p : Prop} [Decidable p] (h : p) (s : Screen Color Output colorMax) :
    assertKind p s = .ok ((), s) := by
  simp [assertKind, write, h]

theorem assertKind_neg {p : Prop} [Decidable p] (h : ¬ p) (s : Screen Color Output colorMax) :
    assertKind p s = .error (.other .kind) := by
  simp [assertKind, write, h]

/-- What stands between the color of a name and its end. -/
theorem shows_named (h : E.colors = false) {id : PeerId} {kind : PeerType} {color : Color}
    {name : Print} {s : Screen Color Output colorMax} {r : Option (List UInt8 × List ℤ)}
    (hname : Shows s r (name s)) :
    Shows s
      (if id.peerType ≠ kind then none
      else if E.config.permanentPeerIdMode then
        some (E.config.printPermanentPeerId id, s.rest.unknownUserList)
      else r)
      (steps [assertKind (id.peerType = kind), mpushColor E color,
        if E.config.permanentPeerIdMode then steps [printPeerPermanentName E id, mpopColor E]
        else steps [name, mpopColor E]] s) := by
  by_cases hk : id.peerType = kind
  · rw [if_neg (not_not.mpr hk), steps_cons_ok (assertKind_pos hk s),
      steps_cons_ok (mpushColor_plain h color s)]
    by_cases hperm : E.config.permanentPeerIdMode = true
    · rw [if_pos hperm, if_pos hperm]
      have hpop : steps [printPeerPermanentName E id, mpopColor E] s = .ok ((),
          { s with rest := { s.rest with
            text := s.rest.text ++ E.config.printPermanentPeerId id } }) :=
        (steps_cons_ok rfl _).trans (steps_cons_ok (mpopColor_plain h _) _)
      exact steps_cons_ok hpop _
    · rw [if_neg hperm, if_neg hperm]
      cases r with
      | none =>
        obtain ⟨e, he⟩ := hname
        exact ⟨e, steps_cons_error (steps_cons_error he _) _⟩
      | some r =>
        have hpop : steps [name, mpopColor E] s = .ok ((),
            { s with rest := ⟨s.rest.text ++ r.1, r.2⟩ }) :=
          (steps_cons_ok hname _).trans (steps_cons_ok (mpopColor_plain h _) _)
        exact steps_cons_ok hpop _
  · rw [if_pos hk]
    exact ⟨.kind, steps_cons_error (assertKind_neg hk s) _⟩

theorem shows_mprintf (text : List UInt8) (s : Screen Color Output colorMax) :
    Shows s (some (text, s.rest.unknownUserList)) (mprintf text s) := rfl

theorem shows_printUnknownUser (id : PeerId) (s : Screen Color Output colorMax) :
    Shows s ((addUnknown s.rest.unknownUserList id.peerId).map fun users =>
      (lit "user#" ++ decimal id.peerId, users)) (printUnknownUser id s) := by
  have htext : mprintf (lit "user#" ++ decimal id.peerId) s = .ok ((), { s with rest :=
      { s.rest with text := s.rest.text ++ (lit "user#" ++ decimal id.peerId) } }) := rfl
  rw [printUnknownUser, steps_cons_ok htext]
  cases hadd : addUnknown s.rest.unknownUserList id.peerId with
  | none =>
    refine ⟨.unknownUser s.rest.unknownUserList id, steps_cons_error ?_ _⟩
    simp [noteUnknown, write, hadd]
  | some users => exact steps_cons_ok (by simp [noteUnknown, write, hadd]) _

theorem shows_printKnownUser (h : E.colors = false) (id : PeerId) (U : Peer)
    (s : Screen Color Output colorMax) :
    Shows s (some (knownUserText E id U, s.rest.unknownUserList)) (printKnownUser E id U s) := by
  have hred : ∀ t, (if U.selfOrContact then mpushColor E .redb else steps []) t =
      .ok ((), t) := by
    intro t
    split_ifs
    · exact mpushColor_plain h .redb t
    · rfl
  have hpop : ∀ t, (if U.selfOrContact then mpopColor E else steps []) t = .ok ((), t) := by
    intro t
    split_ifs
    · exact mpopColor_plain h t
    · rfl
  exact (steps_cons_ok (hred s) _).trans ((steps_cons_ok rfl _).trans (steps_cons_ok (hpop _) _))

theorem shows_printUserName (h : E.colors = false) (id : PeerId) (U : Option Peer)
    (s : Screen Color Output colorMax) :
    Shows s (UnknownUsers.printUserName E.config s.rest.unknownUserList id (U.map Peer.toPeer))
      (printUserName E id U s) := by
  cases U with
  | none => exact shows_named h (shows_printUnknownUser id s)
  | some U => exact shows_named h (shows_printKnownUser h id U s)

/-- The printers of the other kinds, where `name` is what is printed without colors. -/
theorem shows_printTitle (h : E.colors = false) {kind : PeerType} {color : Color} {word : String}
    {title : Peer → Str} {id : PeerId} {C : Option Peer} {name : Option (List UInt8)}
    (hname : name = if id.peerType ≠ kind then none
      else if E.config.permanentPeerIdMode then some (E.config.printPermanentPeerId id)
      else some (titleText E word title id C)) (s : Screen Color Output colorMax) :
    Shows s (name.map fun name => (name, s.rest.unknownUserList))
      (printTitle E kind color word title id C s) := by
  have hshows : Shows s _ (printTitle E kind color word title id C s) :=
    shows_named h (shows_mprintf (titleText E word title id C) s)
  rw [hname]
  split_ifs at hshows ⊢
  · exact hshows
  · exact hshows
  · exact hshows

/-- **Without colors** the name of a peer is the text that `use_ids` and permanent ids ask for. -/
theorem printPeerName_plain (h : E.colors = false) (id : PeerId) (C : Option Peer)
    (s : Screen Color Output colorMax) :
    Shows s (PeerNames.printPeerName E.config s.rest.unknownUserList id (C.map Peer.toPeer))
      (printPeerName E id C s) := by
  unfold PeerNames.printPeerName printPeerName
  cases hk : id.peerType with
  | user =>
    rw [if_pos rfl]
    exact shows_printUserName h id C s
  | chat =>
    rw [if_neg (by decide), if_pos rfl]
    refine shows_printTitle h ?_ s
    cases C <;> simp only [PeerNames.printChatName, titleText] <;> split_ifs <;> rfl
  | channel =>
    rw [if_neg (by decide), if_neg (by decide), if_pos rfl]
    refine shows_printTitle h ?_ s
    cases C <;> simp only [PeerNames.printChannelName, titleText] <;> split_ifs <;> rfl
  | encrChat =>
    rw [if_neg (by decide), if_neg (by decide), if_neg (by decide), if_pos rfl]
    refine shows_printTitle h ?_ s
    cases C <;> simp only [PeerNames.printEncrChatName, titleText] <;> split_ifs <;> rfl
  | geoChat => exact ⟨.kind, assertKind_neg not_false s⟩
  | other n => exact ⟨.kind, assertKind_neg not_false s⟩

end TelegramCli.Interface.Console
