import TelegramCli.Control.AnswerFrames
import TelegramCli.Control.Holders
import TelegramCli.Lib.Requests

/-! # Answers over a run

`Connections` has the references of the connections; here is what is written to them. A gateway, a
handler or the interpreter prints a `Note` into `socket_answer`, which is sent to the connection
when it is open. How a note is printed is a parameter (`Printers`), which may also fail an assertion.

A line asks about some `Matter`s, which are what its notes and its queries are for
(`lineMatters`). Over any run, the account of a connection that is open moves as questions and
answers do (`step_moves`): the answers it was sent, and the queries of its lines under way, are the
matters its lines asked about, each as often (`run_balanced`). So nothing is answered that was not
asked, and when no query is under way all of it has been (`run_answered`). -/

namespace TelegramCli.Control.Conversation

open TelegramCli.Lib.CString TelegramCli.Lib.Run TelegramCli.Lib.Requests TelegramCli.Tgl
open TelegramCli.Interface.Actions TelegramCli.Interface.Args TelegramCli.Interface.Commands
open TelegramCli.Interface.Sessions TelegramCli.Control.AnswerFrames
open TelegramCli.Control.Connections TelegramCli.Control.RefCount TelegramCli.Control.Holders

/-! ### Notes -/

/-- What an answer is for. -/
inductive Matter
  /-- A `FAIL` of the interpreter or of a handler. -/
  | fail (text : List UInt8)
  | own (x : Answer)
  /-- The result of a query. -/
  | result (cb : Callback)
  deriving DecidableEq

/-- What is printed between `mprint_start` and `mprint_end`: `ρ cb` are the results that the
callback `cb` takes, `υ` are the updates of the library. -/
inductive Note (ρ : Callback → Type) (υ : Type)
  | fail (text : List UInt8)
  | own (x : Answer)
  | result (cb : Callback) (r : ρ cb)
  | update (u : υ)

variable {ρ : Callback → Type} {υ σ : Type}

/-- What the note answers, if it is an answer. -/
def Note.matter : Note ρ υ → Option Matter
  | .fail text => some (.fail text)
  | .own x => some (.own x)
  | .result cb _ => some (.result cb)
  | .update _ => none

/-- `if (ev) { return; }` of `open_filename_gw`. -/
def replies (cb : Callback) : Bool := cb ≠ .openFilename

/-- The notes for which nothing is printed to a connection. -/
def Note.silent : Note ρ υ → Bool
  | .result cb _ => !replies cb
  | _ => false

/-- How notes are printed for a connection and on the console, with what the printers keep, and what
`bufferevent_write` sends for an answer that was given up. -/
structure Printers (ρ : Callback → Type) (υ σ : Type) where
  print : Bool → Note ρ υ → σ → Except Halt (List (List UInt8) × σ)
  huge : SocketAnswer → List UInt8

/-- The results that come before a line is handled: of the queries that the library answers at once,
and of the callbacks that a handler runs itself. -/
structure Results (ρ : Callback → Type) where
  ofQuery : Query → (cb : Callback) → ρ cb
  ofHandler : (cb : Callback) → ρ cb

/-! ### The program -/

/-- The connections, what the printers keep, `socket_answer`, and for each connection the notes that
were sent to it, with the pieces they were printed in, and the bytes written. -/
structure Talk (ρ : Callback → Type) (υ σ : Type) where
  world : World
  kept : σ
  socketAnswer : SocketAnswer
  sent : ℕ → List (Note ρ υ × List (List UInt8))
  wire : ℕ → List UInt8

/-- A note is printed, behind the release of the reference in a callback. -/
def speak (P : Printers ρ υ σ) (ev : Option ℕ) (t : Talk ρ υ σ) (n : Note ρ υ) :
    Except Halt (Talk ρ υ σ) :=
  match ev with
  | none => do
    let (_, kept) ← P.print false n t.kept
    return { t with kept := kept }
  | some a =>
    match t.world.heap a with
    -- the callback has freed it and returns
    | none => .ok t
    | some e =>
      if n.silent then .ok t
      else do
        let (pieces, kept) ← P.print true n t.kept
        let (bytes, socketAnswer) := answer P.huge t.socketAnswer pieces
        let t := { t with kept := kept, socketAnswer := socketAnswer }
        if e.bevOpen then
          return { t with
            sent := Function.update t.sent a (t.sent a ++ [(n, pieces)])
            wire := Function.update t.wire a (t.wire a ++ bytes) }
        else return t

/-- The note that an action prints, if it prints one at once. -/
def spoken (lib : Library) (now : Results ρ) : Action → Option (Note ρ υ)
  | .fail text => some (.fail (lit text))
  | .answer x => some (.own x)
  | .callback cb => some (.result cb (now.ofHandler cb))
  | .query q cb => if lib.answersNow q then some (.result cb (now.ofQuery q cb)) else none
  | _ => none

/-- `speak`, if there is a note. -/
def speakOpt (P : Printers ρ υ σ) (ev : Option ℕ) (t : Talk ρ υ σ) (n : Option (Note ρ υ)) :
    Except Halt (Talk ρ υ σ) :=
  n.elim (.ok t) (speak P ev t)

/-- An action of a handler. -/
def say (P : Printers ρ υ σ) (lib : Library) (now : Results ρ) (daemonize : Bool) (ev : Option ℕ)
    (t : Talk ρ υ σ) (a : Action) : Except Halt (Talk ρ υ σ) := do
  let w ← perform lib daemonize ev t.world a
  speakOpt P ev { t with world := w } (spoken lib now a)

/-- An effect of a line. -/
def sayEffect (P : Printers ρ υ σ) (lib : Library) (now : Results ρ) (daemonize : Bool)
    (ev : Option ℕ) (t : Talk ρ υ σ) : Effect → Except Halt (Talk ρ υ σ)
  | .call cmd g args =>
    match handlerActions lib daemonize ev.isSome cmd g args with
    | .ok acts => acts.foldlM (say P lib now daemonize ev) t
    | .error _ => .error .abort
  | .fail text => do
    let w ← touch t.world ev
    speak P ev { t with world := w } (.fail text)
  | .extf line => [.ref, .query (.sendExtf line) .extf].foldlM (say P lib now daemonize ev) t
  | .chat q cb => do
    let w ← ask lib none t.world q cb
    speakOpt P none { t with world := w }
      (if lib.answersNow q then cb.map fun cb => .result cb (now.ofQuery q cb) else none)
  | .safeQuit => if daemonize then .error .fault else .ok t

/-- `interpreter_ex`. -/
def sayLine (P : Printers ρ υ σ) (lib : Library) (now : Results ρ) (daemonize : Bool)
    (ev : Option ℕ) (t : Talk ρ υ σ) (line : Option (List UInt8)) : Except Halt (Talk ρ υ σ) :=
  match lineEffects lib t.world line with
  | none => .error .abort
  | some es =>
    es.foldlM (sayEffect P lib now daemonize ev)
      { t with world := { t.world with session := afterLine lib.env t.world.session line } }

/-- The steps: those of the connections, where a query comes with its result, and an update of the
library, which goes to `notify_ev`. -/
inductive Turn (ρ : Callback → Type) (υ : Type)
  | accept (a : ℕ)
  | line (lib : Library) (now : Results ρ) (ev : Option ℕ) (line : Option (List UInt8))
  | complete (i : ℕ) (r : (cb : Callback) → ρ cb)
  | close (a : ℕ)
  | update (u : υ)

/-- A new connection. -/
def Talk.accept (t : Talk ρ υ σ) (a : ℕ) : Talk ρ υ σ :=
  { t with
    world := t.world.set a (some ⟨true, 1⟩)
    sent := Function.update t.sent a []
    wire := Function.update t.wire a [] }

inductive TalkStep (P : Printers ρ υ σ) (daemonize : Bool) :
    Talk ρ υ σ → Turn ρ υ → Talk ρ υ σ → Prop
  | accept {t : Talk ρ υ σ} {a : ℕ} : t.world.heap a = none →
    TalkStep P daemonize t (.accept a) (t.accept a)
  | line {t t' : Talk ρ υ σ} {lib : Library} {now : Results ρ} {ev : Option ℕ}
    {line : Option (List UInt8)} :
    (∀ a, ev = some a → t.world.isOpen a) → sayLine P lib now daemonize ev t line = .ok t' →
    TalkStep P daemonize t (.line lib now ev line) t'
  | complete {t t' : Talk ρ υ σ} {i : ℕ} {r : (cb : Callback) → ρ cb} {ev : Option ℕ}
    {cb : Option Callback} {w : World} :
    t.world.outstanding[i]? = some (ev, cb) →
    release { t.world with outstanding := t.world.outstanding.eraseIdx i } ev = .ok w →
    speakOpt P ev { t with world := w } (cb.map fun cb => .result cb (r cb)) = .ok t' →
    TalkStep P daemonize t (.complete i r) t'
  | close {t : Talk ρ υ σ} {a : ℕ} {w : World} : t.world.isOpen a →
    eventIncoming t.world (some a) = .ok w → TalkStep P daemonize t (.close a) { t with world := w }
  | update {t t' : Talk ρ υ σ} {u : υ} {w : World} : touch t.world t.world.notifyEv = .ok w →
    speak P w.notifyEv { t with world := w } (.update u) = .ok t' →
    TalkStep P daemonize t (.update u) t'

/-- The program before the first connection. -/
def Talk.start (s : Session) (kept : σ) (a : SocketAnswer) : Talk ρ υ σ :=
  ⟨World.start s, kept, a, fun _ => [], fun _ => []⟩

/-! ### What a line asks about -/

def actionMatter : Action → Option Matter
  | .fail text => some (.fail (lit text))
  | .answer x => some (.own x)
  | .callback cb => if replies cb then some (.result cb) else none
  | .query _ cb => if replies cb then some (.result cb) else none
  | _ => none

def effectMatters (lib : Library) (daemonize : Bool) : Effect → List Matter
  | .call cmd g args =>
    match handlerActions lib daemonize true cmd g args with
    | .ok acts => acts.filterMap actionMatter
    | .error _ => []
  | .fail text => [.fail text]
  | .extf _ => [.result .extf]
  | _ => []

/-- The matters of a line that a connection gives. -/
def lineMatters (lib : Library) (daemonize : Bool) (w : World) (line : Option (List UInt8)) :
    List Matter :=
  ((lineEffects lib w line).getD []).flatMap (effectMatters lib daemonize)

/-- The matters each connection has asked about behind a step. The program does not keep them. -/
def asks (daemonize : Bool) (t : Talk ρ υ σ) (asked : ℕ → List Matter) : Turn ρ υ → ℕ → List Matter
  | .accept a => Function.update asked a []
  | .line lib _ (some a) line =>
    Function.update asked a (asked a ++ lineMatters lib daemonize t.world line)
  | _ => asked

/-- The answers a connection was sent. -/
def answered (t : Talk ρ υ σ) (a : ℕ) : List Matter :=
  (t.sent a).filterMap fun n => n.1.matter

/-- The matter of a query under way, if it is one of the connection. -/
def pendingMatter (a : ℕ) (q : Option ℕ × Option Callback) : Option Matter :=
  if q.1 = some a then q.2.bind fun cb => if replies cb then some (.result cb) else none else none

def pending (w : World) (a : ℕ) : List Matter := w.outstanding.filterMap (pendingMatter a)

/-- The account of a connection. -/
def account (t : Talk ρ υ σ) (asked : List Matter) (a : ℕ) : Account Matter :=
  ⟨asked, answered t a, pending t.world a⟩

/-! ### Printing a note -/

/-- The matters are those of the connection, if it is the one that gave the line. -/
def mine (ev : Option ℕ) (a : ℕ) (matters : List Matter) : List Matter :=
  if ev = some a then matters else []

theorem mine_append (ev : Option ℕ) (a : ℕ) (ms ns : List Matter) :
    mine ev a (ms ++ ns) = mine ev a ms ++ mine ev a ns := by
  unfold mine
  split_ifs <;> simp

theorem flatMap_mine {α : Type} (ev : Option ℕ) (a : ℕ) (g : α → List Matter) (xs : List α) :
    (xs.flatMap fun x => mine ev a (g x)) = mine ev a (xs.flatMap g) := by
  induction xs with
  | nil => unfold mine; split_ifs <;> rfl
  | cons x xs ih => rw [List.flatMap_cons, List.flatMap_cons, ih, mine_append]

theorem mine_toList (ev : Option ℕ) (a : ℕ) (k : Option Matter) :
    mine ev a k.toList = (if ev = some a then k else none).toList := by
  unfold mine
  split_ifs <;> rfl

variable {P : Printers ρ υ σ} {lib : Library} {now : Results ρ} {daemonize : Bool}
variable {ev : Option ℕ} {t t' : Talk ρ υ σ} {a : ℕ}

theorem isOpen_heap {w w' : World} (h : w'.heap = w.heap) : w'.isOpen a ↔ w.isOpen a := by
  unfold World.isOpen
  rw [h]

/-- **A note** leaves the connections as they are, and is one more answer to the connection it is
printed for. -/
theorem speak_eq_ok {n : Note ρ υ} (h : speak P ev t n = .ok t') :
    t'.world = t.world ∧ (t.world.isOpen a → answered t' a =
      answered t a ++ if ev = some a ∧ n.silent = false then n.matter.toList else []) := by
  unfold speak at h
  cases ev with
  | none =>
    obtain ⟨r, -, hr⟩ := bind_eq_ok.mp h
    cases hr
    refine ⟨rfl, fun _ => ?_⟩
    rw [if_neg fun hev => absurd hev.1 (by simp), List.append_nil]
    rfl
  | some b =>
    simp only at h
    cases hb : t.world.heap b with
    | none =>
      rw [hb] at h
      cases h
      refine ⟨rfl, fun ⟨e, ha, _⟩ => ?_⟩
      rw [if_neg, List.append_nil]
      rintro ⟨hev, -⟩
      rw [Option.some.inj hev, ha] at hb
      cases hb
    | some e =>
      rw [hb] at h
      simp only at h
      by_cases hs : n.silent = true
      · rw [if_pos hs] at h
        cases h
        refine ⟨rfl, fun _ => ?_⟩
        rw [if_neg fun hev => absurd (hs.symm.trans hev.2) (by simp), List.append_nil]
      · rw [if_neg hs] at h
        obtain ⟨r, -, hr⟩ := bind_eq_ok.mp h
        split_ifs at hr with hopen
        · cases hr
          refine ⟨rfl, fun _ => ?_⟩
          unfold answered
          simp only
          by_cases hab : a = b
          · subst hab
            rw [if_pos ⟨rfl, by simpa using hs⟩, Function.update_self, List.filterMap_append]
            congr 1
          · rw [if_neg fun hev => hab (Option.some.inj hev.1).symm, List.append_nil,
              Function.update_of_ne hab]
        · cases hr
          refine ⟨rfl, fun ⟨x, hx, hxopen⟩ => ?_⟩
          rw [if_neg, List.append_nil]
          · rfl
          · rintro ⟨hev, -⟩
            rw [Option.some.inj hev, hx] at hb
            cases hb
            exact absurd hxopen hopen

/-- **What a note does**: nothing, or it is printed, and maybe sent. -/
theorem speak_cases {n : Note ρ υ} (h : speak P ev t n = .ok t') :
    t' = t ∨ (∃ pieces kept sa, P.print ev.isSome n t.kept = .ok (pieces, kept) ∧
      t' = { t with kept := kept, socketAnswer := sa }) ∨
    ∃ b pieces kept, ev = some b ∧ P.print true n t.kept = .ok (pieces, kept) ∧
      t' = { t with
        kept := kept, socketAnswer := (answer P.huge t.socketAnswer pieces).2
        sent := Function.update t.sent b (t.sent b ++ [(n, pieces)])
        wire := Function.update t.wire b
          (t.wire b ++ (answer P.huge t.socketAnswer pieces).1) } := by
  unfold speak at h
  cases ev with
  | none =>
    obtain ⟨⟨pieces, kept⟩, hprint, hr⟩ := bind_eq_ok.mp h
    cases hr
    exact .inr (.inl ⟨pieces, kept, t.socketAnswer, hprint, rfl⟩)
  | some b =>
    simp only at h
    cases hb : t.world.heap b with
    | none =>
      rw [hb] at h
      cases h
      exact .inl rfl
    | some e =>
      rw [hb] at h
      simp only at h
      by_cases hs : n.silent = true
      · rw [if_pos hs] at h
        cases h
        exact .inl rfl
      · rw [if_neg hs] at h
        obtain ⟨⟨pieces, kept⟩, hprint, hr⟩ := bind_eq_ok.mp h
        split_ifs at hr
        · cases hr
          exact .inr (.inr ⟨b, pieces, kept, rfl, hprint, rfl⟩)
        · cases hr
          exact .inr (.inl ⟨pieces, kept, _, hprint, rfl⟩)

theorem speakOpt_eq_ok {n : Option (Note ρ υ)} (h : speakOpt P ev t n = .ok t') :
    t'.world = t.world ∧ (t.world.isOpen a → answered t' a = answered t a ++
      mine ev a (n.bind fun n => if n.silent then none else n.matter).toList) := by
  unfold mine
  cases n with
  | none =>
    cases h
    exact ⟨rfl, fun _ => by simp⟩
  | some n =>
    obtain ⟨hw, hanswered⟩ := speak_eq_ok (a := a) (show speak P ev t n = .ok t' from h)
    refine ⟨hw, fun hopen => ?_⟩
    rw [hanswered hopen]
    by_cases hev : ev = some a
    · cases hs : n.silent <;> simp [hev, hs]
    · simp [hev]

/-! ### Invariants of what is said -/

/-- A property of what is printed: the connections have no part in it, and a note keeps it. -/
structure Kept (P : Printers ρ υ σ) (I : Talk ρ υ σ → Prop) : Prop where
  world : ∀ t w, I t → I { t with world := w }
  accept : ∀ t a, I t → I (t.accept a)
  speak : ∀ ev n t t', speak P ev t n = .ok t' → I t → I t'

section Kept

variable {I : Talk ρ υ σ → Prop} (hI : Kept P I)
include hI

theorem Kept.speakOpt {n : Option (Note ρ υ)} (h : speakOpt P ev t n = .ok t') (ht : I t) :
    I t' := by
  cases n with
  | none => cases h; exact ht
  | some n => exact hI.speak ev n t t' h ht

theorem Kept.say {act : Action} (h : say P lib now daemonize ev t act = .ok t') (ht : I t) :
    I t' := by
  obtain ⟨w, -, h⟩ := bind_eq_ok.mp h
  exact hI.speakOpt h (hI.world t w ht)

theorem Kept.sayAll {acts : List Action}
    (h : acts.foldlM (Conversation.say P lib now daemonize ev) t = .ok t') (ht : I t) : I t' :=
  foldlM_induction (P := I) (fun _ _ _ _ hact ht => hI.say hact ht) h ht

theorem Kept.sayEffect {e : Effect} (h : sayEffect P lib now daemonize ev t e = .ok t')
    (ht : I t) : I t' := by
  cases e with
  | call cmd g args =>
    simp only [Conversation.sayEffect] at h
    cases hacts : handlerActions lib daemonize ev.isSome cmd g args with
    | error x => simp [hacts] at h
    | ok acts => rw [hacts] at h; exact hI.sayAll h ht
  | fail text =>
    obtain ⟨w, -, h⟩ := bind_eq_ok.mp h
    exact hI.speak _ _ _ _ h (hI.world t w ht)
  | extf line => exact hI.sayAll h ht
  | chat q cb =>
    obtain ⟨w, -, h⟩ := bind_eq_ok.mp h
    exact hI.speakOpt h (hI.world t w ht)
  | safeQuit =>
    unfold Conversation.sayEffect at h
    split_ifs at h
    cases h
    exact ht

/-- **A step keeps** what its notes keep. -/
theorem Kept.step {l : Turn ρ υ} (h : TalkStep P daemonize t l t') (ht : I t) : I t' := by
  cases h with
  | accept hb => exact hI.accept t _ ht
  | @line _ lib now ev line hopen hline =>
    unfold sayLine at hline
    cases hes : lineEffects lib t.world line with
    | none => simp [hes] at hline
    | some es =>
      rw [hes] at hline
      exact foldlM_induction (P := I) (fun _ _ _ _ he ht => hI.sayEffect he ht) hline
        (hI.world t _ ht)
  | complete hi hw hspeak => exact hI.speakOpt hspeak (hI.world t _ ht)
  | close hopen hw => exact hI.world t _ ht
  | update hw hspeak => exact hI.speak _ _ _ _ hspeak (hI.world t _ ht)

end Kept

/-! ### The connections -/

/-- The queries under way are left, and no connection is opened. -/
structure Leaves (w w' : World) : Prop where
  outstanding_eq : w'.outstanding = w.outstanding
  isOpen_of : ∀ a, w'.isOpen a → w.isOpen a

theorem leaves_of_heap {w w' : World} (ho : w'.outstanding = w.outstanding)
    (hh : w'.heap = w.heap) : Leaves w w' := ⟨ho, fun _ h => (isOpen_heap hh).mp h⟩

theorem Leaves.trans {u v w : World} (h : Leaves u v) (h' : Leaves v w) : Leaves u w :=
  ⟨h'.outstanding_eq.trans h.outstanding_eq, fun a ha => h.isOpen_of a (h'.isOpen_of a ha)⟩

/-- A connection is changed, and not opened. -/
theorem leaves_set {w : World} {b : ℕ} {e : InEv} {e' : Option InEv} (hb : w.heap b = some e)
    (h : ∀ x, e' = some x → x.bevOpen = true → e.bevOpen = true) : Leaves w (w.set b e') := by
  refine ⟨rfl, fun a ⟨x, hx, hopen⟩ => ?_⟩
  rw [set_heap] at hx
  split_ifs at hx with hab
  · rw [hab]
    exact ⟨e, hb, h x hx hopen⟩
  · exact ⟨x, hx, hopen⟩

theorem leaves_retain {w w' : World} (h : retain w ev = .ok w') : Leaves w w' := by
  unfold retain at h
  cases ev with
  | none => cases h; exact leaves_of_heap rfl rfl
  | some b =>
    cases hb : w.heap b with
    | none => simp [hb] at h
    | some e =>
      simp only [hb] at h
      cases h
      exact leaves_set hb fun x hx hopen => by cases hx; exact hopen

theorem leaves_release {w w' : World} (h : release w ev = .ok w') : Leaves w w' := by
  unfold release at h
  cases ev with
  | none => cases h; exact leaves_of_heap rfl rfl
  | some b =>
    cases hb : w.heap b with
    | none => simp [hb] at h
    | some e =>
      simp only [hb] at h
      cases h
      refine leaves_set hb fun x hx hopen => ?_
      split_ifs at hx
      cases hx
      exact hopen

theorem leaves_eventIncoming {w w' : World} (h : eventIncoming w ev = .ok w') : Leaves w w' := by
  unfold eventIncoming at h
  cases ev with
  | none => cases h
  | some b =>
    cases hb : w.heap b with
    | none => simp [hb] at h
    | some e =>
      simp only [hb] at h
      split_ifs at h with hopen
      exact (leaves_set hb fun _ _ _ => hopen).trans (leaves_release h)

theorem leaves_mainSession {w w' : World} (h : mainSession w ev = .ok w') : Leaves w w' := by
  obtain ⟨v, hv, h⟩ := bind_eq_ok.mp h
  have hmove : Leaves v { v with notifyEv := ev } := leaves_of_heap rfl rfl
  exact ((leaves_release hv).trans hmove).trans (leaves_retain h)

/-- The query that an action leaves under way. -/
def queued (lib : Library) (ev : Option ℕ) : Action → List (Option ℕ × Option Callback)
  | .query q cb => if lib.answersNow q then [] else [(ev, some cb)]
  | _ => []

/-- **An action** adds its query to those under way, and opens no connection. -/
theorem perform_queued {w w' : World} {act : Action}
    (h : perform lib daemonize ev w act = .ok w') :
    w'.outstanding = w.outstanding ++ queued lib ev act ∧ ∀ a, w'.isOpen a → w.isOpen a := by
  have hquiet : Leaves w w' → queued lib ev act = [] →
      w'.outstanding = w.outstanding ++ queued lib ev act ∧ ∀ a, w'.isOpen a → w.isOpen a := by
    intro hl hq
    rw [hq, List.append_nil]
    exact ⟨hl.outstanding_eq, hl.isOpen_of⟩
  cases act with
  | ref => exact hquiet (leaves_retain h) rfl
  | query q cb =>
    have hask : ask lib ev w q (some cb) = .ok w' := h
    unfold ask at hask
    by_cases hnow : lib.answersNow q = true
    · rw [if_pos hnow] at hask
      exact hquiet (leaves_release hask) (if_pos hnow)
    · rw [if_neg hnow] at hask
      cases hask
      have hqueued : queued lib ev (.query q cb) = [(ev, some cb)] := if_neg hnow
      rw [hqueued]
      exact ⟨rfl, fun _ ha => ha⟩
  | callback cb => exact hquiet (leaves_release h) rfl
  | fail text => rw [touch_eq_ok h] at hquiet ⊢; exact hquiet (leaves_of_heap rfl rfl) rfl
  | answer x => rw [touch_eq_ok h] at hquiet ⊢; exact hquiet (leaves_of_heap rfl rfl) rfl
  | eventIncoming => exact hquiet (leaves_eventIncoming h) rfl
  | halt =>
    unfold perform at h
    split_ifs at h
    cases h
    exact hquiet (leaves_of_heap rfl rfl) rfl
  | safeQuit => cases h; exact hquiet (leaves_of_heap rfl rfl) rfl
  | set s n => cases h; exact hquiet (leaves_of_heap rfl rfl) rfl
  | chatWithPeer id => cases h; exact hquiet (leaves_of_heap rfl rfl) rfl
  | mainSession => exact hquiet (leaves_mainSession h) rfl
  | clear => cases h; exact hquiet (leaves_of_heap rfl rfl) rfl

/-! ### The account of a connection -/

/-- From one state to the next the connection asks about some matters, if it is still open. -/
structure Follows (a : ℕ) (t : Talk ρ υ σ) (matters : List Matter) (t' : Talk ρ υ σ) : Prop where
  isOpen_of : t'.world.isOpen a → t.world.isOpen a
  moves : t'.world.isOpen a → ∀ asked,
    Moves (account t asked a) (account t' (asked ++ matters) a)

theorem Follows.refl (a : ℕ) (t : Talk ρ υ σ) : Follows a t [] t :=
  ⟨id, fun _ asked => by rw [List.append_nil]⟩

theorem Follows.trans {u v w : Talk ρ υ σ} {ms ns : List Matter} (h : Follows a u ms v)
    (h' : Follows a v ns w) : Follows a u (ms ++ ns) w := by
  refine ⟨fun ha => h.isOpen_of (h'.isOpen_of ha), fun ha asked => ?_⟩
  rw [← List.append_assoc]
  exact (h.moves (h'.isOpen_of ha) asked).trans (h'.moves ha (asked ++ ms))

/-- One action after another. -/
theorem follows_foldlM {α : Type} {f : Talk ρ υ σ → α → Except Halt (Talk ρ υ σ)}
    {g : α → List Matter} (h : ∀ x t t', f t x = .ok t' → Follows a t (g x) t') :
    ∀ {xs : List α} {t t' : Talk ρ υ σ}, xs.foldlM f t = .ok t' → Follows a t (xs.flatMap g) t'
  | [], _, _, ht => by cases ht; exact Follows.refl a _
  | x :: xs, t, t', ht => by
    rw [List.foldlM_cons] at ht
    obtain ⟨u, hu, ht⟩ := bind_eq_ok.mp ht
    rw [List.flatMap_cons]
    exact (h x t u hu).trans (follows_foldlM h ht)

/-- The matter of a note that is printed for a connection. -/
theorem spoken_matter (ev : Option ℕ) (act : Action) :
    ((spoken lib now act : Option (Note ρ υ)).bind fun n => if n.silent then none else n.matter) =
      if queued lib ev act = [] then actionMatter act else none := by
  cases act with
  | query q cb =>
    unfold spoken queued actionMatter
    simp only
    by_cases hnow : lib.answersNow q = true
    · rw [if_pos hnow, if_pos hnow, if_pos rfl]
      cases hr : replies cb <;> simp [Note.silent, Note.matter, hr]
    · rw [if_neg hnow, if_neg hnow]
      simp
  | callback cb =>
    unfold spoken queued actionMatter
    cases hr : replies cb <;> simp [Note.silent, Note.matter, hr]
  | _ => rfl

/-- The query an action leaves under way is for its matter. -/
theorem queued_matter (ev : Option ℕ) (a : ℕ) (act : Action) :
    (queued lib ev act).filterMap (pendingMatter a) =
      if queued lib ev act = [] then [] else mine ev a (actionMatter act).toList := by
  cases act with
  | query q cb =>
    unfold queued actionMatter pendingMatter mine
    by_cases hnow : lib.answersNow q = true
    · simp [hnow]
    · by_cases hev : ev = some a
      · cases hr : replies cb <;> simp [hnow, hev, hr]
      · simp [hnow, hev]
  | _ => rfl

/-- **An action** of a handler. -/
theorem say_follows (act : Action) (h : say P lib now daemonize ev t act = .ok t') :
    Follows a t (mine ev a (actionMatter act).toList) t' := by
  obtain ⟨w, hw, h⟩ := bind_eq_ok.mp h
  obtain ⟨hqueued, hopen⟩ := perform_queued hw
  obtain ⟨hworld, hanswered⟩ := speakOpt_eq_ok (a := a) h
  have hworld : t'.world = w := hworld
  refine ⟨fun ha => hopen a (hworld ▸ ha), fun ha asked => ?_⟩
  have hans : answered t' a = answered t a ++ mine ev a _ := hanswered (hworld ▸ ha)
  have hpending : pending t'.world a =
      pending t.world a ++ (queued lib ev act).filterMap (pendingMatter a) := by
    unfold pending
    rw [hworld, ← List.filterMap_append, ← hqueued]
  rw [spoken_matter ev] at hans
  rw [queued_matter] at hpending
  show Moves (account t asked a) ⟨_, answered t' a, pending t'.world a⟩
  rw [hans, hpending, mine_toList, mine_toList]
  by_cases hq : queued lib ev act = []
  · rw [if_pos hq, if_pos hq, List.append_nil]
    exact moves_reply (account t asked a) _
  · rw [if_neg hq, if_neg hq, ite_self, Option.toList_none, List.append_nil]
    exact moves_ask (account t asked a) _

/-! ### A line -/

theorem sayAll_follows {acts : List Action}
    (h : acts.foldlM (say P lib now daemonize ev) t = .ok t') :
    Follows a t (mine ev a (acts.filterMap actionMatter)) t' := by
  have hall := follows_foldlM (fun act t t' => say_follows (a := a) act) h
  rw [flatMap_mine] at hall
  rwa [List.filterMap_eq_flatMap_toList]

/-- A note of the interpreter. -/
theorem speak_follows {n : Note ρ υ} (hs : n.silent = false) (h : speak P ev t n = .ok t') :
    Follows a t (mine ev a n.matter.toList) t' := by
  obtain ⟨hworld, hanswered⟩ := speak_eq_ok (a := a) h
  refine ⟨fun ha => hworld ▸ ha, fun ha asked => ?_⟩
  have hans : answered t' a = answered t a ++ mine ev a n.matter.toList := by
    rw [hanswered (hworld ▸ ha)]
    unfold mine
    simp only [hs, and_true]
  unfold account
  rw [hans, hworld, mine_toList]
  exact moves_reply (account t asked a) _

/-- A step that neither asks nor answers. -/
theorem follows_of_eq (hopen : t'.world.isOpen a → t.world.isOpen a)
    (hsent : t'.world.isOpen a → answered t' a = answered t a)
    (hpending : pending t'.world a = pending t.world a) : Follows a t [] t' := by
  refine ⟨hopen, fun ha asked => ?_⟩
  unfold account
  rw [hsent ha, hpending, List.append_nil]

/-- The chat mode asks for no connection. -/
theorem chat_follows {q : Query} {cb : Option Callback}
    (h : sayEffect P lib now daemonize ev t (.chat q cb) = .ok t') : Follows a t [] t' := by
  obtain ⟨w, hw, h⟩ := bind_eq_ok.mp h
  obtain ⟨hworld, hanswered⟩ := speakOpt_eq_ok (a := a) h
  have hworld : t'.world = w := hworld
  have hask : pending w a = pending t.world a ∧ (w.isOpen a → t.world.isOpen a) := by
    unfold ask at hw
    split_ifs at hw
    · have hl := leaves_release hw
      exact ⟨by unfold pending; rw [hl.outstanding_eq], hl.isOpen_of a⟩
    · cases hw
      exact ⟨by unfold pending; simp [pendingMatter], id⟩
  refine follows_of_eq (fun ha => hask.2 (hworld ▸ ha)) (fun ha => ?_) (hworld ▸ hask.1)
  have hans : answered t' a = answered t a ++ mine none a _ := hanswered (hworld ▸ ha)
  rw [hans, mine, if_neg (by simp), List.append_nil]

/-- **An effect** of a line. -/
theorem sayEffect_follows (e : Effect) (h : sayEffect P lib now daemonize ev t e = .ok t') :
    Follows a t (mine ev a (effectMatters lib daemonize e)) t' := by
  cases e with
  | call cmd g args =>
    simp only [sayEffect] at h
    cases hacts : handlerActions lib daemonize ev.isSome cmd g args with
    | error x => simp [hacts] at h
    | ok acts =>
      rw [hacts] at h
      have hall := sayAll_follows (a := a) h
      unfold mine at hall ⊢
      by_cases hev : ev = some a
      · have hacts' : handlerActions lib daemonize true cmd g args = .ok acts := by
          rwa [hev] at hacts
        rw [if_pos hev] at hall ⊢
        simpa only [effectMatters, hacts'] using hall
      · rwa [if_neg hev] at hall ⊢
  | fail text =>
    obtain ⟨w, hw, h⟩ := bind_eq_ok.mp h
    rw [touch_eq_ok hw] at h
    exact speak_follows rfl h
  | extf line => exact sayAll_follows h
  | chat q cb =>
    have hchat := chat_follows (a := a) h
    unfold mine effectMatters
    rwa [ite_self]
  | safeQuit =>
    unfold sayEffect at h
    split_ifs at h
    cases h
    unfold mine effectMatters
    rw [ite_self]
    exact Follows.refl a t

/-- **A line** asks about its matters. -/
theorem sayLine_follows {line : Option (List UInt8)}
    (h : sayLine P lib now daemonize ev t line = .ok t') :
    Follows a t (mine ev a (lineMatters lib daemonize t.world line)) t' := by
  unfold sayLine at h
  unfold lineMatters
  cases hes : lineEffects lib t.world line with
  | none => simp [hes] at h
  | some es =>
    rw [hes] at h
    have hsession : Follows a t []
        { t with world := { t.world with session := afterLine lib.env t.world.session line } } :=
      follows_of_eq id (fun _ => rfl) rfl
    have hall := follows_foldlM (fun e t t' => sayEffect_follows (a := a) e) h
    rw [flatMap_mine] at hall
    exact hsession.trans hall

/-! ### The steps of the connections -/

theorem say_perform (act : Action) (h : say P lib now daemonize ev t act = .ok t') :
    perform lib daemonize ev t.world act = .ok t'.world := by
  obtain ⟨w, hw, h⟩ := bind_eq_ok.mp h
  rw [(speakOpt_eq_ok (a := 0) h).1]
  exact hw

theorem sayEffect_handle (e : Effect) (h : sayEffect P lib now daemonize ev t e = .ok t') :
    handleEffect lib daemonize ev t.world e = .ok t'.world := by
  cases e with
  | call cmd g args =>
    simp only [sayEffect, handleEffect] at h ⊢
    cases hacts : handlerActions lib daemonize ev.isSome cmd g args with
    | error x => simp [hacts] at h
    | ok acts =>
      rw [hacts] at h
      exact foldlM_map (π := Talk.world) (fun _ act _ => say_perform act) h
  | fail text =>
    obtain ⟨w, hw, h⟩ := bind_eq_ok.mp h
    rw [(speak_eq_ok (a := 0) h).1]
    exact hw
  | extf line => exact foldlM_map (π := Talk.world) (fun _ act _ => say_perform act) h
  | chat q cb =>
    obtain ⟨w, hw, h⟩ := bind_eq_ok.mp h
    rw [(speakOpt_eq_ok (a := 0) h).1]
    exact hw
  | safeQuit =>
    unfold sayEffect at h
    unfold handleEffect
    split_ifs at h ⊢
    cases h
    rfl

/-- **A line** does with the connections what `handleLine` says. -/
theorem sayLine_handleLine {line : Option (List UInt8)}
    (h : sayLine P lib now daemonize ev t line = .ok t') :
    handleLine lib daemonize ev t.world line = .ok t'.world := by
  unfold sayLine at h
  unfold handleLine
  cases hes : lineEffects lib t.world line with
  | none => simp [hes] at h
  | some es =>
    rw [hes] at h
    exact foldlM_map (π := Talk.world) (fun _ e _ => sayEffect_handle e) h

/-- **A step** is a step of the connections, or leaves them as they are. -/
theorem TalkStep.step {l : Turn ρ υ} (h : TalkStep P daemonize t l t') :
    (∃ l', Step daemonize t.world l' t'.world) ∨ t'.world = t.world := by
  cases h with
  | accept ha => exact .inl ⟨_, .accept ha⟩
  | line hopen hline => exact .inl ⟨_, .line hopen (sayLine_handleLine hline)⟩
  | complete hi hw hspeak =>
    rw [(speakOpt_eq_ok (a := 0) hspeak).1]
    exact .inl ⟨_, .complete hi hw⟩
  | close hopen hw => exact .inl ⟨_, .close hopen hw⟩
  | update hw hspeak =>
    rw [(speak_eq_ok (a := 0) hspeak).1]
    exact .inr (touch_eq_ok hw)

/-! ### Runs -/

/-- A step, and what the connections have asked about. -/
def Asked (P : Printers ρ υ σ) (daemonize : Bool) (s : Talk ρ υ σ × (ℕ → List Matter))
    (l : Turn ρ υ) (s' : Talk ρ υ σ × (ℕ → List Matter)) : Prop :=
  TalkStep P daemonize s.1 l s'.1 ∧ s'.2 = asks daemonize s.1 s.2 l

/-- No query under way carries a connection that is freed. -/
theorem pending_of_free {k : ℕ → ℤ} {w : World} (hk : ∀ b, 0 ≤ k b) (h : Accounts k w)
    (ha : w.heap a = none) : pending w a = [] := by
  have hcount := h.refcnt_eq a
  have hnonneg := hk a
  unfold refcnt holders queriesHold at hcount
  rw [ha, Option.elim_none] at hcount
  have hnot : some a ∉ w.outstanding.map Prod.fst := List.count_eq_zero.mp (by omega)
  refine List.filterMap_eq_nil_iff.mpr fun q hq => if_neg fun hev => hnot ?_
  exact hev ▸ List.mem_map_of_mem hq

/-- **A step moves** the account of a connection that is open behind it, or opens it. -/
theorem step_moves {k : ℕ → ℤ} (asked : ℕ → List Matter) {l : Turn ρ υ}
    (hk : ∀ b, 0 ≤ k b) (hacc : Accounts k t.world) (h : TalkStep P daemonize t l t')
    (ha : t'.world.isOpen a) :
    (l = .accept a ∧ account t' (asks daemonize t asked l a) a = Account.new) ∨
      t.world.isOpen a ∧
        Moves (account t (asked a) a) (account t' (asks daemonize t asked l a) a) := by
  cases h with
  | @accept b hb =>
    by_cases hab : a = b
    · subst hab
      refine .inl ⟨rfl, ?_⟩
      have hfree : pending t.world a = [] := pending_of_free hk hacc hb
      have hpending : pending (t.accept a).world a = [] := hfree
      unfold account answered asks
      rw [hpending]
      simp [Talk.accept, Account.new]
    · right
      obtain ⟨e, he, hopen⟩ := ha
      have hheap : t.world.heap a = some e := by
        rw [← he]
        exact (Function.update_of_ne hab _ _).symm
      refine ⟨⟨e, hheap, hopen⟩, ?_⟩
      unfold account answered asks
      simp only [Talk.accept, Function.update_of_ne hab]
      exact .refl
  | @line _ lib now ev line hopen hline =>
    right
    have hf := sayLine_follows (a := a) hline
    have hmoves := hf.moves ha (asked a)
    refine ⟨hf.isOpen_of ha, ?_⟩
    unfold mine at hmoves
    cases ev with
    | none =>
      rw [if_neg (by simp), List.append_nil] at hmoves
      exact hmoves
    | some b =>
      unfold asks
      simp only
      by_cases hab : a = b
      · subst hab
        rw [if_pos rfl] at hmoves
        rwa [Function.update_self]
      · rw [if_neg fun hev => hab (Option.some.inj hev).symm, List.append_nil] at hmoves
        rwa [Function.update_of_ne hab]
  | @complete _ i r ev cb w hi hw hspeak =>
    right
    obtain ⟨hworld, hanswered⟩ := speakOpt_eq_ok (a := a) hspeak
    have hworld : t'.world = w := hworld
    have hopen : w.isOpen a := hworld ▸ ha
    have hl := leaves_release hw
    have hans : answered t' a = answered t a ++ mine ev a _ := hanswered hopen
    have hmatter : (mine ev a ((cb.map fun cb => (Note.result cb (r cb) : Note ρ υ)).bind
        fun n => if n.silent then none else n.matter).toList) =
        (pendingMatter a (ev, cb)).toList := by
      rw [mine_toList]
      unfold pendingMatter
      cases cb with
      | none => simp
      | some cb => cases hr : replies cb <;> simp [Note.silent, Note.matter, hr]
    refine ⟨hl.isOpen_of a hopen, ?_⟩
    unfold account asks pending
    rw [hans, hmatter, hworld, hl.outstanding_eq]
    exact moves_answer hi (asked a) (answered t a)
  | @close b w hb hw =>
    right
    have hl := leaves_eventIncoming hw
    refine ⟨hl.isOpen_of a ha, ?_⟩
    unfold account asks pending
    simp only
    rw [hl.outstanding_eq]
    exact .refl
  | @update _ u w hw hspeak =>
    right
    rw [touch_eq_ok hw] at hspeak
    have hf := speak_follows (a := a) rfl hspeak
    have hmoves := hf.moves ha (asked a)
    unfold mine at hmoves
    rw [show (Note.update u : Note ρ υ).matter.toList = [] from rfl, ite_self,
      List.append_nil] at hmoves
    exact ⟨hf.isOpen_of ha, hmoves⟩

/-- The references are counted, and the account of every open connection is balanced. -/
structure Sound (t : Talk ρ υ σ) (asked : ℕ → List Matter) : Prop where
  accounts : ∃ k : ℕ → ℤ, (∀ a, 0 ≤ k a) ∧ Accounts k t.world
  balanced : ∀ a, t.world.isOpen a → (account t (asked a) a).Balanced

theorem start_sound (s : Session) (kept : σ) (sa : SocketAnswer) :
    Sound (Talk.start s kept sa : Talk ρ υ σ) fun _ => [] :=
  ⟨⟨fun _ => 0, fun _ => le_rfl, start_accounts s⟩, fun _ _ => balanced_new⟩

theorem Sound.step {asked : ℕ → List Matter} {l : Turn ρ υ} (h : Sound t asked)
    (hstep : TalkStep P daemonize t l t') : Sound t' (asks daemonize t asked l) := by
  obtain ⟨k, hk, hacc⟩ := h.accounts
  refine ⟨?_, fun a ha => ?_⟩
  · rcases hstep.step with ⟨l', hl'⟩ | hworld
    · obtain ⟨k', hkk', hacc', -⟩ := step_accounts hl' hk hacc
      exact ⟨k', fun a => (hk a).trans (hkk' a), hacc'⟩
    · rw [hworld]
      exact ⟨k, hk, hacc⟩
  · rcases step_moves asked hk hacc hstep ha with ⟨-, hnew⟩ | ⟨hopen, hmoves⟩
    · rw [hnew]
      exact balanced_new
    · exact hmoves.balanced (h.balanced a hopen)

theorem run_sound {s s' : Talk ρ υ σ × (ℕ → List Matter)} {ls : List (Turn ρ υ)}
    (hrun : Runs (Asked P daemonize) s ls s') (h : Sound s.1 s.2) : Sound s'.1 s'.2 :=
  Runs.induction (P := fun s => Sound s.1 s.2)
    (fun _ _ _ hstep h => by rw [hstep.2]; exact h.step hstep.1) hrun h

/-- **No answer is lost or doubled.** At any point of a run, the answers that an open connection was
sent, and the queries of its lines that are under way, are what its lines asked about. -/
theorem run_balanced {s : Session} {kept : σ} {sa : SocketAnswer} {ls : List (Turn ρ υ)}
    {asked : ℕ → List Matter}
    (hrun : Runs (Asked P daemonize) (Talk.start s kept sa, fun _ => []) ls (t, asked))
    (ha : t.world.isOpen a) : (answered t a ++ pending t.world a).Perm (asked a) :=
  (run_sound hrun (start_sound s kept sa)).balanced a ha

/-- **No matter is answered more often** than the connection has asked about it, and all of them are
answered when none of its queries is under way. -/
theorem run_answered {s : Session} {kept : σ} {sa : SocketAnswer} {ls : List (Turn ρ υ)}
    {asked : ℕ → List Matter}
    (hrun : Runs (Asked P daemonize) (Talk.start s kept sa, fun _ => []) ls (t, asked))
    (ha : t.world.isOpen a) :
    (∀ m, (answered t a).count m ≤ (asked a).count m) ∧
      (pending t.world a = [] → (answered t a).Perm (asked a)) := by
  have hbalanced := (run_sound hrun (start_sound s kept sa)).balanced a ha
  exact ⟨hbalanced.count_le, hbalanced.answered_perm⟩

/-- Printers that print the same for every note. -/
def echo : Printers (fun _ => Unit) Unit Unit := ⟨fun _ _ u => .ok ([lit "ok\n"], u), fun _ => []⟩

/-- The results of `echo`. -/
def noResults : Results fun _ => Unit := ⟨fun _ _ => (), fun _ => ()⟩

/-- A connection that asks for the contact list and for the version, and has the second answer. -/
theorem run_balanced_contactList : ∃ (t : Talk (fun _ => Unit) Unit Unit) (asked : ℕ → List Matter),
    Runs (Asked echo true) (Talk.start Session.start () ⟨[], -1⟩, fun _ => [])
      [.accept 0, .line aliceLibrary noResults (some 0) (some (lit "contact_list")),
        .line aliceLibrary noResults (some 0) (some (lit "version"))] (t, asked) ∧
      answered t 0 = [.own .version] ∧ pending t.world 0 = [.result .printUserList] ∧
      (answered t 0 ++ pending t.world 0).Perm (asked 0) := by
  have hopen : ∀ (t : Talk (fun _ => Unit) Unit Unit) (n : ℤ), t.world.heap 0 = some ⟨true, n⟩ →
      ∀ a, some 0 = some a → t.world.isOpen a := by
    rintro t n ht a ⟨⟩
    exact ⟨_, ht, rfl⟩
  have hrun : ∃ (t : Talk (fun _ => Unit) Unit Unit) (asked : ℕ → List Matter),
      Runs (Asked echo true) (Talk.start Session.start () ⟨[], -1⟩, fun _ => [])
        [.accept 0, .line aliceLibrary noResults (some 0) (some (lit "contact_list")),
          .line aliceLibrary noResults (some 0) (some (lit "version"))] (t, asked) ∧
        answered t 0 = [.own .version] ∧ pending t.world 0 = [.result .printUserList] ∧
        t.world.heap 0 = some ⟨true, 2⟩ :=
    ⟨_, _, .cons (t := (_, _)) ⟨.accept rfl, rfl⟩
      (.cons (t := (_, _)) ⟨.line (by exact hopen _ 1 rfl) rfl, rfl⟩
        (.cons (t := (_, _)) ⟨.line (by exact hopen _ 2 rfl) rfl, rfl⟩ (.nil _))), rfl, rfl, rfl⟩
  obtain ⟨t, asked, hrun, hanswered, hpending, hheap⟩ := hrun
  exact ⟨t, asked, hrun, hanswered, hpending, run_balanced hrun ⟨_, hheap, rfl⟩⟩

end TelegramCli.Control.Conversation
