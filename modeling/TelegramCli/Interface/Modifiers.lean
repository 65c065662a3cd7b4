import TelegramCli.Interface.ChatMode

/-! # What a modifier changes

The variables that modifiers set are reset at the start of every line that reaches the commands, so
such a line asks for the same whatever came before it (`effects_congr`). A line in chat mode is not
reset, and `/history` reads one of the variables: `next_requests_eq_iff` says that this is the only
way for a modifier to change what a later line asks the library for. -/

namespace TelegramCli.Interface.Modifiers

open TelegramCli.Lib.CNumber TelegramCli.Lib.CString TelegramCli.Interface.Actions
open TelegramCli.Interface.Commands TelegramCli.Interface.Interpreter
open TelegramCli.Interface.Sessions TelegramCli.Interface.ChatMode

/-! ### Lines and their modifiers -/

inductive Modifier
  | offline
  | html
  | reply (n : ℤ)
  | disablePreview
  | enablePreview
  | times (n : ℕ) (h : 1 ≤ n)

/-- A modifier as it stands in front of a command. -/
def Modifier.spell : Modifier → List UInt8
  | .offline => lit "[offline] "
  | .html => lit "[html] "
  | .reply n => lit "[reply=" ++ decimal n ++ lit "] "
  | .disablePreview => lit "[disable_preview] "
  | .enablePreview => lit "[enable_preview] "
  | .times n _ => lit "[x" ++ decimal n ++ lit "] "

/-- A line, what the library answers meanwhile, and whether a connection gave it. -/
structure Input where
  lib : Library
  ev : Bool
  line : Option (List UInt8)

/-- The inputs differ at most in the modifiers in front of the line. -/
inductive SameButModifiers : Input → Input → Prop
  | refl (i : Input) : SameButModifiers i i
  | modifiers (lib : Library) (ev : Bool) (ms ns : List Modifier) (body : List UInt8) :
    SameButModifiers ⟨lib, ev, some (ms.flatMap Modifier.spell ++ body)⟩
      ⟨lib, ev, some (ns.flatMap Modifier.spell ++ body)⟩

/-- The session behind an input; `none` when an assertion failed. -/
def Input.run (daemonize : Bool) (σ : Session) (i : Input) : Option Session :=
  (interpret i.lib daemonize i.ev σ i.line).map Prod.snd

/-- The session behind a history. -/
def runLines (daemonize : Bool) : Session → List Input → Option Session
  | σ, [] => some σ
  | σ, i :: hist => (i.run daemonize σ).bind fun τ => runLines daemonize τ hist

/-- The last line of a history that was not in chat mode. -/
def lastCommand (daemonize : Bool) : Session → List Input → Option Input → Option Input
  | _, [], last => last
  | σ, i :: hist, last =>
    (i.run daemonize σ).bind fun τ =>
      lastCommand daemonize τ hist (if σ.inChatMode then last else some i)

/-- The variables that the modifiers of a line leave set. -/
def Input.globals (i : Input) : Globals := globalsAfter i.lib.env i.line

/-- The last line of the history that was not in chat mode has the modifier `[offline]`. -/
def leavesOffline (daemonize : Bool) (hist : List Input) : Bool :=
  (lastCommand daemonize Session.start hist none).elim false (·.globals.offlineMode)

theorem foldl_act_globals : ∀ (acts : List Action) (σ : Session),
    (acts.foldl Session.act σ).globals = σ.globals
  | [], _ => rfl
  | a :: acts, σ => by
    rw [List.foldl_cons, foldl_act_globals acts]
    cases a <;> rfl

theorem after_globals {lib : Library} {daemonize ev : Bool} {σ τ : Session} {e : Effect}
    (h : Session.after lib daemonize ev σ e = some τ) : τ.globals = σ.globals := by
  cases e with
  | call cmd g args =>
    rw [Session.after] at h
    cases hr : handlerActions lib daemonize ev cmd g args with
    | error b => simp [hr] at h
    | ok acts =>
      rw [hr] at h
      rw [← Option.some.inj h, foldl_act_globals]
  | _ => cases h; rfl

theorem foldlM_after_globals {lib : Library} {daemonize ev : Bool} :
    ∀ {es : List Effect} {σ τ : Session},
    es.foldlM (Session.after lib daemonize ev) σ = some τ → τ.globals = σ.globals
  | [], _, _, h => by cases h; rfl
  | e :: es, σ, τ, h => by
    rw [List.foldlM_cons] at h
    obtain ⟨ρ, hρ, h⟩ := Option.bind_eq_some_iff.mp h
    rw [foldlM_after_globals h, after_globals hρ]

/-- A line out of chat mode sets the variables, a line in chat mode leaves them alone. -/
theorem run_globals {daemonize : Bool} {σ τ : Session} {i : Input}
    (h : i.run daemonize σ = some τ) :
    τ.globals = if σ.inChatMode then σ.globals else i.globals := by
  obtain ⟨⟨es, ρ⟩, hi, rfl⟩ := Option.map_eq_some_iff.mp h
  rw [interpret] at hi
  obtain ⟨es', hes, hi⟩ := Option.bind_eq_some_iff.mp hi
  obtain ⟨ρ', hρ, hi⟩ := Option.bind_eq_some_iff.mp hi
  obtain ⟨rfl, rfl⟩ := Prod.mk.inj (Option.some.inj hi)
  rw [foldlM_after_globals hρ, afterLine]
  split_ifs
  · cases interpreterChatMode i.line <;> rfl
  · rfl

/-- **The variables** after a history are those of its last line out of chat mode. -/
theorem runLines_globals {daemonize : Bool} (g : Globals) : ∀ {hist : List Input}
    {σ τ : Session} (last : Option Input), runLines daemonize σ hist = some τ →
    σ.globals = last.elim g Input.globals →
    τ.globals = (lastCommand daemonize σ hist last).elim g Input.globals
  | [], _, _, _, h, hg => by cases h; exact hg
  | i :: hist, σ, τ, last, h, hg => by
    obtain ⟨ρ, hρ, h⟩ := Option.bind_eq_some_iff.mp h
    rw [lastCommand, hρ, Option.bind_some]
    refine runLines_globals g _ h ?_
    rw [run_globals hρ]
    split_ifs
    · exact hg
    · rfl

theorem runLines_offline {daemonize : Bool} {hist : List Input} {σ : Session}
    (h : runLines daemonize Session.start hist = some σ) :
    σ.globals.offlineMode = leavesOffline daemonize hist := by
  rw [runLines_globals Globals.reset none h rfl, leavesOffline]
  cases lastCommand daemonize Session.start hist none <;> rfl

/-! ### Requests -/

/-- The query of an action. -/
def queryOf : Action → Option Query
  | .query q _ => some q
  | _ => none

/-- What an effect asks the library for; `none` is a broken contract. -/
def effectRequests (lib : Library) (daemonize ev : Bool) : Effect → Option (List Query)
  | .call cmd g args =>
    match handlerActions lib daemonize ev cmd g args with
    | .ok acts => some (acts.filterMap queryOf)
    | .error _ => none
  | .extf line => some [.sendExtf line]
  | .chat q _ => some [q]
  | .fail _ => some []
  | .safeQuit => some []

/-- What a line asks the library for, with all flags. -/
def requests (lib : Library) (daemonize ev : Bool) (σ : Session) (line : Option (List UInt8)) :
    Option (List (List Query)) := do
  let es ← effects σ (interpreterEx lib.env commands σ.inChatMode line)
  es.mapM (effectRequests lib daemonize ev)

/-- The line asks for the history of the chat. -/
def asksHistory (line : Option (List UInt8)) : Bool :=
  match interpreterChatMode line with
  | .history _ => true
  | _ => false

variable {lib : Library} {daemonize ev : Bool}

theorem requests_line (σ τ : Session) (hσ : σ.inChatMode = false) (hτ : τ.inChatMode = false)
    (line : Option (List UInt8)) :
    requests lib daemonize ev σ line = requests lib daemonize ev τ line := by
  rw [requests, requests, hσ, hτ, effects_congr σ τ]

/-- In chat mode only `/history` reads a variable of modifiers. -/
theorem requests_chat {σ τ : Session} (hσ : σ.inChatMode = true) (hτ : τ.inChatMode = true)
    (hid : σ.chatModeId = τ.chatModeId) (line : Option (List UInt8)) :
    requests lib daemonize ev σ line = requests lib daemonize ev τ line ↔
      ¬ (asksHistory line = true ∧ σ.globals.offlineMode ≠ τ.globals.offlineMode) := by
  have hchat : interpreterEx lib.env commands true line = .chat (interpreterChatMode line) := rfl
  rw [requests, requests, hσ, hτ, hchat, asksHistory]
  cases interpreterChatMode line with
  | history limit => simp [effects, chatEffects, effectRequests, hid]
  | _ => simp [effects, chatEffects, effectRequests, hid]

/-- **A modifier and a later line**: after two histories that end with the same chat mode and
partner the next line asks for the same, unless it asks for the history in chat mode, and the last
line out of chat mode has `[offline]` in one of the two only. -/
theorem next_requests_eq_iff {hist hist' : List Input} {σ τ : Session}
    (hσ : runLines daemonize Session.start hist = some σ)
    (hτ : runLines daemonize Session.start hist' = some τ)
    (hmode : σ.inChatMode = τ.inChatMode) (hid : σ.chatModeId = τ.chatModeId)
    (lib : Library) (ev : Bool) (line : Option (List UInt8)) :
    requests lib daemonize ev σ line = requests lib daemonize ev τ line ↔
      ¬ (σ.inChatMode = true ∧ asksHistory line = true ∧
        leavesOffline daemonize hist ≠ leavesOffline daemonize hist') := by
  rw [← runLines_offline hσ, ← runLines_offline hτ]
  cases hm : σ.inChatMode with
  | false =>
    rw [hm] at hmode
    exact iff_of_true (requests_line σ τ hm hmode.symm line) (by simp)
  | true =>
    rw [hm] at hmode
    rw [requests_chat hm hmode.symm hid]
    simp

/-- A chat opened from the console. -/
def openChat (ms : List Modifier) : Input :=
  ⟨aliceLibrary, false, some (ms.flatMap Modifier.spell ++ lit "chat_with_peer Alice")⟩

/-- The session it leaves. -/
def chatWithAlice (offline : Bool) : Session :=
  ⟨true, alice.id, { Globals.reset with offlineMode := offline }⟩

theorem next_requests_eq_iff_alice :
    requests aliceLibrary false false (chatWithAlice false) (some (lit "hello")) =
      requests aliceLibrary false false (chatWithAlice true) (some (lit "hello")) ↔
    ¬ (true = true ∧ asksHistory (some (lit "hello")) = true ∧
      leavesOffline false [openChat []] ≠ leavesOffline false [openChat [.offline]]) :=
  next_requests_eq_iff
    (show runLines false Session.start [openChat []] = some (chatWithAlice false) from rfl)
    (show runLines false Session.start [openChat [.offline]] = some (chatWithAlice true) from rfl)
    rfl rfl aliceLibrary false (some (lit "hello"))

/-- `[offline]` in front of `chat_with_peer` changes what `/history` asks for. -/
theorem offline_changes_history :
    List.Forall₂ SameButModifiers [openChat []] [openChat [.offline]] ∧
    runLines false Session.start [openChat []] = some (chatWithAlice false) ∧
    runLines false Session.start [openChat [.offline]] = some (chatWithAlice true) ∧
    requests aliceLibrary false false (chatWithAlice false) (some (lit "/history")) ≠
      requests aliceLibrary false false (chatWithAlice true) (some (lit "/history")) := by
  refine ⟨List.Forall₂.cons (.modifiers _ _ _ _ _) List.Forall₂.nil, rfl, rfl, fun h => ?_⟩
  have hσ : (chatWithAlice false).inChatMode = true := rfl
  have hτ : (chatWithAlice true).inChatMode = true := rfl
  exact absurd ((requests_chat hσ hτ rfl (some (lit "/history"))).mp h) (by decide)

end TelegramCli.Interface.Modifiers
