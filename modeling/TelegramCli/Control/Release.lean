import TelegramCli.Control.Holders
import TelegramCli.Control.Framing

/-! # The connection that is being read

`read_incoming` uses its connection after every line it hands over: the `in_ev` in the inner loop,
the bufferevent when it refills the buffer. Here the calls of `interpreter_ex` change the `World`,
and every use of something freed is a `fault`. `Visit.Keeps` says that the connection is open after
every line, and that nothing freed is used.

A line of an open connection leaves it open, or ends the program (`handleLine_cases`), unless it
calls `quit` or `safe_quit` in daemon mode, which close it under the loop (`handleLine_quits`). So a
call of `read_incoming` keeps its connection exactly when it never gets to such a line
(`readIncoming_keeps_iff`). -/

namespace TelegramCli.Control.Release

open TelegramCli.Lib.Run TelegramCli.Lib.CString TelegramCli.Interface.Token
open TelegramCli.Interface.Actions TelegramCli.Interface.Args TelegramCli.Interface.Commands
open TelegramCli.Interface.Interpreter TelegramCli.Interface.Head TelegramCli.Interface.Sessions
open TelegramCli.Control.Connections TelegramCli.Control.RefCount TelegramCli.Control.Settle
open TelegramCli.Control.Holders
open TelegramCli.Control.ReadIncoming (InBuf inBufSize scanLoop buffereventRead scanLoop_length_le
  scanLoop_length_lt)

/-- What a call comes to: the world after each line, and the end. The library may answer every line
in another way: `libs` are its answers from a line on. -/
structure Visit where
  seen : List World
  result : Except Halt (World × (ℕ → Library))

def Visit.andThen (v : Visit) (f : World → (ℕ → Library) → Visit) : Visit :=
  match v.result with
  | .error _ => v
  | .ok (w, libs) => ⟨v.seen ++ (f w libs).seen, (f w libs).result⟩

/-- The lines of a scan; `ev` is looked at after each. -/
def handleLines (daemonize : Bool) (a : ℕ) : (ℕ → Library) → World → List (List UInt8) → Visit
  | libs, w, [] => ⟨[], .ok (w, libs)⟩
  | libs, w, l :: ls =>
    match handleLine (libs 0) daemonize (some a) w (some l) with
    | .error x => ⟨[], .error x⟩
    | .ok w' =>
      if (w'.heap a).isSome then
        let v := handleLines daemonize a (fun n => libs (n + 1)) w' ls
        ⟨w' :: v.seen, v.result⟩
      else ⟨[w'], .error .fault⟩

/-- The outer loop. The buffer is scanned as before, no line changes it. -/
def readLoop (daemonize : Bool) (a : ℕ) (libs : ℕ → Library) (w : World) (b : InBuf)
    (avail : List UInt8) : Visit :=
  let r := scanLoop b.bytes b.error 0 false
  (handleLines daemonize a libs w (r.handed.map cstring)).andThen fun w libs =>
    if _h : r.ok = true then
      -- `bufferevent_read (bev, ..)`
      if (w.heap a).elim false InEv.bevOpen then
        let next := buffereventRead
          ⟨r.bytes, r.error, (scanLoop_length_le b.bytes b.error false).trans b.fits⟩ avail
        readLoop daemonize a libs w next.1 next.2
      else ⟨[], .error .fault⟩
    else ⟨[], .ok (w, libs)⟩
termination_by b.bytes.length + avail.length
decreasing_by
  have := scanLoop_length_lt _h
  simp only [buffereventRead, List.length_append, List.length_take, List.length_drop]
  omega

/-- **`read_incoming`** for the connection `a`, with the calls of `interpreter_ex`. -/
def readIncoming (daemonize : Bool) (a : ℕ) (libs : ℕ → Library) (w : World) (b : InBuf)
    (avail : List UInt8) : Visit :=
  readLoop daemonize a libs w (buffereventRead b avail).1 (buffereventRead b avail).2

/-- The connection is open after every line, and nothing freed is used. -/
def Visit.Keeps (a : ℕ) (v : Visit) : Prop :=
  (∀ w ∈ v.seen, w.isOpen a) ∧ v.result ≠ .error .fault

/-! ### Lines that quit -/

/-- The line calls `quit` or `safe_quit`. -/
def CallsQuit (lib : Library) (σ : Session) (line : List UInt8) : Prop :=
  ∃ es cmd g args, effects σ (interpreterEx lib.env commands σ.inChatMode (some line)) = some es ∧
    Effect.call cmd g args ∈ es ∧ cmd.name ∈ quitCommands

/-- In daemon mode, a connection that gives the lines gets to one that calls `quit` or `safe_quit`
before the program aborts. -/
def Quits : (ℕ → Library) → Session → List (List UInt8) → Prop
  | _, _, [] => False
  | libs, σ, l :: ls =>
    CallsQuit (libs 0) σ l ∨ ∃ es τ, interpret (libs 0) true true σ (some l) = some (es, τ) ∧
      Quits (fun n => libs (n + 1)) τ ls

/-! ### Actions on an open connection -/

theorem isOpen_set {w : World} {a b : ℕ} {e : Option InEv} (h : w.isOpen b) (hab : b ≠ a) :
    (w.set a e).isOpen b := by
  obtain ⟨x, hx, ho⟩ := h
  exact ⟨x, by rw [set_heap, if_neg hab, hx], ho⟩

theorem retain_ok {w : World} {b : ℕ} {e : InEv} (hb : w.heap b = some e) :
    retain w (some b) = .ok (w.set b (some { e with refcnt := e.refcnt + 1 })) := by
  unfold retain
  simp only [hb]

theorem release_ok {w : World} {b : ℕ} {e : InEv} (hb : w.heap b = some e) :
    release w (some b) = .ok (w.set b
      (if e.refcnt - 1 = 0 then none else some { e with refcnt := e.refcnt - 1 })) := by
  unfold release
  simp only [hb]

/-- A reference is given back to a live connection. -/
theorem release_live {w : World} {b : ℕ} {e : InEv} (hb : w.heap b = some e) :
    ∃ w', release w (some b) = .ok w' ∧ w'.session = w.session ∧
      ∀ a, w.isOpen a → (a = b → 1 < e.refcnt) → w'.isOpen a := by
  refine ⟨_, release_ok hb, rfl, fun a ha hlast => ?_⟩
  by_cases hab : a = b
  · subst hab
    obtain ⟨x, hx, ho⟩ := ha
    rw [hb] at hx
    cases hx
    have := hlast rfl
    refine ⟨{ e with refcnt := e.refcnt - 1 }, ?_, ho⟩
    rw [set_heap, if_pos rfl, if_neg (by omega)]
  · exact isOpen_set ha hab

/-- The connection of `notify_ev` is live. -/
theorem Accounts.notify_live {k : ℕ → ℤ} {w : World} (hk : ∀ b, 0 ≤ k b) (h : Accounts k w) {b : ℕ}
    (hb : w.notifyEv = some b) : ∃ e, w.heap b = some e := by
  have hcount := h.refcnt_eq b
  unfold refcnt holders notifyHolds at hcount
  rw [if_pos hb] at hcount
  cases he : w.heap b with
  | none =>
    have := hk b
    rw [he, Option.elim_none] at hcount
    push_cast at hcount
    omega
  | some e => exact ⟨e, rfl⟩

theorem retain_open {w : World} {a : ℕ} (ha : w.isOpen a) :
    ∃ w', retain w (some a) = .ok w' ∧ w'.isOpen a ∧ w'.session = w.session := by
  obtain ⟨e, he, ho⟩ := ha
  refine ⟨_, retain_ok he, ⟨_, by rw [set_heap, if_pos rfl], ?_⟩, rfl⟩
  exact ho

theorem mainSession_open {k : ℕ → ℤ} {w : World} {a : ℕ} (hk : ∀ b, 0 ≤ k b) (h : Accounts k w)
    (ha : w.isOpen a) :
    ∃ w', mainSession w (some a) = .ok w' ∧ w'.isOpen a ∧ w'.session = w.session := by
  have hrel : ∃ v, release w w.notifyEv = .ok v ∧ v.isOpen a ∧ v.session = w.session := by
    cases hn : w.notifyEv with
    | none => exact ⟨w, rfl, ha, rfl⟩
    | some b =>
      obtain ⟨e, he⟩ := Accounts.notify_live hk h hn
      obtain ⟨v, hv, hsession, hopen⟩ := release_live he
      refine ⟨v, hv, hopen a ha fun hab => ?_, hsession⟩
      subst hab
      obtain ⟨x, hx, ho⟩ := ha
      rw [he] at hx
      cases hx
      have hl := h.lt_of_open he ho
      have hcount : notifyHolds w a = 1 := if_pos hn
      have := hk a
      omega
  obtain ⟨v, hv, hopen, hsession⟩ := hrel
  obtain ⟨w', hw', hopen', hsession'⟩ := retain_open (w := { v with notifyEv := some a }) hopen
  exact ⟨w', by rw [mainSession, hv]; exact hw', hopen', hsession'.trans hsession⟩

/-- **An action of an open connection** leaves it open, or ends the program, unless it closes it. -/
theorem perform_cases (lib : Library) (daemonize : Bool) {a p q : ℕ} {act : Action} {k : ℕ → ℤ}
    {w : World} (hk : ∀ b, 0 ≤ k b) (hs : settle p [act] = some q) (hne : act ≠ .eventIncoming)
    (h : Accounts (bump (some a) p k) w) (ha : w.isOpen a) :
    (daemonize = false ∧ perform lib daemonize (some a) w act = .error .exit) ∨
      ∃ w', perform lib daemonize (some a) w act = .ok w' ∧ w'.isOpen a ∧
        w'.session = w.session.act act := by
  obtain ⟨e, he, ho⟩ := ha
  have ha : w.isOpen a := ⟨e, he, ho⟩
  have hrel : p ≠ 0 → ∃ w', release w (some a) = .ok w' ∧ w'.isOpen a ∧
      w'.session = w.session := by
    intro hp
    obtain ⟨w', hw', hsession, hopen⟩ := release_live he
    refine ⟨w', hw', hopen a ha fun _ => ?_, hsession⟩
    have hl := h.lt_of_open he ho
    have := hk a
    unfold bump at hl
    rw [if_pos rfl] at hl
    omega
  have htouch : touch w (some a) = .ok w := by
    unfold touch
    simp only [he, Option.isSome_some, if_true]
  cases act with
  | ref => exact Or.inr (retain_open ha)
  | query x cb =>
    simp only [settle] at hs
    split_ifs at hs with hp
    rw [perform, ask]
    split_ifs
    · exact Or.inr (hrel hp)
    · exact Or.inr ⟨_, rfl, ha, rfl⟩
  | callback cb =>
    simp only [settle] at hs
    split_ifs at hs with hp
    exact Or.inr (hrel hp)
  | fail text => exact Or.inr ⟨w, htouch, ha, rfl⟩
  | answer x => exact Or.inr ⟨w, htouch, ha, rfl⟩
  | eventIncoming => exact absurd rfl hne
  | halt =>
    cases daemonize with
    | false => exact Or.inl ⟨rfl, rfl⟩
    | true => exact Or.inr ⟨w, rfl, ha, rfl⟩
  | safeQuit => exact Or.inr ⟨w, rfl, ha, rfl⟩
  | set s n => exact Or.inr ⟨w, rfl, ha, rfl⟩
  | chatWithPeer id => exact Or.inr ⟨_, rfl, ha, rfl⟩
  | mainSession =>
    exact Or.inr (mainSession_open (fun b => (hk b).trans (le_bump (Int.natCast_nonneg p) k b)) h ha)
  | clear => exact Or.inr ⟨w, rfl, ha, rfl⟩

theorem performAll_cases (lib : Library) (daemonize : Bool) {a : ℕ} {k : ℕ → ℤ}
    (hk : ∀ b, 0 ≤ k b) : ∀ {acts : List Action} {p r : ℕ} {w : World},
    settle p acts = some r → closes acts = false → Accounts (bump (some a) p k) w → w.isOpen a →
    (daemonize = false ∧ acts.foldlM (perform lib daemonize (some a)) w = .error .exit) ∨
      ∃ w', acts.foldlM (perform lib daemonize (some a)) w = .ok w' ∧ w'.isOpen a ∧
        w'.session = acts.foldl Session.act w.session
  | [], _, _, w, _, _, _, ha => Or.inr ⟨w, rfl, ha, rfl⟩
  | act :: acts, _, _, w, hs, hc, h, ha => by
    obtain ⟨q, hq, hs⟩ := settle_cons hs
    rw [closes, List.any_cons, Bool.or_eq_false_iff] at hc
    have hne : act ≠ .eventIncoming := by
      rintro rfl
      exact absurd hc.1 (by simp)
    rw [List.foldlM_cons, List.foldl_cons]
    rcases perform_cases lib daemonize hk hq hne h ha with
      ⟨hd, hw⟩ | ⟨v, hv, hopen, hsession⟩
    · exact Or.inl ⟨hd, by rw [hw]; rfl⟩
    · have hacc := perform_accounts hk hq h hv
      rw [hv, ← hsession]
      exact performAll_cases lib daemonize hk hs hc.2 hacc hopen

/-! ### A line that does not quit -/

/-- The effect calls `quit` or `safe_quit`. -/
def QuitCall : Effect → Prop
  | .call cmd _ _ => cmd.name ∈ quitCommands
  | _ => False

/-- **An effect of a line of an open connection** leaves it open, or ends the program, unless it
closes it. -/
theorem handleEffect_cases (lib : Library) {daemonize : Bool} {a : ℕ} {e : Effect} {k : ℕ → ℤ}
    {w : World} (hk : ∀ b, 0 ≤ k b) (htable : OfTable e) (hne : e ≠ .safeQuit)
    (hq : ¬ (daemonize = true ∧ QuitCall e)) (h : Accounts k w) (ha : w.isOpen a) :
    (daemonize = false ∧ handleEffect lib daemonize (some a) w e = .error .exit) ∨
    (handleEffect lib daemonize (some a) w e = .error .abort ∧
      Session.after lib daemonize true w.session e = none) ∨
    ∃ w', handleEffect lib daemonize (some a) w e = .ok w' ∧ w'.isOpen a ∧
      Session.after lib daemonize true w.session e = some w'.session := by
  have hzero : Accounts (bump (some a) (0 : ℕ) k) w := by rwa [Nat.cast_zero, bump_zero]
  cases e with
  | call cmd g args =>
    simp only [handleEffect, Session.after, Option.isSome_some]
    cases hacts : handlerActions lib daemonize true cmd g args with
    | error x => exact Or.inr (Or.inl ⟨rfl, rfl⟩)
    | ok acts =>
      obtain ⟨hsettle, hcloses⟩ := commands_settle htable _ _ _ _ _ _ hacts
      have hclosed : closes acts = false := by
        rw [← Bool.not_eq_true, hcloses]
        exact hq
      rcases performAll_cases lib daemonize hk hsettle hclosed hzero ha with
        hexit | ⟨w', hw', hopen, hsession⟩
      · exact Or.inl hexit
      · exact Or.inr (Or.inr ⟨w', hw', hopen, by rw [hsession]⟩)
  | fail text =>
    obtain ⟨x, hx, ho⟩ := ha
    refine Or.inr (Or.inr ⟨w, ?_, ⟨x, hx, ho⟩, rfl⟩)
    simp only [handleEffect, touch, hx, Option.isSome_some, if_true]
  | extf line =>
    have hsettle : settle 0 [.ref, .query (.sendExtf line) .extf] = some 0 := rfl
    rcases performAll_cases lib daemonize hk hsettle rfl hzero ha with
      hexit | ⟨w', hw', hopen, hsession⟩
    · exact Or.inl hexit
    · exact Or.inr (Or.inr ⟨w', hw', hopen, by rw [hsession]; rfl⟩)
  | chat q cb =>
    refine Or.inr (Or.inr ?_)
    rw [handleEffect, ask]
    split_ifs
    · exact ⟨w, rfl, ha, rfl⟩
    · exact ⟨_, rfl, ha, rfl⟩
  | safeQuit => exact absurd rfl hne

theorem handleEffects_cases (lib : Library) {daemonize : Bool} {a : ℕ} :
    ∀ {es : List Effect} {k : ℕ → ℤ} {w : World}, (∀ b, 0 ≤ k b) → (∀ e ∈ es, OfTable e) →
    (∀ e ∈ es, e ≠ .safeQuit) → (∀ e ∈ es, ¬ (daemonize = true ∧ QuitCall e)) → Accounts k w →
    w.isOpen a →
    (daemonize = false ∧ es.foldlM (handleEffect lib daemonize (some a)) w = .error .exit) ∨
    (es.foldlM (handleEffect lib daemonize (some a)) w = .error .abort ∧
      es.foldlM (Session.after lib daemonize true) w.session = none) ∨
    ∃ w', es.foldlM (handleEffect lib daemonize (some a)) w = .ok w' ∧ w'.isOpen a ∧
      es.foldlM (Session.after lib daemonize true) w.session = some w'.session
  | [], _, w, _, _, _, _, _, ha => Or.inr (Or.inr ⟨w, rfl, ha, rfl⟩)
  | e :: es, k, w, hk, htable, hne, hq, h, ha => by
    rw [List.foldlM_cons, List.foldlM_cons]
    rcases handleEffect_cases lib hk (htable e List.mem_cons_self)
      (hne e List.mem_cons_self) (hq e List.mem_cons_self) h ha with
      ⟨hd, hw⟩ | ⟨hw, hτ⟩ | ⟨v, hv, hopen, hτ⟩
    · exact Or.inl ⟨hd, by rw [hw]; rfl⟩
    · exact Or.inr (Or.inl ⟨by rw [hw]; rfl, by rw [hτ]; rfl⟩)
    · have hacc := handleEffect_accounts hk (htable e List.mem_cons_self) h hv
      rw [hv, hτ]
      exact handleEffects_cases lib (fun b => (hk b).trans (le_bump (Int.natCast_nonneg _) k b))
        (fun x hx => htable x (List.mem_cons_of_mem e hx))
        (fun x hx => hne x (List.mem_cons_of_mem e hx))
        (fun x hx => hq x (List.mem_cons_of_mem e hx)) hacc hopen

theorem interpreterEx_ne_safeQuit {E : Env} {inChatMode : Bool} {line : List UInt8} :
    interpreterEx E commands inChatMode (some line) ≠ .safeQuit := by
  cases inChatMode with
  | true => simp [interpreterEx]
  | false =>
    by_cases h0 : deref line = 0
    · simp [interpreterEx, h0]
    by_cases h40 : deref line = 40
    · simp [interpreterEx, h40]
    rw [interpreterEx_line h0 h40]
    exact (interpretLine_ne commands line).2

theorem lineEffects_ne_safeQuit {lib : Library} {w : World} {line : List UInt8} {es : List Effect}
    (h : lineEffects lib w (some line) = some es) : ∀ e ∈ es, e ≠ .safeQuit := by
  intro e he
  rcases lineEffects_cases h with ⟨cmd, g, args, -, hes⟩ | hother
  · rw [hes] at he
    rw [List.eq_of_mem_replicate he]
    simp
  · exact fun heq => interpreterEx_ne_safeQuit ((hother e he).2 heq)

/-- **A line of an open connection** leaves it open, or ends the program, unless it quits in daemon
mode. -/
theorem handleLine_cases {lib : Library} {daemonize : Bool} {a : ℕ} {line : List UInt8}
    {k : ℕ → ℤ} {w : World} (hk : ∀ b, 0 ≤ k b)
    (hq : ¬ (daemonize = true ∧ CallsQuit lib w.session line)) (h : Accounts k w)
    (ha : w.isOpen a) :
    (daemonize = false ∧ handleLine lib daemonize (some a) w (some line) = .error .exit) ∨
    (handleLine lib daemonize (some a) w (some line) = .error .abort ∧
      interpret lib daemonize true w.session (some line) = none) ∨
    ∃ w', handleLine lib daemonize (some a) w (some line) = .ok w' ∧ w'.isOpen a ∧
      ∃ es, interpret lib daemonize true w.session (some line) = some (es, w'.session) := by
  unfold handleLine interpret
  cases hes : lineEffects lib w (some line) with
  | none =>
    refine Or.inr (Or.inl ⟨rfl, ?_⟩)
    rw [show effects w.session _ = none from hes]
    rfl
  | some es =>
    have hquit : ∀ e ∈ es, ¬ (daemonize = true ∧ QuitCall e) := by
      rintro e he ⟨hd, hcall⟩
      cases e with
      | call cmd g args => exact hq ⟨hd, es, cmd, g, args, hes, he, hcall⟩
      | _ => exact hcall
    rw [show effects w.session _ = some es from hes]
    rcases handleEffects_cases lib hk (lineEffects_ofTable hes)
      (lineEffects_ne_safeQuit hes) hquit (session_accounts h (afterLine lib.env w.session _)) ha
      with hexit | ⟨hw, hτ⟩ | ⟨w', hw', hopen, hτ⟩
    · exact Or.inl hexit
    · exact Or.inr (Or.inl ⟨hw, by rw [Option.bind_eq_bind, Option.bind_some, hτ]; rfl⟩)
    · exact Or.inr (Or.inr ⟨w', hw', hopen, es, by
        rw [Option.bind_eq_bind, Option.bind_some, hτ]; rfl⟩)

/-! ### A line that quits in daemon mode -/

theorem eventIncoming_closed {w : World} {a : ℕ} (ha : ¬ w.isOpen a) :
    eventIncoming w (some a) = .error .fault := by
  unfold eventIncoming
  simp only
  cases he : w.heap a with
  | none => rfl
  | some e => exact if_neg fun ho => ha ⟨e, he, ho⟩

theorem eventIncoming_open {w : World} {a : ℕ} (ha : w.isOpen a) :
    ∃ w', eventIncoming w (some a) = .ok w' ∧ ¬ w'.isOpen a := by
  obtain ⟨e, he, ho⟩ := ha
  have hset : (w.set a (some { e with bevOpen := false })).heap a =
      some { e with bevOpen := false } := by rw [set_heap, if_pos rfl]
  refine ⟨_, by unfold eventIncoming; simp only [he, ho, if_true]; exact release_ok hset, ?_⟩
  rintro ⟨x, hx, hxo⟩
  rw [set_heap, if_pos rfl] at hx
  split_ifs at hx
  cases hx
  exact absurd hxo (by simp)

/-- A call of `quit` or `safe_quit` closes the connection and does nothing else. -/
theorem handleEffect_quit {lib : Library} {a : ℕ} {cmd : Command} {g : Globals} {args : List Arg}
    (hcmd : cmd ∈ commands) (hname : cmd.name ∈ quitCommands) (w : World) :
    handleEffect lib true (some a) w (.call cmd g args) = eventIncoming w (some a) := by
  have hbind : ∀ act, (∀ v, perform lib true (some a) v act = .ok v) →
      [.eventIncoming, act].foldlM (perform lib true (some a)) w = eventIncoming w (some a) := by
    intro act hact
    rw [List.foldlM_cons]
    show (eventIncoming w (some a)).bind _ = _
    by_cases ha : w.isOpen a
    · obtain ⟨v, hv, -⟩ := eventIncoming_open ha
      rw [hv]
      show List.foldlM (perform lib true (some a)) v [act] = _
      rw [List.foldlM_cons, hact]
      rfl
    · rw [eventIncoming_closed ha]
      rfl
  simp only [handleEffect, Option.isSome_some]
  rcases quit_handler cmd hcmd hname with hh | hh
  · rw [show handlerActions lib true true cmd g args = .ok [.eventIncoming, .halt] by
      unfold handlerActions; rw [hh]; rfl]
    exact hbind .halt fun _ => rfl
  · rw [show handlerActions lib true true cmd g args = .ok [.eventIncoming, .safeQuit] by
      unfold handlerActions; rw [hh]; rfl]
    exact hbind .safeQuit fun _ => rfl

/-- **A line that quits in daemon mode** closes the connection, or uses it when it is closed. -/
theorem handleLine_quits {lib : Library} {a : ℕ} {line : List UInt8} {w : World}
    (hq : CallsQuit lib w.session line) :
    handleLine lib true (some a) w (some line) = .error .fault ∨
      ∃ w', handleLine lib true (some a) w (some line) = .ok w' ∧ ¬ w'.isOpen a := by
  obtain ⟨es, cmd, g, args, hes, hcall, hname⟩ := hq
  have htable : cmd ∈ commands := lineEffects_ofTable (w := w) hes _ hcall
  unfold handleLine
  rw [show lineEffects lib w (some line) = some es from hes]
  have hcalls : es = List.replicate es.length (.call cmd g args) := by
    rcases lineEffects_cases (w := w) hes with ⟨cmd', g', args', -, heq⟩ | hother
    · rw [heq] at hcall
      rwa [List.eq_of_mem_replicate hcall]
    · exact absurd rfl ((hother _ hcall).1 cmd g args)
  cases hn : es.length with
  | zero => rw [List.eq_nil_of_length_eq_zero hn] at hcall; exact absurd hcall List.not_mem_nil
  | succ n =>
    rw [hcalls, hn, List.replicate_succ]
    simp only [List.foldlM_cons, handleEffect_quit htable hname]
    generalize ({ w with session := afterLine lib.env w.session (some line) } : World) = v
    by_cases ha : v.isOpen a
    · obtain ⟨v', hv, hclosed⟩ := eventIncoming_open ha
      rw [hv]
      cases n with
      | zero => exact Or.inr ⟨v', rfl, hclosed⟩
      | succ n =>
        refine Or.inl ?_
        show List.foldlM (handleEffect lib true (some a)) v' (List.replicate (n + 1) _) = _
        rw [List.replicate_succ, List.foldlM_cons, handleEffect_quit htable hname,
          eventIncoming_closed hclosed]
        rfl
    · rw [eventIncoming_closed ha]
      exact Or.inl rfl

/-! ### The loop -/

/-- The lines of a scan keep the connection exactly when they never get to one that quits in daemon
mode. -/
theorem handleLines_keeps_iff (daemonize : Bool) {a : ℕ} :
    ∀ (ls : List (List UInt8)) (libs : ℕ → Library) {k : ℕ → ℤ} {w : World}, (∀ b, 0 ≤ k b) →
    Accounts k w → w.isOpen a →
    ((handleLines daemonize a libs w ls).Keeps a ↔
      ¬ (daemonize = true ∧ Quits libs w.session ls))
  | [], _, _, _, _, _, _ => iff_of_true ⟨by simp [handleLines], by simp [handleLines]⟩ fun h => h.2
  | l :: ls, libs, k, w, hk, h, ha => by
    unfold handleLines
    by_cases hq : daemonize = true ∧ CallsQuit (libs 0) w.session l
    · refine iff_of_false ?_ fun hn => hn ⟨hq.1, Or.inl hq.2⟩
      rw [hq.1]
      rcases handleLine_quits (a := a) hq.2 with hw | ⟨w', hw, hclosed⟩
      · rw [hw]
        exact fun hkeeps => hkeeps.2 rfl
      · rw [hw]
        simp only
        split_ifs
        · exact fun hkeeps => hclosed (hkeeps.1 w' List.mem_cons_self)
        · exact fun hkeeps => hkeeps.2 rfl
    · rcases handleLine_cases hk hq h ha with ⟨hd, hw⟩ | ⟨hw, hτ⟩ | ⟨w', hw, hopen, es, hτ⟩
      · rw [hw]
        exact iff_of_true ⟨by simp, by simp⟩ fun hquits => by simp [hd] at hquits
      · rw [hw]
        refine iff_of_true ⟨by simp, by simp⟩ ?_
        rintro ⟨hd, hcall | ⟨es, τ, hes, -⟩⟩
        · exact hq ⟨hd, hcall⟩
        · rw [hd] at hτ
          rw [hτ] at hes
          cases hes
      · rw [hw]
        obtain ⟨es', -, hacc⟩ := handleLine_accounts hk h hw
        have ih := handleLines_keeps_iff daemonize ls (fun n => libs (n + 1))
          (fun b => (hk b).trans (le_bump (Int.natCast_nonneg _) k b)) hacc hopen
        have hlive : (w'.heap a).isSome = true := by
          obtain ⟨e, he, -⟩ := hopen
          rw [he]
          rfl
        have hquits : daemonize = true ∧ Quits libs w.session (l :: ls) ↔
            daemonize = true ∧ Quits (fun n => libs (n + 1)) w'.session ls := by
          refine and_congr_right fun hd => ⟨?_, fun hrest => Or.inr ⟨es, _, hd ▸ hτ, hrest⟩⟩
          rintro (hcall | ⟨es₂, τ, hτ₂, hrest⟩)
          · exact absurd ⟨hd, hcall⟩ hq
          · rw [hd, hτ₂] at hτ
            cases hτ
            exact hrest
        rw [hquits, ← ih]
        simp only [hlive, if_true]
        exact ⟨fun hkeeps => ⟨fun v hv => hkeeps.1 v (List.mem_cons_of_mem w' hv), hkeeps.2⟩,
          fun hkeeps => ⟨List.forall_mem_cons.mpr ⟨hopen, hkeeps.1⟩, hkeeps.2⟩⟩

theorem keeps_andThen {a : ℕ} {v : Visit} {f : World → (ℕ → Library) → Visit} :
    (v.andThen f).Keeps a ↔
      v.Keeps a ∧ ∀ w libs, v.result = .ok (w, libs) → (f w libs).Keeps a := by
  unfold Visit.andThen
  cases hv : v.result with
  | error x => simp
  | ok p =>
    obtain ⟨w, libs⟩ := p
    constructor
    · intro h
      refine ⟨⟨fun x hx => h.1 x (List.mem_append_left _ hx), by simp [hv]⟩, fun w' libs' he => ?_⟩
      cases he
      exact ⟨fun x hx => h.1 x (List.mem_append_right _ hx), h.2⟩
    · rintro ⟨h, hf⟩
      have hf := hf w libs rfl
      exact ⟨List.forall_mem_append.mpr ⟨h.1, hf.1⟩, hf.2⟩

theorem handleLines_append {daemonize : Bool} {a : ℕ} :
    ∀ (ls ms : List (List UInt8)) (libs : ℕ → Library) (w : World),
    handleLines daemonize a libs w (ls ++ ms) = (handleLines daemonize a libs w ls).andThen
      fun w libs => handleLines daemonize a libs w ms
  | [], ms, libs, w => rfl
  | l :: ls, ms, libs, w => by
    rw [List.cons_append, handleLines, handleLines]
    cases handleLine (libs 0) daemonize (some a) w (some l) with
    | error x => rfl
    | ok w' =>
      simp only
      split_ifs
      · rw [handleLines_append ls ms]
        generalize handleLines daemonize a (fun n => libs (n + 1)) w' ls = v
        obtain ⟨seen, result⟩ := v
        cases result <;> rfl
      · rfl

/-- A scan that keeps the connection leaves it open. -/
theorem handleLines_open {daemonize : Bool} {a : ℕ} :
    ∀ {ls : List (List UInt8)} {libs libs' : ℕ → Library} {w w' : World}, w.isOpen a →
    (handleLines daemonize a libs w ls).Keeps a →
    (handleLines daemonize a libs w ls).result = .ok (w', libs') → w'.isOpen a
  | [], _, _, _, _, ha, _, h => by cases h; exact ha
  | l :: ls, libs, libs', w, w', ha, hkeeps, h => by
    rw [handleLines] at hkeeps h
    cases hl : handleLine (libs 0) daemonize (some a) w (some l) with
    | error x => simp [hl] at h
    | ok v =>
      simp only [hl] at hkeeps h
      split_ifs at hkeeps h
      exact handleLines_open (hkeeps.1 v List.mem_cons_self)
        ⟨fun x hx => hkeeps.1 x (List.mem_cons_of_mem v hx), hkeeps.2⟩ h

/-- The refills do not matter to what the lines do. -/
theorem readLoop_keeps_iff {daemonize : Bool} {a : ℕ} (b : InBuf) (avail : List UInt8) :
    ∀ {libs : ℕ → Library} {w : World}, w.isOpen a →
    ((readLoop daemonize a libs w b avail).Keeps a ↔ (handleLines daemonize a libs w
      ((ReadIncoming.readLoop b avail).handed.map cstring)).Keeps a) := by
  fun_induction ReadIncoming.readLoop b avail with
  | case1 b avail r hr next =>
    rename_i o ih
    intro libs w ha
    rw [readLoop]
    simp only
    rw [List.map_append, handleLines_append, keeps_andThen, keeps_andThen]
    refine and_congr_right fun hkeeps => forall_congr' fun w' => forall_congr' fun libs' =>
      imp_congr_right fun hres => ?_
    have hopen := handleLines_open ha hkeeps hres
    obtain ⟨e, he, ho⟩ := hopen
    rw [dif_pos hr, if_pos (by rw [he]; exact ho)]
    exact ih ⟨e, he, ho⟩
  | case2 b avail r =>
    rename_i hr
    intro libs w _
    rw [readLoop]
    simp only
    rw [keeps_andThen]
    refine and_iff_left fun w' libs' _ => ?_
    rw [dif_neg hr]
    exact ⟨by simp, by simp⟩

/-- **A call of `read_incoming`** on an open connection keeps it exactly when it does not get, in
daemon mode, to a line that calls `quit` or `safe_quit`. -/
theorem readIncoming_keeps_iff {daemonize : Bool} {σ : Session} {ls : List Label} {w : World}
    (hrun : Runs (Step daemonize) (World.start σ) ls w) {a : ℕ} (ha : w.isOpen a)
    (libs : ℕ → Library) (b : InBuf) (avail : List UInt8) :
    (readIncoming daemonize a libs w b avail).Keeps a ↔
      ¬ (daemonize = true ∧
        Quits libs w.session ((ReadIncoming.readIncoming b avail).handed.map cstring)) := by
  obtain ⟨k, hk, h, -⟩ := run_accounts hrun (fun _ => le_rfl) (start_accounts σ)
  rw [readIncoming, readLoop_keeps_iff _ _ ha, handleLines_keeps_iff daemonize _ _ hk h ha]
  rfl

/-- The lines that a fresh connection hands over when one whole line has arrived. -/
theorem handed_line (line : List UInt8) (hlen : line.length < inBufSize)
    (hnl : ReadIncoming.newline ∉ line) (h0 : (0 : UInt8) ∉ line) :
    (ReadIncoming.readIncoming .fresh (line ++ [ReadIncoming.newline])).handed.map cstring =
      [line] := by
  have hserves := (Framing.readIncoming_serves Framing.Rep.fresh
    (line ++ [ReadIncoming.newline])).1
  rw [List.nil_append, Framing.serve_line [] hnl hlen,
    Framing.serve_stuck (s := []) (by simp)] at hserves
  exact Framing.cstrings_of_holds hserves (by simpa using h0)

/-- The world with one connection. -/
def oneConnection : World := (World.start Session.start).set 0 (some ⟨true, 1⟩)

theorem readIncoming_keeps_iff_stats :
    (readIncoming true 0 (fun _ => aliceLibrary) oneConnection .fresh
      (lit "stats" ++ [10])).Keeps 0 ↔ ¬ (true = true ∧ Quits (fun _ => aliceLibrary) Session.start
        ((ReadIncoming.readIncoming .fresh (lit "stats" ++ [10])).handed.map cstring)) :=
  readIncoming_keeps_iff (.cons (.accept rfl) (.nil _)) ⟨_, rfl, rfl⟩ (fun _ => aliceLibrary) .fresh
    (lit "stats" ++ [10])

/-- `quit` in daemon mode frees the connection that is being read. -/
theorem quit_frees : Runs (Step true) (World.start Session.start) [.accept 0] oneConnection ∧
    oneConnection.isOpen 0 ∧ ¬ (readIncoming true 0 (fun _ => aliceLibrary) oneConnection .fresh
      (lit "quit" ++ [ReadIncoming.newline])).Keeps 0 := by
  have hopen : oneConnection.isOpen 0 := ⟨_, rfl, rfl⟩
  refine ⟨.cons (.accept rfl) (.nil _), hopen, fun hkeeps => ?_⟩
  rw [readIncoming, readLoop_keeps_iff _ _ hopen] at hkeeps
  have hlines := handed_line (lit "quit") (by decide) (by decide) (by decide)
  rw [ReadIncoming.readIncoming] at hlines
  rw [hlines] at hkeeps
  exact hkeeps.2 rfl

end TelegramCli.Control.Release
