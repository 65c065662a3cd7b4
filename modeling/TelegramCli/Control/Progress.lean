import TelegramCli.Control.Documents

/-! # Answers do not stop the program

A step of the program goes through as long as its connections do and its notes can be printed
(`step_lifts`). In json mode a note can be printed when its strings are UTF-8, its peers have one of
the four types and its messages can be packed; so every run of the connections is a run with its
answers, whatever the results (`run_goes_through`). -/

namespace TelegramCli.Control.Progress

open TelegramCli.Lib.CString TelegramCli.Lib.Jansson TelegramCli.Lib.Run TelegramCli.Tgl
open TelegramCli.Interface.Actions TelegramCli.Interface.Commands
open TelegramCli.Interface.Interpreter (failInterface finish interpretLine interpreterEx)
open TelegramCli.Interface.Sessions TelegramCli.Control.AnswerFrames
open TelegramCli.Json.Pack (jsonPackMessage jsonPackPeer)
open TelegramCli.Json.Packed TelegramCli.Interface
open TelegramCli.Control.Connections TelegramCli.Control.Conversation TelegramCli.Control.Gateways
open TelegramCli.Control.Documents (sampleGateways sampleResults)

/-! ### Notes that can be printed -/

variable {ρ : Callback → Type} {υ σ : Type} {P : Printers ρ υ σ} {daemonize : Bool}

/-- The note is printed, whatever the printers keep. -/
def Sayable (P : Printers ρ υ σ) (n : Note ρ υ) : Prop :=
  ∀ b kept, ∃ r, P.print b n kept = .ok r

/-- The handlers' own answers are printed, and so are failures with a text in `T`. -/
structure Fluent (P : Printers ρ υ σ) (T : List UInt8 → Prop) : Prop where
  own : ∀ x, Sayable P (.own x)
  fail : ∀ text, T text → Sayable P (.fail text)
  lit : ∀ s : String, T (lit s)

/-- The results that come before a line is handled are printed. -/
structure ResultsOk (P : Printers ρ υ σ) (now : Results ρ) : Prop where
  ofQuery : ∀ q cb, Sayable P (.result cb (now.ofQuery q cb))
  ofHandler : ∀ cb, Sayable P (.result cb (now.ofHandler cb))

variable {T : List UInt8 → Prop} {lib : Library} {now : Results ρ} {ev : Option ℕ}
variable {t : Talk ρ υ σ} {w : World}

theorem speak_total {n : Note ρ υ} (h : Sayable P n) (ev : Option ℕ) (t : Talk ρ υ σ) :
    ∃ t', speak P ev t n = .ok t' ∧ t'.world = t.world := by
  have hok : ∃ t', speak P ev t n = .ok t' := by
    unfold speak
    cases ev with
    | none =>
      obtain ⟨r, hr⟩ := h false t.kept
      rw [hr]
      exact ⟨_, rfl⟩
    | some a =>
      simp only
      cases t.world.heap a with
      | none => exact ⟨t, rfl⟩
      | some e =>
        simp only
        by_cases hs : n.silent = true
        · rw [if_pos hs]
          exact ⟨t, rfl⟩
        · obtain ⟨r, hr⟩ := h true t.kept
          rw [if_neg hs, hr]
          by_cases hopen : e.bevOpen = true
          · exact ⟨_, bind_eq_ok.mpr ⟨r, rfl, if_pos hopen⟩⟩
          · exact ⟨_, bind_eq_ok.mpr ⟨r, rfl, if_neg hopen⟩⟩
  obtain ⟨t', ht'⟩ := hok
  exact ⟨t', ht', (speak_eq_ok (a := 0) ht').1⟩

theorem speakOpt_total {n : Option (Note ρ υ)} (h : ∀ m, n = some m → Sayable P m)
    (ev : Option ℕ) (t : Talk ρ υ σ) : ∃ t', speakOpt P ev t n = .ok t' ∧ t'.world = t.world := by
  cases n with
  | none => exact ⟨t, rfl, rfl⟩
  | some n => exact speak_total (h n rfl) ev t

theorem spoken_sayable (lib : Library) (hP : Fluent P T) (hnow : ResultsOk P now) {act : Action}
    {n : Note ρ υ} (h : spoken lib now act = some n) : Sayable P n := by
  cases act with
  | fail text => cases h; exact hP.fail _ (hP.lit text)
  | answer x => cases h; exact hP.own x
  | callback cb => cases h; exact hnow.ofHandler cb
  | query q cb =>
    simp only [spoken] at h
    split_ifs at h
    cases h
    exact hnow.ofQuery q cb
  | _ => cases h

theorem say_total (hP : Fluent P T) (hnow : ResultsOk P now) {act : Action} (t : Talk ρ υ σ)
    (w : World) (h : perform lib daemonize ev t.world act = .ok w) :
    ∃ t', say P lib now daemonize ev t act = .ok t' ∧ t'.world = w := by
  obtain ⟨t', ht', hw⟩ := speakOpt_total (fun n hn => spoken_sayable lib hP hnow hn) ev
    { t with world := w }
  exact ⟨t', bind_eq_ok.mpr ⟨w, h, ht'⟩, hw⟩

/-- **An effect** goes through when the connections do. -/
theorem sayEffect_total (hP : Fluent P T) (hnow : ResultsOk P now) {e : Effect}
    (hfail : ∀ text, e = .fail text → T text) (t : Talk ρ υ σ) (w : World)
    (h : handleEffect lib daemonize ev t.world e = .ok w) :
    ∃ t', sayEffect P lib now daemonize ev t e = .ok t' ∧ t'.world = w := by
  have hall : ∀ acts : List Action, acts.foldlM (perform lib daemonize ev) t.world = .ok w →
      ∃ t', acts.foldlM (say P lib now daemonize ev) t = .ok t' ∧ t'.world = w := fun acts hacts =>
    foldlM_lift (π := Talk.world) (fun act _ s v hv => say_total hP hnow s v hv) hacts
  cases e with
  | call cmd g args =>
    simp only [handleEffect] at h
    simp only [sayEffect]
    cases hacts : handlerActions lib daemonize ev.isSome cmd g args with
    | error x => simp [hacts] at h
    | ok acts => rw [hacts] at h; exact hall acts h
  | fail text =>
    obtain ⟨t', ht', hw⟩ := speak_total (hP.fail text (hfail text rfl)) ev { t with world := w }
    exact ⟨t', bind_eq_ok.mpr ⟨w, h, ht'⟩, hw⟩
  | extf line => exact hall _ h
  | chat q cb =>
    have hnote : ∀ n : Note ρ υ, (if lib.answersNow q then cb.map fun cb =>
        (.result cb (now.ofQuery q cb) : Note ρ υ) else none) = some n → Sayable P n := by
      intro n hn
      split_ifs at hn
      obtain ⟨c, -, rfl⟩ := Option.map_eq_some_iff.mp hn
      exact hnow.ofQuery q c
    obtain ⟨t', ht', hw⟩ := speakOpt_total hnote none { t with world := w }
    exact ⟨t', bind_eq_ok.mpr ⟨w, h, ht'⟩, hw⟩
  | safeQuit =>
    unfold handleEffect at h
    unfold sayEffect
    split_ifs at h ⊢
    cases h
    exact ⟨t, rfl, rfl⟩

/-- **A line** goes through when the connections do. -/
theorem sayLine_total (hP : Fluent P T) (hnow : ResultsOk P now) {line : Option (List UInt8)}
    (hfail : ∀ es, lineEffects lib t.world line = some es → ∀ text, .fail text ∈ es → T text)
    (h : handleLine lib daemonize ev t.world line = .ok w) :
    ∃ t', sayLine P lib now daemonize ev t line = .ok t' ∧ t'.world = w := by
  unfold handleLine at h
  unfold sayLine
  cases hes : lineEffects lib t.world line with
  | none => simp [hes] at h
  | some es =>
    rw [hes] at h
    exact foldlM_lift (π := Talk.world) (fun e he s v hv => sayEffect_total hP hnow
      (fun text htext => hfail es hes text (htext ▸ he)) s v hv) h

/-! ### Steps and runs -/

/-- A step of the connections, or an update, which leaves them. -/
inductive Event (daemonize : Bool) : World → Option Label → World → Prop
  | step {w w' : World} {l : Label} : Step daemonize w l w' → Event daemonize w (some l) w'
  | update {w w' : World} : touch w w.notifyEv = .ok w' → Event daemonize w none w'

/-- What the connections see of a step. -/
def label : Turn ρ υ → Option Label
  | .accept a => some (.accept a)
  | .line lib _ ev line => some (.line lib ev line)
  | .complete i _ => some (.complete i)
  | .close a => some (.close a)
  | .update _ => none

/-- The results or the update of a step are printed, and so are the failures of a line. -/
def TurnOk (P : Printers ρ υ σ) (T : List UInt8 → Prop) : Turn ρ υ → Prop
  | .line lib now _ line => ResultsOk P now ∧ ∀ (w : World) es, lineEffects lib w line = some es →
      ∀ text, .fail text ∈ es → T text
  | .complete _ r => ∀ cb, Sayable P (.result cb (r cb))
  | .update u => Sayable P (.update u)
  | _ => True

/-- **An event of the connections** is a step of the program. -/
theorem step_lifts (hP : Fluent P T) {l : Turn ρ υ} (hl : TurnOk P T l)
    (h : Event daemonize t.world (label l) w) :
    ∃ t', TalkStep P daemonize t l t' ∧ t'.world = w := by
  cases l with
  | accept a =>
    obtain ⟨⟨ha⟩⟩ := h
    exact ⟨t.accept a, .accept ha, rfl⟩
  | line lib now ev line =>
    cases h with
    | step hstep =>
      cases hstep with
      | line hopen hline =>
        obtain ⟨t', ht', hw⟩ := sayLine_total hP hl.1 (hl.2 t.world) hline
        exact ⟨t', .line hopen ht', hw⟩
  | complete i r =>
    cases h with
    | step hstep =>
      cases hstep with
      | @complete _ _ ev cb hi hw =>
        have hnote : ∀ n : Note ρ υ, (cb.map fun cb => .result cb (r cb)) = some n →
            Sayable P n := by
          intro n hn
          obtain ⟨c, -, rfl⟩ := Option.map_eq_some_iff.mp hn
          exact hl c
        obtain ⟨t', ht', hworld⟩ := speakOpt_total hnote ev { t with world := w }
        exact ⟨t', .complete hi hw ht', hworld⟩
  | close a =>
    cases h with
    | step hstep =>
      cases hstep with
      | close hopen hw => exact ⟨_, .close hopen hw, rfl⟩
  | update u =>
    obtain _ | ⟨htouch⟩ := h
    obtain ⟨t', ht', hw⟩ := speak_total hl w.notifyEv { t with world := w }
    exact ⟨t', .update htouch ht', hw⟩

/-- **A run of the connections** is a run of the program. -/
theorem run_lifts (hP : Fluent P T) : ∀ {ls : List (Turn ρ υ)} {t : Talk ρ υ σ} {w : World},
    (∀ l ∈ ls, TurnOk P T l) → Runs (Event daemonize) t.world (ls.map label) w →
    ∃ t', Runs (TalkStep P daemonize) t ls t' ∧ t'.world = w
  | [], t, _, _, .nil _ => ⟨t, .nil t, rfl⟩
  | l :: ls, t, w, hl, .cons hstep hrun => by
    obtain ⟨u, hu, rfl⟩ := step_lifts hP (hl l List.mem_cons_self) hstep
    obtain ⟨t', ht', hw⟩ := run_lifts hP (fun m hm => hl m (List.mem_cons_of_mem l hm)) hrun
    exact ⟨t', .cons hu ht', hw⟩

/-! ### Failures of a line -/

theorem failInterface_text {E : Interface.Interpreter.Env} (hjson : E.enableJson = true)
    {s text : List UInt8} (h : failInterface E s = .failed text) : E.jsonString text = true := by
  simp only [failInterface, hjson, Bool.true_and] at h
  split_ifs at h with hs
  cases h
  simpa using hs

/-- The text of a failure is a json string, as `fail_interface` asserts. -/
theorem interpreterEx_text {E : Interface.Interpreter.Env} (hjson : E.enableJson = true)
    {table : List Command} {chat : Bool} {line : Option (List UInt8)} {text : List UInt8}
    (h : interpreterEx E table chat line = .failed text) : E.jsonString text = true := by
  have hline : ∀ line, interpretLine E table line = .failed text → E.jsonString text = true := by
    intro line h
    unfold interpretLine at h
    split at h
    · exact failInterface_text hjson h
    · cases h
    · cases h
    · split_ifs at h
      · exact failInterface_text hjson h
      · split at h
        · exact failInterface_text hjson h
        · unfold finish at h
          split at h
          all_goals first | exact failInterface_text hjson h | cases h
  unfold interpreterEx at h
  split_ifs at h
  split at h
  · cases h
  · split_ifs at h
    exact hline _ h

theorem lineEffects_text {lib : Library} (hjson : lib.env.enableJson = true) {w : World}
    {line : Option (List UInt8)} {es : List Effect} (h : lineEffects lib w line = some es)
    {text : List UInt8} (htext : .fail text ∈ es) : lib.env.jsonString text = true := by
  unfold lineEffects at h
  cases ho : interpreterEx lib.env commands w.session.inChatMode line with
  | failed s =>
    rw [ho] at h
    cases h
    obtain rfl : text = s := by simpa using htext
    exact interpreterEx_text hjson ho
  | dispatched cmd g args =>
    rw [ho] at h
    cases h
    cases List.eq_of_mem_replicate htext
  | chat c =>
    rw [ho] at h
    cases h
    cases c <;> simp [chatEffects] at htext
  | abort => rw [ho] at h; cases h
  | hang => rw [ho] at h; cases h
  | _ => rw [ho] at h; cases h; simp at htext

/-! ### Data that can be packed -/

/-- The message can be packed. -/
def MessageOk (E : Json.Pack.Env) (M : PrintMessage.Message) : Prop :=
  Valid E M.packed ∧ Packable E M.packed

def EachOk {α : Type} (p : α → Prop) (xs : List α) : Prop := ∀ x ∈ xs, p x

/-- The result can be packed. -/
def PayloadOk (E : Json.Pack.Env) : (cb : Callback) → Payload cb → Prop
  | .printMsgList, ML | .printMsgListHistory, ML => EachOk (MessageOk E) ML
  | .printMsg, M => MessageOk E M
  | .printUserList, UL => EachOk (fun U : User => PeerOk E U.id) UL
  | .printUser, U | .printUserInfo, U => PeerOk E (User.peer U).id
  | .printPeer, U => PeerOk E (Console.Peer.toPeer U).id ∧
      (Console.Peer.toPeer U).id.peerType ≠ .encrChat
  | .printSecretChat, C => PeerOk E (Console.Peer.toPeer C).id
  | .printFilename, name | .printString, name | .extf, name => Needed name
  | .printChatInfo, C => PeerOk E (Chat.peer C).id
  | .printChannelInfo, C => PeerOk E (Channel.peer C).id
  | .printDialogList, ds => EachOk (fun d : PeerId × ℤ => PeerOk E d.1) ds
  | _, _ => True

def ResultOk (E : Json.Pack.Env) (cb : Callback) : Result cb → Prop
  | .ok p => PayloadOk E cb p
  | .error e => Needed e.2

def UpdateOk (E : Json.Pack.Env) : Update → Prop
  | .user U _ | .userStatus U => PeerOk E U.id
  | .chat U _ => PeerOk E U.id
  | .secretChat U _ => PeerOk E U.id
  | .message M => MessageOk E M
  | .markedRead list => ∀ M, some M ∈ list → MessageOk E M
  | .typing _ _ | .typingInChat _ _ _ => True

variable {G : Gateways.Env} {E : Json.Pack.Env}

theorem message_built {M : PrintMessage.Message} (h : MessageOk E M) :
    ∃ v, jsonPackMessage E M.packed = some v := by
  obtain ⟨v, hv, -⟩ := (packs_iff E M.packed h.1).mpr h.2
  exact ⟨v, hv⟩

theorem peer_built {id : PeerId} (h : PeerOk E id) : ∃ v, jsonPackPeer E id = some v := by
  obtain ⟨v, hv, -⟩ := jsonPackPeer_builds h
  exact ⟨v, hv⟩

theorem array_built {α : Type} {pack : α → Option Json} {xs : List α}
    (h : ∀ x ∈ xs, ∃ v, pack x = some v) : ∃ v, arrayDocument pack xs = some v := by
  have hall : ∀ (ys : List α) (items : List Json), (∀ y ∈ ys, ∃ v, pack y = some v) →
      ∃ v, ys.foldlM (fun res x => jsonArrayAppend res (pack x)) (.array items) = some v := by
    intro ys
    induction ys with
    | nil => exact fun items _ => ⟨_, rfl⟩
    | cons y ys ih =>
      intro items hys
      obtain ⟨v, hv⟩ := hys y List.mem_cons_self
      rw [List.foldlM_cons, hv]
      exact ih (items ++ [v]) fun z hz => hys z (List.mem_cons_of_mem y hz)
  exact hall _ [] fun x hx => h x (List.mem_reverse.mp hx)

theorem string_built {s : Str} (h : Needed s) : ∃ v, stringDocument s = some v := by
  obtain ⟨v, hv, -⟩ := setString_needed carries_empty "result" h
  exact ⟨v, hv⟩

theorem needed_lit (s : String) : Needed (some (lit s)) := ⟨lit s, rfl, utf8_lit s⟩

theorem hexFixed_ascii : ∀ (n v : ℕ), ∀ c ∈ Json.Pack.hexFixed n v, c < 128
  | 0, _, _, hc => absurd hc List.not_mem_nil
  | n + 1, v, c, hc => by
    have hdigit : ∀ d < 16, Json.Pack.hexDigit d < 128 := by decide
    rcases List.mem_append.mp hc with hc | hc
    · exact hexFixed_ascii n _ c hc
    · rw [List.mem_singleton.mp hc]
      exact hdigit _ (Nat.mod_lt v (by omega))

theorem cardString_ascii (card : List (BitVec 32)) : ∀ c ∈ cardString card, c < 128 := by
  intro c hc
  obtain ⟨e, -, hc⟩ := List.mem_flatMap.mp hc
  rcases List.mem_append.mp hc with hc | hc
  · exact hexFixed_ascii 8 _ c hc
  · split_ifs at hc
    · exact absurd hc List.not_mem_nil
    · rw [List.mem_singleton.mp hc]
      decide

/-- **The document of a result** is built. -/
theorem payload_built {cb : Callback} {p : Payload cb} (hcb : cb ≠ .openFilename)
    (h : PayloadOk E cb p) : ∃ v, payloadDocument E cb p = some v := by
  cases cb with
  | printMsgList => exact array_built fun M hM => message_built (h M hM)
  | printMsgListHistory => exact array_built fun M hM => message_built (h M hM)
  | printUserList => exact array_built fun U hU => peer_built (h U hU)
  | printDialogList => exact array_built fun d hd => peer_built (h d hd)
  | printMsg => exact message_built h
  | printPeer =>
    obtain ⟨hpeer, hencr⟩ := h
    have hkind : (Console.Peer.toPeer p).id.peerType = .user ∨
        (Console.Peer.toPeer p).id.peerType = .chat ∨
        (Console.Peer.toPeer p).id.peerType = .channel := by
      rcases hpeer.type with hu | hc | hch | he
      · exact .inl hu
      · exact .inr (.inl hc)
      · exact .inr (.inr hch)
      · exact absurd he hencr
    simp only [payloadDocument, if_pos hkind]
    exact peer_built hpeer
  | printFilename =>
    obtain ⟨o, ho, hcarries⟩ := setString_needed carries_empty "result" h
    obtain ⟨v, hv, -⟩ := setString_builds hcarries "event" (utf8_lit "download")
    refine ⟨v, ?_⟩
    simp only [payloadDocument, stringDocument]
    rw [ho]
    exact hv
  | printString | extf => exact string_built h
  | printUser | printUserInfo | printSecretChat | printChatInfo | printChannelInfo =>
    exact peer_built h
  | openFilename => exact absurd rfl hcb
  | printCard => exact string_built ⟨_, rfl, utf8_ascii (cardString_ascii p)⟩
  | _ => exact string_built (needed_lit "SUCCESS")

theorem fail_built {code : ℤ} {error : Str} (h : Needed error) :
    ∃ v, failDocument code error = some v := by
  have hbuilds : Builds _ (failDocument code error) :=
    (setString_builds carries_empty "result" (utf8_lit "FAIL")).bind fun o ho =>
      (setInteger_builds ho "error_code" code).bind fun o ho => setString_needed ho "error" h
  obtain ⟨v, hv, -⟩ := hbuilds
  exact ⟨v, hv⟩

theorem updates_built (flags : UpdateFlags) : ∃ v, jsonPackUpdates flags = some v := by
  have hall : ∀ (ws : List (UpdateFlag × String)) (items : List Json), ∃ v,
      ws.foldlM (fun a w => if flags w.1 then jsonArrayAppend a (jsonString (some (lit w.2)))
        else some a) (.array items) = some v := by
    intro ws
    induction ws with
    | nil => exact fun items => ⟨_, rfl⟩
    | cons w ws ih =>
      intro items
      rw [List.foldlM_cons, jsonString_lit]
      split_ifs
      · exact ih _
      · exact ih _
  exact hall updateStrings []

theorem userStatus_built {U : User} (h : PeerOk E U.id) : ∃ v, jsonPackUserStatus E U = some v := by
  have hbuilds : Builds ["event", "state", "online", "user"] (jsonPackUserStatus E U) := by
    unfold jsonPackUserStatus
    obtain ⟨user, huser⟩ := peer_built h
    rw [huser, Option.bind_eq_bind, Option.bind_some]
    refine (carries_empty.set "user" user).bind fun o ho => ?_
    refine (setBoolean_builds ho "online" _).bind fun o ho => ?_
    refine (setInteger_builds ho "state" _).bind fun o ho => ?_
    have hwhen : Builds ["state", "online", "user"] (statusWhen E U.status o) := by
      unfold statusWhen
      split_ifs
      · exact (setString_builds ho _ (utf8_strFormatTime _)).mono (List.subset_cons_self _ _)
      iterate 4 exact (setString_builds ho _ (utf8_lit _)).mono (List.subset_cons_self _ _)
      exact ho.builds
    exact hwhen.bind fun o ho => setString_builds ho "event" (utf8_lit "online-status")
  obtain ⟨v, hv, -⟩ := hbuilds
  exact ⟨v, hv⟩

theorem peerUpdate_built {P : Console.Peer} (h : PeerOk E P.id) (flags : UpdateFlags) :
    ∃ v, jsonPeerUpdate E P flags = some v := by
  have hbuilds : Builds ["updates", "peer", "event"] (jsonPeerUpdate E P flags) := by
    unfold jsonPeerUpdate
    obtain ⟨peer, hpeer⟩ := peer_built h
    obtain ⟨updates, hupdates⟩ := updates_built flags
    refine (setString_builds carries_empty "event" (utf8_lit "updates")).bind fun o ho => ?_
    rw [hpeer, hupdates]
    exact (ho.set "peer" peer).bind fun o ho => ho.set "updates" updates
  obtain ⟨v, hv, -⟩ := hbuilds
  exact ⟨v, hv⟩

theorem update_built {u : Update} (hlist : ∀ list, u ≠ .markedRead list) {c : Checks}
    (hc : c.enableJson = true) (hpasses : u.passes c = true) (h : UpdateOk E u) :
    ∃ v, updateDocument E u = some v := by
  cases u with
  | user U flags => exact peerUpdate_built h flags
  | chat U flags => exact peerUpdate_built h flags
  | secretChat U flags => exact peerUpdate_built h flags
  | message M => exact message_built h
  | userStatus U => exact userStatus_built h
  | markedRead list => exact absurd rfl (hlist list)
  | _ => simp [Update.passes, hc] at hpasses

/-- The counts grow, and messages are erased only. -/
theorem countLoop_le (F : MarkRead.Env PrintMessage.Message) (toId : PeerId) :
    ∀ (c1 c2 : ℕ) (list : List (Option PrintMessage.Message)),
    c1 ≤ (MarkRead.countLoop F toId c1 c2 list).1.1 ∧
      c2 ≤ (MarkRead.countLoop F toId c1 c2 list).1.2 ∧
      ∀ M, some M ∈ (MarkRead.countLoop F toId c1 c2 list).2 → some M ∈ list
  | c1, c2, [] => ⟨le_rfl, le_rfl, fun _ h => h⟩
  | c1, c2, none :: list => by
    obtain ⟨h1, h2, hmem⟩ := countLoop_le F toId c1 c2 list
    rw [MarkRead.countLoop]
    refine ⟨h1, h2, fun M hM => List.mem_cons_of_mem none (hmem M ?_)⟩
    simpa using hM
  | c1, c2, some m :: list => by
    rw [MarkRead.countLoop]
    split_ifs
    · obtain ⟨h1, h2, hmem⟩ := countLoop_le F toId (c1 + 1) c2 list
      refine ⟨(Nat.le_succ c1).trans h1, h2, fun M hM => List.mem_cons_of_mem _ (hmem M ?_)⟩
      simpa using hM
    · obtain ⟨h1, h2, hmem⟩ := countLoop_le F toId c1 (c2 + 1) list
      refine ⟨h1, (Nat.le_succ c2).trans h2, fun M hM => List.mem_cons_of_mem _ (hmem M ?_)⟩
      simpa using hM
    · obtain ⟨h1, h2, hmem⟩ := countLoop_le F toId c1 c2 list
      refine ⟨h1, h2, fun M hM => ?_⟩
      rcases List.mem_cons.mp hM with hM | hM
      · rw [hM]
        exact List.mem_cons_self
      · exact List.mem_cons_of_mem _ (hmem M hM)

/-- **The list of messages marked read** is printed, as a message is in its own dialog. -/
theorem readList_built (hjson : G.enableJson = true) (hrefl : ∀ id, G.text.cmpPeerId id id = 0) :
    ∀ {list : List (Option PrintMessage.Message)} (users : List ℤ),
    (∀ M, some M ∈ list → MessageOk G.json M) →
    ∃ p, MarkRead.printReadList G.markRead users list = some p
  | [], users, _ => by
    rw [MarkRead.printReadList]
    exact ⟨_, rfl⟩
  | none :: list, users, h => by
    obtain ⟨p, hp⟩ :=
      readList_built hjson hrefl users fun M hM => h M (List.mem_cons_of_mem none hM)
    rw [MarkRead.printReadList, hp]
    exact ⟨_, rfl⟩
  | some m :: list, users, h => by
    have hlen := MarkRead.length_countLoop G.markRead (MarkRead.dialogOf G.markRead m) 0 0
      (some m :: list)
    have henable : G.markRead.enableJson = true := hjson
    have hmine : G.markRead.peers.cmpPeerId (MarkRead.dialogOf G.markRead m)
        (MarkRead.dialogOf G.markRead m) = 0 := hrefl _
    obtain ⟨-, -, hmem⟩ := countLoop_le G.markRead (MarkRead.dialogOf G.markRead m) 0 0
      (some m :: list)
    have hcount : 0 < (MarkRead.countLoop G.markRead (MarkRead.dialogOf G.markRead m) 0 0
        (some m :: list)).1.1 + (MarkRead.countLoop G.markRead (MarkRead.dialogOf G.markRead m) 0 0
        (some m :: list)).1.2 := by
      rw [MarkRead.countLoop, if_pos hmine]
      split_ifs
      · exact Nat.add_pos_left
          (countLoop_le G.markRead (MarkRead.dialogOf G.markRead m) (0 + 1) 0 list).1 _
      · exact Nat.add_pos_right _
          (countLoop_le G.markRead (MarkRead.dialogOf G.markRead m) 0 (0 + 1) list).2.1
    obtain ⟨p, hp⟩ := readList_built hjson hrefl users fun M hM =>
      h M (hmem M (List.mem_of_mem_tail hM))
    obtain ⟨o, ho, hcarries⟩ :=
      (packs_iff G.json m.packed (h m List.mem_cons_self).1).mpr (h m List.mem_cons_self).2
    obtain ⟨v, hv, -⟩ := setString_builds hcarries "event" (utf8_lit "read")
    have hread : MarkRead.jsonPackRead G.markRead m = some v := by
      have hpack : Json.Pack.jsonPackMessage G.markRead.json (G.markRead.message m) = some o := ho
      rw [MarkRead.jsonPackRead, hpack]
      exact hv
    rw [MarkRead.printReadList, MarkRead.printJson, if_pos henable, hread, Option.map_some,
      Option.bind_some]
    simp only [if_pos hcount, MarkRead.printText, if_pos henable, Option.bind_some, hp]
    exact ⟨_, rfl⟩
termination_by list => list.length
decreasing_by
  · exact Nat.lt_succ_self _
  · rw [List.length_tail, hlen, List.length_cons]
    omega

/-! ### Notes in json mode -/

variable {huge : SocketAnswer → List UInt8}

theorem printDocument_total {x : Option Json} (h : ∃ v, x = some v) (users : List ℤ) :
    ∃ r, printDocument G users x = .ok r := by
  obtain ⟨v, rfl⟩ := h
  exact ⟨_, rfl⟩

theorem printFail_total (hjson : G.enableJson = true) {code : ℤ} {error : Str}
    (h : Needed error) (users : List ℤ) : ∃ r, printFail G users code error = .ok r := by
  unfold printFail
  rw [if_pos hjson]
  exact printDocument_total (fail_built h) users

theorem fluent (hjson : G.enableJson = true) : Fluent (printers G huge) Utf8 where
  own _ _ _ := ⟨_, rfl⟩
  fail text htext _ users := printFail_total hjson ⟨text, rfl, htext⟩ users
  lit := utf8_lit

theorem result_sayable (hjson : G.enableJson = true) {cb : Callback} {r : Result cb}
    (h : ResultOk G.json cb r) : Sayable (printers G huge) (.result cb r) := by
  intro b users
  cases r with
  | error e =>
    obtain ⟨o, ho⟩ := printFail_total (G := G) hjson h users
    exact ⟨o, (Documents.printNote_error cb e b users).trans ho⟩
  | ok p =>
    by_cases hcb : cb = .openFilename
    · subst hcb
      exact ⟨_, rfl⟩
    · obtain ⟨o, ho⟩ := printDocument_total (G := G) (payload_built hcb h) users
      exact ⟨o, (Documents.printNote_result hjson hcb p b users).trans ho⟩

theorem update_sayable (hjson : G.enableJson = true) (hrefl : ∀ id, G.text.cmpPeerId id id = 0)
    {u : Update} {c : Checks} (hc : c.enableJson = true) (hpasses : u.passes c = true)
    (h : UpdateOk G.json u) : Sayable (printers G huge) (.update u) := by
  intro b users
  by_cases hlist : ∃ list, u = .markedRead list
  · obtain ⟨list, rfl⟩ := hlist
    obtain ⟨p, hp⟩ := readList_built hjson hrefl users h
    refine ⟨(p.lines, p.users), ?_⟩
    simp only [printers, printNote, hp]
  · have hu : ∀ list, u ≠ .markedRead list := fun list hl => hlist ⟨list, hl⟩
    obtain ⟨o, ho⟩ := printDocument_total (G := G) (update_built hu hc hpasses h) users
    exact ⟨o, (Documents.printNote_update hjson hu b users).trans ho⟩

/-- The results and the update of a step can be packed, and its line is read with the same
options. -/
def Packs (G : Gateways.Env) : Turn Result Update → Prop
  | .line lib now _ _ =>
    (∀ q cb, ResultOk G.json cb (now.ofQuery q cb)) ∧
      (∀ cb, ResultOk G.json cb (now.ofHandler cb)) ∧
      lib.env.enableJson = true ∧ ∀ s, lib.env.jsonString s = true → Utf8 s
  | .complete _ r => ∀ cb, ResultOk G.json cb (r cb)
  | .update u => UpdateOk G.json u ∧ ∃ c : Checks, c.enableJson = true ∧ u.passes c = true
  | _ => True

theorem turnOk (hjson : G.enableJson = true) (hrefl : ∀ id, G.text.cmpPeerId id id = 0)
    {l : Turn Result Update} (h : Packs G l) : TurnOk (printers G huge) Utf8 l := by
  cases l with
  | line lib now ev line =>
    obtain ⟨hquery, hhandler, henable, hutf8⟩ := h
    exact ⟨⟨fun q cb => result_sayable hjson (hquery q cb),
      fun cb => result_sayable hjson (hhandler cb)⟩,
      fun w es hes text htext => hutf8 _ (lineEffects_text henable hes htext)⟩
  | complete i r => exact fun cb => result_sayable hjson (h cb)
  | update u =>
    obtain ⟨hu, c, hc, hpasses⟩ := h
    exact update_sayable hjson hrefl hc hpasses hu
  | _ => trivial

/-- The library of `aliceLibrary` in json mode. -/
def jsonLibrary : Library :=
  { aliceLibrary with
    env := { aliceLibrary.env with enableJson := true, jsonString := fun s => decide (Utf8 s) } }

end TelegramCli.Control.Progress
