import TelegramCli.Control.Conversation

/-! # How many answers a line is owed

A call of a command asks about one matter, unless it is `unanswered`: some commands answer no
connection, and some have nothing to load or to import (`commands_owe`). So a line is owed one answer
for each of its calls, or one `FAIL` (`lineMatters_length`), and over a run the number of the answers
an open connection was sent, with that of the queries of its lines under way, is the sum of what its
lines are owed (`run_count`). -/

namespace TelegramCli.Control.Owed

open TelegramCli.Lib.CString TelegramCli.Lib.Run TelegramCli.Tgl TelegramCli.Interface.Args
open TelegramCli.Interface.Args.ArgReader TelegramCli.Interface.Actions
open TelegramCli.Interface.Handlers TelegramCli.Interface.Commands
open TelegramCli.Interface.Interpreter TelegramCli.Interface.Sessions TelegramCli.Interface.Head
open TelegramCli.Control.AnswerFrames TelegramCli.Control.Connections TelegramCli.Control.Settle
open TelegramCli.Control.Holders TelegramCli.Control.Conversation

/-! ### The commands -/

/-- The commands that answer no connection. -/
def muteCommands : List String :=
  ["chat_with_peer", "clear", "main_session", "quit", "safe_quit", "set", "view", "view_audio",
    "view_document", "view_document_thumb", "view_file", "view_file_thumb", "view_photo",
    "view_video", "view_video_thumb"]

/-- The commands of `DO_LOAD_PHOTO` that print a file name. -/
def loadCommands : List String :=
  ["load_audio", "load_document", "load_file", "load_photo", "load_video"]

/-- The commands of `DO_LOAD_PHOTO_THUMB` that print a file name. -/
def thumbCommands : List String := ["load_document_thumb", "load_file_thumb", "load_video_thumb"]

/-- The commands of `do_view_user_photo`. -/
def viewPhotoCommands : List String :=
  ["view_channel_photo", "view_chat_photo", "view_user_photo"]

/-- A message whose media `DO_LOAD_PHOTO` knows. -/
def hasMedia (lib : Library) (id : MsgId) : Bool :=
  ((lib.messageGet id).filter (!·.service)).elim false fun M => !unknownMedia M.media

/-- A message with a document. -/
def hasDocument (lib : Library) (id : MsgId) : Bool :=
  ((lib.messageGet id).filter (!·.service)).elim false fun M =>
    match M.media with
    | .document _ _ => true
    | _ => false

/-- `do_import_card` reads the card. -/
def cardReads (s : Str) : Bool := 0 < (s.getD []).length && (cardLoop [] 0 (s.getD [])).isSome

/-- The call asks about nothing. -/
def unanswered (lib : Library) (name : String) (args : List Arg) : Bool :=
  name ∈ muteCommands ||
    (name = "import_card" && ((str 0).get args).elim false fun s => !cardReads s) ||
    (name ∈ loadCommands && ((msgId 0).get args).elim false fun id => !hasMedia lib id) ||
    (name ∈ thumbCommands && ((msgId 0).get args).elim false fun id => !hasDocument lib id) ||
    (name ∈ viewPhotoCommands && ((peerId 0).get args).elim false fun id => (lib.peerGet id).isNone)

/-- The commands with calls that ask about nothing. -/
def quietCommands : List String :=
  muteCommands ++ ["import_card"] ++ loadCommands ++ thumbCommands ++ viewPhotoCommands

/-- **A command owes** one answer for a call, or none for one that is unanswered. -/
def Owes (cmd : Command) : Prop :=
  ∀ (lib : Library) (daemonize : Bool) (g : Globals) (args : List Arg) (acts : List Action),
    handlerActions lib daemonize true cmd g args = .ok acts →
    (acts.filterMap actionMatter).length = if unanswered lib cmd.name args then 0 else 1

/-! ### The handlers that always answer, or never -/

/-- Every call asks about `n` matters. -/
def Asks (n : ℕ) (h : Handler) : Prop :=
  ∀ args c acts, h.run args c = .ok acts → (acts.filterMap actionMatter).length = n

theorem asks_of_yields {n : ℕ} {h : Handler} (hb : ∀ k, Yields (fun acts : Ctx → List Action =>
    ∀ c, ((acts c).filterMap actionMatter).length = n) (h.body k)) : Asks n h :=
  fun args c acts hrun => by
    obtain ⟨f, hget, rfl⟩ := Handler.run_eq_ok hrun
    exact hb _ args f hget c

theorem asks_askIf (argNum : ℕ → Bool) {cb : Callback} (hcb : replies cb = true)
    (req : ℕ → ArgReader (Ctx → Query)) : Asks 1 (askIf argNum cb req) :=
  asks_of_yields fun _ => yields_map fun q c => by
    have hquery : actionMatter (.query (q c) cb) = some (.result cb) := if_pos hcb
    have href : actionMatter .ref = none := rfl
    rw [List.filterMap_cons_none href, List.filterMap_cons_some hquery]
    rfl

theorem asks_quiet {n : ℕ} {argNum : ℕ → Bool} {body : ArgReader (Ctx → List Action)}
    (h : Yields (fun acts => ∀ c, ((acts c).filterMap actionMatter).length = n) body) :
    Asks n (quiet argNum body) := asks_of_yields fun _ => h

theorem asks_help : Asks 1 doHelp :=
  asks_quiet (yields_map fun s c => by simp only; split_ifs <;> rfl)

theorem asks_stats : Asks 1 doStats := asks_quiet (yields_pure fun _ => rfl)

theorem asks_showLicense : Asks 1 doShowLicense := asks_quiet (yields_pure fun _ => rfl)

theorem asks_version : Asks 1 doVersion := asks_quiet (yields_pure fun _ => rfl)

theorem asks_visualizeKey : Asks 1 doVisualizeKey := asks_quiet (yields_map fun _ _ => rfl)

theorem asks_renameContact : Asks 1 doRenameContact :=
  asks_of_yields fun _ => yields_seq (yields_seq (yields_map fun id _ _ c => by
    cases (c.peerGet id).bind (·.phone) <;> rfl))

theorem asks_acceptSecretChat : Asks 1 doAcceptSecretChat :=
  asks_of_yields fun _ => yields_map fun id c => by cases c.peerGet id <;> rfl

theorem asks_setTtl : Asks 1 doSetTtl :=
  asks_of_yields fun _ => yields_seq (yields_map fun id ttl c => by
    cases c.peerGet id with
    | none => rfl
    | some P => simp only; split_ifs <;> rfl)

theorem asks_sendTyping : Asks 1 doSendTyping :=
  asks_of_yields fun _ => yields_seq (yields_map fun _ _ _ => by split_ifs <;> rfl)

theorem asks_msgKbd : Asks 1 doMsgKbd :=
  asks_of_yields fun _ => yields_seq (yields_seq (yields_map fun kbd _ _ c => by
    cases c.replyMarkup kbd <;> rfl))

theorem asks_loadUserPhoto : Asks 1 doLoadUserPhoto :=
  asks_of_yields fun _ => yields_map fun id c => by cases c.peerGet id <;> rfl

theorem asks_quit : Asks 0 doQuit :=
  asks_quiet (yields_pure fun c => by cases c.daemonize <;> rfl)

theorem asks_safeQuit : Asks 0 doSafeQuit :=
  asks_quiet (yields_pure fun c => by cases c.daemonize <;> rfl)

theorem asks_set : Asks 0 doSet :=
  asks_quiet (yields_seq (yields_map fun _ _ _ => by split_ifs <;> rfl))

theorem asks_chatWithPeer : Asks 0 doChatWithPeer :=
  asks_quiet (yields_map fun _ c => by cases c.ev <;> rfl)

theorem asks_mainSession : Asks 0 doMainSession := asks_quiet (yields_pure fun _ => rfl)

theorem asks_clear : Asks 0 doClear := asks_quiet (yields_pure fun _ => rfl)

/-- The matters of `DO_LOAD_PHOTO`. -/
theorem loadMedia_matters (id : MsgId) (m : Media) :
    (([Action.ref] ++ loadMedia .openFilename id m).filterMap actionMatter).length = 0 ∧
      (([Action.ref] ++ loadMedia .printFilename id m).filterMap actionMatter).length =
        if unknownMedia m then 0 else 1 := by
  cases m <;> exact ⟨rfl, rfl⟩

theorem asks_open : Asks 0 (loadHandler .openFilename) :=
  asks_of_yields fun _ => yields_map fun id c => by
    cases plainMessage c id with
    | none => rfl
    | some M => exact (loadMedia_matters id M.media).1

theorem asks_openThumb : Asks 0 (thumbHandler .openFilename) :=
  asks_of_yields fun _ => yields_map fun id c => by split <;> rfl

/-! ### The other handlers -/

theorem owes_of_asks {cmd : Command} (h : Asks 1 cmd.handler) (hname : cmd.name ∉ quietCommands) :
    Owes cmd := by
  intro lib daemonize g args acts hacts
  unfold quietCommands at hname
  simp only [List.mem_append, List.mem_singleton, not_or] at hname
  obtain ⟨⟨⟨⟨hmute, hcard⟩, hload⟩, hthumb⟩, hview⟩ := hname
  have hunanswered : unanswered lib cmd.name args = false := by
    simp [unanswered, hmute, hcard, hload, hthumb, hview]
  rw [h _ _ _ hacts, hunanswered, if_neg Bool.false_ne_true]

theorem owes_of_mute {cmd : Command} (h : Asks 0 cmd.handler) (hname : cmd.name ∈ muteCommands) :
    Owes cmd := by
  intro lib daemonize g args acts hacts
  have hunanswered : unanswered lib cmd.name args = true := by simp [unanswered, hname]
  rw [h _ _ _ hacts, hunanswered, if_pos rfl]

theorem owes_importCard {cmd : Command} (hname : cmd.name = "import_card")
    (hh : cmd.handler = doImportCard) : Owes cmd := by
  intro lib daemonize g args acts hacts
  unfold handlerActions at hacts
  rw [hh] at hacts
  obtain ⟨f, hget, rfl⟩ := Handler.run_eq_ok hacts
  obtain ⟨s, hs, rfl⟩ := get_map hget
  have hunanswered : unanswered lib cmd.name args = !cardReads s := by
    rw [hname]
    simp [unanswered, hs, muteCommands, loadCommands, thumbCommands, viewPhotoCommands]
  rw [hunanswered]
  unfold cardReads
  by_cases hlen : 0 < (s.getD []).length
  · cases hcard : cardLoop [] 0 (s.getD []) <;> simp only [hlen] <;> rfl
  · simp [hlen]

theorem owes_load {cmd : Command} (hname : cmd.name ∈ loadCommands)
    (hh : cmd.handler = loadHandler .printFilename) : Owes cmd := by
  intro lib daemonize g args acts hacts
  have hother : cmd.name ∉ muteCommands ∧ cmd.name ≠ "import_card" ∧ cmd.name ∉ thumbCommands ∧
      cmd.name ∉ viewPhotoCommands :=
    (show ∀ x ∈ loadCommands, x ∉ muteCommands ∧ x ≠ "import_card" ∧ x ∉ thumbCommands ∧
      x ∉ viewPhotoCommands by decide) _ hname
  unfold handlerActions at hacts
  rw [hh] at hacts
  obtain ⟨f, hget, rfl⟩ := Handler.run_eq_ok hacts
  obtain ⟨id, hid, rfl⟩ := get_map hget
  have hunanswered : unanswered lib cmd.name args = !hasMedia lib id := by
    simp [unanswered, hid, hname, hother]
  rw [hunanswered]
  unfold hasMedia plainMessage
  simp only
  cases hM : (lib.messageGet id).filter (!·.service) with
  | none => rfl
  | some M =>
    have hmatters := (loadMedia_matters id M.media).2
    cases hu : unknownMedia M.media <;> rw [hu] at hmatters <;> simpa [hu] using hmatters

theorem owes_thumb {cmd : Command} (hname : cmd.name ∈ thumbCommands)
    (hh : cmd.handler = thumbHandler .printFilename) : Owes cmd := by
  intro lib daemonize g args acts hacts
  have hother : cmd.name ∉ muteCommands ∧ cmd.name ≠ "import_card" ∧ cmd.name ∉ loadCommands ∧
      cmd.name ∉ viewPhotoCommands :=
    (show ∀ x ∈ thumbCommands, x ∉ muteCommands ∧ x ≠ "import_card" ∧ x ∉ loadCommands ∧
      x ∉ viewPhotoCommands by decide) _ hname
  unfold handlerActions at hacts
  rw [hh] at hacts
  obtain ⟨f, hget, rfl⟩ := Handler.run_eq_ok hacts
  obtain ⟨id, hid, rfl⟩ := get_map hget
  have hunanswered : unanswered lib cmd.name args = !hasDocument lib id := by
    simp [unanswered, hid, hname, hother]
  rw [hunanswered]
  unfold hasDocument plainMessage
  simp only
  cases hM : (lib.messageGet id).filter (!·.service) with
  | none => rfl
  | some M => cases hm : M.media <;> simp only [Option.elim_some, Option.map_some, hm] <;> rfl

theorem owes_viewPhoto {cmd : Command} (hname : cmd.name ∈ viewPhotoCommands)
    (hh : cmd.handler = doViewUserPhoto) : Owes cmd := by
  intro lib daemonize g args acts hacts
  have hother : cmd.name ∉ muteCommands ∧ cmd.name ≠ "import_card" ∧ cmd.name ∉ loadCommands ∧
      cmd.name ∉ thumbCommands :=
    (show ∀ x ∈ viewPhotoCommands, x ∉ muteCommands ∧ x ≠ "import_card" ∧ x ∉ loadCommands ∧
      x ∉ thumbCommands by decide) _ hname
  unfold handlerActions at hacts
  rw [hh] at hacts
  obtain ⟨f, hget, rfl⟩ := Handler.run_eq_ok hacts
  obtain ⟨id, hid, rfl⟩ := get_map hget
  have hunanswered : unanswered lib cmd.name args = (lib.peerGet id).isNone := by
    simp [unanswered, hid, hname, hother]
  rw [hunanswered]
  simp only
  cases lib.peerGet id <;> rfl

/-! ### The table -/

/-- **Every command** owes one answer for a call, or none for one that is unanswered. -/
theorem commands_owe : ∀ cmd ∈ commands, Owes cmd := by
  rw [commands]
  repeat
    refine List.forall_mem_cons.mpr ⟨?_, ?_⟩
    · first
      | with_reducible exact owes_of_asks asks_help (by decide +kernel)
      | with_reducible exact owes_of_asks asks_stats (by decide +kernel)
      | with_reducible exact owes_of_asks asks_showLicense (by decide +kernel)
      | with_reducible exact owes_of_asks asks_version (by decide +kernel)
      | with_reducible exact owes_of_asks asks_visualizeKey (by decide +kernel)
      | with_reducible exact owes_of_asks asks_renameContact (by decide +kernel)
      | with_reducible exact owes_of_asks asks_acceptSecretChat (by decide +kernel)
      | with_reducible exact owes_of_asks asks_setTtl (by decide +kernel)
      | with_reducible exact owes_of_asks asks_sendTyping (by decide +kernel)
      | with_reducible exact owes_of_asks asks_msgKbd (by decide +kernel)
      | with_reducible exact owes_of_asks asks_loadUserPhoto (by decide +kernel)
      | with_reducible exact owes_of_mute asks_quit (by decide)
      | with_reducible exact owes_of_mute asks_safeQuit (by decide)
      | with_reducible exact owes_of_mute asks_set (by decide)
      | with_reducible exact owes_of_mute asks_chatWithPeer (by decide)
      | with_reducible exact owes_of_mute asks_mainSession (by decide)
      | with_reducible exact owes_of_mute asks_clear (by decide)
      | with_reducible exact owes_importCard rfl rfl
      | exact owes_of_asks (asks_askIf _ rfl _) (by decide +kernel)
      | exact owes_load (by decide) rfl
      | exact owes_thumb (by decide) rfl
      | exact owes_viewPhoto (by decide) rfl
      | exact owes_of_mute asks_open (by decide)
      | exact owes_of_mute asks_openThumb (by decide)
  exact fun _ h => absurd h List.not_mem_nil

/-! ### Lines -/

/-- The answers that a line with the outcome is owed. -/
def owedBy (lib : Library) : Outcome → ℕ
  | .dispatched cmd g args => if unanswered lib cmd.name args then 0 else g.count.toNat
  | .failed _ => 1
  | .extf _ => 1
  | _ => 0

/-- The answers that a line of a connection is owed. -/
def lineOwes (lib : Library) (w : World) (line : Option (List UInt8)) : ℕ :=
  owedBy lib (interpreterEx lib.env commands w.session.inChatMode line)

variable {lib : Library} {daemonize : Bool} {a : ℕ}

/-- Calls that are repeated and go well. -/
theorem callMatters_length {cmd : Command} {g : Globals} {args : List Arg} (hcmd : cmd ∈ commands)
    {n : ℕ} {w w' : World} (h : (List.replicate n (Effect.call cmd g args)).foldlM
      (handleEffect lib daemonize (some a)) w = .ok w') :
    ((List.replicate n (Effect.call cmd g args)).flatMap (effectMatters lib daemonize)).length =
      if unanswered lib cmd.name args then 0 else n := by
  cases n with
  | zero => rw [ite_self]; rfl
  | succ n =>
    rw [List.replicate_succ, List.foldlM_cons] at h
    obtain ⟨v, hv, -⟩ := bind_eq_ok.mp h
    simp only [handleEffect, Option.isSome_some] at hv
    cases hacts : handlerActions lib daemonize true cmd g args with
    | error x => simp [hacts] at hv
    | ok acts =>
      have hlength := commands_owe cmd hcmd lib daemonize g args acts hacts
      have heffect : effectMatters lib daemonize (.call cmd g args) =
          acts.filterMap actionMatter := by
        simp only [effectMatters, hacts]
      rw [List.length_flatMap, List.map_replicate, List.sum_replicate, heffect, hlength]
      split_ifs
      · rw [smul_zero]
      · rw [smul_eq_mul, mul_one]

/-- **A line** that a connection gives asks about as many matters as it is owed answers. -/
theorem lineMatters_length {w w' : World} {line : Option (List UInt8)}
    (h : handleLine lib daemonize (some a) w line = .ok w') :
    (lineMatters lib daemonize w line).length = lineOwes lib w line := by
  unfold handleLine at h
  unfold lineMatters lineOwes
  cases hes : lineEffects lib w line with
  | none => simp [hes] at h
  | some es =>
    rw [hes] at h
    unfold lineEffects at hes
    cases ho : interpreterEx lib.env commands w.session.inChatMode line with
    | dispatched cmd g args =>
      rw [ho] at hes
      cases hes
      obtain ⟨-, l, t, -, -, -, -, hfind, -⟩ := interpreterEx_dispatched.mp ho
      exact callMatters_length (findCommand_mem hfind) h
    | chat c =>
      rw [ho] at hes
      cases hes
      cases c <;> rfl
    | abort => simp [ho, effects] at hes
    | hang => simp [ho, effects] at hes
    | _ => rw [ho] at hes; cases hes; rfl

/-! ### Runs -/

variable {ρ : Callback → Type} {υ σ : Type} {P : Printers ρ υ σ}

/-- The answers each connection is owed behind a step. The program does not count them. -/
def owes (t : Talk ρ υ σ) (total : ℕ → ℕ) : Turn ρ υ → ℕ → ℕ
  | .accept a => Function.update total a 0
  | .line lib _ (some a) line => Function.update total a (total a + lineOwes lib t.world line)
  | _ => total

/-- A step, and what the connections are owed. -/
def Owing (P : Printers ρ υ σ) (daemonize : Bool) (s : Talk ρ υ σ × (ℕ → ℕ)) (l : Turn ρ υ)
    (s' : Talk ρ υ σ × (ℕ → ℕ)) : Prop :=
  TalkStep P daemonize s.1 l s'.1 ∧ s'.2 = owes s.1 s.2 l

/-- A step adds as many matters as it adds answers that are owed. -/
theorem asks_length {t t' : Talk ρ υ σ} {l : Turn ρ υ} {asked : ℕ → List Matter} {total : ℕ → ℕ}
    (hstep : TalkStep P daemonize t l t') (h : ∀ a, (asked a).length = total a) :
    ∀ a, (asks daemonize t asked l a).length = owes t total l a := by
  intro a
  cases hstep with
  | @accept b hb =>
    unfold asks owes
    simp only
    by_cases hab : a = b
    · subst hab
      rw [Function.update_self, Function.update_self]
      rfl
    · rw [Function.update_of_ne hab, Function.update_of_ne hab, h]
  | @line _ lib now ev line hopen hline =>
    cases ev with
    | none => exact h a
    | some b =>
      unfold asks owes
      simp only
      by_cases hab : a = b
      · subst hab
        rw [Function.update_self, Function.update_self, List.length_append, h,
          lineMatters_length (sayLine_handleLine hline)]
      · rw [Function.update_of_ne hab, Function.update_of_ne hab, h]
  | complete hi hw hspeak => exact h a
  | close hopen hw => exact h a
  | update hw hspeak => exact h a

theorem owing_asked {s s' : Talk ρ υ σ × (ℕ → ℕ)} {ls : List (Turn ρ υ)}
    (hrun : Runs (Owing P daemonize) s ls s') : ∀ asked : ℕ → List Matter,
    (∀ a, (asked a).length = s.2 a) → ∃ asked' : ℕ → List Matter,
      Runs (Asked P daemonize) (s.1, asked) ls (s'.1, asked') ∧
        ∀ a, (asked' a).length = s'.2 a := by
  induction hrun with
  | nil s => exact fun asked h => ⟨asked, .nil _, h⟩
  | @cons s t u l ls hstep _ ih =>
    intro asked h
    obtain ⟨hturn, hcount⟩ := hstep
    obtain ⟨asked', hrun, h'⟩ := ih (asks daemonize s.1 asked l)
      (by rw [hcount]; exact asks_length hturn h)
    exact ⟨asked', .cons ⟨hturn, rfl⟩ hrun, h'⟩

end TelegramCli.Control.Owed
