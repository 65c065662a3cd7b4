import TelegramCli.Interface.Sessions

/-! # References taken and handed on

A handler takes a reference with `ref`, and hands it on to a query or to a callback that it runs
itself. `settle` counts the references it has in hand. Every handler of the table comes out with
none, except `do_msg_kbd`, which keeps one when the keyboard does not parse, and the handlers of
`DO_LOAD_PHOTO`, which keep one when no branch knows the media; and only `quit` and `safe_quit`
close the connection that gave them (`commands_settle`). -/

namespace TelegramCli.Control.Settle

open TelegramCli.Tgl TelegramCli.Interface.Actions TelegramCli.Interface.Args
open TelegramCli.Interface.Args.ArgReader TelegramCli.Interface.Handlers
open TelegramCli.Interface.Commands TelegramCli.Interface.Sessions

/-- The references in hand after the actions, from `p` of them; `none` when one is handed on that is
not there. -/
def settle : ℕ → List Action → Option ℕ
  | p, [] => some p
  | p, .ref :: acts => settle (p + 1) acts
  | p, .query _ _ :: acts => if p = 0 then none else settle (p - 1) acts
  | p, .callback _ :: acts => if p = 0 then none else settle (p - 1) acts
  | p, _ :: acts => settle p acts

/-- The actions close the connection. -/
def closes (acts : List Action) : Bool :=
  acts.any fun
    | .eventIncoming => true
    | _ => false

/-- The handler hands on what it takes, and does not close the connection. -/
def Even (h : Handler) : Prop :=
  ∀ args c acts, h.run args c = .ok acts → settle 0 acts = some 0 ∧ closes acts = false

theorem Handler.run_eq_ok {h : Handler} {args : List Arg} {c : Ctx} {acts : List Action}
    (hrun : h.run args c = .ok acts) :
    ∃ f, (h.body args.length).get args = some f ∧ acts = f c := by
  unfold Handler.run at hrun
  split_ifs at hrun
  cases hget : (h.body args.length).get args with
  | none => simp [hget] at hrun
  | some f =>
    rw [hget] at hrun
    cases hrun
    exact ⟨f, rfl, rfl⟩

theorem even_of_yields {h : Handler} (hb : ∀ n, Yields (fun acts : Ctx → List Action =>
    ∀ c, settle 0 (acts c) = some 0 ∧ closes (acts c) = false) (h.body n)) : Even h :=
  fun args c acts hrun => by
    obtain ⟨f, hget, rfl⟩ := Handler.run_eq_ok hrun
    exact hb _ args f hget c

theorem even_askIf (argNum : ℕ → Bool) (cb : Callback) (req : ℕ → ArgReader (Ctx → Query)) :
    Even (askIf argNum cb req) := even_of_yields fun _ => yields_map fun _ _ => ⟨rfl, rfl⟩

theorem even_quiet {argNum : ℕ → Bool} {body : ArgReader (Ctx → List Action)}
    (h : Yields (fun acts => ∀ c, settle 0 (acts c) = some 0 ∧ closes (acts c) = false) body) :
    Even (quiet argNum body) :=
  even_of_yields fun _ => h

theorem even_help : Even doHelp :=
  even_quiet (yields_map fun s c => by simp only; split_ifs <;> exact ⟨rfl, rfl⟩)

theorem even_stats : Even doStats := even_quiet (yields_pure fun _ => ⟨rfl, rfl⟩)

theorem even_showLicense : Even doShowLicense := even_quiet (yields_pure fun _ => ⟨rfl, rfl⟩)

theorem even_set : Even doSet :=
  even_quiet (yields_seq (yields_map fun _ _ _ => by split_ifs <;> exact ⟨rfl, rfl⟩))

theorem even_chatWithPeer : Even doChatWithPeer :=
  even_quiet (yields_map fun _ c => by cases h : c.ev <;> exact ⟨rfl, rfl⟩)

theorem even_mainSession : Even doMainSession := even_quiet (yields_pure fun _ => ⟨rfl, rfl⟩)

theorem even_version : Even doVersion := even_quiet (yields_pure fun _ => ⟨rfl, rfl⟩)

theorem even_renameContact : Even doRenameContact :=
  even_of_yields fun _ => yields_seq (yields_seq (yields_map fun id _ _ c => by
    cases (c.peerGet id).bind (·.phone) <;> exact ⟨rfl, rfl⟩))

theorem even_importCard : Even doImportCard :=
  even_of_yields fun _ => yields_map fun s _ => by
    split_ifs
    · cases cardLoop [] 0 (s.getD []) <;> exact ⟨rfl, rfl⟩
    · exact ⟨rfl, rfl⟩

theorem even_acceptSecretChat : Even doAcceptSecretChat :=
  even_of_yields fun _ => yields_map fun id c => by cases c.peerGet id <;> exact ⟨rfl, rfl⟩

theorem even_setTtl : Even doSetTtl :=
  even_of_yields fun _ => yields_seq (yields_map fun id ttl c => by
    cases c.peerGet id with
    | none => exact ⟨rfl, rfl⟩
    | some P => simp only; split_ifs <;> exact ⟨rfl, rfl⟩)

theorem even_visualizeKey : Even doVisualizeKey := even_quiet (yields_map fun _ _ => ⟨rfl, rfl⟩)

theorem even_sendTyping : Even doSendTyping :=
  even_of_yields fun _ => yields_seq (yields_map fun _ _ _ => by split_ifs <;> exact ⟨rfl, rfl⟩)

theorem even_thumbHandler (actf : Callback) : Even (thumbHandler actf) :=
  even_of_yields fun _ => yields_map fun id c => by split <;> exact ⟨rfl, rfl⟩

theorem even_userPhoto (unknown : Callback) : Even (userPhoto unknown) :=
  even_of_yields fun _ => yields_map fun id c => by cases c.peerGet id <;> exact ⟨rfl, rfl⟩

theorem even_clear : Even doClear := even_quiet (yields_pure fun _ => ⟨rfl, rfl⟩)

/-! ### The handlers that do not come out even -/

/-- No branch of `DO_LOAD_PHOTO` is for the media. -/
def unknownMedia : Media → Bool
  | .none => true
  | .contact _ _ _ => true
  | .unsupported => true
  | .other => true
  | _ => false

/-- The commands of `DO_LOAD_PHOTO`. -/
def mediaCommands : List String :=
  ["load_audio", "load_document", "load_file", "load_photo", "load_video", "view_audio",
    "view_document", "view_file", "view_photo", "view_video", "view"]

def quitCommands : List String := ["quit", "safe_quit"]

/-- The commands whose calls do not all come out even. -/
def unevenCommands : List String := "msg_kbd" :: quitCommands ++ mediaCommands

/-- The call keeps a reference: of `msg_kbd` the keyboard does not parse, or the message to load is
there, is no service message, and has a media that no branch is for. -/
def leaky (lib : Library) (name : String) (args : List Arg) : Bool :=
  (name = "msg_kbd" && ((str 1).get args).elim false fun kbd => !lib.replyMarkup kbd) ||
    (name ∈ mediaCommands && ((msgId 0).get args).elim false fun id =>
      ((lib.messageGet id).filter (!·.service)).elim false fun M => unknownMedia M.media)

/-- **A command settles**: it hands on every reference unless the call is `leaky`, and closes the
connection in daemon mode if it is `quit` or `safe_quit`. -/
def Settles (cmd : Command) : Prop :=
  ∀ (lib : Library) (daemonize ev : Bool) (g : Globals) (args : List Arg) (acts : List Action),
    handlerActions lib daemonize ev cmd g args = .ok acts →
    settle 0 acts = some (if leaky lib cmd.name args then 1 else 0) ∧
      (closes acts = true ↔ daemonize = true ∧ cmd.name ∈ quitCommands)

theorem Even.settles {cmd : Command} (h : Even cmd.handler)
    (hname : cmd.name ∉ unevenCommands) : Settles cmd := by
  intro lib daemonize ev g args acts hacts
  obtain ⟨hsettle, hcloses⟩ := h _ _ _ hacts
  rw [unevenCommands, List.cons_append, List.mem_cons, List.mem_append, not_or, not_or] at hname
  obtain ⟨hkbd, hquit, hmedia⟩ := hname
  have hleaky : leaky lib cmd.name args = false := by
    unfold leaky
    rw [decide_eq_false hkbd, decide_eq_false hmedia, Bool.false_and, Bool.false_and,
      Bool.false_or]
  refine ⟨?_, ?_⟩
  · rw [hsettle, hleaky, if_neg Bool.false_ne_true]
  · rw [hcloses]
    exact iff_of_false Bool.false_ne_true fun h => hquit h.2

theorem msgKbd_settles {cmd : Command} (hname : cmd.name = "msg_kbd")
    (hh : cmd.handler = doMsgKbd) : Settles cmd := by
  intro lib daemonize ev g args acts hacts
  have hmedia : cmd.name ∉ mediaCommands := by rw [hname]; decide
  have hquit : cmd.name ∉ quitCommands := by rw [hname]; decide
  unfold handlerActions at hacts
  rw [hh] at hacts
  obtain ⟨f, hget, rfl⟩ := Handler.run_eq_ok hacts
  obtain ⟨f', s, hf', -, rfl⟩ := get_seq hget
  obtain ⟨f'', dest, hf'', -, rfl⟩ := get_seq hf'
  obtain ⟨kbd, hkbd, rfl⟩ := get_map hf''
  have hleaky : leaky lib cmd.name args = !lib.replyMarkup kbd := by
    unfold leaky
    rw [decide_eq_true hname, decide_eq_false hmedia, hkbd, Bool.true_and, Bool.false_and,
      Bool.or_false, Option.elim_some]
  rw [hleaky]
  refine ⟨?_, iff_of_false ?_ fun h => hquit h.2⟩
  · cases hm : lib.replyMarkup kbd <;> simp [hm, settle]
  · cases hm : lib.replyMarkup kbd <;> simp [hm, closes]

theorem settle_loadMedia (actf : Callback) (id : MsgId) (m : Media) :
    settle 0 ([.ref] ++ loadMedia actf id m) = some (if unknownMedia m then 1 else 0) ∧
      closes ([.ref] ++ loadMedia actf id m) = false := by
  cases m <;> exact ⟨rfl, rfl⟩

theorem loadHandler_settles {cmd : Command} {actf : Callback} (hname : cmd.name ∈ mediaCommands)
    (hh : cmd.handler = loadHandler actf) : Settles cmd := by
  intro lib daemonize ev g args acts hacts
  have hkbd : cmd.name ≠ "msg_kbd" := fun h => absurd (h ▸ hname) (by decide)
  have hquit : cmd.name ∉ quitCommands := fun h =>
    absurd hname ((show ∀ x ∈ quitCommands, x ∉ mediaCommands by decide) _ h)
  unfold handlerActions at hacts
  rw [hh] at hacts
  obtain ⟨f, hget, rfl⟩ := Handler.run_eq_ok hacts
  obtain ⟨id, hid, rfl⟩ := get_map hget
  have hleaky : leaky lib cmd.name args =
      ((lib.messageGet id).filter (!·.service)).elim false fun M => unknownMedia M.media := by
    unfold leaky
    rw [decide_eq_false hkbd, decide_eq_true hname, hid, Bool.false_and, Bool.true_and,
      Bool.false_or, Option.elim_some]
  rw [hleaky]
  unfold plainMessage
  simp only
  cases hM : (lib.messageGet id).filter (!·.service) with
  | none => exact ⟨rfl, iff_of_false Bool.false_ne_true fun h => hquit h.2⟩
  | some M =>
    obtain ⟨hsettle, hcloses⟩ := settle_loadMedia actf id M.media
    exact ⟨hsettle, iff_of_false (hcloses ▸ Bool.false_ne_true) fun h => hquit h.2⟩

theorem quit_settles {cmd : Command} (hname : cmd.name ∈ quitCommands)
    (hh : cmd.handler = doQuit ∨ cmd.handler = doSafeQuit) : Settles cmd := by
  intro lib daemonize ev g args acts hacts
  have hkbd : cmd.name ≠ "msg_kbd" := fun h => absurd (h ▸ hname) (by decide)
  have hmedia : cmd.name ∉ mediaCommands :=
    (show ∀ x ∈ quitCommands, x ∉ mediaCommands by decide) _ hname
  have hleaky : leaky lib cmd.name args = false := by
    unfold leaky
    rw [decide_eq_false hkbd, decide_eq_false hmedia, Bool.false_and, Bool.false_and,
      Bool.false_or]
  rw [hleaky]
  unfold handlerActions at hacts
  rcases hh with hh | hh
  all_goals
    rw [hh] at hacts
    cases hacts
    cases daemonize <;> simp [settle, closes, hname]

/-! ### The table -/

theorem even_commands : ∀ cmd ∈ commands, cmd.name ∈ unevenCommands ∨ Even cmd.handler := by
  rw [commands]
  repeat
    refine List.forall_mem_cons.mpr ⟨?_, ?_⟩
    · first
      | with_reducible exact Or.inr even_help
      | with_reducible exact Or.inr even_stats
      | with_reducible exact Or.inr even_showLicense
      | with_reducible exact Or.inr even_set
      | with_reducible exact Or.inr even_chatWithPeer
      | with_reducible exact Or.inr even_mainSession
      | with_reducible exact Or.inr even_version
      | with_reducible exact Or.inr even_renameContact
      | with_reducible exact Or.inr even_importCard
      | with_reducible exact Or.inr even_acceptSecretChat
      | with_reducible exact Or.inr even_setTtl
      | with_reducible exact Or.inr even_visualizeKey
      | with_reducible exact Or.inr even_sendTyping
      | with_reducible exact Or.inr even_clear
      | exact Or.inl (by decide)
      | exact Or.inr (even_askIf _ _ _)
      | exact Or.inr (even_thumbHandler _)
      | exact Or.inr (even_userPhoto _)
  exact fun _ h => absurd h List.not_mem_nil

theorem quit_handler : ∀ cmd ∈ commands, cmd.name ∈ quitCommands →
    cmd.handler = doQuit ∨ cmd.handler = doSafeQuit := by
  rw [commands]
  repeat
    refine List.forall_mem_cons.mpr ⟨?_, ?_⟩
    · first
      | exact fun h => absurd h (by decide)
      | exact fun _ => .inl rfl
      | exact fun _ => .inr rfl
  exact fun _ h => absurd h List.not_mem_nil

theorem uneven_commands : ∀ cmd ∈ commands, cmd.name ∈ unevenCommands → Settles cmd := by
  rw [commands]
  repeat
    refine List.forall_mem_cons.mpr ⟨?_, ?_⟩
    · first
      | exact fun h => absurd h (by decide +kernel)
      | exact fun _ => msgKbd_settles rfl rfl
      | exact fun _ => quit_settles (by decide) (.inl rfl)
      | exact fun _ => quit_settles (by decide) (.inr rfl)
      | exact fun _ => loadHandler_settles (by decide) rfl
  exact fun _ h => absurd h List.not_mem_nil

/-- **Every command settles.** -/
theorem commands_settle {cmd : Command} (h : cmd ∈ commands) : Settles cmd := by
  by_cases hname : cmd.name ∈ unevenCommands
  · exact uneven_commands cmd h hname
  · exact ((even_commands cmd h).resolve_left hname).settles hname

end TelegramCli.Control.Settle
