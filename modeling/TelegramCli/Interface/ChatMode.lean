import TelegramCli.Interface.Head
import TelegramCli.Interface.Sessions

/-! # Chat mode and control connections

The test of `in_chat_mode` comes before anything else in `interpreter_ex`, and does not look at
where the line is from. So a line of a control connection that is not empty is handled by the
commands or by the chat mode of the console, never the same way by both (`chatEffects_ne`), and two
consoles in chat mode handle it alike when the chat partner is the same or the line ends the mode.
`handled_eq_iff` says that this is all. -/

namespace TelegramCli.Interface.ChatMode

open TelegramCli.Lib.CString TelegramCli.Interface.Token TelegramCli.Interface.Commands
open TelegramCli.Interface.Actions TelegramCli.Interface.Interpreter TelegramCli.Interface.Head
open TelegramCli.Interface.Sessions

variable {lib : Library}

/-- What is done about a line of a control connection. -/
def handled (lib : Library) (σ : Session) (line : List UInt8) : Option (List Effect) :=
  effects σ (interpreterEx lib.env commands σ.inChatMode (some line))

/-- The line ends the chat mode. -/
def exitsChat (line : List UInt8) : Bool :=
  (lit "/exit").isPrefixOf line || (lit "/quit").isPrefixOf line

/-! ### Lines that start with a slash -/

theorem names_no_slash : ∀ cmd ∈ commands, deref (lit cmd.name) ≠ 47 := by decide +kernel

/-- The first token of such a line starts with the slash. -/
theorem parseHead_slash {E : Env} (p : List UInt8) :
    ∃ g t, parseHead E (47 :: p) = .name g t ∧ deref t.tok = 47 := by
  have hskip : skipWspc (47 :: p) = 47 :: p := skipWspc_of_lt (by decide) p
  have hword : skipWord (47 :: p) = skipWord p := by rw [skipWord, if_pos (by decide)]
  have hlen := length_skipWord_le p
  have hpos : 0 < (47 :: p : List UInt8).length - (skipWord p).length := by
    rw [List.length_cons]; omega
  have ht : nextToken true (Scanner.start (47 :: p)) = some
      ⟨skipWord p, 47 :: p, ((47 :: p : List UInt8).length - (skipWord p).length : ℕ), false,
        false⟩ := by
    simp [nextToken, Scanner.start, hskip, hword, dquote, squote]
  refine ⟨Globals.reset, ⟨skipWord p, 47 :: p, ((47 :: p : List UInt8).length -
    (skipWord p).length : ℕ), false, false⟩, ?_, ?_⟩
  · rw [parseHead, modifierLoop, ht]
    simp only [if_neg Bool.false_ne_true, deref_cons]
    rw [if_neg (by rw [not_le]; exact_mod_cast hpos), if_neg (by decide)]
  · obtain ⟨n, hn⟩ := Nat.exists_eq_succ_of_ne_zero hpos.ne'
    rw [Scanner.tok, Int.toNat_natCast, hn, List.take_succ_cons, deref_cons]

/-- No command is called so. -/
theorem interpretLine_slash {E : Env} (p : List UInt8) :
    ∃ text, interpretLine E commands (47 :: p) = failInterface E text := by
  obtain ⟨g, t, hh, htok⟩ := parseHead_slash (E := E) p
  obtain ⟨hq, he⟩ := parseHead_name hh
  rw [interpretLine, hh]
  simp only [hq, he, Bool.or_false, if_neg Bool.false_ne_true]
  cases hf : findCommand commands t with
  | none => exact ⟨_, rfl⟩
  | some cmd =>
    have hname : t.tok = lit cmd.name := by simpa using List.find?_some hf
    exact absurd (hname ▸ htok) (names_no_slash cmd (findCommand_mem hf))

/-! ### The chat mode and the commands -/

/-- The effect belongs to a command line. -/
def ofCommand : Effect → Bool
  | .call _ _ _ => true
  | .fail _ => true
  | .extf _ => true
  | .chat _ _ => false
  | .safeQuit => false

theorem effects_failInterface {σ : Session} {E : Env} {text : List UInt8} {es : List Effect}
    (h : effects σ (failInterface E text) = some es) : ∃ error, es = [.fail error] := by
  rcases failInterface_cases E text with ho | ⟨error, ho⟩ <;> rw [ho] at h
  · cases h
  · exact ⟨error, (Option.some.inj h).symm⟩

theorem effects_finish {σ : Session} {E : Env} {cmd : Command} {g : Globals} {x : Args.Exit}
    {es : List Effect} (h : effects σ (finish E cmd g x) = some es) :
    ∀ e ∈ es, ofCommand e = true := by
  intro e he
  cases x with
  | dispatch args =>
    cases h
    rw [(List.mem_replicate.mp he).2]; rfl
  | fail text =>
    obtain ⟨error, rfl⟩ := effects_failInterface h
    rw [List.mem_singleton.mp he]; rfl
  | silent => cases h; cases he
  | abort => cases h
  | hang => cases h

/-- Out of chat mode a line has the effects of a command. -/
theorem effects_line {σ : Session} {E : Env} {line : List UInt8} {es : List Effect}
    (h : effects σ (interpreterEx E commands false (some line)) = some es) :
    ∀ e ∈ es, ofCommand e = true := by
  unfold interpreterEx at h
  simp only [if_neg Bool.false_ne_true] at h
  split_ifs at h with h0 h40
  · cases h; simp
  · cases h
    intro e he
    rw [List.mem_singleton.mp he]; rfl
  · rcases interpretLine_cases (E := E) commands line with (ho | ⟨text, ho⟩) | ⟨g, t, cmd, hh, hf⟩
    · rw [ho] at h; cases h
    · rw [ho] at h; cases h
      intro e he
      rw [List.mem_singleton.mp he]; rfl
    · rw [interpretLine_name hh hf] at h
      exact effects_finish h

/-- In chat mode a line is a query of the chat, or ends the mode. -/
theorem chatEffects_cases (σ : Session) {line : List UInt8} (h0 : deref line ≠ 0) :
    (exitsChat line = true ∧ chatEffects σ (interpreterChatMode (some line)) = []) ∨
      (exitsChat line = false ∧
        ∃ q cb, chatEffects σ (interpreterChatMode (some line)) = [.chat q cb]) := by
  have hmode : ((lit "/exit").isPrefixOf line || (lit "/quit").isPrefixOf line) =
    exitsChat line := rfl
  simp only [interpreterChatMode, hmode, ne_eq, h0, not_false_eq_true, if_true]
  cases exitsChat line with
  | true => exact Or.inl ⟨rfl, rfl⟩
  | false =>
    rw [if_neg Bool.false_ne_true]
    refine Or.inr ⟨rfl, ?_⟩
    split_ifs <;> exact ⟨_, _, rfl⟩

theorem deref_of_exitsChat {line : List UInt8} (h : exitsChat line = true) :
    ∃ p, line = 47 :: p := by
  rw [exitsChat, Bool.or_eq_true, List.isPrefixOf_iff_prefix, List.isPrefixOf_iff_prefix] at h
  rcases h with ⟨p, rfl⟩ | ⟨p, rfl⟩ <;> exact ⟨_, rfl⟩

/-- **One of two modes** handles a line. -/
theorem chatEffects_ne {σ τ : Session} {E : Env} {line : List UInt8} (h0 : deref line ≠ 0) :
    effects σ (interpreterEx E commands false (some line)) ≠
      effects τ (interpreterEx E commands true (some line)) := by
  have hchat : effects τ (interpreterEx E commands true (some line)) =
      some (chatEffects τ (interpreterChatMode (some line))) := rfl
  rw [hchat]
  intro h
  rcases chatEffects_cases τ h0 with ⟨hexit, he⟩ | ⟨-, q, cb, he⟩
  · obtain ⟨p, rfl⟩ := deref_of_exitsChat hexit
    obtain ⟨text, ho⟩ := interpretLine_slash (E := E) p
    rw [interpreterEx_line h0 (by rw [deref_cons]; decide), ho, he] at h
    obtain ⟨error, herr⟩ := effects_failInterface h
    exact absurd herr (by simp)
  · rw [he] at h
    exact absurd (effects_line h _ (List.mem_singleton.mpr rfl)) (by simp [ofCommand])

/-- Two partners of a chat are handled alike when no query names them. -/
theorem chatEffects_eq_iff {σ τ : Session} (hg : σ.globals = τ.globals) {line : List UInt8}
    (h0 : deref line ≠ 0) : chatEffects σ (interpreterChatMode (some line)) =
      chatEffects τ (interpreterChatMode (some line)) ↔
      exitsChat line = true ∨ σ.chatModeId = τ.chatModeId := by
  rcases chatEffects_cases σ h0 with ⟨hexit, he⟩ | ⟨hexit, q, cb, he⟩
  · rcases chatEffects_cases τ h0 with ⟨-, ht⟩ | ⟨hno, -⟩
    · rw [he, ht]; exact iff_of_true rfl (Or.inl hexit)
    · rw [hexit] at hno; cases hno
  · rw [hexit]
    cases hc : interpreterChatMode (some line) with
    | exit => rw [hc] at he; cases he
    | history limit => simp [chatEffects, hg]
    | read => simp [chatEffects]
    | send text => simp [chatEffects]
    | nothing => rw [hc] at he; cases he

theorem handled_empty (σ : Session) {line : List UInt8} (h0 : deref line = 0) :
    effects σ (interpreterEx lib.env commands σ.inChatMode (some line)) = some [] := by
  cases σ.inChatMode with
  | false => simp [interpreterEx, h0, effects]
  | true =>
    cases line with
    | nil => rfl
    | cons c p =>
      obtain rfl : c = 0 := h0
      rfl

theorem interpreterEx_ne_chat {E : Env} {line : Option (List UInt8)} {c : ChatCommand} :
    interpreterEx E commands false line ≠ .chat c := by
  unfold interpreterEx
  rw [if_neg Bool.false_ne_true]
  cases line with
  | none => simp
  | some l =>
    simp only
    split_ifs
    · simp
    · simp
    · exact (interpretLine_ne commands l).1 c

/-- Out of chat mode the session has no part in the effects. -/
theorem effects_congr (σ τ : Session) {E : Env} (line : Option (List UInt8)) :
    effects σ (interpreterEx E commands false line) =
      effects τ (interpreterEx E commands false line) := by
  cases ho : interpreterEx E commands false line with
  | chat c => exact absurd ho interpreterEx_ne_chat
  | _ => rfl

/-- **A line of a control connection** is handled the same way in two states that differ in the chat
mode and its partner only when neither is in chat mode, or the line is empty, or both are, and have
one partner or get a line that ends the mode. -/
theorem handled_eq_iff (lib : Library) (σ τ : Session) (hg : σ.globals = τ.globals)
    (line : List UInt8) : handled lib σ line = handled lib τ line ↔
      deref line = 0 ∨ (σ.inChatMode = false ∧ τ.inChatMode = false) ∨
        (σ.inChatMode = true ∧ τ.inChatMode = true ∧
          (exitsChat line = true ∨ σ.chatModeId = τ.chatModeId)) := by
  unfold handled
  by_cases h0 : deref line = 0
  · rw [handled_empty σ h0, handled_empty τ h0]
    exact iff_of_true rfl (Or.inl h0)
  cases hσ : σ.inChatMode <;> cases hτ : τ.inChatMode
  · refine iff_of_true ?_ (Or.inr (Or.inl ⟨rfl, rfl⟩))
    exact effects_congr σ τ _
  · refine iff_of_false (chatEffects_ne h0) ?_
    simp [h0]
  · refine iff_of_false (chatEffects_ne h0).symm ?_
    simp [h0]
  · have hσ' : effects σ (interpreterEx lib.env commands true (some line)) =
        some (chatEffects σ (interpreterChatMode (some line))) := rfl
    have hτ' : effects τ (interpreterEx lib.env commands true (some line)) =
        some (chatEffects τ (interpreterChatMode (some line))) := rfl
    rw [hσ', hτ', Option.some.injEq, chatEffects_eq_iff hg h0]
    simp [h0]

theorem handled_eq_iff_help :
    handled aliceLibrary ⟨false, alice.id, Globals.reset⟩ (lit "stats") =
      handled aliceLibrary ⟨false, aliceLibrary.ourId, Globals.reset⟩ (lit "stats") ↔
    deref (lit "stats") = 0 ∨ (false = false ∧ false = false) ∨
      (false = true ∧ false = true ∧
        (exitsChat (lit "stats") = true ∨ alice.id = aliceLibrary.ourId)) :=
  handled_eq_iff aliceLibrary ⟨false, alice.id, Globals.reset⟩
    ⟨false, aliceLibrary.ourId, Globals.reset⟩ rfl (lit "stats")

/-- A command of a control connection that the chat partner of the console gets as a text. -/
theorem command_sent_to_partner :
    handled aliceLibrary ⟨true, alice.id, Globals.reset⟩ (lit "stats") =
      some [.chat (.sendMessage alice.id (some (lit "stats")) {} none) none] ∧
    handled aliceLibrary ⟨true, alice.id, Globals.reset⟩ (lit "stats") ≠
      handled aliceLibrary ⟨false, alice.id, Globals.reset⟩ (lit "stats") := by
  have hchat : handled aliceLibrary ⟨true, alice.id, Globals.reset⟩ (lit "stats") =
    some [.chat (.sendMessage alice.id (some (lit "stats")) {} none) none] := rfl
  refine ⟨hchat, ?_⟩
  exact (chatEffects_ne (by decide)).symm

end TelegramCli.Interface.ChatMode
