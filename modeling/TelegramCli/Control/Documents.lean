import TelegramCli.Control.Gateways
import TelegramCli.Control.Service
import TelegramCli.Json.Packed

/-! # Answers in json mode

With `enable_json` a note that is not printed by a handler itself is one json document a line. The
document of a failure has the field `error_code`, and no other document has it, so that a client can
tell the two apart (`run_documents`). -/

namespace TelegramCli.Control.Documents

open TelegramCli.Lib TelegramCli.Lib.CString TelegramCli.Lib.Jansson TelegramCli.Lib.Run
open TelegramCli.Tgl hiding Peer Message
open TelegramCli.Json.Pack hiding Env Peer Message
open TelegramCli.Interface.Actions (Callback)
open TelegramCli.Interface.Console (Peer)
open TelegramCli.Interface.PrintMessage (Message)
open TelegramCli.Interface.Sessions TelegramCli.Control.AnswerFrames
open TelegramCli.Control.Conversation TelegramCli.Control.Gateways TelegramCli.Control.Service

/-! ### The field `error_code` -/

section Fields

variable {k : String} {v : Json}

theorem without_setString (h : Lacks k v) {key : String} (hkey : key ≠ k) (s : Str) :
    Without k (setString key s v) := h.set hkey _

theorem without_setStringIf (h : Lacks k v) {key : String} (hkey : key ≠ k) (s : Str) :
    Without k (setStringIf key s v) := without_ite h.without (without_setString h hkey s)

theorem without_setInteger (h : Lacks k v) {key : String} (hkey : key ≠ k) (n : ℤ) :
    Without k (setInteger key n v) := h.set hkey _

theorem without_setBoolean (h : Lacks k v) {key : String} (hkey : key ≠ k) (b : Bool) :
    Without k (setBoolean key b v) := h.set hkey _

end Fields

/-- No document of a peer or a message has the field. -/
abbrev NoError (x : Option Json) : Prop := Without "error_code" x

variable {E : Json.Pack.Env} {res : Json}

theorem noError_peerType (id : PeerId) (h : Lacks "error_code" res) :
    NoError (jsonPackPeerType id res) := by
  unfold jsonPackPeerType
  split
  iterate 4 exact without_setString h (by decide) _
  exact without_none

theorem noError_user (P : Json.Pack.Peer) (h : Lacks "error_code" res) :
    NoError (jsonPackUser E P res) := by
  unfold jsonPackUser
  refine (without_setStringIf h (by decide) _).bind fun res h => ?_
  refine (without_ite h.without (without_setString h (by decide) _)).bind fun res h => ?_
  refine (without_setStringIf h (by decide) _).bind fun res h => ?_
  refine (without_setStringIf h (by decide) _).bind fun res h => ?_
  refine (without_setStringIf h (by decide) _).bind fun res h => ?_
  refine (without_setStringIf h (by decide) _).bind fun res h => ?_
  exact without_setStringIf h (by decide) _

theorem noError_chat {packUser : ℤ → Option Json} (P : Json.Pack.Peer) (h : Lacks "error_code" res) :
    NoError (jsonPackChat packUser P res) := by
  unfold jsonPackChat
  refine (without_setString h (by decide) _).bind fun res h => without_bind fun admin => ?_
  refine (h.set (by decide) _).bind fun res h => ?_
  refine (without_setInteger h (by decide) _).bind fun res h => ?_
  cases P.users.userList with
  | none => exact h.without
  | some users => exact without_bind fun m => h.set (by decide) _

theorem noError_channel (P : Json.Pack.Peer) (h : Lacks "error_code" res) :
    NoError (jsonPackChannel P res) := by
  unfold jsonPackChannel
  refine (without_setString h (by decide) _).bind fun res h => ?_
  refine (without_setInteger h (by decide) _).bind fun res h => ?_
  refine (without_setInteger h (by decide) _).bind fun res h => ?_
  exact without_setInteger h (by decide) _

theorem noError_encrChat {packUser : ℤ → Option Json} (P : Json.Pack.Peer)
    (h : Lacks "error_code" res) : NoError (jsonPackEncrChat packUser P res) :=
  without_bind fun _ => h.set (by decide) _

theorem noError_peer (E : Json.Pack.Env) (id : PeerId) : NoError (jsonPackPeer E id) := by
  rw [jsonPackPeer]
  refine (without_setString lacks_empty (by decide) _).bind fun res h => ?_
  refine (noError_peerType id h).bind fun res h => ?_
  refine (without_setInteger h (by decide) _).bind fun res h => ?_
  split
  · exact without_setString h (by decide) _
  · refine (without_setString h (by decide) _).bind fun res h => ?_
    refine (without_setInteger h (by decide) _).bind fun res h => ?_
    split
    · exact noError_user _ h
    · exact noError_chat _ h
    · exact noError_encrChat _ h
    · exact noError_channel _ h
    · exact without_none

theorem noError_header (M : Json.Pack.Message) (h : Lacks "error_code" res) :
    NoError (packHeader E M res) := by
  unfold packHeader
  refine (without_setInteger h (by decide) _).bind fun res h => ?_
  refine (without_ite h.without (without_bind fun fwd => (h.set (by decide) _).bind fun res h =>
    without_setInteger h (by decide) _)).bind fun res h => ?_
  refine (without_ite h.without (without_setString h (by decide) _)).bind fun res h => ?_
  refine (without_ite (without_setBoolean h (by decide) _) h.without).bind fun res h => ?_
  refine without_bind fun sender => (h.set (by decide) _).bind fun res h => ?_
  refine without_bind fun receiver => (h.set (by decide) _).bind fun res h => ?_
  refine (without_setBoolean h (by decide) _).bind fun res h => ?_
  refine (without_setBoolean h (by decide) _).bind fun res h => ?_
  refine (without_setBoolean h (by decide) _).bind fun res h => ?_
  exact without_setInteger h (by decide) _

theorem noError_content (M : Json.Pack.Message) (h : Lacks "error_code" res) :
    NoError (packContent E M res) := by
  unfold packContent
  refine (without_ite h.without (without_setString h (by decide) _)).bind fun res h => ?_
  exact without_ite h.without (without_bind fun media => h.set (by decide) _)

theorem noError_action (M : Json.Pack.Message) (h : Lacks "error_code" res) :
    NoError (packAction E M res) := by
  unfold packAction
  refine (without_setString h (by decide) _).bind fun res h => ?_
  exact without_bind fun action => h.set (by decide) _

theorem noError_message (M : Json.Pack.Message) : NoError (jsonPackMessage E M) := by
  unfold jsonPackMessage
  refine (without_setString lacks_empty (by decide) _).bind fun res h => ?_
  refine (without_setString h (by decide) _).bind fun res h => without_ite h.without ?_
  refine (noError_header M h).bind fun res h => ?_
  exact without_ite (noError_action M h) (noError_content M h)

theorem noError_array {α : Type} (pack : α → Option Json) (xs : List α) :
    NoError (arrayDocument pack xs) :=
  without_foldlM (fun _ _ _ => Lacks.append _) _ rfl

theorem noError_string (s : Str) : NoError (stringDocument s) :=
  without_setString lacks_empty (by decide) _

/-- The document of a result. -/
theorem noError_payload (cb : Callback) (p : Payload cb) : NoError (payloadDocument E cb p) := by
  cases cb with
  | printMsgList => exact noError_array _ _
  | printMsgListHistory => exact noError_array _ _
  | printUserList => exact noError_array _ _
  | printDialogList => exact noError_array _ _
  | printMsg => exact noError_message _
  | printPeer => exact without_ite (noError_peer E _) without_none
  | printFilename =>
    exact (noError_string _).bind fun res h => without_setString h (by decide) _
  | openFilename => exact without_none
  | printUser | printUserInfo | printSecretChat | printChatInfo | printChannelInfo =>
    exact noError_peer E _
  | _ => exact noError_string _

theorem noError_userStatus (U : User) : NoError (jsonPackUserStatus E U) := by
  unfold jsonPackUserStatus
  refine without_bind fun user => (lacks_empty.set (by decide) _).bind fun res h => ?_
  refine (without_setBoolean h (by decide) _).bind fun res h => ?_
  refine (without_setInteger h (by decide) _).bind fun res h => ?_
  have hwhen : NoError (statusWhen E U.status res) := by
    unfold statusWhen
    iterate 5 refine without_ite (without_setString h (by decide) _) ?_
    exact h.without
  exact hwhen.bind fun res h => without_setString h (by decide) _

/-- The document of an update. -/
theorem noError_update (u : Update) : NoError (updateDocument E u) := by
  have hpeer : ∀ (P : Peer) (flags : UpdateFlags), NoError (jsonPeerUpdate E P flags) := by
    intro P flags
    unfold jsonPeerUpdate
    refine (without_setString lacks_empty (by decide) _).bind fun res h => ?_
    refine without_bind fun peer => (h.set (by decide) _).bind fun res h => ?_
    exact without_bind fun updates => h.set (by decide) _
  cases u with
  | user U flags => exact hpeer _ _
  | chat U flags => exact hpeer _ _
  | secretChat U flags => exact hpeer _ _
  | message M => exact noError_message _
  | userStatus U => exact noError_userStatus U
  | _ => exact without_none

/-- **A failure has the field**, and its code is there. -/
theorem failDocument_code {code : ℤ} {error : Str} {v : Json}
    (h : failDocument code error = some v) :
    jsonObjectGet v "error_code" = some (.integer code) := by
  unfold failDocument at h
  obtain ⟨res, -, h⟩ := Option.bind_eq_some_iff.mp h
  obtain ⟨res', hcode, h⟩ := Option.bind_eq_some_iff.mp h
  rw [get_of_set h, if_neg (by decide), get_of_set hcode, if_pos rfl]

/-! ### Notes -/

/-- The code of a note that reports a failure. -/
def errorCode : Note Result Update → Option ℤ
  | .fail _ => some enosys
  | .result _ (.error (code, _)) => some code
  | _ => none

/-- What was printed are documents: one with the code if the note reports a failure, and otherwise
only documents without a code. -/
def Documented (G : Env) (n : Note Result Update) (pieces : List (List UInt8)) : Prop :=
  ∃ vs : List Json, pieces = vs.map (documentLine G) ∧
    match errorCode n with
    | some code => ∃ v, vs = [v] ∧ jsonObjectGet v "error_code" = some (.integer code)
    | none => ∀ v ∈ vs, Lacks "error_code" v

variable {G : Env} {users users' : List ℤ} {pieces : List (List UInt8)}

theorem printDocument_eq_ok {x : Option Json}
    (h : printDocument G users x = .ok (pieces, users')) :
    ∃ v, x = some v ∧ pieces = [documentLine G v] ∧ users' = users := by
  cases x with
  | none => cases h
  | some v =>
    cases h
    exact ⟨v, rfl, rfl, rfl⟩

theorem documented_fail (hjson : G.enableJson = true) {n : Note Result Update} {code : ℤ}
    {error : Str} (hn : errorCode n = some code)
    (h : printFail G users code error = .ok (pieces, users')) : Documented G n pieces := by
  unfold printFail at h
  rw [if_pos hjson] at h
  obtain ⟨v, hv, rfl, -⟩ := printDocument_eq_ok h
  refine ⟨[v], rfl, ?_⟩
  rw [hn]
  exact ⟨v, rfl, failDocument_code hv⟩

theorem documented_of_noError {n : Note Result Update} {x : Option Json} (hn : errorCode n = none)
    (hx : NoError x) (h : printDocument G users x = .ok (pieces, users')) :
    Documented G n pieces := by
  obtain ⟨v, hv, rfl, -⟩ := printDocument_eq_ok h
  refine ⟨[v], rfl, ?_⟩
  rw [hn]
  intro w hw
  rw [List.mem_singleton.mp hw]
  exact hx v hv

theorem noError_read {F : Interface.MarkRead.Env Message} (m : Message) :
    NoError (Interface.MarkRead.jsonPackRead F m) :=
  (noError_message _).bind fun res h => without_setString h (by decide) _

/-- The documents of `print_read_list`. -/
theorem printReadList_documents (hjson : G.enableJson = true) :
    ∀ {list : List (Option Message)} {users : List ℤ} {p : Interface.MarkRead.Printed Message},
    Interface.MarkRead.printReadList G.markRead users list = some p →
    ∃ vs : List Json, p.lines = vs.map (documentLine G) ∧ ∀ v ∈ vs, Lacks "error_code" v
  | [], users, p, h => by
    rw [Interface.MarkRead.printReadList] at h
    cases h
    exact ⟨[], rfl, by simp⟩
  | none :: list, users, p, h => by
    rw [Interface.MarkRead.printReadList] at h
    obtain ⟨q, hq, rfl⟩ := Option.map_eq_some_iff.mp h
    have hvs := printReadList_documents hjson hq
    exact hvs
  | some m :: list, users, p, h => by
    have hlen := Interface.MarkRead.length_countLoop G.markRead
      (Interface.MarkRead.dialogOf G.markRead m) 0 0 (some m :: list)
    have henable : G.markRead.enableJson = true := hjson
    rw [Interface.MarkRead.printReadList] at h
    obtain ⟨json, hdoc, h⟩ := Option.bind_eq_some_iff.mp h
    simp only [Option.ite_none_right_eq_some] at h
    obtain ⟨text, htext, h⟩ := Option.bind_eq_some_iff.mp h.2
    obtain ⟨q, hq, rfl⟩ := Option.map_eq_some_iff.mp h
    obtain ⟨vs, hvs, herror⟩ := printReadList_documents hjson hq
    rw [Interface.MarkRead.printJson, if_pos henable] at hdoc
    obtain ⟨v, hv, rfl⟩ := Option.map_eq_some_iff.mp hdoc
    rw [Interface.MarkRead.printText, if_pos henable] at htext
    cases htext
    refine ⟨v :: vs, ?_, fun w hw => ?_⟩
    · rw [List.append_nil, hvs]
      rfl
    · rcases List.mem_cons.mp hw with rfl | hw
      · exact noError_read m _ hv
      · exact herror w hw
termination_by list => list.length
decreasing_by
  · exact Nat.lt_succ_self _
  · rw [List.length_tail, hlen, List.length_cons]
    omega

theorem printNote_result (hjson : G.enableJson = true) {cb : Callback}
    (hcb : cb ≠ .openFilename) (p : Payload cb) (ev : Bool) (users : List ℤ) :
    printNote G ev users (.result cb (.ok p)) =
      printDocument G users (payloadDocument G.json cb p) := by
  cases cb <;> first | exact absurd rfl hcb | exact if_pos hjson

theorem printNote_error (cb : Callback) (e : ℤ × Str) (ev : Bool) (users : List ℤ) :
    printNote G ev users (.result cb (.error e)) = printFail G users e.1 e.2 := by
  cases cb <;> rfl

theorem printNote_update (hjson : G.enableJson = true) {u : Update}
    (hu : ∀ list, u ≠ .markedRead list) (ev : Bool) (users : List ℤ) :
    printNote G ev users (.update u) = printDocument G users (updateDocument G.json u) := by
  cases u <;> first | exact absurd rfl (hu _) | exact if_pos hjson

/-- **A note in json mode** is printed as documents, if the handlers do not print it themselves. -/
theorem printNote_documents (hjson : G.enableJson = true) {ev : Bool} {n : Note Result Update}
    (hown : ∀ x, n ≠ .own x) (h : printNote G ev users n = .ok (pieces, users')) :
    Documented G n pieces := by
  cases n with
  | fail text => exact documented_fail hjson rfl h
  | own x => exact absurd rfl (hown x)
  | result cb r =>
    cases r with
    | error e =>
      rw [printNote_error] at h
      exact documented_fail hjson rfl h
    | ok p =>
      by_cases hcb : cb = .openFilename
      · subst hcb
        cases h
        exact ⟨[], rfl, by simp [errorCode]⟩
      · rw [printNote_result hjson hcb] at h
        exact documented_of_noError rfl (noError_payload cb p) h
  | update u =>
    by_cases hlist : ∃ list, u = .markedRead list
    · obtain ⟨list, rfl⟩ := hlist
      simp only [printNote] at h
      cases hp : Interface.MarkRead.printReadList G.markRead users list with
      | none => simp [hp] at h
      | some p =>
        rw [hp] at h
        cases h
        exact printReadList_documents hjson hp
    · rw [printNote_update hjson fun list hu => hlist ⟨list, hu⟩] at h
      exact documented_of_noError rfl (noError_update u) h

/-! ### Runs -/

/-- **In json mode** a client reads back the notes of its connection, and those that the handlers do
not print themselves are documents, which have an error code exactly if the note is of a failure. -/
theorem run_documents {huge : SocketAnswer → List UInt8} {daemonize : Bool} {s : Session}
    {sa : SocketAnswer} {is : List (Input Result Update)} {srv : Server Result Update (List ℤ)}
    {h : History} {a : ℕ} (hjson : G.enableJson = true)
    (hrun : Runs (Serve (printers G huge) daemonize) (Server.start s users sa, History.start) is
      (srv, h))
    (hfit : ∀ n ∈ srv.talk.sent a, n.2.flatten.length < 2 ^ 25) :
    readAnswers (srv.talk.wire a) = some ((srv.talk.sent a).map fun n => n.2.flatten) ∧
      ∀ n ∈ srv.talk.sent a, (∀ x, n.1 ≠ .own x) → Documented G n.1 n.2 := by
  have hwired := run_kept kept_wired hrun (start_serving s users sa).wired
  have huttered := run_kept kept_uttered hrun fun _ _ hn => absurd hn List.not_mem_nil
  refine ⟨hwired.readAnswers hfit, fun n hn hown => ?_⟩
  obtain ⟨kept, kept', hprint⟩ := huttered a n hn
  exact printNote_documents hjson hown hprint

/-! ### A sample -/

/-- The text of a flat document whose strings need no escapes. -/
def flatDumps : Json → Str
  | .object fields => some (lit "\x7b" ++ (List.intersperse (lit ", ") (fields.map fun f =>
      lit "\"" ++ lit f.1 ++ lit "\": " ++
        match f.2 with
        | .string s => lit "\"" ++ lit s ++ lit "\""
        | .integer n => CNumber.decimal n
        | _ => [])).flatten ++ lit "\x7d")
  | _ => none

/-- Gateways in json mode. -/
def sampleGateways : Gateways.Env where
  text := Interface.PrintMessage.sampleEnv
  json := Json.Packed.sampleEnv
  enableJson := true
  jsonDumps := flatDumps
  statBuf := []
  license := []
  telegramCliVersion := lit "1.4.1"
  tglVersion := lit "2.1.0"
  cryptoLibrary := lit "libopenssl"
  visualizeKey _ := Vector.replicate 16 0

/-- Results that are all failures. -/
def sampleResults : Results Result :=
  ⟨fun _ _ => .error (400, some (lit "no")), fun _ => .error (400, some (lit "no"))⟩

/-- The document that a command without a name is answered with. -/
def notFound : List UInt8 :=
  lit ("\x7b\"result\": \"FAIL\", \"error_code\": 38, " ++
    "\"error\": \"can not find command 'foo'\"\x7d\n")

/-- A line that is no command. -/
theorem run_documents_notFound : ∃ srv : Server Result Update (List ℤ),
    srv.talk.sent 0 = [(.fail (lit "can not find command 'foo'"), [notFound])] ∧
      readAnswers (srv.talk.wire 0) = some [notFound] ∧
      ∀ n ∈ srv.talk.sent 0, (∀ x, n.1 ≠ .own x) → Documented sampleGateways n.1 n.2 := by
  have hline : ∃ (t : Talk Result Update (List ℤ)) (asked : ℕ → List Matter),
      Runs (Asked (printers sampleGateways fun _ => []) true)
        ((Talk.start Session.start [] ⟨[], -1⟩).accept 0, Function.update (fun _ => []) 0 [])
        [.line aliceLibrary sampleResults (some 0) (some (lit "foo"))] (t, asked) ∧
        t.world.heap 0 = some ⟨true, 1⟩ ∧
        t.sent 0 = [(.fail (lit "can not find command 'foo'"), [notFound])] :=
    ⟨_, _, .cons (t := (_, _)) ⟨.line (fun a ha => ⟨⟨true, 1⟩, by cases ha; exact ⟨rfl, rfl⟩⟩)
      rfl, rfl⟩ (.nil _), rfl, rfl⟩
  obtain ⟨t, asked, hrun, hheap, hsent⟩ := hline
  obtain ⟨srv, h, hserve, rfl, -⟩ := serve_line_run (by decide) (by decide) (by decide)
    hrun ⟨_, hheap, rfl⟩
  have hfit : ∀ n ∈ srv.talk.sent 0, n.2.flatten.length < 2 ^ 25 := by
    rw [hsent]
    decide
  obtain ⟨hread, hdocuments⟩ := run_documents rfl hserve hfit
  refine ⟨srv, hsent, ?_, hdocuments⟩
  rw [hread, hsent]
  rfl

end TelegramCli.Control.Documents
