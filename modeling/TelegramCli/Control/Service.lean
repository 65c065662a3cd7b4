import TelegramCli.Control.Conversation
import TelegramCli.Control.Framing

/-! # A connection from end to end

The program with the buffers of its connections: bytes arrive in chunks, `read_incoming` takes lines
out of them, each line is handled as in `Conversation`, and answers and updates leave as frames, at
any time and to any connection. A client that sends lines that fit gets each of them handled once
and in order, and reads back from its stream the notes that were printed for it; the answers among
them are what its lines asked about, except for the queries still under way (`run_serves`). -/

namespace TelegramCli.Control.Service

open TelegramCli.Lib.CString TelegramCli.Lib.Lines TelegramCli.Lib.Records TelegramCli.Lib.Run
open TelegramCli.Interface.Actions TelegramCli.Interface.Sessions
open TelegramCli.Control.AnswerFrames TelegramCli.Control.Connections
open TelegramCli.Control.Conversation TelegramCli.Control.Framing
open TelegramCli.Control.ReadIncoming (InBuf newline readIncoming)

variable {ρ : Callback → Type} {υ σ : Type} {P : Printers ρ υ σ} {daemonize : Bool}

/-! ### What is written -/

/-- What was written to a connection are the frames of its notes, if they all fit. -/
def Wired (t : Talk ρ υ σ) : Prop :=
  ∀ a, (∀ n ∈ t.sent a, n.2.flatten.length < 2 ^ 25) →
    t.wire a = ((t.sent a).map fun n => frame n.2.flatten).flatten

/-- **A step** writes frames only. -/
theorem kept_wired : Kept P (Wired : Talk ρ υ σ → Prop) where
  world _ _ h := h
  accept t b h := by
    intro a ha
    simp only [Talk.accept] at ha ⊢
    by_cases hab : a = b
    · subst hab
      rw [Function.update_self, Function.update_self]
      rfl
    · rw [Function.update_of_ne hab] at ha ⊢
      rw [Function.update_of_ne hab]
      exact h a ha
  speak ev n t t' hspeak h := by
    obtain rfl | ⟨pieces, kept, sa, -, rfl⟩ | ⟨b, pieces, kept, -, -, rfl⟩ := speak_cases hspeak
    · exact h
    · exact h
    · intro a ha
      simp only at ha ⊢
      by_cases hab : a = b
      · subst hab
        rw [Function.update_self] at ha
        rw [Function.update_self, Function.update_self, List.map_append, List.flatten_append,
          h a fun m hm => ha m (List.mem_append_left _ hm), List.map_singleton,
          List.flatten_singleton]
        congr 1
        exact answer_eq_frame _ (ha _ (List.mem_append_right _ List.mem_cons_self))
      · rw [Function.update_of_ne hab] at ha ⊢
        rw [Function.update_of_ne hab]
        exact h a ha

/-- Every note that was sent was printed in these pieces. -/
def Uttered (P : Printers ρ υ σ) (t : Talk ρ υ σ) : Prop :=
  ∀ a, ∀ n ∈ t.sent a, ∃ kept kept', P.print true n.1 kept = .ok (n.2, kept')

theorem kept_uttered : Kept P (Uttered P) where
  world _ _ h := h
  accept t b h := by
    intro a n hn
    simp only [Talk.accept] at hn
    by_cases hab : a = b
    · subst hab
      rw [Function.update_self] at hn
      exact absurd hn List.not_mem_nil
    · rw [Function.update_of_ne hab] at hn
      exact h a n hn
  speak ev n t t' hspeak h := by
    obtain rfl | ⟨pieces, kept, sa, -, rfl⟩ | ⟨b, pieces, kept, -, hprint, rfl⟩ :=
      speak_cases hspeak
    · exact h
    · exact h
    · intro a m hm
      simp only at hm
      by_cases hab : a = b
      · subst hab
        rw [Function.update_self] at hm
        rcases List.mem_append.mp hm with hm | hm
        · exact h a m hm
        · rw [List.mem_singleton.mp hm]
          exact ⟨t.kept, kept, hprint⟩
      · rw [Function.update_of_ne hab] at hm
        exact h a m hm

/-- **A client reads back** the notes of its connection. -/
theorem Wired.readAnswers {t : Talk ρ υ σ} (h : Wired t) {a : ℕ}
    (hfit : ∀ n ∈ t.sent a, n.2.flatten.length < 2 ^ 25) :
    readAnswers (t.wire a) = some ((t.sent a).map fun n => n.2.flatten) := by
  rw [h a hfit]
  exact readAll_encoded fun n _ =>
    ⟨by unfold frame; exact List.append_ne_nil_of_left_ne_nil (by decide) _,
      readAnswer_frame n.2.flatten⟩

/-! ### The program with its buffers -/

/-- `in_buf` of each connection, with the bytes that its bufferevent has. -/
structure Server (ρ : Callback → Type) (υ σ : Type) where
  talk : Talk ρ υ σ
  bufs : ℕ → InBuf × List UInt8

/-- What the connections have sent, the memory that was handed to `interpreter_ex`, and what they
have asked about. The program does not keep it. -/
structure History where
  received : ℕ → List UInt8
  handed : ℕ → List (List UInt8)
  asked : ℕ → List Matter

inductive Input (ρ : Callback → Type) (υ : Type)
  /-- A chunk arrives; for every line there is what the library answers to it. -/
  | receive (a : ℕ) (chunk : List UInt8) (calls : List (Library × Results ρ))
  | turn (l : Turn ρ υ)

/-- The lines of a connection. -/
def lineTurns (a : ℕ) (calls : List (Library × Results ρ)) (handed : List (List UInt8)) :
    List (Turn ρ υ) :=
  List.zipWith (fun call m => .line call.1 call.2 (some a) (some (cstring m))) calls handed

/-- The step is neither a new connection nor a line of one. -/
def Elsewhere : Turn ρ υ → Prop
  | .accept _ => False
  | .line _ _ (some _) _ => False
  | _ => True

/-- A step of the program, with the history. That a line closes the connection under the loop is no
step. -/
inductive Serve (P : Printers ρ υ σ) (daemonize : Bool) :
    Server ρ υ σ × History → Input ρ υ → Server ρ υ σ × History → Prop
  | accept {s : Server ρ υ σ} {h : History} {t : Talk ρ υ σ} {a : ℕ} :
    TalkStep P daemonize s.talk (.accept a) t →
    Serve P daemonize (s, h) (.turn (.accept a))
      (⟨t, Function.update s.bufs a (.fresh, [])⟩,
        ⟨Function.update h.received a [], Function.update h.handed a [],
          asks daemonize s.talk h.asked (.accept a)⟩)
  | receive {s : Server ρ υ σ} {h : History} {t : Talk ρ υ σ} {a : ℕ} {chunk : List UInt8}
    {calls : List (Library × Results ρ)} {o : ReadIncoming.Outcome} {asked : ℕ → List Matter} :
    s.talk.world.isOpen a → o = readIncoming (s.bufs a).1 ((s.bufs a).2 ++ chunk) →
    calls.length = o.handed.length →
    Runs (Asked P daemonize) (s.talk, h.asked) (lineTurns a calls o.handed) (t, asked) →
    t.world.isOpen a →
    Serve P daemonize (s, h) (.receive a chunk calls)
      (⟨t, Function.update s.bufs a (o.buf, o.avail)⟩,
        ⟨Function.update h.received a (h.received a ++ chunk),
          Function.update h.handed a (h.handed a ++ o.handed), asked⟩)
  | turn {s : Server ρ υ σ} {h : History} {t : Talk ρ υ σ} {l : Turn ρ υ} : Elsewhere l →
    TalkStep P daemonize s.talk l t →
    Serve P daemonize (s, h) (.turn l)
      (⟨t, s.bufs⟩, { h with asked := asks daemonize s.talk h.asked l })

def Server.start (s : Session) (kept : σ) (sa : SocketAnswer) : Server ρ υ σ :=
  ⟨Talk.start s kept sa, fun _ => (.fresh, [])⟩

def History.start : History := ⟨fun _ => [], fun _ => [], fun _ => []⟩

/-! ### Runs -/

/-- The lines that were handed over are those that `serve` takes off the stream, and the buffer has
the rest. -/
def Framed (b : InBuf × List UInt8) (received : List UInt8) (handed : List (List UInt8)) : Prop :=
  List.Forall₂ ReadIncoming.Holds handed (serve received).1 ∧ Rep (serve received).2 b.1 b.2

theorem framed_fresh : Framed (.fresh, []) [] [] := by
  have hserve : serve [] = ([], []) := serve_stuck (by simp)
  unfold Framed
  rw [hserve]
  exact ⟨.nil, Rep.fresh⟩

/-- **A chunk** is served behind what was received. -/
theorem Framed.receive {b : InBuf × List UInt8} {received : List UInt8}
    {handed : List (List UInt8)} (h : Framed b received handed) (chunk : List UInt8) :
    Framed ((readIncoming b.1 (b.2 ++ chunk)).buf, (readIncoming b.1 (b.2 ++ chunk)).avail)
      (received ++ chunk) (handed ++ (readIncoming b.1 (b.2 ++ chunk)).handed) := by
  obtain ⟨hhanded, hrep⟩ := h
  obtain ⟨hnew, hrest⟩ := readIncoming_serves hrep chunk
  unfold Framed
  rw [serve_append]
  exact ⟨List.rel_append hhanded hnew, hrest⟩

/-- Between two steps the references and the accounts are sound, what is written are frames, and the
buffers of open connections have what they were not yet served. -/
structure Serving (s : Server ρ υ σ) (h : History) : Prop where
  sound : Sound s.talk h.asked
  wired : Wired s.talk
  framed : ∀ a, s.talk.world.isOpen a → Framed (s.bufs a) (h.received a) (h.handed a)

theorem start_serving (s : Session) (kept : σ) (sa : SocketAnswer) :
    Serving (Server.start s kept sa : Server ρ υ σ) History.start :=
  ⟨start_sound s kept sa, fun _ _ => rfl, fun _ _ => framed_fresh⟩

/-- A step opens no connection but the new one. -/
theorem isOpen_of_step {t t' : Talk ρ υ σ} {asked : ℕ → List Matter} {l : Turn ρ υ} {a : ℕ}
    (hsound : Sound t asked) (hstep : TalkStep P daemonize t l t') (hl : l ≠ .accept a)
    (ha : t'.world.isOpen a) : t.world.isOpen a := by
  obtain ⟨k, hk, hacc⟩ := hsound.accounts
  rcases step_moves asked hk hacc hstep ha with ⟨hl', -⟩ | ⟨hopen, -⟩
  · exact absurd hl' hl
  · exact hopen

/-- The lines of a connection keep the invariant of the other parts. -/
theorem lines_serving {a : ℕ} {calls : List (Library × Results ρ)} {handed : List (List UInt8)}
    {s s' : Talk ρ υ σ × (ℕ → List Matter)}
    (hrun : Runs (Asked P daemonize) s (lineTurns a calls handed) s') (hsound : Sound s.1 s.2)
    (hwired : Wired s.1) : Sound s'.1 s'.2 ∧ Wired s'.1 ∧
      ∀ b, s'.1.world.isOpen b → s.1.world.isOpen b := by
  generalize hls : lineTurns a calls handed = ls at hrun
  have hlines : ∀ l ∈ ls, ∀ b, l ≠ Turn.accept b := by
    rw [← hls]
    intro l hl b
    obtain ⟨i, hi, rfl⟩ := List.getElem_of_mem hl
    simp [lineTurns]
  clear hls
  induction hrun with
  | nil s => exact ⟨hsound, hwired, fun _ hb => hb⟩
  | @cons s t u l ls hstep _ ih =>
    obtain ⟨hturn, hasked⟩ := hstep
    obtain ⟨hs, hw, hopen⟩ := ih (by rw [hasked]; exact hsound.step hturn)
      (kept_wired.step hturn hwired)
      fun m hm => hlines m (List.mem_cons_of_mem l hm)
    exact ⟨hs, hw, fun b hb =>
      isOpen_of_step hsound hturn (hlines l List.mem_cons_self b) (hopen b hb)⟩

/-- **A step** keeps the invariant. -/
theorem Serving.step {s s' : Server ρ υ σ × History} {i : Input ρ υ} (h : Serving s.1 s.2)
    (hstep : Serve P daemonize s i s') : Serving s'.1 s'.2 := by
  obtain ⟨hsound, hwired, hframed⟩ := h
  cases hstep with
  | @accept s h t a haccept =>
    refine ⟨hsound.step haccept, kept_wired.step haccept hwired, fun b hb => ?_⟩
    simp only
    by_cases hba : b = a
    · subst hba
      rw [Function.update_self, Function.update_self, Function.update_self]
      exact framed_fresh
    · rw [Function.update_of_ne hba, Function.update_of_ne hba, Function.update_of_ne hba]
      refine hframed b (isOpen_of_step hsound haccept ?_ hb)
      rintro ⟨⟩
      exact hba rfl
  | @receive s h t a chunk calls o asked hopen ho hcalls hrun hstill =>
    obtain ⟨hs, hw, hb⟩ := lines_serving hrun hsound hwired
    refine ⟨hs, hw, fun b hbopen => ?_⟩
    simp only
    by_cases hba : b = a
    · subst hba
      rw [Function.update_self, Function.update_self, Function.update_self, ho]
      exact (hframed b hopen).receive chunk
    · rw [Function.update_of_ne hba, Function.update_of_ne hba, Function.update_of_ne hba]
      exact hframed b (hb b hbopen)
  | @turn s h t l hother hturn =>
    refine ⟨hsound.step hturn, kept_wired.step hturn hwired, fun b hb => ?_⟩
    refine hframed b (isOpen_of_step hsound hturn ?_ hb)
    rintro rfl
    exact hother

theorem run_serving {s s' : Server ρ υ σ × History} {is : List (Input ρ υ)}
    (hrun : Runs (Serve P daemonize) s is s') (h : Serving s.1 s.2) : Serving s'.1 s'.2 :=
  Runs.induction (P := fun s => Serving s.1 s.2) (fun _ _ _ hstep h => h.step hstep) hrun h

/-- A run keeps what its notes keep. -/
theorem run_kept {I : Talk ρ υ σ → Prop} (hI : Kept P I) {s s' : Server ρ υ σ × History}
    {is : List (Input ρ υ)} (hrun : Runs (Serve P daemonize) s is s') (h : I s.1.talk) :
    I s'.1.talk := by
  refine Runs.induction (P := fun s => I s.1.talk) (fun s i s' hstep hs => ?_) hrun h
  cases hstep with
  | accept haccept => exact hI.step haccept hs
  | receive hopen ho hcalls hlines hstill =>
    exact Runs.induction (P := fun s => I s.1) (fun _ _ _ hturn h => hI.step hturn.1 h) hlines hs
  | turn hother hturn => exact hI.step hturn hs

/-- **A connection is served.** Whatever happens on the other connections, the lines of an open
connection that fit are handled in order, each once; the client reads back the notes that were
printed for it; and the answers among these are what its lines asked about, except for the queries
under way. -/
theorem run_serves {s : Session} {kept : σ} {sa : SocketAnswer} {is : List (Input ρ υ)}
    {srv : Server ρ υ σ} {h : History} {a : ℕ}
    (hrun : Runs (Serve P daemonize) (Server.start s kept sa, History.start) is (srv, h))
    (hopen : srv.talk.world.isOpen a) (hlines : LinesFit (h.received a))
    (hzero : ∀ l ∈ lines newline (h.received a), (0 : UInt8) ∉ l)
    (hfit : ∀ n ∈ srv.talk.sent a, n.2.flatten.length < 2 ^ 25) :
    (h.handed a).map cstring = lines newline (h.received a) ∧
      readAnswers (srv.talk.wire a) = some ((srv.talk.sent a).map fun n => n.2.flatten) ∧
      (answered srv.talk a ++ pending srv.talk.world a).Perm (h.asked a) := by
  obtain ⟨hsound, hwired, hframed⟩ := run_serving hrun (start_serving s kept sa)
  obtain ⟨hhanded, -⟩ := hframed a hopen
  rw [serve_short hlines] at hhanded
  exact ⟨cstrings_of_holds hhanded hzero, hwired.readAnswers hfit, hsound.balanced a hopen⟩

/-- What `read_incoming` hands over of a line that fits. -/
theorem receive_line {l : List UInt8} (hl : newline ∉ l) (hzero : (0 : UInt8) ∉ l)
    (hfit : l.length ≤ 4095) : ∃ m, (readIncoming .fresh (l ++ [newline])).handed = [m] ∧
      cstring m = l := by
  have hserve : (serve ([] ++ (l ++ [newline]))).1 = [l] := by
    rw [List.nil_append, serve_line [] hl (by unfold ReadIncoming.inBufSize; omega),
      serve_stuck (by simp)]
  obtain ⟨hhanded, -⟩ := readIncoming_serves Rep.fresh (l ++ [newline])
  rw [hserve, List.nil_append] at hhanded
  generalize (readIncoming .fresh (l ++ [newline])).handed = ms at hhanded
  obtain _ | ⟨hm, htail⟩ := hhanded
  cases htail
  exact ⟨_, rfl, Framing.Holds.cstring_eq hm hzero⟩

/-- A connection that sends a line. -/
theorem serve_line_run {s : Session} {kept : σ} {sa : SocketAnswer} {lib : Library}
    {now : Results ρ} {l : List UInt8} {t : Talk ρ υ σ} {asked : ℕ → List Matter}
    (hl : newline ∉ l) (hzero : (0 : UInt8) ∉ l) (hfit : l.length ≤ 4095)
    (hrun : Runs (Asked P daemonize)
      ((Talk.start s kept sa).accept 0, Function.update (fun _ => []) 0 [])
      [.line lib now (some 0) (some l)] (t, asked)) (hopen : t.world.isOpen 0) :
    ∃ srv h, Runs (Serve P daemonize) (Server.start s kept sa, History.start)
        [.turn (.accept 0), .receive 0 (l ++ [newline]) [(lib, now)]] (srv, h) ∧
      srv.talk = t ∧ h.received 0 = l ++ [newline] := by
  obtain ⟨m, hm, hstring⟩ := receive_line hl hzero hfit
  have hturns : lineTurns 0 [(lib, now)] [m] = [Turn.line (υ := υ) lib now (some 0) (some l)] := by
    rw [← hstring]
    rfl
  rw [← hturns, ← hm] at hrun
  have hlen : [(lib, now)].length = (readIncoming .fresh (l ++ [newline])).handed.length := by
    rw [hm]
    rfl
  have haccept : Serve P daemonize (Server.start s kept sa, History.start) (.turn (.accept 0)) _ :=
    .accept (.accept rfl)
  exact ⟨_, _, .cons haccept (.cons (.receive ⟨⟨true, 1⟩, rfl, rfl⟩ rfl hlen hrun hopen) (.nil _)),
    rfl, rfl⟩

/-- A connection that asks for the version. -/
theorem run_serves_version : ∃ (srv : Server (fun _ => Unit) Unit Unit) (h : History),
    h.received 0 = lit "version\n" ∧ srv.talk.sent 0 = [(.own .version, [lit "ok\n"])] ∧
      (h.handed 0).map cstring = lines newline (h.received 0) ∧
      readAnswers (srv.talk.wire 0) = some ((srv.talk.sent 0).map fun n => n.2.flatten) ∧
      (answered srv.talk 0 ++ pending srv.talk.world 0).Perm (h.asked 0) := by
  have hline : ∃ (t : Talk (fun _ => Unit) Unit Unit) (asked : ℕ → List Matter),
      Runs (Asked echo true) ((Talk.start Session.start () ⟨[], -1⟩).accept 0,
          Function.update (fun _ => []) 0 [])
        [.line aliceLibrary noResults (some 0) (some (lit "version"))] (t, asked) ∧
        t.world.heap 0 = some ⟨true, 1⟩ ∧ t.sent 0 = [(.own .version, [lit "ok\n"])] :=
    ⟨_, _, .cons (t := (_, _)) ⟨.line (fun a ha => ⟨⟨true, 1⟩, by cases ha; exact ⟨rfl, rfl⟩⟩)
      rfl, rfl⟩ (.nil _), rfl, rfl⟩
  obtain ⟨t, asked, hrun, hheap, hsent⟩ := hline
  obtain ⟨srv, h, hserve, rfl, hreceived⟩ := serve_line_run (by decide) (by decide) (by decide)
    hrun ⟨_, hheap, rfl⟩
  have hreceived : h.received 0 = lit "version\n" := hreceived
  have hlines : lines newline (h.received 0) = [lit "version"] := by rw [hreceived]; decide
  refine ⟨srv, h, hreceived, hsent, run_serves hserve ⟨_, hheap, rfl⟩ ?_ ?_ ?_⟩
  · unfold LinesFit
    rw [hlines]
    decide
  · rw [hlines]
    decide
  · rw [hsent]
    decide

end TelegramCli.Control.Service
