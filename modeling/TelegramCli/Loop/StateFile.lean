import TelegramCli.Lib.Records
import TelegramCli.Lib.Run

/-! # The state file

`net_loop` calls `write_state_file` each time round. It keeps what it has written in four static
variables and writes only when one of them is behind `TLS`; then all six words are written over the
front of the file, which is not truncated. `read_state_file` takes the words off again.

**Main theorem** `state_file_current`: as long as the four values of `TLS` are not negative, not all
zero and never decrease, the file holds them after each call, whatever it held before. The program
sets `binlog_enabled` to 0 and nowhere to anything else, so the runs are those without it. -/

namespace TelegramCli.Loop.StateFile

open TelegramCli.Lib.Records TelegramCli.Lib.Run

/-- The fields of `TLS` that are kept in the file. -/
structure Point where
  pts : BitVec 32
  qts : BitVec 32
  seq : BitVec 32
  date : BitVec 32
  deriving DecidableEq

def Point.zero : Point := ⟨0, 0, 0, 0⟩

/-- `STATE_FILE_MAGIC`. -/
def stateFileMagic : BitVec 32 := 0x28949a93

/-! ### Reading -/

/-- The read of the four words. -/
def readPoint : Reader Point := do
  let pts ← word32.dec
  let qts ← word32.dec
  let seq ← word32.dec
  let date ← word32.dec
  return ⟨pts, qts, seq, date⟩

/-- What `read_state_file` takes from a file behind its guard; the outer `none` is a failed
assertion, the inner one a file without a record. -/
def decodeStateFile (file : Option (List UInt8)) : Option (Option Point) :=
  (word32.dec (file.getD [])).elim (some none) fun magic =>
    if magic.1 ≠ stateFileMagic then some none
    else (word32.dec magic.2).elim (some none) fun version =>
      if version.1.toInt ≥ 0 then some ((readPoint version.2).map Prod.fst) else none

/-! ### Writing -/

/-- `TLS`, the static variables `wpts`, `wqts`, `wseq` and `wdate`, and the file. -/
structure State where
  TLS : Point
  w : Point
  file : Option (List UInt8)

/-- The program starts with the static variables zero. -/
def State.start (TLS : Point) (file : Option (List UInt8)) : State := ⟨TLS, Point.zero, file⟩

/-- The array `x`. -/
def Point.record (p : Point) : List UInt8 :=
  word32.enc stateFileMagic ++ (word32.enc 0 ++ (word32.enc p.pts ++ (word32.enc p.qts ++
    (word32.enc p.seq ++ word32.enc p.date))))

/-- `write_state_file`, where `opens` says that the file can be opened; if not, the program ends. -/
def writeStateFile (binlogEnabled opens : Bool) (s : State) : Option State :=
  if binlogEnabled then some s
  else if s.w.seq.toInt ≥ s.TLS.seq.toInt ∧ s.w.pts.toInt ≥ s.TLS.pts.toInt ∧
      s.w.qts.toInt ≥ s.TLS.qts.toInt ∧ s.w.date.toInt ≥ s.TLS.date.toInt then some s
  else if opens then
    some { s with
      w := s.TLS
      file := some ((File.opened (s.file.getD [])).write s.TLS.record).content }
  else none

/-! ### Runs -/

/-- No value has decreased. -/
structure Point.Le (p q : Point) : Prop where
  pts : p.pts.toInt ≤ q.pts.toInt
  qts : p.qts.toInt ≤ q.qts.toInt
  seq : p.seq.toInt ≤ q.seq.toInt
  date : p.date.toInt ≤ q.date.toInt

/-- New values in `TLS`, or a call of `write_state_file`. -/
inductive Label
  | advance (p : Point)
  | write (opens : Bool)

inductive Step (binlogEnabled : Bool) : State → Label → State → Prop
  | advance {s : State} {p : Point} : s.TLS.Le p →
    Step binlogEnabled s (.advance p) { s with TLS := p }
  | write {s t : State} {opens : Bool} : writeStateFile binlogEnabled opens s = some t →
    Step binlogEnabled s (.write opens) t

/-- **Nothing has been written**, or the file holds what the static variables have. -/
structure Inv (s : State) : Prop where
  zero_le : Point.zero.Le s.TLS
  ne_zero : s.TLS ≠ Point.zero
  le : s.w.Le s.TLS
  held : s.w = Point.zero ∨ decodeStateFile s.file = some (some s.w)

theorem Point.Le.trans {p q r : Point} (h : p.Le q) (h' : q.Le r) : p.Le r :=
  ⟨h.pts.trans h'.pts, h.qts.trans h'.qts, h.seq.trans h'.seq, h.date.trans h'.date⟩

theorem Point.Le.antisymm {p q : Point} (h : p.Le q) (h' : q.Le p) : p = q := by
  cases p
  cases q
  congr
  · exact BitVec.eq_of_toInt_eq (h.pts.antisymm h'.pts)
  · exact BitVec.eq_of_toInt_eq (h.qts.antisymm h'.qts)
  · exact BitVec.eq_of_toInt_eq (h.seq.antisymm h'.seq)
  · exact BitVec.eq_of_toInt_eq (h.date.antisymm h'.date)

/-- Values that have not decreased from others that are not all zero are not all zero. -/
theorem Point.Le.ne_zero {p q : Point} (h : p.Le q) (hzero : Point.zero.Le p)
    (hne : p ≠ Point.zero) : q ≠ Point.zero := by
  rintro rfl
  exact hne (h.antisymm hzero)

/-- **A record is read back** from the front of the file. -/
theorem decodeStateFile_record (p : Point) (tail : List UInt8) :
    decodeStateFile (some (p.record ++ tail)) = some (some p) := by
  have hpoint : readPoint (word32.enc p.pts ++ (word32.enc p.qts ++ (word32.enc p.seq ++
      (word32.enc p.date ++ tail)))) = some (p, tail) := by
    rw [readPoint, bind_dec, bind_dec, bind_dec, bind_dec]
    rfl
  unfold decodeStateFile Point.record
  simp only [Option.getD_some, List.append_assoc, word32.dec_enc, Option.elim_some, hpoint]
  rfl

/-- A call leaves everything as it is when the static variables are not behind, and otherwise
writes. -/
theorem writeStateFile_cases {opens : Bool} {s t : State}
    (h : writeStateFile false opens s = some t) :
    s.TLS.Le s.w ∧ t = s ∨
    t = ⟨s.TLS, s.TLS, some ((File.opened (s.file.getD [])).write s.TLS.record).content⟩ := by
  unfold writeStateFile at h
  rw [if_neg Bool.false_ne_true] at h
  split_ifs at h with hskip
  · obtain ⟨hseq, hpts, hqts, hdate⟩ := hskip
    exact Or.inl ⟨⟨hpts, hqts, hseq, hdate⟩, (Option.some.inj h).symm⟩
  · exact Or.inr (Option.some.inj h).symm

/-- **A call** leaves the values of `TLS` in the file. -/
theorem decode_writeStateFile {opens : Bool} {s t : State} (hinv : Inv s)
    (h : writeStateFile false opens s = some t) :
    t.TLS = s.TLS ∧ t.w = s.TLS ∧ decodeStateFile t.file = some (some s.TLS) := by
  rcases writeStateFile_cases h with ⟨hle, rfl⟩ | rfl
  · have heq : t.w = t.TLS := hinv.le.antisymm hle
    refine ⟨rfl, heq, ?_⟩
    rcases hinv.held with hzero | hheld
    · exact absurd (heq.symm.trans hzero) hinv.ne_zero
    · rwa [heq] at hheld
  · refine ⟨rfl, rfl, ?_⟩
    rw [File.opened_write]
    exact decodeStateFile_record _ _

theorem Inv.step {s t : State} {l : Label} (hs : Step false s l t) (h : Inv s) : Inv t := by
  cases hs with
  | advance hle =>
    exact ⟨h.zero_le.trans hle, hle.ne_zero h.zero_le h.ne_zero, h.le.trans hle, h.held⟩
  | write hw =>
    obtain ⟨hTLS, hwritten, hfile⟩ := decode_writeStateFile h hw
    refine ⟨hTLS ▸ h.zero_le, hTLS ▸ h.ne_zero, ?_, Or.inr (hwritten ▸ hfile)⟩
    rw [hTLS, hwritten]
    exact ⟨le_rfl, le_rfl, le_rfl, le_rfl⟩

/-- **After each call of a run** the file holds the values of `TLS`, all of the same moment. -/
theorem state_file_current {TLS : Point} {file : Option (List UInt8)} {ls : List Label}
    {s t : State} {opens : Bool} (hzero : Point.zero.Le TLS)
    (hne : TLS ≠ Point.zero) (hrun : Runs (Step false) (State.start TLS file) ls s)
    (hwrite : Step false s (.write opens) t) :
    t.TLS = s.TLS ∧ decodeStateFile t.file = some (some t.TLS) := by
  have hinv : Inv s :=
    Runs.induction (P := Inv) (fun _ _ _ => Inv.step) hrun ⟨hzero, hne, hzero, Or.inl rfl⟩
  cases hwrite with
  | write h =>
    obtain ⟨hTLS, -, hfile⟩ := decode_writeStateFile hinv h
    exact ⟨hTLS, hTLS ▸ hfile⟩

/-- The second of two calls, over a longer file of another kind. -/
theorem state_file_current_second : ∃ s t : State,
    (t.TLS = s.TLS ∧ decodeStateFile t.file = some (some t.TLS)) ∧
      s.w = ⟨0, 0, 1, 9⟩ ∧ s.TLS = ⟨0, 0, 1, 12⟩ := by
  refine ⟨_, _, @state_file_current ⟨0, 0, 1, 9⟩ (some (List.replicate 40 7))
    [.write true, .advance ⟨0, 0, 1, 12⟩] _ _ true ⟨?_, ?_, ?_, ?_⟩ (by decide)
    (.cons (.write rfl) (.cons (.advance ⟨?_, ?_, ?_, ?_⟩) (.nil _))) (.write rfl), rfl, rfl⟩
  all_goals decide

end TelegramCli.Loop.StateFile
