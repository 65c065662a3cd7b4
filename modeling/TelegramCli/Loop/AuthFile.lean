import TelegramCli.Lib.CString
import TelegramCli.Lib.Records

/-! # The auth file

`writeAuthFile` writes the highest index and the working data centre, one record for each index (a
presence word, and for a present centre its address and key), and the own user id. The old file is
not truncated. `readAuthFile` turns the records into calls of the `bl_do_*` functions.

**Main theorem** `auth_read_write`: no assertion fails and reading restores what was written,
whatever the file held before. -/

namespace TelegramCli.Loop.AuthFile

open TelegramCli.Lib.CString TelegramCli.Lib.Records

/-- `struct tgl_dc` with its first option; `ip` is the memory the option's `ip` points at. -/
structure Dc where
  loggedIn : Bool
  port : BitVec 32
  ip : List UInt8
  authKeyId : BitVec 64
  authKey : List.Vector UInt8 256

/-- The fields of `TLS` that are kept in the file. -/
structure Tls where
  dcList : ℕ → Option Dc
  maxDcNum : BitVec 32
  dcWorkingNum : BitVec 32
  ourId : BitVec 32

inductive BlCall
  | dcOption (id : ℕ) (name ip : List UInt8) (port : BitVec 32)
  | setAuthKey (id : ℕ) (key : List.Vector UInt8 256)
  | dcSigned (id : ℕ)
  | setWorkingDc (num : BitVec 32)
  | setOurId (id : BitVec 32)

/-- The built-in servers of a mode (`TG_SERVER_1`, ..., `TG_SERVER_DEFAULT`). -/
structure Servers where
  ips : List (List UInt8)
  default : BitVec 32

/-- `DC_SERIALIZED_MAGIC`. -/
def dcSerializedMagic : BitVec 32 := 0x868aa81d

/-! ### Writing -/

def writeDc (fd : File) : Option Dc → Option File
  | none => some (fd.write (word32.enc 0))
  | some DC =>
    let fd := fd.write (word32.enc 1)
    let l := (cstring DC.ip).length
    if DC.loggedIn then
      some (fd.writes [
        word32.enc DC.port,
        word32.enc (BitVec.ofNat 32 l),
        (cstring DC.ip).take l,
        word64.enc DC.authKeyId,
        (block 256).enc DC.authKey ])
    else none

/-- The file after `write_auth_file`; the outer `none` is a failed assertion, the inner one an
absent file, which `O_CREAT` creates. -/
def writeAuthFile (binlogEnabled : Bool) (TLS : Tls) (file : Option (List UInt8)) :
    Option (Option (List UInt8)) :=
  if binlogEnabled then some file else do
    let fd := (File.opened (file.getD [])).writes
      [word32.enc dcSerializedMagic, word32.enc TLS.maxDcNum, word32.enc TLS.dcWorkingNum]
    let fd ← (List.range (TLS.maxDcNum.toNat + 1)).foldlM (fun fd i => writeDc fd (TLS.dcList i)) fd
    return some (fd.write (word32.enc TLS.ourId)).content

/-! ### Reading -/

def readDc (id : ℕ) : Reader (List BlCall) := do
  let port ← word32.dec
  let l ← word32.dec
  check (0 ≤ l.toInt ∧ l.toInt < 100)
  let ip ← readExact l.toNat
  let _authKeyId ← word64.dec
  let authKey ← (block 256).dec
  return [.dcOption id (lit "DC") ip port, .setAuthKey id authKey, .dcSigned id]

/-- The loop over the indexes from `i` on, `n` of them. -/
def readDcs : ℕ → ℕ → Reader (List BlCall)
  | _, 0 => pure []
  | i, n + 1 => do
    let y ← word32.dec
    let calls ← if y ≠ 0 then readDc i else pure []
    let rest ← readDcs (i + 1) n
    return calls ++ rest

/-- The last read, which may find the end of the file and then leaves the variable as it is. -/
def readOurId (uninit : BitVec 32) : Reader (BitVec 32) := fun s =>
  if 4 ≤ s.length then word32.dec s else if s.length = 0 then some (uninit, s) else none

/-- What `read_auth_file` does behind the magic number. -/
def readBody (uninit : BitVec 32) : Reader (List BlCall) := do
  let x ← word32.dec
  check (x.toNat > 0)
  let dcWorkingNum ← word32.dec
  let calls ← readDcs 0 (x.toInt + 1).toNat
  let ourId ← readOurId uninit
  return calls ++ [.setWorkingDc dcWorkingNum] ++ if ourId ≠ 0 then [.setOurId ourId] else []

def emptyAuthFile (servers : Servers) : List BlCall :=
  servers.ips.mapIdx (fun i ip => .dcOption (i + 1) [] ip 443) ++ [.setWorkingDc servers.default]

/-- The calls of `read_auth_file`; `none` is a failed assertion. -/
def readAuthFile (servers : Servers) (uninit : BitVec 32) (binlogEnabled : Bool)
    (file : Option (List UInt8)) : Option (List BlCall) :=
  if binlogEnabled then some [] else
    match word32.dec (file.getD []) with
    | none => some (emptyAuthFile servers)
    | some (m, s) =>
      if m ≠ dcSerializedMagic then some (emptyAuthFile servers)
      else (readBody uninit s).map Prod.fst

/-! ### The round trip -/

/-- The calls that restore the centre at an index. -/
def restoredDc (i : ℕ) : Option Dc → List BlCall
  | none => []
  | some DC =>
    [.dcOption i (lit "DC") (cstring DC.ip) DC.port, .setAuthKey i DC.authKey, .dcSigned i]

/-- The calls that restore all of `TLS` the file is about. -/
def restored (TLS : Tls) : List BlCall :=
  (List.range (TLS.maxDcNum.toNat + 1)).flatMap (fun i => restoredDc i (TLS.dcList i)) ++
    [.setWorkingDc TLS.dcWorkingNum] ++ if TLS.ourId ≠ 0 then [.setOurId TLS.ourId] else []

/-- A centre the writer's assertion and the reader's assertion accept. -/
structure Dc.Stored (DC : Dc) : Prop where
  loggedIn : DC.loggedIn = true
  ip : (cstring DC.ip).length < 100

/-- The bytes of a present centre behind its presence word. -/
def Dc.record (DC : Dc) : List UInt8 :=
  word32.enc DC.port ++ (word32.enc (BitVec.ofNat 32 (cstring DC.ip).length) ++
    (cstring DC.ip ++ (word64.enc DC.authKeyId ++ (block 256).enc DC.authKey)))

/-- The bytes written for an index. -/
def dcRecord : Option Dc → List UInt8
  | none => word32.enc 0
  | some DC => word32.enc 1 ++ DC.record

theorem writeDc_eq (old w : List UInt8) {DC : Option Dc} (h : ∀ d ∈ DC, d.Stored) :
    writeDc ((File.opened old).write w) DC =
      some ((File.opened old).write (w ++ dcRecord DC)) := by
  cases DC with
  | none => simp only [writeDc, File.write_write, dcRecord]
  | some d =>
    simp only [writeDc, (h d rfl).loggedIn, if_true, File.write_write, File.writes_write, dcRecord,
      Dc.record, List.take_length, List.flatten_cons, List.flatten_nil, List.append_nil,
      List.append_assoc]

/-- The iteration appends the records of the indexes. -/
theorem foldlM_writeDc (old : List UInt8) (f : ℕ → Option Dc) :
    ∀ (is : List ℕ) (w : List UInt8), (∀ i ∈ is, ∀ d ∈ f i, d.Stored) →
      is.foldlM (fun fd i => writeDc fd (f i)) ((File.opened old).write w) =
        some ((File.opened old).write (w ++ is.flatMap fun i => dcRecord (f i)))
  | [], w, _ => by simp
  | i :: is, w, h => by
    have hi := writeDc_eq old w (h i List.mem_cons_self)
    have ih := foldlM_writeDc old f is (w ++ dcRecord (f i)) fun j hj =>
      h j (List.mem_cons_of_mem i hj)
    simp only [List.foldlM_cons, hi, Option.bind_eq_bind, Option.bind_some, ih,
      List.flatMap_cons, List.append_assoc]

/-- The record of a present centre is read back. -/
theorem readDc_record (i : ℕ) {d : Dc} (h : d.Stored) (s : List UInt8) :
    readDc i (d.record ++ s) = some (restoredDc i (some d), s) := by
  have hlt := h.ip
  have hl : (BitVec.ofNat 32 (cstring d.ip).length).toNat = (cstring d.ip).length :=
    Nat.mod_eq_of_lt (by omega)
  have hi : (BitVec.ofNat 32 (cstring d.ip).length).toInt = (cstring d.ip).length := by
    rw [BitVec.toInt_eq_toNat_of_lt (by omega), hl]
  have hcheck : 0 ≤ (BitVec.ofNat 32 (cstring d.ip).length).toInt ∧
      (BitVec.ofNat 32 (cstring d.ip).length).toInt < 100 := by omega
  simp only [Dc.record, List.append_assoc, readDc]
  rw [bind_dec, bind_dec, bind_check hcheck, bind_readExact hl.symm, bind_dec, bind_dec]
  rfl

/-- The reader's loop takes the records off again, index by index. -/
theorem readDcs_records (f : ℕ → Option Dc) :
    ∀ (n i : ℕ) (s : List UInt8), (∀ j, i ≤ j → j < i + n → ∀ d ∈ f j, d.Stored) →
      readDcs i n (((List.range' i n).flatMap fun j => dcRecord (f j)) ++ s) =
        some ((List.range' i n).flatMap fun j => restoredDc j (f j), s)
  | 0, _, _, _ => rfl
  | n + 1, i, s, h => by
    have ih := readDcs_records f n (i + 1) s fun j hj hlt => h j (by omega) (by omega)
    rw [List.range'_succ, List.flatMap_cons, List.flatMap_cons, List.append_assoc]
    cases hf : f i with
    | none =>
      rw [dcRecord, readDcs, bind_dec, if_neg (by decide), pure_bind]
      exact bind_of_eq ih _
    | some d =>
      have hd := readDc_record i (h i le_rfl (by omega) d (by simp [hf]))
        (((List.range' (i + 1) n).flatMap fun j => dcRecord (f j)) ++ s)
      rw [dcRecord, List.append_assoc, readDcs, bind_dec, if_pos (by decide), bind_of_eq hd]
      exact bind_of_eq ih _

/-- What the file holds after writing. -/
theorem writeAuthFile_eq (TLS : Tls) (file : Option (List UInt8))
    (hstored : ∀ i ≤ TLS.maxDcNum.toNat, ∀ d ∈ TLS.dcList i, d.Stored) :
    ∃ tail, writeAuthFile false TLS file =
      some (some (word32.enc dcSerializedMagic ++ (word32.enc TLS.maxDcNum ++
        (word32.enc TLS.dcWorkingNum ++
          (((List.range' 0 (TLS.maxDcNum.toNat + 1)).flatMap fun i => dcRecord (TLS.dcList i)) ++
            (word32.enc TLS.ourId ++ tail)))))) := by
  set head := [word32.enc dcSerializedMagic, word32.enc TLS.maxDcNum,
    word32.enc TLS.dcWorkingNum] with hhead
  set recs := (List.range' 0 (TLS.maxDcNum.toNat + 1)).flatMap fun i => dcRecord (TLS.dcList i)
    with hrecs
  have hopen : (File.opened (file.getD [])).writes head =
      (File.opened (file.getD [])).write head.flatten := File.writes_cons _ _ _
  have hfold := foldlM_writeDc (file.getD []) TLS.dcList (List.range' 0 (TLS.maxDcNum.toNat + 1))
    head.flatten fun i hi => hstored i (by rw [List.mem_range'_1] at hi; omega)
  refine ⟨(file.getD []).drop (head.flatten ++ recs ++ word32.enc TLS.ourId).length, ?_⟩
  rw [writeAuthFile, if_neg (by decide), List.range_eq_range']
  simp only [← hhead, hopen, hfold, Option.bind_eq_bind, Option.bind_some, File.write_write,
    File.opened_write, ← hrecs]
  simp only [hhead, List.flatten_cons, List.flatten_nil, List.nil_append, List.append_assoc]
  rfl

/-- **Writing and reading back**: no assertion fails, and every present centre, the working centre
and the own id are restored; an own id of 0 stays unset. -/
theorem auth_read_write (servers : Servers) (uninit : BitVec 32) (TLS : Tls)
    (file : Option (List UInt8)) (hmax : 0 < TLS.maxDcNum.toInt)
    (hstored : ∀ i ≤ TLS.maxDcNum.toNat, ∀ d ∈ TLS.dcList i, d.Stored) :
    ∃ content, writeAuthFile false TLS file = some content ∧
      readAuthFile servers uninit false content = some (restored TLS) := by
  obtain ⟨tail, hfile⟩ := writeAuthFile_eq TLS file hstored
  refine ⟨_, hfile, ?_⟩
  have hint : TLS.maxDcNum.toInt = TLS.maxDcNum.toNat := by
    rw [BitVec.toInt_eq_toNat_cond] at hmax ⊢
    split_ifs at hmax ⊢ with h
    · rfl
    · have := TLS.maxDcNum.isLt
      omega
  have hnum : (TLS.maxDcNum.toInt + 1).toNat = TLS.maxDcNum.toNat + 1 := by omega
  have hdcs := readDcs_records TLS.dcList (TLS.maxDcNum.toNat + 1) 0
    (word32.enc TLS.ourId ++ tail) fun j _ hj => hstored j (by omega)
  have hid : readOurId uninit (word32.enc TLS.ourId ++ tail) = some (TLS.ourId, tail) := by
    rw [readOurId, if_pos (by simp), word32.dec_enc]
  simp only [readAuthFile, Bool.false_eq_true, if_false, Option.getD_some, word32.dec_enc, ne_eq,
    not_true_eq_false]
  rw [readBody, bind_dec, bind_check (by omega), bind_dec, hnum, bind_of_eq hdcs, bind_of_eq hid]
  simp only [restored, List.range_eq_range', ne_eq]
  rfl

/-- A centre at the address `a`. -/
def sampleDc : Dc where
  loggedIn := true
  port := 443
  ip := [97]
  authKeyId := 7
  authKey := List.Vector.replicate 256 1

/-- Indexes 0 to 2 with a centre at index 1 only. -/
def sampleTls : Tls where
  dcList i := if i = 1 then some sampleDc else none
  maxDcNum := 2
  dcWorkingNum := 1
  ourId := 12

theorem auth_read_write_sample :
    ∃ content, writeAuthFile false sampleTls (some (List.replicate 900 255)) = some content ∧
      readAuthFile ⟨[], 2⟩ 0 false content =
        some [.dcOption 1 (lit "DC") [97] 443, .setAuthKey 1 (List.Vector.replicate 256 1),
          .dcSigned 1, .setWorkingDc 1, .setOurId 12] :=
  auth_read_write ⟨[], 2⟩ 0 sampleTls _ (by decide) (by
    intro i _ d hd
    simp only [sampleTls, Option.mem_def] at hd
    split_ifs at hd
    obtain rfl := Option.some.inj hd
    exact ⟨rfl, by decide⟩)

end TelegramCli.Loop.AuthFile
