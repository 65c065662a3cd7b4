import TelegramCli.Lib.CString
import TelegramCli.Lib.Records

/-! # The secret chat file

`writeSecretChatFile` writes a header with a placeholder for the number of chats, one record for
each peer that is a secret chat in state `sc_ok`, and then patches the number in. The old file is
not truncated. `readSecretChatFile` turns the records into `bl_do_encr_chat` calls.

**Main theorem** `secretChats_read_write`: reading gives one call for each chat in state `sc_ok`,
with the chat's own fields, whatever the file held before. -/

namespace TelegramCli.Loop.SecretChatFile

open TelegramCli.Lib.CString TelegramCli.Lib.Records

/-- `struct tgl_secret_chat`; `printName` is the memory `print_name` points at. -/
structure SecretChat where
  id : BitVec 32
  printName : List UInt8
  userId : BitVec 32
  adminId : BitVec 32
  date : BitVec 32
  ttl : BitVec 32
  layer : BitVec 32
  accessHash : BitVec 64
  state : BitVec 32
  keyFingerprint : BitVec 64
  key : List.Vector UInt8 256
  firstKeySha : List.Vector UInt8 20
  inSeqNo : BitVec 32
  lastInSeqNo : BitVec 32
  outSeqNo : BitVec 32

/-- What `tgl_peer_iterator_ex` hands over: a peer of type `TGL_PEER_ENCR_CHAT` or another one. -/
inductive Peer
  | encrChat (P : SecretChat)
  | other

/-- The arguments of a `bl_do_encr_chat` call that are not fixed by the program. -/
structure EncrChat where
  id : BitVec 32
  accessHash : BitVec 64
  date : BitVec 32
  adminId : BitVec 32
  userId : BitVec 32
  key : List.Vector UInt8 256
  sha : List.Vector UInt8 20
  state : BitVec 32
  ttl : BitVec 32
  layer : BitVec 32
  inSeqNo : BitVec 32
  lastInSeqNo : BitVec 32
  outSeqNo : BitVec 32
  keyFingerprint : BitVec 64

/-- `SECRET_CHAT_FILE_MAGIC`. -/
def secretChatFileMagic : BitVec 32 := 0x37a1988a

-- The value of `sc_ok` in the library's enumeration of states.
variable (scOk : BitVec 32)

/-! ### Writing -/

/-- The writes of one record, in order. -/
def record (P : SecretChat) : List (List UInt8) :=
  let l := (cstring P.printName).length
  [ word32.enc P.id,
    word32.enc (BitVec.ofNat 32 l),
    (cstring P.printName).take l,
    word32.enc P.userId,
    word32.enc P.adminId,
    word32.enc P.date,
    word32.enc P.ttl,
    word32.enc P.layer,
    word64.enc P.accessHash,
    word32.enc P.state,
    word64.enc P.keyFingerprint,
    (block 256).enc P.key,
    (block 20).enc P.firstKeySha,
    word32.enc P.inSeqNo,
    word32.enc P.lastInSeqNo,
    word32.enc P.outSeqNo ]

/-- `extra`: the descriptor and the counter of chats. -/
structure Extra where
  fd : File
  count : BitVec 32

def writeSecretChat (a : Extra) : Peer → Extra
  | .other => a
  | .encrChat P => if P.state ≠ scOk then a else ⟨a.fd.writes (record P), a.count + 1⟩

/-- The file after `write_secret_chat_file`; `none` is an absent file, which `O_CREAT` creates. -/
def writeSecretChatFile (binlogEnabled : Bool) (peers : List Peer) (file : Option (List UInt8)) :
    Option (List UInt8) :=
  if binlogEnabled then file else
    let fd := (File.opened (file.getD [])).writes
      [word32.enc secretChatFileMagic, word32.enc 2, word32.enc 2]
    let y := peers.foldl (writeSecretChat scOk) ⟨fd, 0⟩
    some ((y.fd.seek 8).write (word32.enc y.count)).content

/-! ### Reading -/

def readSecretChat (v : BitVec 32) : Reader EncrChat := do
  let id ← word32.dec
  let l ← word32.dec
  check (0 < l.toInt ∧ l.toInt < 1000)
  let _s ← readExact l.toNat
  let userId ← word32.dec
  let adminId ← word32.dec
  let date ← word32.dec
  let ttl ← word32.dec
  let layer ← word32.dec
  let accessHash ← word64.dec
  let state ← word32.dec
  let keyFingerprint ← word64.dec
  let key ← (block 256).dec
  let sha ← (block 20).dec
  let (inSeqNo, lastInSeqNo, outSeqNo) ←
    if v.toInt ≥ 1 then do
      let inSeqNo ← word32.dec
      let lastInSeqNo ← word32.dec
      let outSeqNo ← word32.dec
      pure (inSeqNo, lastInSeqNo, outSeqNo)
    else pure (0, 0, 0)
  return { id, accessHash, date, adminId, userId, key, sha, state, ttl, layer, inSeqNo,
           lastInSeqNo, outSeqNo, keyFingerprint }

/-- The records behind the magic number. -/
def readChats : Reader (List EncrChat) := do
  let v ← word32.dec
  check (v = 0 ∨ v = 1 ∨ v = 2)
  let x ← word32.dec
  check (x.toInt ≥ 0)
  readMany (readSecretChat v) x.toNat

/-- The `bl_do_encr_chat` calls of `read_secret_chat_file`; `none` is a failed assertion. -/
def readSecretChatFile (binlogEnabled : Bool) (file : Option (List UInt8)) :
    Option (List EncrChat) :=
  if binlogEnabled then some [] else
    match file with
    | none => some []
    | some content =>
      match word32.dec content with
      | none => some []
      | some (x, s) =>
        if x ≠ secretChatFileMagic then some [] else (readChats s).map Prod.fst

/-! ### The round trip -/

/-- The chats in state `sc_ok`, in the order of the iteration. -/
def okChats (peers : List Peer) : List SecretChat :=
  peers.filterMap fun
    | .encrChat P => if P.state = scOk then some P else none
    | .other => none

/-- The call that loads a chat with its own fields. -/
def SecretChat.call (P : SecretChat) : EncrChat where
  id := P.id
  accessHash := P.accessHash
  date := P.date
  adminId := P.adminId
  userId := P.userId
  key := P.key
  sha := P.firstKeySha
  state := P.state
  ttl := P.ttl
  layer := P.layer
  inSeqNo := P.inSeqNo
  lastInSeqNo := P.lastInSeqNo
  outSeqNo := P.outSeqNo
  keyFingerprint := P.keyFingerprint

/-- The reader accepts the length of the chat's print name. -/
def NameFits (P : SecretChat) : Prop :=
  1 ≤ (cstring P.printName).length ∧ (cstring P.printName).length ≤ 999

/-- A record is read back as the chat's call, whatever follows it. -/
theorem readSecretChat_record {P : SecretChat} (h : NameFits P) (s : List UInt8) :
    readSecretChat 2 ((record P).flatten ++ s) = some (P.call, s) := by
  obtain ⟨hpos, hmax⟩ := h
  have hl : (BitVec.ofNat 32 (cstring P.printName).length).toNat = (cstring P.printName).length :=
    Nat.mod_eq_of_lt (by omega)
  have hi : (BitVec.ofNat 32 (cstring P.printName).length).toInt = (cstring P.printName).length := by
    rw [BitVec.toInt_eq_toNat_of_lt (by omega), hl]
  have hcheck : 0 < (BitVec.ofNat 32 (cstring P.printName).length).toInt ∧
      (BitVec.ofNat 32 (cstring P.printName).length).toInt < 1000 := by omega
  simp only [record, List.take_length, List.flatten_cons, List.flatten_nil, List.append_assoc,
    List.nil_append, readSecretChat]
  rw [bind_dec, bind_dec, bind_check hcheck, bind_readExact hl.symm]
  simp only [bind_dec]
  rw [if_pos (by decide)]
  simp only [pure_bind, bind_dec]
  rfl

theorem okChats_ok {P : SecretChat} (hs : P.state = scOk) (peers : List Peer) :
    okChats scOk (.encrChat P :: peers) = P :: okChats scOk peers := by
  simp [okChats, hs]

theorem okChats_not_ok {P : SecretChat} (hs : P.state ≠ scOk) (peers : List Peer) :
    okChats scOk (.encrChat P :: peers) = okChats scOk peers := by
  simp [okChats, hs]

/-- One step of the iteration writes the chat's record and counts it. -/
theorem foldl_writeSecretChat (peers : List Peer) : ∀ a : Extra,
    peers.foldl (writeSecretChat scOk) a =
      ⟨a.fd.writes ((okChats scOk peers).flatMap record),
        a.count + BitVec.ofNat 32 (okChats scOk peers).length⟩ := by
  induction peers with
  | nil => intro a; simp [okChats, File.writes]
  | cons P peers ih =>
    intro a
    rw [List.foldl_cons, ih]
    cases P with
    | other => rfl
    | encrChat P =>
      by_cases hs : P.state = scOk
      · rw [writeSecretChat, if_neg (not_not.mpr hs), okChats_ok scOk hs, List.flatMap_cons,
          File.writes_append]
        simp only [List.length_cons, BitVec.ofNat_add, Extra.mk.injEq, true_and]
        ac_rfl
      · rw [writeSecretChat, if_pos hs, okChats_not_ok scOk hs]

/-- What the file holds after writing: the header with the number of chats, their records, and
what is left of the old file. -/
theorem writeSecretChatFile_eq (peers : List Peer) (old : Option (List UInt8)) :
    ∃ tail, writeSecretChatFile scOk false peers old =
      some (word32.enc secretChatFileMagic ++ (word32.enc 2 ++
        (word32.enc (BitVec.ofNat 32 (okChats scOk peers).length) ++
          (((okChats scOk peers).map fun P => (record P).flatten).flatten ++ tail)))) := by
  set recs := ((okChats scOk peers).map fun P => (record P).flatten).flatten with hrecs
  set head := [word32.enc secretChatFileMagic, word32.enc 2, word32.enc 2] with hhead
  set bss := head ++ (okChats scOk peers).flatMap record with hbss
  refine ⟨(old.getD []).drop bss.flatten.length, ?_⟩
  have hflatten : bss.flatten = (word32.enc secretChatFileMagic ++ word32.enc 2) ++
      word32.enc 2 ++ recs := by
    rw [hbss, hhead, hrecs, List.flatten_append, List.flatMap_def, List.flatten_flatten,
      List.map_map]
    simp only [List.flatten_cons, List.flatten_nil, List.append_nil, List.append_assoc]
    rfl
  have hcontent : ((File.opened (old.getD [])).writes bss).content =
      (word32.enc secretChatFileMagic ++ word32.enc 2) ++ word32.enc 2 ++
        (recs ++ (old.getD []).drop bss.flatten.length) := by
    rw [File.opened_writes, hflatten]
    simp only [List.append_assoc]
  have hlength : (word32.enc (BitVec.ofNat 32 (okChats scOk peers).length)).length =
      (word32.enc 2).length := by simp
  have hpatch := File.patch _ hcontent hlength
  rw [List.length_append, length_word32, length_word32, show 4 + 4 = 8 from rfl] at hpatch
  have hfold := foldl_writeSecretChat scOk peers ⟨(File.opened (old.getD [])).writes head, 0⟩
  have hzero : (0 : BitVec 32) + BitVec.ofNat 32 (okChats scOk peers).length =
      BitVec.ofNat 32 (okChats scOk peers).length := BitVec.zero_add _
  rw [← File.writes_append, ← hbss, hzero, hhead] at hfold
  simp only [writeSecretChatFile, Bool.false_eq_true, if_false, hfold]
  rw [hpatch]
  simp only [List.append_assoc]

/-- **Writing and reading back**: one `bl_do_encr_chat` call for each chat in state `sc_ok`, in the
written order, with the chat's own fields. The bound on their number is the range of the counter
`y[1]`, an `int`. -/
theorem secretChats_read_write (peers : List Peer) (old : Option (List UInt8))
    (hnames : ∀ P ∈ okChats scOk peers, NameFits P)
    (hcount : (okChats scOk peers).length < 2 ^ 31) :
    readSecretChatFile false (writeSecretChatFile scOk false peers old) =
      some ((okChats scOk peers).map SecretChat.call) := by
  obtain ⟨tail, hfile⟩ := writeSecretChatFile_eq scOk peers old
  have hn : (BitVec.ofNat 32 (okChats scOk peers).length).toNat = (okChats scOk peers).length :=
    Nat.mod_eq_of_lt (by omega)
  have hpos : (BitVec.ofNat 32 (okChats scOk peers).length).toInt ≥ 0 := by
    rw [BitVec.toInt_eq_toNat_of_lt (by omega)]; omega
  have hrecs := readMany_encoded (fun P hP s => readSecretChat_record (hnames P hP) s) tail
  simp only [readSecretChatFile, Bool.false_eq_true, if_false, hfile, word32.dec_enc, ne_eq,
    not_true_eq_false]
  rw [readChats, bind_dec, bind_check (by decide), bind_dec, bind_check hpos, hn, hrecs]
  rfl

/-- A chat named `a` in the state given. -/
def sampleChat (state : BitVec 32) : SecretChat where
  id := 5
  printName := [97]
  userId := 6
  adminId := 7
  date := 8
  ttl := 9
  layer := 10
  accessHash := 11
  state := state
  keyFingerprint := 12
  key := List.Vector.replicate 256 1
  firstKeySha := List.Vector.replicate 20 2
  inSeqNo := 13
  lastInSeqNo := 14
  outSeqNo := 15

theorem secretChats_read_write_sample :
    readSecretChatFile false (writeSecretChatFile 3 false
      [.other, .encrChat (sampleChat 3), .encrChat (sampleChat 1)] (some (List.replicate 900 255))) =
      some [(sampleChat 3).call] :=
  secretChats_read_write 3 [.other, .encrChat (sampleChat 3), .encrChat (sampleChat 1)] _
    (by
      intro P hP
      have hmem : P ∈ [sampleChat 3] := hP
      obtain rfl := List.mem_singleton.mp hmem
      exact ⟨by decide, by decide⟩)
    (by decide)

end TelegramCli.Loop.SecretChatFile
