import TelegramCli.Loop.SecretChatFile

/-! # Writing the secret chat file is interrupted

`write_secret_chat_file` overwrites the old file in place, with 2 for the number of chats until the
very end. When it is stopped on the way, what the next `read_secret_chat_file` finds are the first
writes followed by the rest of the old file (`interrupted_eq`).

The reader takes exactly the files in the format of the writer (`readChats_iff`), so what it finds
after an interruption is read off the mixed file (`interrupted_records` for the third write and all
behind it). At which old files and lists this is one of the two lists is the subject of
`TornFile`. -/

namespace TelegramCli.Loop.InterruptedWrite

open TelegramCli.Lib.CString TelegramCli.Lib.Records TelegramCli.Loop.SecretChatFile

variable (scOk : BitVec 32)

/-! ### The operations on the file -/

/-- An operation on the descriptor. -/
inductive Op
  | write (bs : List UInt8)
  | seek (pos : ℕ)

def Op.run (f : File) : Op → File
  | .write bs => f.write bs
  | .seek pos => f.seek pos

/-- The writes of `write_secret_chat` for a peer. -/
def peerWrites : Peer → List (List UInt8)
  | .other => []
  | .encrChat P => if P.state ≠ scOk then [] else record P

/-- The writes of `write_secret_chat_file` before it goes back to the number. -/
def fileWrites (peers : List Peer) : List (List UInt8) :=
  [word32.enc secretChatFileMagic, word32.enc 2, word32.enc 2] ++ peers.flatMap (peerWrites scOk)

/-- The operations of `write_secret_chat_file`. -/
def fileOps (peers : List Peer) : List Op :=
  (fileWrites scOk peers).map Op.write ++
    [.seek 8, .write (word32.enc (BitVec.ofNat 32 (okChats scOk peers).length))]

/-- The file when `write_secret_chat_file` has been stopped after `k` operations. -/
def interrupted (binlogEnabled : Bool) (peers : List Peer) (file : Option (List UInt8)) (k : ℕ) :
    Option (List UInt8) :=
  if binlogEnabled then file
  else some (((fileOps scOk peers).take k).foldl Op.run (File.opened (file.getD []))).content

theorem foldl_write (f : File) : ∀ bss : List (List UInt8),
    (bss.map Op.write).foldl Op.run f = f.writes bss
  | [] => rfl
  | b :: bss => foldl_write (f.write b) bss

theorem peerWrites_flatMap : ∀ peers : List Peer,
    peers.flatMap (peerWrites scOk) = (okChats scOk peers).flatMap record
  | [] => rfl
  | .other :: peers => peerWrites_flatMap peers
  | .encrChat P :: peers => by
    have ih := peerWrites_flatMap peers
    rw [List.flatMap_cons, ih, peerWrites]
    by_cases hs : P.state = scOk
    · rw [if_neg (not_not.mpr hs), okChats_ok scOk hs, List.flatMap_cons]
    · rw [if_pos hs, okChats_not_ok scOk hs, List.nil_append]

/-- **The operations are those of the program**: all of them leave the file that it leaves. -/
theorem writeSecretChatFile_ops (binlogEnabled : Bool) (peers : List Peer)
    (file : Option (List UInt8)) {k : ℕ} (hk : (fileOps scOk peers).length ≤ k) :
    interrupted scOk binlogEnabled peers file k =
      writeSecretChatFile scOk binlogEnabled peers file := by
  unfold interrupted writeSecretChatFile
  split_ifs
  · rfl
  · have hfold := foldl_writeSecretChat scOk peers ⟨(File.opened (file.getD [])).writes
      [word32.enc secretChatFileMagic, word32.enc 2, word32.enc 2], 0⟩
    have hzero : (0 : BitVec 32) + BitVec.ofNat 32 (okChats scOk peers).length =
      BitVec.ofNat 32 (okChats scOk peers).length := BitVec.zero_add _
    rw [hzero, ← peerWrites_flatMap] at hfold
    simp only [hfold]
    rw [List.take_of_length_le hk, fileOps, List.foldl_append, foldl_write, fileWrites,
      File.writes, List.foldl_append]
    rfl

/-- Until the number is patched, the file is what has been written and the rest of the old one. -/
theorem interrupted_eq (peers : List Peer) (file : Option (List UInt8)) {k : ℕ}
    (hk : k ≤ (fileWrites scOk peers).length + 1) :
    interrupted scOk false peers file k =
      some (((fileWrites scOk peers).take k).flatten ++
        (file.getD []).drop ((fileWrites scOk peers).take k).flatten.length) := by
  have hops : (((fileOps scOk peers).take k).foldl Op.run (File.opened (file.getD []))).content =
      ((File.opened (file.getD [])).writes ((fileWrites scOk peers).take k)).content := by
    unfold fileOps
    rw [List.take_append, List.length_map, ← List.map_take, List.foldl_append, foldl_write]
    rcases Nat.le_or_eq_of_le_succ hk with hle | rfl
    · rw [Nat.sub_eq_zero_of_le hle]
      rfl
    · rw [Nat.succ_sub le_rfl, Nat.sub_self]
      rfl
  rw [interrupted, if_neg Bool.false_ne_true, hops, File.opened_writes]

/-! ### The format of the file -/

/-- The bytes of a record that is read as the call. -/
def encodeRecord (v : BitVec 32) (name : List UInt8) (c : EncrChat) : List UInt8 :=
  word32.enc c.id ++ (word32.enc (BitVec.ofNat 32 name.length) ++ (name ++
    (word32.enc c.userId ++ (word32.enc c.adminId ++ (word32.enc c.date ++ (word32.enc c.ttl ++
    (word32.enc c.layer ++ (word64.enc c.accessHash ++ (word32.enc c.state ++
    (word64.enc c.keyFingerprint ++ ((block 256).enc c.key ++ ((block 20).enc c.sha ++
    if v.toInt ≥ 1 then
      word32.enc c.inSeqNo ++ (word32.enc c.lastInSeqNo ++ word32.enc c.outSeqNo)
    else []))))))))))))

/-- The bytes are a record of the chat, as version `v` has it. -/
structure IsRecord (v : BitVec 32) (c : EncrChat) (r : List UInt8) : Prop where
  bytes : ∃ name : List UInt8, 1 ≤ name.length ∧ name.length ≤ 999 ∧ r = encodeRecord v name c
  seqNos : ¬ v.toInt ≥ 1 → c.inSeqNo = 0 ∧ c.lastInSeqNo = 0 ∧ c.outSeqNo = 0

/-- **The reader takes exactly the records.** -/
theorem readSecretChat_iff {v : BitVec 32} {s t : List UInt8} {c : EncrChat} :
    readSecretChat v s = some (c, t) ↔ ∃ r, IsRecord v c r ∧ s = r ++ t := by
  constructor
  · intro h
    unfold readSecretChat at h
    simp only [bind_dec_eq_some word32_exact, bind_dec_eq_some word64_exact, bind_check_eq_some,
      bind_readExact_eq_some, bind_dec_eq_some (block_exact 256),
      bind_dec_eq_some (block_exact 20)] at h
    obtain ⟨id, _, rfl, l, _, rfl, hl, name, _, hname, rfl, userId, _, rfl, adminId, _, rfl,
      date, _, rfl, ttl, _, rfl, layer, _, rfl, accessHash, _, rfl, state, _, rfl,
      keyFingerprint, _, rfl, key, _, rfl, sha, u, rfl, h⟩ := h
    have hnat : (l.toNat : ℤ) = l.toInt := by
      have hlt := l.isLt
      rw [BitVec.toInt_eq_toNat_cond] at hl ⊢
      split_ifs at hl ⊢ <;> omega
    have hlen : BitVec.ofNat 32 name.length = l := by
      rw [hname, BitVec.ofNat_toNat, BitVec.setWidth_eq]
    by_cases hv : v.toInt ≥ 1
    · rw [if_pos hv] at h
      simp only [pure_bind, bind_dec_eq_some word32_exact] at h
      obtain ⟨inSeqNo, _, rfl, lastInSeqNo, _, rfl, outSeqNo, _, rfl, h⟩ := h
      cases h
      refine ⟨_, ⟨⟨name, by omega, by omega, rfl⟩, fun hneg => absurd hv hneg⟩, ?_⟩
      simp only [encodeRecord, hlen, if_pos hv, List.append_assoc]
    · rw [if_neg hv, pure_bind] at h
      cases h
      refine ⟨_, ⟨⟨name, by omega, by omega, rfl⟩, fun _ => ⟨rfl, rfl, rfl⟩⟩, ?_⟩
      simp only [encodeRecord, hlen, if_neg hv, List.append_assoc, List.nil_append]
  · rintro ⟨_, ⟨⟨name, hpos, hmax, rfl⟩, hseq⟩, rfl⟩
    have hnat : (BitVec.ofNat 32 name.length).toNat = name.length := Nat.mod_eq_of_lt (by omega)
    have hint : (BitVec.ofNat 32 name.length).toInt = name.length := by
      rw [BitVec.toInt_eq_toNat_of_lt (by omega), hnat]
    have hcheck : 0 < (BitVec.ofNat 32 name.length).toInt ∧
        (BitVec.ofNat 32 name.length).toInt < 1000 := by omega
    simp only [encodeRecord, List.append_assoc, readSecretChat]
    rw [bind_dec, bind_dec, bind_check hcheck, bind_readExact hnat.symm]
    simp only [bind_dec]
    by_cases hv : v.toInt ≥ 1
    · rw [if_pos hv, if_pos hv]
      simp only [pure_bind, List.append_assoc, bind_dec]
      rfl
    · obtain ⟨hin, hlast, hout⟩ := hseq hv
      rw [if_neg hv, if_neg hv, pure_bind, List.nil_append]
      obtain ⟨_, _, _, _, _, _, _, _, _, _, _, _, _, _⟩ := c
      simp only at hin hlast hout
      subst hin hlast hout
      rfl

/-- The number of chats and their records. -/
def Counted (v : BitVec 32) (l : List EncrChat) (s : List UInt8) : Prop :=
  ∃ x t, s = word32.enc x ++ t ∧ x.toInt = l.length ∧ BeginsWith (IsRecord v) l t

/-- A version the reader knows, with the number of chats and their records. -/
def Versioned (l : List EncrChat) (s : List UInt8) : Prop :=
  ∃ v t, s = word32.enc v ++ t ∧ (v = 0 ∨ v = 1 ∨ v = 2) ∧ Counted v l t

/-- What follows the version is read. -/
def readCounted (v : BitVec 32) : Reader (List EncrChat) := do
  let x ← word32.dec
  check (x.toInt ≥ 0)
  readMany (readSecretChat v) x.toNat

theorem readMany_records {v x : BitVec 32} (hx : x.toInt ≥ 0) {t : List UInt8}
    {l : List EncrChat} : (readMany (readSecretChat v) x.toNat t).map Prod.fst = some l ↔
      x.toInt = l.length ∧ BeginsWith (IsRecord v) l t := by
  have hnat : (x.toNat : ℤ) = x.toInt := by
    have hlt := x.isLt
    rw [BitVec.toInt_eq_toNat_cond] at hx ⊢
    split_ifs at hx ⊢ <;> omega
  rw [readMany_iff readSecretChat_iff, ← hnat, Nat.cast_inj, eq_comm]

theorem readCounted_enc {v x : BitVec 32} {t : List UInt8} {l : List EncrChat} :
    (readCounted v (word32.enc x ++ t)).map Prod.fst = some l ↔
      x.toInt = l.length ∧ BeginsWith (IsRecord v) l t := by
  unfold readCounted
  rw [bind_dec]
  by_cases hx : x.toInt ≥ 0
  · rw [bind_check hx, readMany_records hx]
  · refine iff_of_false (fun h => ?_) fun h => hx (by omega)
    obtain ⟨⟨l', u⟩, hread, -⟩ := Option.map_eq_some_iff.mp h
    exact hx (bind_check_eq_some.mp hread).1

theorem readCounted_iff {v : BitVec 32} {s : List UInt8} {l : List EncrChat} :
    (readCounted v s).map Prod.fst = some l ↔ Counted v l s := by
  constructor
  · intro h
    obtain ⟨⟨l', u⟩, hread, -⟩ := Option.map_eq_some_iff.mp h
    obtain ⟨x, t, rfl, -⟩ := (bind_dec_eq_some word32_exact).mp hread
    exact ⟨x, t, rfl, readCounted_enc.mp h⟩
  · rintro ⟨x, t, rfl, hx⟩
    exact readCounted_enc.mpr hx

theorem readChats_enc {v : BitVec 32} (hv : v = 0 ∨ v = 1 ∨ v = 2) (s : List UInt8) :
    readChats (word32.enc v ++ s) = readCounted v s := by
  rw [readChats, bind_dec, bind_check hv]
  rfl

/-- **The reader takes exactly the files of the format.** -/
theorem readChats_iff {s : List UInt8} {l : List EncrChat} :
    (readChats s).map Prod.fst = some l ↔ Versioned l s := by
  constructor
  · intro h
    obtain ⟨⟨l', u⟩, hread, -⟩ := Option.map_eq_some_iff.mp h
    obtain ⟨v, t, rfl, hcheck⟩ := (bind_dec_eq_some word32_exact).mp hread
    have hv := (bind_check_eq_some.mp hcheck).1
    rw [readChats_enc hv, readCounted_iff] at h
    exact ⟨v, t, rfl, hv, h⟩
  · rintro ⟨v, t, rfl, hv, h⟩
    rw [readChats_enc hv, readCounted_iff]
    exact h

/-- The file begins with the magic number. -/
theorem readSecretChatFile_magic (s : List UInt8) :
    readSecretChatFile false (some (word32.enc secretChatFileMagic ++ s)) =
      (readChats s).map Prod.fst := by
  simp only [readSecretChatFile, Bool.false_eq_true, if_false, word32.dec_enc, ne_eq,
    not_true_eq_false]

/-- An absent file is read as an empty one. -/
theorem readSecretChatFile_getD (file : Option (List UInt8)) :
    readSecretChatFile false (some (file.getD [])) = readSecretChatFile false file := by
  cases file with
  | none => rfl
  | some content => rfl

/-! ### What is loaded after an interruption -/

/-- The complete old list or the complete new one. -/
def OldOrNew (binlogEnabled : Bool) (peers : List Peer) (file : Option (List UInt8))
    (l : List EncrChat) : Prop :=
  readSecretChatFile binlogEnabled file = some l ∨ l = (okChats scOk peers).map SecretChat.call

/-- After an interruption the reader does not abort and loads one of the two lists. -/
def Loads (binlogEnabled : Bool) (peers : List Peer) (file : Option (List UInt8)) (k : ℕ) : Prop :=
  ∃ l, OldOrNew scOk binlogEnabled peers file l ∧
    readSecretChatFile binlogEnabled (interrupted scOk binlogEnabled peers file k) = some l

/-- The fields of the records, in the order in which they are written. -/
def fields (peers : List Peer) : List (List UInt8) := (okChats scOk peers).flatMap record

/-- The number of chats in the header when `n` fields and what follows have been written. -/
def headerCount (peers : List Peer) (n : ℕ) : BitVec 32 :=
  if n ≤ (fields scOk peers).length + 1 then 2 else BitVec.ofNat 32 (okChats scOk peers).length

/-- What stands behind the header when `n` fields have been written over the old file. -/
def behindHeader (peers : List Peer) (old : List UInt8) (n : ℕ) : List UInt8 :=
  let written := ((fields scOk peers).take n).flatten
  written ++ old.drop (12 + written.length)

theorem fileWrites_eq (peers : List Peer) : fileWrites scOk peers =
    word32.enc secretChatFileMagic :: word32.enc 2 :: word32.enc 2 :: fields scOk peers := by
  rw [fileWrites, peerWrites_flatMap]
  rfl

/-- The file behind its header while it is being written. -/
theorem written_eq (peers : List Peer) (old : List UInt8) (n : ℕ) :
    ((fileWrites scOk peers).take (n + 3)).flatten ++
        old.drop ((fileWrites scOk peers).take (n + 3)).flatten.length =
      (word32.enc secretChatFileMagic ++ word32.enc 2) ++ word32.enc 2 ++
        behindHeader scOk peers old n := by
  rw [fileWrites_eq, List.take_succ_cons, List.take_succ_cons, List.take_succ_cons]
  simp only [List.flatten_cons, List.length_append, length_word32, behindHeader,
    List.append_assoc]
  rw [show 12 + ((fields scOk peers).take n).flatten.length =
    4 + (4 + (4 + ((fields scOk peers).take n).flatten.length)) by omega]

/-- **The file from the third write on.** -/
theorem interrupted_records (peers : List Peer) (file : Option (List UInt8)) (n : ℕ) :
    interrupted scOk false peers file (n + 3) =
      some (word32.enc secretChatFileMagic ++ (word32.enc 2 ++
        (word32.enc (headerCount scOk peers n) ++
          behindHeader scOk peers (file.getD []) n))) := by
  have hlen : (fileWrites scOk peers).length = (fields scOk peers).length + 3 := by
    rw [fileWrites_eq]
    rfl
  by_cases hn : n ≤ (fields scOk peers).length + 1
  · rw [interrupted_eq scOk peers file (by omega), written_eq, headerCount, if_pos hn]
    simp only [List.append_assoc]
  · have htake :
        (fields scOk peers).take n = (fields scOk peers).take (fields scOk peers).length := by
      rw [List.take_of_length_le (by omega), List.take_length]
    have hcontent : ((File.opened (file.getD [])).writes (fileWrites scOk peers)).content =
        (word32.enc secretChatFileMagic ++ word32.enc 2) ++ word32.enc 2 ++
          behindHeader scOk peers (file.getD []) (fields scOk peers).length := by
      rw [← written_eq, ← hlen, List.take_length, File.opened_writes]
    have hlength : (word32.enc (BitVec.ofNat 32 (okChats scOk peers).length)).length =
        (word32.enc 2).length := by simp
    have hpatch := File.patch _ hcontent hlength
    rw [List.length_append, length_word32, length_word32] at hpatch
    have hall : (fileOps scOk peers).length ≤ n + 3 := by
      rw [fileOps, List.length_append, List.length_map, hlen, List.length_cons,
        List.length_singleton]
      omega
    rw [interrupted, if_neg Bool.false_ne_true, List.take_of_length_le hall, fileOps,
      List.foldl_append, foldl_write, headerCount, if_neg hn, behindHeader, htake, ← behindHeader]
    simp only [List.append_assoc] at hpatch
    exact congrArg some hpatch

/-- What is read when only the magic number has been written. -/
theorem read_interrupted_one {peers : List Peer} {file : Option (List UInt8)}
    {l : List EncrChat} :
    readSecretChatFile false (interrupted scOk false peers file 1) = some l ↔
      Versioned l ((file.getD []).drop 4) := by
  rw [interrupted_eq scOk peers file (by omega), fileWrites_eq, List.take_succ_cons,
    List.take_zero, List.flatten_singleton, length_word32, readSecretChatFile_magic, readChats_iff]

/-- What is read when the magic number and the version have been written. -/
theorem read_interrupted_two {peers : List Peer} {file : Option (List UInt8)}
    {l : List EncrChat} :
    readSecretChatFile false (interrupted scOk false peers file 2) = some l ↔
      Counted 2 l ((file.getD []).drop 8) := by
  rw [interrupted_eq scOk peers file (by rw [fileWrites_eq]; simp), fileWrites_eq,
    List.take_succ_cons, List.take_succ_cons, List.take_zero, List.flatten_cons,
    List.flatten_singleton, List.length_append, length_word32, length_word32, List.append_assoc,
    readSecretChatFile_magic, readChats_enc (by decide), readCounted_iff]

/-- What is read from the third write on. -/
theorem read_interrupted_records {peers : List Peer} {file : Option (List UInt8)} {n : ℕ}
    {l : List EncrChat} :
    readSecretChatFile false (interrupted scOk false peers file (n + 3)) = some l ↔
      (headerCount scOk peers n).toInt = l.length ∧
        BeginsWith (IsRecord 2) l (behindHeader scOk peers (file.getD []) n) := by
  rw [interrupted_records, readSecretChatFile_magic, readChats_enc (by decide), readCounted_enc]

/-- A first file is torn from its header on. -/
theorem header_alone_aborts : ¬ ∀ (peers : List Peer) (file : Option (List UInt8)) (k : ℕ),
    Loads 3 false peers file k := by
  intro h
  obtain ⟨l, -, hread⟩ := h [.encrChat (sampleChat 3)] none 3
  have habort : readSecretChatFile false
      (interrupted 3 false [.encrChat (sampleChat 3)] none 3) = none := rfl
  rw [habort] at hread
  cases hread

end TelegramCli.Loop.InterruptedWrite
