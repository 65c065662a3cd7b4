import TelegramCli.Loop.InterruptedWrite

/-! # Where writing the secret chat file may be stopped

What the reader finds after an interruption mixes the old file with the first writes. `Untorn` says
when this does no harm, as a condition on the old file, the new list and the number of writes:
before the third write, on the old file alone or together with the new list; from then on, while
the header announces two chats, on the list of exactly two chats that the written fields and the
rest of the old file agree on; at the end, on the names and the number of the new chats.

**Main theorem** `loads_iff`: the old list or the new one is loaded where nothing is torn, and only
there, as far as the lengths of the names and the number of chats fit the variables that hold
them. -/

namespace TelegramCli.Loop.TornFile

open TelegramCli.Lib.CString TelegramCli.Lib.Records TelegramCli.Loop.SecretChatFile
open TelegramCli.Loop.InterruptedWrite

variable (scOk : BitVec 32)

/-! ### The condition -/

/-- The list in the old file, which has none without the magic number. -/
def OldList (old : List UInt8) (l : List EncrChat) : Prop :=
  if word32.enc secretChatFileMagic <+: old then Versioned l (old.drop 4) else l = []

/-- The list the program writes. -/
def newList (peers : List Peer) : List EncrChat := (okChats scOk peers).map SecretChat.call

/-- The old list is the same one when version 2 stands in the old file's place for it. -/
inductive KeepsVersion (old : List UInt8) : Prop
  | noMagic (hmagic : ¬ word32.enc secretChatFileMagic <+: old)
      (hzero : word32.enc 0 <+: old.drop 8)
  | sameRecords {v : BitVec 32} {t : List UInt8} {l : List EncrChat} (hv : v = 1 ∨ v = 2)
      (hold : old = word32.enc secretChatFileMagic ++ (word32.enc v ++ t)) (hl : Counted v l t)
  | noRecord {t : List UInt8}
      (hold : old = word32.enc secretChatFileMagic ++ (word32.enc 0 ++ t))
      (hzero : word32.enc 0 <+: t)
  | oneRecord {t r : List UInt8} {c : EncrChat}
      (hold : old = word32.enc secretChatFileMagic ++ (word32.enc 0 ++ t)) (hr : IsRecord 0 c r)
      (hone : word32.enc 1 ++ (r ++ List.replicate 12 0) <+: t)

/-- The first `n` fields, as they have been written. -/
def written (peers : List Peer) (n : ℕ) : List UInt8 := ((fields scOk peers).take n).flatten

/-- The records of the first two new chats have been written, and they are one of the lists. -/
def TwoWritten (peers : List Peer) (old : List UInt8) (n : ℕ) : Prop :=
  ∃ P Q Ps, okChats scOk peers = P :: Q :: Ps ∧
    record P ++ record Q <+: (fields scOk peers).take n ∧ NameFits P ∧ NameFits Q ∧
      (Ps = [] ∨ OldList old [P.call, Q.call])

/-- One of the lists has two chats. The fields written agree with their records as far as they go,
and the old file has the rest of these in its place. -/
def TwoJoined (peers : List Peer) (old : List UInt8) (n : ℕ) : Prop :=
  ∃ c d r q, (newList scOk peers = [c, d] ∨ OldList old [c, d]) ∧ IsRecord 2 c r ∧ IsRecord 2 d q ∧
    written scOk peers n <+: r ++ q ∧
      (r ++ q).drop (written scOk peers n).length <+: old.drop (12 + (written scOk peers n).length)

/-- **Nothing is torn** by stopping after `k` operations. -/
def Untorn (peers : List Peer) (old : List UInt8) : ℕ → Prop
  | 0 => ∃ l, OldList old l
  | 1 =>
    if word32.enc secretChatFileMagic <+: old then ∃ l, Versioned l (old.drop 4)
    else Versioned [] (old.drop 4) ∨ Versioned (newList scOk peers) (old.drop 4)
  | 2 => KeepsVersion old ∨ Counted 2 (newList scOk peers) (old.drop 8)
  | n + 3 =>
    if n ≤ (fields scOk peers).length + 1 then
      TwoWritten scOk peers old n ∨ TwoJoined scOk peers old n
    else (∀ P ∈ okChats scOk peers, NameFits P) ∧ (okChats scOk peers).length < 2 ^ 31

/-! ### The old list -/

theorem drop_magic (t : List UInt8) : (word32.enc secretChatFileMagic ++ t).drop 4 = t :=
  List.drop_left' (length_word32 _)

theorem drop_version (v : BitVec 32) (t : List UInt8) :
    (word32.enc secretChatFileMagic ++ (word32.enc v ++ t)).drop 8 = t := by
  rw [← List.drop_drop (i := 4) (j := 4), drop_magic, List.drop_left' (length_word32 v)]

theorem oldList_magic {v : BitVec 32} (hv : v = 0 ∨ v = 1 ∨ v = 2) {t : List UInt8}
    {l : List EncrChat} (hl : Counted v l t) :
    OldList (word32.enc secretChatFileMagic ++ (word32.enc v ++ t)) l := by
  rw [OldList, if_pos (List.prefix_append _ _), drop_magic]
  exact ⟨v, t, rfl, hv, hl⟩

theorem readSecretChatFile_iff {file : Option (List UInt8)} {l : List EncrChat} :
    readSecretChatFile false file = some l ↔ OldList (file.getD []) l := by
  rw [← readSecretChatFile_getD]
  by_cases hmagic : word32.enc secretChatFileMagic <+: file.getD []
  · obtain ⟨t, ht⟩ := hmagic
    rw [OldList, if_pos ⟨t, ht⟩, ← ht, readSecretChatFile_magic, readChats_iff, drop_magic]
  · have hempty : readSecretChatFile false (some (file.getD [])) = some [] := by
      simp only [readSecretChatFile, Bool.false_eq_true, if_false]
      cases hdec : word32.dec (file.getD []) with
      | none => rfl
      | some p =>
        have hx : p.1 ≠ secretChatFileMagic := by
          intro hx
          rw [word32_exact hdec, hx] at hmagic
          exact hmagic (List.prefix_append _ _)
        exact if_pos hx
    rw [OldList, if_neg hmagic, hempty, Option.some_inj, eq_comm]

theorem loads_iff_read {peers : List Peer} {file : Option (List UInt8)} {k : ℕ} :
    Loads scOk false peers file k ↔ ∃ l, (OldList (file.getD []) l ∨ l = newList scOk peers) ∧
      readSecretChatFile false (interrupted scOk false peers file k) = some l := by
  have hread : ∀ l, readSecretChatFile false file = some l ↔ OldList (file.getD []) l :=
    fun _ => readSecretChatFile_iff
  unfold Loads OldOrNew
  simp only [hread]
  rfl

/-! ### The records -/

theorem counted_nil_iff {v : BitVec 32} {s : List UInt8} :
    Counted v [] s ↔ word32.enc 0 <+: s := by
  constructor
  · rintro ⟨x, t, rfl, hx, -⟩
    have hzero : x = 0 := BitVec.toInt_inj.mp hx
    rw [hzero]
    exact List.prefix_append _ _
  · rintro ⟨t, rfl⟩
    exact ⟨0, t, rfl, rfl, trivial⟩

/-- Versions 1 and 2 have the same records. -/
theorem encodeRecord_congr {v w : BitVec 32} (h : v.toInt ≥ 1 ↔ w.toInt ≥ 1)
    (name : List UInt8) (c : EncrChat) : encodeRecord v name c = encodeRecord w name c := by
  simp only [encodeRecord, h]

theorem isRecord_congr {v w : BitVec 32} (h : v.toInt ≥ 1 ↔ w.toInt ≥ 1) :
    IsRecord v = IsRecord w := by
  funext c r
  refine propext ⟨fun hr => ⟨?_, ?_⟩, fun hr => ⟨?_, ?_⟩⟩
  · simpa only [encodeRecord_congr h] using hr.bytes
  · simpa only [h] using hr.seqNos
  · simpa only [encodeRecord_congr h] using hr.bytes
  · simpa only [h] using hr.seqNos

theorem counted_two {v : BitVec 32} (hv : v = 1 ∨ v = 2) {l : List EncrChat} {s : List UInt8} :
    Counted v l s ↔ Counted 2 l s := by
  have hge : v.toInt ≥ 1 ↔ (2 : BitVec 32).toInt ≥ 1 := by
    rcases hv with rfl | rfl <;> decide
  unfold Counted
  rw [isRecord_congr hge]

theorem zeros_eq : List.replicate 12 (0 : UInt8) =
    word32.enc 0 ++ (word32.enc 0 ++ word32.enc 0) := by decide

/-- A record of version 0 is one of version 2 when twelve zero bytes follow. -/
theorem isRecord_zeros {c : EncrChat} {r : List UInt8} (hr : IsRecord 0 c r) :
    IsRecord 2 c (r ++ List.replicate 12 0) := by
  obtain ⟨name, hpos, hmax, rfl⟩ := hr.bytes
  obtain ⟨hin, hlast, hout⟩ := hr.seqNos (by decide)
  refine ⟨⟨name, hpos, hmax, ?_⟩, fun h => absurd (by decide) h⟩
  simp only [zeros_eq, encodeRecord, hin, hlast, hout,
    if_neg (show ¬ (0 : BitVec 32).toInt ≥ 1 by decide),
    if_pos (show (2 : BitVec 32).toInt ≥ 1 by decide), List.append_assoc, List.nil_append]

/-- Bytes begin with a record of a chat in one way. -/
theorem isRecord_unique {v : BitVec 32} {c d : EncrChat} {r q s t : List UInt8}
    (hr : IsRecord v c r) (hq : IsRecord v d q) (h : r ++ s = q ++ t) : c = d ∧ r = q ∧ s = t := by
  have hread : readSecretChat v (r ++ s) = some (c, s) := readSecretChat_iff.mpr ⟨r, hr, rfl⟩
  rw [h, readSecretChat_iff.mpr ⟨q, hq, rfl⟩] at hread
  cases hread
  exact ⟨rfl, List.append_cancel_right h, rfl⟩

theorem isRecord_ne_nil {v : BitVec 32} {c : EncrChat} {r : List UInt8} (hr : IsRecord v c r) :
    r ≠ [] := by
  obtain ⟨name, -, -, rfl⟩ := hr.bytes
  rw [encodeRecord]
  exact List.append_ne_nil_of_left_ne_nil (List.ne_nil_of_length_pos (by simp)) _

/-- No record begins with zeros: a name has at least a byte. -/
theorem isRecord_not_zeros {v : BitVec 32} {c : EncrChat} {r s t : List UInt8}
    (hr : IsRecord v c r) : List.replicate 12 0 ++ s ≠ r ++ t := by
  obtain ⟨name, hpos, hmax, rfl⟩ := hr.bytes
  intro h
  rw [zeros_eq, encodeRecord] at h
  simp only [List.append_assoc] at h
  have hlen := (word32.enc_append_inj (word32.enc_append_inj h).2).1
  have hnat : 0 = (BitVec.ofNat 32 name.length).toNat := congrArg BitVec.toNat hlen
  rw [BitVec.toNat_ofNat] at hnat
  omega

/-- The same chat read as version 0 and as version 2: three zero words stand between the two
ends. -/
theorem zeros_of_isRecord {c : EncrChat} {r q s t : List UInt8} (hr : IsRecord 0 c r)
    (hq : IsRecord 2 c q) (h : r ++ s = q ++ t) : s = List.replicate 12 0 ++ t := by
  obtain ⟨hin, hlast, hout⟩ := hr.seqNos (by decide)
  obtain ⟨name, hpos, hmax, rfl⟩ := hr.bytes
  obtain ⟨name', hpos', hmax', rfl⟩ := hq.bytes
  simp only [encodeRecord, hin, hlast, hout,
    if_neg (show ¬ (0 : BitVec 32).toInt ≥ 1 by decide),
    if_pos (show (2 : BitVec 32).toInt ≥ 1 by decide), List.append_assoc, List.nil_append] at h
  obtain ⟨hlen, hname⟩ := word32.enc_append_inj (word32.enc_append_inj h).2
  have hlength : name.length = name'.length := by
    have hnat := congrArg BitVec.toNat hlen
    rwa [BitVec.toNat_ofNat, BitVec.toNat_ofNat, Nat.mod_eq_of_lt (by omega),
      Nat.mod_eq_of_lt (by omega)] at hnat
  have hrest := (List.append_inj hname hlength).2
  simp only [List.append_cancel_left_eq] at hrest
  rw [hrest, zeros_eq]
  simp only [List.append_assoc]

/-- **What version 0 and version 2 both read**: no chat, or one whose record ends before zeros. -/
theorem counted_zero_two {l : List EncrChat} {t : List UInt8} (h0 : Counted 0 l t)
    (h2 : Counted 2 l t) : word32.enc 0 <+: t ∨
      ∃ c r, IsRecord 0 c r ∧ word32.enc 1 ++ (r ++ List.replicate 12 0) <+: t := by
  match l with
  | [] => exact .inl (counted_nil_iff.mp h0)
  | c :: l =>
    obtain ⟨x, u, rfl, hx, r, s, hr, rfl, hrest⟩ := h0
    obtain ⟨y, u', hu, -, q, s', hq, rfl, -⟩ := h2
    have hzeros := zeros_of_isRecord hr hq (word32.enc_append_inj hu).2
    rw [hzeros] at hrest ⊢
    match l with
    | [] =>
      have hone : x = 1 := BitVec.toInt_inj.mp hx
      rw [hone]
      exact .inr ⟨c, r, hr, s', by simp only [List.append_assoc]⟩
    | d :: l =>
      obtain ⟨r', t', hr', hnext, -⟩ := hrest
      exact absurd hnext (isRecord_not_zeros hr')

/-- **The old list behind a version that has been written** is the old list exactly when the file
keeps it. -/
theorem keepsVersion_iff {old : List UInt8} :
    (∃ l, OldList old l ∧ Counted 2 l (old.drop 8)) ↔ KeepsVersion old := by
  constructor
  · rintro ⟨l, hl, hcounted⟩
    by_cases hmagic : word32.enc secretChatFileMagic <+: old
    · rw [OldList, if_pos hmagic] at hl
      obtain ⟨s, rfl⟩ := hmagic
      rw [drop_magic] at hl
      obtain ⟨v, t, rfl, hv, hl⟩ := hl
      rw [drop_version] at hcounted
      rcases hv with rfl | hv
      · rcases counted_zero_two hl hcounted with hzero | ⟨c, r, hr, hone⟩
        · exact .noRecord rfl hzero
        · exact .oneRecord rfl hr hone
      · exact .sameRecords hv rfl hl
    · rw [OldList, if_neg hmagic] at hl
      rw [hl, counted_nil_iff] at hcounted
      exact .noMagic hmagic hcounted
  · rintro (⟨hmagic, hzero⟩ | ⟨hv, rfl, hl⟩ | ⟨rfl, hzero⟩ | ⟨rfl, hr, t, rfl⟩)
    · exact ⟨[], by rw [OldList, if_neg hmagic], counted_nil_iff.mpr hzero⟩
    · refine ⟨_, oldList_magic (.inr hv) hl, ?_⟩
      rw [drop_version]
      exact (counted_two hv).mp hl
    · refine ⟨[], oldList_magic (.inl rfl) (counted_nil_iff.mpr hzero), ?_⟩
      rw [drop_version]
      exact counted_nil_iff.mpr hzero
    · rename_i r c
      have hold : Counted 0 [c] (word32.enc 1 ++ (r ++ List.replicate 12 0) ++ t) :=
        ⟨1, r ++ (List.replicate 12 0 ++ t), by simp only [List.append_assoc], rfl, r, _, hr, rfl,
          trivial⟩
      have hnew : Counted 2 [c] (word32.enc 1 ++ (r ++ List.replicate 12 0) ++ t) :=
        ⟨1, r ++ List.replicate 12 0 ++ t, by simp only [List.append_assoc], rfl, _, t,
          isRecord_zeros hr, rfl, trivial⟩
      refine ⟨[c], oldList_magic (.inl rfl) hold, ?_⟩
      rw [drop_version]
      exact hnew

/-! ### The new records -/

theorem isRecord_record {P : SecretChat} (h : NameFits P) :
    IsRecord 2 P.call (record P).flatten where
  bytes := by
    refine ⟨cstring P.printName, h.1, h.2, ?_⟩
    simp only [record, List.take_length, List.flatten_cons, List.flatten_nil, List.append_nil,
      encodeRecord, if_pos (show (2 : BitVec 32).toInt ≥ 1 by decide)]
    rfl
  seqNos := fun h => absurd (by decide) h

theorem beginsWith_records (t : List UInt8) : ∀ {Ps : List SecretChat}, (∀ P ∈ Ps, NameFits P) →
    BeginsWith (IsRecord 2) (Ps.map SecretChat.call) ((Ps.flatMap record).flatten ++ t)
  | [], _ => trivial
  | P :: Ps, h => by
    have ih := beginsWith_records t fun Q hQ => h Q (List.mem_cons_of_mem P hQ)
    refine ⟨_, _, isRecord_record (h P List.mem_cons_self), ?_, ih⟩
    rw [List.flatMap_cons, List.flatten_append, List.append_assoc]

/-- The length of the print name fits the variable that holds it. -/
def NameInt (P : SecretChat) : Prop := (cstring P.printName).length < 2 ^ 31

/-- **What is read where a new record stands** is that record, of a name the reader takes. -/
theorem record_of_isRecord {P : SecretChat} (hP : NameInt P) {c : EncrChat} {r s t : List UInt8}
    (hr : IsRecord 2 c r) (h : r ++ s = (record P).flatten ++ t) :
    NameFits P ∧ c = P.call ∧ r = (record P).flatten ∧ s = t := by
  have hfits : NameFits P := by
    obtain ⟨name, hpos, hmax, rfl⟩ := hr.bytes
    simp only [encodeRecord, record, List.take_length, List.flatten_cons, List.append_assoc] at h
    have hlen := (word32.enc_append_inj (word32.enc_append_inj h).2).1
    have hnat := congrArg BitVec.toNat hlen
    unfold NameInt at hP
    rw [BitVec.toNat_ofNat, BitVec.toNat_ofNat, Nat.mod_eq_of_lt (by omega),
      Nat.mod_eq_of_lt (by omega)] at hnat
    exact ⟨by omega, by omega⟩
  exact ⟨hfits, isRecord_unique hr (isRecord_record hfits) h⟩

/-- Behind all fields, the reader takes the records of names it takes. -/
theorem nameFits_of_beginsWith {t : List UInt8} : ∀ {Ps : List SecretChat} {l : List EncrChat},
    (∀ P ∈ Ps, NameInt P) → l.length = Ps.length →
      BeginsWith (IsRecord 2) l ((Ps.flatMap record).flatten ++ t) → ∀ P ∈ Ps, NameFits P
  | [], _, _, _, _ => by simp
  | P :: Ps, c :: l, hint, hlen, ⟨r, s, hr, heq, hrest⟩ => by
    rw [List.flatMap_cons, List.flatten_append, List.append_assoc] at heq
    obtain ⟨hfits, -, -, rfl⟩ := record_of_isRecord (hint P List.mem_cons_self) hr heq.symm
    have ih := nameFits_of_beginsWith (fun Q hQ => hint Q (List.mem_cons_of_mem P hQ))
      (Nat.succ.inj hlen) hrest
    exact List.forall_mem_cons.mpr ⟨hfits, ih⟩

theorem length_record (P : SecretChat) : (record P).length = 16 := rfl

/-- Without its last field a record is shorter. -/
theorem length_take_record (P : SecretChat) {n : ℕ} (hn : n < 16) :
    ((record P).take n).flatten.length < (record P).flatten.length := by
  have hlast : record P = (record P).take 15 ++ [word32.enc P.outSeqNo] := rfl
  have hdrop : (record P).drop n = ((record P).take 15).drop n ++ [word32.enc P.outSeqNo] := by
    conv_lhs => rw [hlast]
    exact List.drop_append_of_le_length (by rw [List.length_take, length_record]; omega)
  have hsplit := congrArg (fun bss => bss.flatten.length) (List.take_append_drop n (record P))
  simp only [List.flatten_append, List.length_append, hdrop, List.flatten_singleton,
    length_word32] at hsplit
  omega

/-- A whole record among the first fields of new records: all its fields are among them. -/
theorem record_written {Ps : List SecretChat} (hint : ∀ P ∈ Ps, NameInt P) {n : ℕ}
    {c : EncrChat} {r s : List UInt8} (hr : IsRecord 2 c r)
    (h : r ++ s <+: ((Ps.flatMap record).take n).flatten) :
    ∃ P Qs, Ps = P :: Qs ∧ NameFits P ∧ c = P.call ∧ 16 ≤ n ∧
      s <+: ((Qs.flatMap record).take (n - 16)).flatten := by
  match Ps with
  | [] =>
    have hnil : r ++ s = [] := by simpa using h
    exact absurd (List.append_eq_nil_iff.mp hnil).1 (isRecord_ne_nil hr)
  | P :: Qs =>
    obtain ⟨t, ht⟩ := h
    have hall : ((P :: Qs).flatMap record).flatten =
        (record P).flatten ++ (Qs.flatMap record).flatten := by
      rw [List.flatMap_cons, List.flatten_append]
    have hsplit := congrArg List.flatten (List.take_append_drop n ((P :: Qs).flatMap record))
    rw [List.flatten_append, hall, ← ht, List.append_assoc, List.append_assoc] at hsplit
    obtain ⟨hfits, hc, hrec, -⟩ := record_of_isRecord (hint P List.mem_cons_self) hr hsplit
    have hn : 16 ≤ n := by
      by_contra hlt
      have hlen := congrArg List.length ht
      rw [List.flatMap_cons,
        List.take_append_of_le_length (by rw [length_record]; omega), hrec] at hlen
      have hshort := length_take_record P (not_le.mp hlt)
      simp only [List.length_append] at hlen
      omega
    refine ⟨P, Qs, rfl, hfits, hc, hn, t, ?_⟩
    rw [List.flatMap_cons, List.take_append, length_record,
      List.take_of_length_le (by rw [length_record]; exact hn), List.flatten_append, ← hrec,
      List.append_assoc] at ht
    exact List.append_cancel_left ht

/-! ### The whole operation -/

theorem behindHeader_eq (peers : List Peer) (old : List UInt8) (n : ℕ) :
    behindHeader scOk peers old n =
      written scOk peers n ++ old.drop (12 + (written scOk peers n).length) := rfl

/-- **Behind the placeholder** the records of two chats are found: they have been written, or the
written fields and the old file join to them. -/
theorem beginsWith_two_iff {peers : List Peer} {old : List UInt8} {n : ℕ} {c d : EncrChat} :
    BeginsWith (IsRecord 2) [c, d] (behindHeader scOk peers old n) ↔
      ∃ r q, IsRecord 2 c r ∧ IsRecord 2 d q ∧ (r ++ q <+: written scOk peers n ∨
        written scOk peers n <+: r ++ q ∧
          (r ++ q).drop (written scOk peers n).length <+:
            old.drop (12 + (written scOk peers n).length)) := by
  rw [beginsWith_pair, behindHeader_eq]
  simp only [prefix_append_iff]

/-- The records of the first two new chats are among the fields written. -/
theorem twoWritten_of_isPrefix {peers : List Peer} {old : List UInt8} {n : ℕ} {c d : EncrChat}
    {r q : List UInt8} (hint : ∀ P ∈ okChats scOk peers, NameInt P) (hr : IsRecord 2 c r)
    (hq : IsRecord 2 d q) (h : r ++ q <+: written scOk peers n)
    (hl : OldList old [c, d] ∨ [c, d] = newList scOk peers) : TwoWritten scOk peers old n := by
  obtain ⟨P, Qs, hPs, hP, rfl, hn, hrest⟩ := record_written hint hr h
  rw [← List.append_nil q] at hrest
  obtain ⟨Q, Ps, rfl, hQ, rfl, hn', -⟩ := record_written
    (fun R hR => hint R (by rw [hPs]; exact List.mem_cons_of_mem P hR)) hq hrest
  refine ⟨P, Q, Ps, hPs, ?_, hP, hQ, ?_⟩
  · rw [List.prefix_take_iff, fields, hPs, List.flatMap_cons, List.flatMap_cons,
      ← List.append_assoc, List.length_append, length_record, length_record]
    exact ⟨List.prefix_append _ _, by omega⟩
  · refine hl.elim .inr fun hnew => .inl ?_
    have hlen := congrArg List.length hnew
    rw [newList, hPs, List.length_map] at hlen
    exact List.eq_nil_of_length_eq_zero (Nat.succ.inj (Nat.succ.inj hlen)).symm

theorem toInt_count {m : ℕ} (hm : m < 2 ^ 31) : (BitVec.ofNat 32 m).toInt = m := by
  have hnat : (BitVec.ofNat 32 m).toNat = m := Nat.mod_eq_of_lt (by omega)
  rw [BitVec.toInt_eq_toNat_of_lt (by omega), hnat]

/-- Stopped before the third write. -/
theorem loads_header_iff {peers : List Peer} {file : Option (List UInt8)} {k : ℕ} (hk : k < 3) :
    Loads scOk false peers file k ↔ Untorn scOk peers (file.getD []) k := by
  rw [loads_iff_read]
  match k with
  | 0 =>
    rw [interrupted_eq scOk peers file (Nat.zero_le _), List.take_zero, List.flatten_nil,
      List.length_nil, List.drop_zero, List.nil_append, readSecretChatFile_getD]
    simp only [readSecretChatFile_iff]
    exact ⟨fun ⟨l, _, hl⟩ => ⟨l, hl⟩, fun ⟨l, hl⟩ => ⟨l, .inl hl, hl⟩⟩
  | 1 =>
    simp only [read_interrupted_one, Untorn, OldList]
    split_ifs with hmagic
    · exact ⟨fun ⟨l, _, hl⟩ => ⟨l, hl⟩, fun ⟨l, hl⟩ => ⟨l, .inl hl, hl⟩⟩
    · simp only [or_and_right, exists_or, exists_eq_left]
  | 2 =>
    simp only [read_interrupted_two, Untorn, or_and_right, exists_or, exists_eq_left,
      keepsVersion_iff]

/-- While records are written, stopped where nothing is torn. -/
theorem loads_of_two {peers : List Peer} {file : Option (List UInt8)} {n : ℕ}
    (hn : n ≤ (fields scOk peers).length + 1)
    (h : TwoWritten scOk peers (file.getD []) n ∨ TwoJoined scOk peers (file.getD []) n) :
    Loads scOk false peers file (n + 3) := by
  rw [loads_iff_read]
  simp only [read_interrupted_records, headerCount, if_pos hn]
  rcases h with ⟨P, Q, Ps, hPs, hwritten, hP, hQ, hl⟩ | ⟨c, d, r, q, hl, hr, hq, hjoin⟩
  · refine ⟨[P.call, Q.call], ?_, rfl, ?_⟩
    · refine hl.elim (fun hnil => .inr ?_) .inl
      rw [newList, hPs, hnil]
      rfl
    · refine (beginsWith_two_iff scOk).mpr
        ⟨_, _, isRecord_record hP, isRecord_record hQ, .inl ?_⟩
      obtain ⟨t, ht⟩ := hwritten
      rw [written, ← ht, List.flatten_append, List.flatten_append]
      exact List.prefix_append _ _
  · exact ⟨[c, d], hl.symm.imp_right Eq.symm, rfl,
      (beginsWith_two_iff scOk).mpr ⟨r, q, hr, hq, .inr hjoin⟩⟩

/-- While records are written, nothing is torn where one of the lists is loaded. -/
theorem two_of_loads {peers : List Peer} {file : Option (List UInt8)} {n : ℕ}
    (hint : ∀ P ∈ okChats scOk peers, NameInt P) (hn : n ≤ (fields scOk peers).length + 1)
    (h : Loads scOk false peers file (n + 3)) :
    TwoWritten scOk peers (file.getD []) n ∨ TwoJoined scOk peers (file.getD []) n := by
  rw [loads_iff_read] at h
  simp only [read_interrupted_records, headerCount, if_pos hn] at h
  obtain ⟨l, hl, hcount, hbegins⟩ := h
  have htwo : l.length = 2 := Nat.cast_inj.mp (hcount.symm.trans (by decide))
  obtain ⟨c, d, rfl⟩ := List.length_eq_two.mp htwo
  obtain ⟨r, q, hr, hq, hwritten | hjoin⟩ := (beginsWith_two_iff scOk).mp hbegins
  · exact .inl (twoWritten_of_isPrefix scOk hint hr hq hwritten hl)
  · exact .inr ⟨c, d, r, q, hl.symm.imp_left Eq.symm, hr, hq, hjoin⟩

/-- All writes done. -/
theorem loads_complete_iff {peers : List Peer} {file : Option (List UInt8)} {n : ℕ}
    (hn : ¬ n ≤ (fields scOk peers).length + 1) (hcount : (okChats scOk peers).length < 2 ^ 31) :
    ((∀ P ∈ okChats scOk peers, NameFits P) → Loads scOk false peers file (n + 3)) ∧
      ((∀ P ∈ okChats scOk peers, NameInt P) → Loads scOk false peers file (n + 3) →
        ∀ P ∈ okChats scOk peers, NameFits P) := by
  have htake : (fields scOk peers).take n = fields scOk peers := List.take_of_length_le (by omega)
  rw [loads_iff_read]
  simp only [read_interrupted_records, headerCount, if_neg hn, toInt_count hcount, behindHeader,
    htake]
  constructor
  · intro hnames
    exact ⟨_, .inr rfl, by rw [newList, List.length_map], beginsWith_records _ hnames⟩
  · rintro hint ⟨l, -, hlen, hbegins⟩
    exact nameFits_of_beginsWith hint (Nat.cast_inj.mp hlen).symm hbegins

/-- **Where the writer may be stopped**: the old list or the new one is loaded if nothing is torn,
and only then, for names and a number of chats in the range of an `int`. -/
theorem loads_iff (peers : List Peer) (file : Option (List UInt8)) (k : ℕ) :
    (Untorn scOk peers (file.getD []) k → Loads scOk false peers file k) ∧
      ((∀ P ∈ okChats scOk peers, NameInt P) → (okChats scOk peers).length < 2 ^ 31 →
        Loads scOk false peers file k → Untorn scOk peers (file.getD []) k) := by
  by_cases hk : k < 3
  · rw [loads_header_iff scOk hk]
    exact ⟨id, fun _ _ => id⟩
  · obtain ⟨n, rfl⟩ := Nat.exists_eq_add_of_le' (not_lt.mp hk)
    simp only [Untorn]
    split_ifs with hn
    · exact ⟨loads_of_two scOk hn, fun hint _ => two_of_loads scOk hint hn⟩
    · exact ⟨fun h => (loads_complete_iff scOk hn h.2).1 h.1, fun hint hcount h =>
        ⟨(loads_complete_iff scOk hn hcount).2 hint h, hcount⟩⟩

end TelegramCli.Loop.TornFile
