import TelegramCli.Interface.Rounds
import TelegramCli.Json.Pack
import TelegramCli.Lib.Records

/-! # Permanent ids

A permanent id is printed as the hexadecimal digits of its bytes in memory, the one of a peer behind
a `$`. What the parsers read of such a text is the id again (`permanent_ids_round_trip`). The parser
of message ids checks the first half of the digits only, and the assertion in `hex2int` fails when
the other half has something else (`msgId_checked_iff`). -/

namespace TelegramCli.Interface.PermanentIds

open TelegramCli.Lib.CString TelegramCli.Lib.Records TelegramCli.Tgl
open TelegramCli.Interface.Ids hiding Env
open TelegramCli.Interface.Rounds
open TelegramCli.Json.Pack (hexDigit hexText printPermanentMsgId printPermanentPeerId)

/-! ### Digits -/

theorem hex2int_hexDigit {n : ℕ} (h : n < 16) : hex2int (hexDigit n) = some n := by
  interval_cases n <;> rfl

theorem hexDigit_of_hex2int {c : UInt8} {n : ℕ} (h : hex2int c = some n) :
    n < 16 ∧ hexDigit n = c := by
  unfold hex2int at h
  split_ifs at h with hdec hhex
  · obtain ⟨hlo, hhi⟩ := Bool.and_eq_true_iff.mp hdec
    have hlo' : 48 ≤ c.toNat := UInt8.le_iff_toNat_le.mp (of_decide_eq_true hlo)
    have hhi' : c.toNat ≤ 57 := UInt8.le_iff_toNat_le.mp (of_decide_eq_true hhi)
    obtain rfl := Option.some.inj h
    refine ⟨by omega, ?_⟩
    rw [hexDigit, if_pos (by omega), show 48 + (c.toNat - 48) = c.toNat by omega,
      UInt8.ofNat_toNat]
  · obtain ⟨hlo, hhi⟩ := Bool.and_eq_true_iff.mp hhex
    have hlo' : 97 ≤ c.toNat := UInt8.le_iff_toNat_le.mp (of_decide_eq_true hlo)
    have hhi' : c.toNat ≤ 102 := UInt8.le_iff_toNat_le.mp (of_decide_eq_true hhi)
    obtain rfl := Option.some.inj h
    refine ⟨by omega, ?_⟩
    rw [hexDigit, if_neg (by omega), show 87 + (c.toNat - 87) = c.toNat by omega,
      UInt8.ofNat_toNat]

theorem hexText_cons (b : UInt8) (bs : List UInt8) :
    hexText (b :: bs) = hexDigit (b.toNat / 16) :: hexDigit (b.toNat % 16) :: hexText bs := rfl

theorem length_hexText : ∀ bs : List UInt8, (hexText bs).length = 2 * bs.length
  | [] => rfl
  | b :: bs => by
    rw [hexText_cons, List.length_cons, List.length_cons, List.length_cons, length_hexText bs]
    omega

/-- **Bytes that were printed** are read back. -/
theorem hexBytes_hexText : ∀ bs : List UInt8, hexBytes (hexText bs) = some bs
  | [] => rfl
  | b :: bs => by
    have hb := b.toNat_lt
    have hbyte : UInt8.ofNat (b.toNat / 16 * 16 + b.toNat % 16) = b := by
      rw [Nat.div_add_mod', UInt8.ofNat_toNat]
    rw [hexText_cons, hexBytes, hex2int_hexDigit (by omega), hex2int_hexDigit (by omega),
      hexBytes_hexText bs]
    simp only [Option.bind_eq_bind, Option.bind_some, hbyte]
    rfl

/-- Pairs of digits are the text of the bytes they spell. -/
theorem hexText_of_hexBytes : ∀ {n : ℕ} {tok bs : List UInt8}, tok.length = 2 * n →
    hexBytes tok = some bs → hexText bs = tok ∧ bs.length = n
  | 0, [], bs, _, h => by cases h; exact ⟨rfl, rfl⟩
  | 0, _ :: _, _, hlen, _ => by simp at hlen
  | n + 1, [], _, hlen, _ => by simp at hlen
  | n + 1, [_], _, hlen, _ => by
    rw [List.length_singleton] at hlen
    omega
  | n + 1, a :: b :: p, bs, hlen, h => by
    have hp : p.length = 2 * n := by
      rw [List.length_cons, List.length_cons] at hlen
      omega
    rw [hexBytes] at h
    obtain ⟨hi, ha, h⟩ := Option.bind_eq_some_iff.mp h
    obtain ⟨lo, hb, h⟩ := Option.bind_eq_some_iff.mp h
    obtain ⟨bs', hbs, h⟩ := Option.bind_eq_some_iff.mp h
    obtain rfl := Option.some.inj h
    obtain ⟨hhi, rfl⟩ := hexDigit_of_hex2int ha
    obtain ⟨hlo, rfl⟩ := hexDigit_of_hex2int hb
    obtain ⟨htext, hn⟩ := hexText_of_hexBytes hp hbs
    have hbyte : (UInt8.ofNat (hi * 16 + lo)).toNat = hi * 16 + lo := by
      rw [UInt8.toNat_ofNat']
      omega
    rw [hexText_cons, htext, hbyte, List.length_cons, hn, show (hi * 16 + lo) / 16 = hi by omega,
      show (hi * 16 + lo) % 16 = lo by omega]
    exact ⟨rfl, rfl⟩

theorem hexText_all (bs : List UInt8) : (hexText bs).all isHex = true := by
  rw [← hexBytes_isSome (length_hexText bs), hexBytes_hexText]
  rfl

/-! ### The layout of ids -/

/-- The ids are structs of 24 and 16 bytes, and every byte belongs to a field: no two patterns of
bytes stand for one id. -/
structure NoPadding (E : Ids.Env) (J : Json.Pack.Env) : Prop where
  sizeofMsgId : E.sizeofMsgId = 24
  sizeofPeerId : E.sizeofPeerId = 16
  msgIdBytes_of : ∀ bs, bs.length = E.sizeofMsgId → J.msgIdBytes (E.msgIdOf bs) = bs
  peerIdBytes_of : ∀ bs, bs.length = E.sizeofPeerId → J.peerIdBytes (E.peerIdOf bs) = bs

/-- The values of `tgl_message_id_t` and `tgl_peer_id_t`: the ids that bytes in memory stand for. -/
def IsMsgId (E : Ids.Env) (id : MsgId) : Prop :=
  ∃ bs : List UInt8, bs.length = E.sizeofMsgId ∧ E.msgIdOf bs = id

@[inherit_doc IsMsgId]
def IsPeerId (E : Ids.Env) (id : PeerId) : Prop :=
  ∃ bs : List UInt8, bs.length = E.sizeofPeerId ∧ E.peerIdOf bs = id

/-- A signed field of `n` bytes. -/
def fieldOf (n : ℕ) (bs : List UInt8) : ℤ := (BitVec.ofNat (8 * n) (ofLe bs)).toInt

@[inherit_doc fieldOf]
def fieldBytes (n : ℕ) (x : ℤ) : List UInt8 := (word n).enc (BitVec.ofInt (8 * n) x)

theorem fieldBytes_fieldOf {n : ℕ} {bs : List UInt8} (h : bs.length = n) :
    fieldBytes n (fieldOf n bs) = bs := by
  have hlt : ofLe bs < 2 ^ (8 * n) := by
    have h256 := ofLe_lt bs
    rwa [h, show (256 : ℕ) = 2 ^ 8 from rfl, ← pow_mul] at h256
  have hle := le_ofLe bs
  rw [h] at hle
  rw [fieldBytes, fieldOf, BitVec.ofInt_toInt]
  change le n (BitVec.ofNat (8 * n) (ofLe bs)).toNat = bs
  rw [BitVec.toNat_ofNat, Nat.mod_eq_of_lt hlt, hle]

theorem fieldOf_fieldBytes {n : ℕ} (hn : 0 < n) {x : ℤ} (hlo : -2 ^ (8 * n - 1) ≤ x)
    (hhi : x < 2 ^ (8 * n - 1)) : fieldOf n (fieldBytes n x) = x := by
  have hlt : (BitVec.ofInt (8 * n) x).toNat < 256 ^ n := by
    have hx := (BitVec.ofInt (8 * n) x).isLt
    rwa [pow_mul, show (2 : ℕ) ^ 8 = 256 from rfl] at hx
  change (BitVec.ofNat (8 * n) (ofLe (le n (BitVec.ofInt (8 * n) x).toNat))).toInt = x
  rw [ofLe_le hlt, BitVec.ofNat_toNat, BitVec.setWidth_eq,
    BitVec.toInt_ofInt_eq_self (by omega) hlo hhi]

/-- The types by their numbers. -/
def peerTypeOf (n : ℤ) : PeerType :=
  if n = 1 then .user else if n = 2 then .chat else if n = 3 then .geoChat
  else if n = 4 then .encrChat else if n = 5 then .channel else .other n

@[inherit_doc peerTypeOf]
def peerTypeNumber : PeerType → ℤ
  | .user => 1
  | .chat => 2
  | .geoChat => 3
  | .encrChat => 4
  | .channel => 5
  | .other n => n

theorem peerTypeNumber_of (n : ℤ) : peerTypeNumber (peerTypeOf n) = n := by
  unfold peerTypeOf
  split_ifs with h1 h2 h3 h4 h5
  · exact h1.symm
  · exact h2.symm
  · exact h3.symm
  · exact h4.symm
  · exact h5.symm
  · rfl

/-- The fields of `tgl_message_id_t` in memory, the ones of `tgl_peer_id_t` below. -/
def littleMsgIdOf (bs : List UInt8) : MsgId where
  peerType := fieldOf 4 (bs.take 4)
  peerId := fieldOf 4 ((bs.drop 4).take 4)
  id := fieldOf 8 ((bs.drop 8).take 8)
  accessHash := fieldOf 8 (bs.drop 16)

@[inherit_doc littleMsgIdOf]
def littleMsgIdBytes (id : MsgId) : List UInt8 :=
  fieldBytes 4 id.peerType ++ fieldBytes 4 id.peerId ++ fieldBytes 8 id.id ++
    fieldBytes 8 id.accessHash

@[inherit_doc littleMsgIdOf]
def littlePeerIdOf (bs : List UInt8) : PeerId where
  peerType := peerTypeOf (fieldOf 4 (bs.take 4))
  peerId := fieldOf 4 ((bs.drop 4).take 4)
  accessHash := fieldOf 8 (bs.drop 8)

@[inherit_doc littleMsgIdOf]
def littlePeerIdBytes (id : PeerId) : List UInt8 :=
  fieldBytes 4 (peerTypeNumber id.peerType) ++ fieldBytes 4 id.peerId ++ fieldBytes 8 id.accessHash

/-- The library of such a machine. -/
def littleEnv : Ids.Env where
  sizeofPeerId := 16
  sizeofMsgId := 24
  peerIdOf := littlePeerIdOf
  msgIdOf := littleMsgIdOf
  peerTempId := 100
  strtod s := (0, s)
  peerGet _ := none
  peerGetByName _ := none
  lookupUsername _ := none

@[inherit_doc littleEnv]
def littleJson : Json.Pack.Env where
  peerGet _ := none
  peerIdBytes := littlePeerIdBytes
  msgIdBytes := littleMsgIdBytes
  localtime _ := ⟨12, 0, 0, 1, 0, 116⟩
  jsonReal x := some (.real x)

/-- Every id whose fields fit is a value of the type. -/
theorem isMsgId_little {id : MsgId} (ht : -2 ^ 31 ≤ id.peerType ∧ id.peerType < 2 ^ 31)
    (hp : -2 ^ 31 ≤ id.peerId ∧ id.peerId < 2 ^ 31) (hi : -2 ^ 63 ≤ id.id ∧ id.id < 2 ^ 63)
    (ha : -2 ^ 63 ≤ id.accessHash ∧ id.accessHash < 2 ^ 63) : IsMsgId littleEnv id := by
  have hlen : ∀ n x, (fieldBytes n x).length = n := fun n x => length_le n _
  refine ⟨littleMsgIdBytes id, ?_, ?_⟩
  · simp [littleMsgIdBytes, hlen, littleEnv]
  · change littleMsgIdOf (littleMsgIdBytes id) = id
    unfold littleMsgIdOf littleMsgIdBytes
    simp only [List.append_assoc]
    have h8 : (fieldBytes 4 id.peerType ++ fieldBytes 4 id.peerId).length = 8 := by simp [hlen]
    have h16 : (fieldBytes 4 id.peerType ++ fieldBytes 4 id.peerId ++
      fieldBytes 8 id.id).length = 16 := by simp [hlen]
    rw [List.take_left' (hlen 4 _), List.drop_left' (hlen 4 _), List.take_left' (hlen 4 _),
      ← List.append_assoc, List.drop_left' h8, List.take_left' (hlen 8 _), ← List.append_assoc,
      List.drop_left' h16, fieldOf_fieldBytes (by decide) ht.1 ht.2,
      fieldOf_fieldBytes (by decide) hp.1 hp.2, fieldOf_fieldBytes (by decide) hi.1 hi.2,
      fieldOf_fieldBytes (by decide) ha.1 ha.2]

theorem littleEnv_noPadding : NoPadding littleEnv littleJson where
  sizeofMsgId := rfl
  sizeofPeerId := rfl
  msgIdBytes_of bs h := by
    replace h : bs.length = 24 := h
    change littleMsgIdBytes (littleMsgIdOf bs) = bs
    simp only [littleMsgIdBytes, littleMsgIdOf]
    rw [fieldBytes_fieldOf (by simp [h]), fieldBytes_fieldOf (by simp [h]),
      fieldBytes_fieldOf (by simp [h]), fieldBytes_fieldOf (by simp [h])]
    have h16 : bs.drop 16 = (bs.drop 8).drop 8 := by rw [List.drop_drop]
    have h8 : bs.drop 8 = (bs.drop 4).drop 4 := by rw [List.drop_drop]
    rw [h16, List.append_assoc, List.take_append_drop, h8, List.append_assoc,
      List.take_append_drop, List.take_append_drop]
  peerIdBytes_of bs h := by
    replace h : bs.length = 16 := h
    change littlePeerIdBytes (littlePeerIdOf bs) = bs
    simp only [littlePeerIdBytes, littlePeerIdOf, peerTypeNumber_of]
    rw [fieldBytes_fieldOf (by simp [h]), fieldBytes_fieldOf (by simp [h]),
      fieldBytes_fieldOf (by simp [h])]
    have h8 : bs.drop 8 = (bs.drop 4).drop 4 := by rw [List.drop_drop]
    rw [h8, List.append_assoc, List.take_append_drop, List.take_append_drop]

/-! ### The round trip -/

variable {E : Ids.Env} {J : Json.Pack.Env}

theorem parseInputMsgId_hexText {bs : List UInt8} (hlen : bs.length = E.sizeofMsgId)
    (hpos : 0 < E.sizeofMsgId) : parseInputMsgId E (hexText bs) = some (E.msgIdOf bs) := by
  have hlen' : (hexText bs).length = 2 * E.sizeofMsgId := by rw [length_hexText, hlen]
  have hne : hexText bs ≠ [] := List.ne_nil_of_length_pos (by omega)
  have hhalf : ((hexText bs).take E.sizeofMsgId).all isHex = true :=
    List.all_eq_true.mpr fun c hc => List.all_eq_true.mp (hexText_all bs) c (List.mem_of_mem_take hc)
  rw [parseInputMsgId, if_neg hne, if_pos hlen', if_pos hhalf, hexBytes_hexText]
  rfl

theorem parseInputPeerId_hexText {bs : List UInt8} (hlen : bs.length = E.sizeofPeerId)
    (mask : Option PeerType) : parseInputPeerId E (36 :: hexText bs) mask =
      if mask = none ∨ mask = some (E.peerIdOf bs).peerType then E.peerIdOf bs
      else peerNotFound := by
  have hlen' : (hexText bs).length = 2 * E.sizeofPeerId := by rw [length_hexText, hlen]
  have hmask : (mask = none ∨ mask = some (E.peerIdOf bs).peerType) ↔
      ¬ (mask ≠ none ∧ mask ≠ some (E.peerIdOf bs).peerType) := by tauto
  rw [parseInputPeerId, if_neg (List.cons_ne_nil _ _), if_pos (deref_cons 36 _)]
  simp only [List.drop_succ_cons, List.drop_zero, hlen', ne_eq, not_true_eq_false, if_false,
    hexText_all, Bool.not_true, Bool.false_eq_true, hexBytes_hexText, Option.getD_some]
  split_ifs <;> tauto

/-- A `$` token that is not refused is the text of bytes that are the id. -/
theorem dollar_token {tok : List UInt8} {mask : Option PeerType} (hd : deref tok = 36)
    (h : parseInputPeerId E tok mask ≠ peerNotFound) :
    ∃ bs : List UInt8, bs.length = E.sizeofPeerId ∧ tok = 36 :: hexText bs ∧
      parseInputPeerId E tok mask = E.peerIdOf bs := by
  cases tok with
  | nil => exact absurd hd (by decide)
  | cons c s =>
    rw [deref_cons] at hd
    subst hd
    have hparse := h
    rw [parseInputPeerId, if_neg (List.cons_ne_nil _ _), if_pos (deref_cons 36 _)] at hparse
    simp only [List.drop_succ_cons, List.drop_zero] at hparse
    by_cases hlen : s.length = 2 * E.sizeofPeerId
    swap
    · exact absurd (if_pos hlen) hparse
    rw [if_neg (not_not.mpr hlen)] at hparse
    by_cases hall : s.all isHex = true
    swap
    · rw [if_pos (by simpa using hall)] at hparse
      exact absurd rfl hparse
    obtain ⟨bs, hbs⟩ := Option.isSome_iff_exists.mp ((hexBytes_isSome hlen).trans hall)
    obtain ⟨htext, hn⟩ := hexText_of_hexBytes hlen hbs
    refine ⟨bs, hn, by rw [htext], ?_⟩
    rw [← htext] at h ⊢
    rw [parseInputPeerId_hexText hn] at h ⊢
    by_cases hmask : mask = none ∨ mask = some (E.peerIdOf bs).peerType
    · rw [if_pos hmask]
    · exact absurd (if_neg hmask) h

/-- **Permanent ids** are read back as they were printed, a peer for every mask that admits its
type; and every `$` token that is accepted is the text printed for the peer it names. -/
theorem permanent_ids_round_trip (hL : NoPadding E J) :
    (∀ id, IsMsgId E id → parseInputMsgId E (printPermanentMsgId J id) = some id) ∧
    (∀ id mask, IsPeerId E id → parseInputPeerId E (printPermanentPeerId J id) mask =
      if mask = none ∨ mask = some id.peerType then id else peerNotFound) ∧
    ∀ tok mask, deref tok = 36 → parseInputPeerId E tok mask ≠ peerNotFound →
      tok = printPermanentPeerId J (parseInputPeerId E tok mask) := by
  refine ⟨?_, ?_, ?_⟩
  · rintro _ ⟨bs, hlen, rfl⟩
    rw [printPermanentMsgId, hL.msgIdBytes_of bs hlen]
    exact parseInputMsgId_hexText hlen (by rw [hL.sizeofMsgId]; decide)
  · rintro _ mask ⟨bs, hlen, rfl⟩
    rw [printPermanentPeerId, hL.peerIdBytes_of bs hlen]
    exact parseInputPeerId_hexText hlen mask
  · intro tok mask hd h
    obtain ⟨bs, hlen, htok, hid⟩ := dollar_token hd h
    rw [hid, printPermanentPeerId, hL.peerIdBytes_of bs hlen]
    exact htok

/-- The user with the number 7. -/
theorem permanent_ids_round_trip_user :
    parseInputPeerId littleEnv (printPermanentPeerId littleJson ⟨.user, 7, 0⟩) none =
      ⟨.user, 7, 0⟩ :=
  (permanent_ids_round_trip littleEnv_noPadding).2.1 ⟨.user, 7, 0⟩ none
    ⟨[1, 0, 0, 0, 7, 0, 0, 0, 0, 0, 0, 0, 0, 0, 0, 0], by decide, by decide +kernel⟩

/-! ### Message ids that are half checked -/

/-- The text is refused or read, and one of the length of an id is read if it has digits only. -/
def Checked (E : Ids.Env) (tok : List UInt8) : Prop :=
  ∃ id, parseInputMsgId E tok = some id ∧ (tok.length = 2 * E.sizeofMsgId →
    if tok.all isHex then ∃ bs, hexText bs = tok ∧ id = E.msgIdOf bs else id.peerType = 0)

/-- **Message ids are checked** exactly unless the first half of the digits is one of digits and the
other half is not. -/
theorem msgId_checked_iff (hpos : 0 < E.sizeofMsgId) (tok : List UInt8) :
    Checked E tok ↔ halfSpelled E tok = false := by
  constructor
  · rintro ⟨id, hid, -⟩
    by_contra hhalf
    rw [(parseInputMsgId_eq_none E tok).mpr (by simpa using hhalf)] at hid
    cases hid
  · intro hhalf
    have hne : parseInputMsgId E tok ≠ none := fun h => by
      rw [(parseInputMsgId_eq_none E tok).mp h] at hhalf
      cases hhalf
    obtain ⟨id, hid⟩ := Option.ne_none_iff_exists'.mp hne
    refine ⟨id, hid, fun hlen => ?_⟩
    have hnil : tok ≠ [] := List.ne_nil_of_length_pos (by omega)
    split_ifs with hall
    · obtain ⟨bs, hbs⟩ := Option.isSome_iff_exists.mp ((hexBytes_isSome hlen).trans hall)
      obtain ⟨htext, hn⟩ := hexText_of_hexBytes hlen hbs
      refine ⟨bs, htext, ?_⟩
      rw [← htext, parseInputMsgId_hexText hn hpos] at hid
      exact (Option.some.inj hid).symm
    · have hfirst : ¬ (tok.take E.sizeofMsgId).all isHex = true := by
        intro hfirst
        simp only [halfSpelled, hlen, hfirst, decide_true, Bool.true_and, Bool.not_eq_false']
          at hhalf
        exact hall hhalf
      rw [parseInputMsgId, if_neg hnil, if_pos hlen, if_neg hfirst] at hid
      obtain rfl := Option.some.inj hid
      rfl

/-- A number. -/
theorem msgId_checked_iff_number : Checked littleEnv (lit "17") ↔
    halfSpelled littleEnv (lit "17") = false :=
  msgId_checked_iff (show 0 < 24 by decide) _

/-- 24 zeros and 24 times a `z`. -/
theorem half_spelled_unchecked : ¬ ∀ (E : Ids.Env) (tok : List UInt8), E.sizeofMsgId = 24 →
    Checked E tok := by
  intro h
  obtain ⟨id, hid, -⟩ := h littleEnv (List.replicate 24 48 ++ List.replicate 24 122) rfl
  rw [(parseInputMsgId_eq_none _ _).mpr (by decide +kernel)] at hid
  cases hid

end TelegramCli.Interface.PermanentIds
