import TelegramCli.Interface.Ids
import TelegramCli.Interface.UnknownUsers

/-! # The names of peers

With `use_ids` a peer is printed as its kind and its number, and `parse_input_peer_id` reads such a
text. The printer of secret chats and the table of the parser spell their kind differently, so the
printed names are read back for the other three kinds, and for those only (`name_resolved_iff`). -/

namespace TelegramCli.Interface.PeerNames

open TelegramCli.Lib.CNumber TelegramCli.Lib.CString TelegramCli.Tgl
open TelegramCli.Telegrab.DumpHtml TelegramCli.Interface.UnknownUsers
open TelegramCli.Interface.Ids hiding Env

/-! ### The printers -/

/-- `print_chat_name`, without colors; `none` is a failed assertion. -/
def printChatName (c : Config) (id : PeerId) (C : Option Peer) : Option (List UInt8) :=
  if id.peerType ≠ .chat then none
  else if c.permanentPeerIdMode then some (c.printPermanentPeerId id)
  else
    match C with
    | none => some (lit "chat#" ++ decimal id.peerId)
    | some C =>
      if c.useIds then some (lit "chat#" ++ decimal id.peerId) else some (Str.print C.title)

def printChannelName (c : Config) (id : PeerId) (C : Option Peer) : Option (List UInt8) :=
  if id.peerType ≠ .channel then none
  else if c.permanentPeerIdMode then some (c.printPermanentPeerId id)
  else
    match C with
    | none => some (lit "channel#" ++ decimal id.peerId)
    | some C =>
      if c.useIds then some (lit "channel#" ++ decimal id.peerId) else some (Str.print C.title)

def printEncrChatName (c : Config) (id : PeerId) (C : Option Peer) : Option (List UInt8) :=
  if id.peerType ≠ .encrChat then none
  else if c.permanentPeerIdMode then some (c.printPermanentPeerId id)
  else
    match C with
    | none => some (lit "encr_chat#" ++ decimal id.peerId)
    | some C =>
      if c.useIds then some (lit "encr_chat#" ++ decimal id.peerId)
      else some (Str.print C.printName)

/-- `print_peer_name`: what it prints, and `unknown_user_list`. -/
def printPeerName (c : Config) (users : List ℤ) (id : PeerId) (C : Option Peer) :
    Option (List UInt8 × List ℤ) :=
  if id.peerType = .user then printUserName c users id C
  else if id.peerType = .chat then (printChatName c id C).map fun name => (name, users)
  else if id.peerType = .channel then (printChannelName c id C).map fun name => (name, users)
  else if id.peerType = .encrChat then (printEncrChatName c id C).map fun name => (name, users)
  else none

/-- How the printers spell a kind. -/
def kindText (tt : PeerType) : List UInt8 :=
  if tt = .user then lit "user#" else if tt = .chat then lit "chat#"
  else if tt = .channel then lit "channel#" else lit "encr_chat#"

/-- `use_ids` is set, and no permanent ids are printed. -/
def UsesIds (c : Config) : Prop := c.permanentPeerIdMode = false ∧ c.useIds = true

/-- A peer that was created and not deleted, with a number. -/
structure Named (P : Peer) : Prop where
  isChat : P.id.peerType.IsChat
  created : P.created = true
  deleted : P.deleted = false
  nonneg : 0 ≤ P.id.peerId
  lt : P.id.peerId < 2 ^ 31

/-- **With `use_ids`** a peer is printed as its kind and its number. -/
theorem printPeerName_useIds {c : Config} (hc : UsesIds c) {P : Peer} (hP : Named P)
    (users : List ℤ) : printPeerName c users P.id (some P) =
      some (kindText P.id.peerType ++ decimal P.id.peerId, users) := by
  obtain ⟨hperm, hids⟩ := hc
  rcases hP.isChat with ht | ht | ht | ht
  · simp [printPeerName, printUserName, ht, hperm, hids, hP.created, hP.deleted, kindText]
  · simp [printPeerName, printChatName, ht, hperm, hids, kindText]
  · simp [printPeerName, printChannelName, ht, hperm, hids, kindText]
  · simp [printPeerName, printEncrChatName, ht, hperm, hids, kindText]

/-! ### The parser -/

theorem atoi_decimal {n : ℤ} (h0 : 0 ≤ n) (hlt : n < 2 ^ 31) : atoi (decimal n) = n := by
  have hsat : saturate64 n = n := by
    unfold saturate64
    omega
  rw [atoi, strtoll_decimal (.inr rfl), hsat]
  exact BitVec.toInt_ofInt_eq_self (by decide) (by omega) (by omega)

theorem decimal_notMem_zero (n : ℤ) : 0 ∉ decimal n := notMem_decimal (by decide) (by decide) n

theorem decimal_cons {n : ℤ} (h0 : 0 ≤ n) : ∃ d p, decimal n = d :: p ∧ 48 ≤ d ∧ d ≤ 57 := by
  obtain ⟨d, p, hp, hd⟩ := decimalNat_cons n.natAbs
  refine ⟨d, p, ?_, hd⟩
  rw [decimal, if_neg (by omega), hp]

theorem lit_prefixes : idPrefixes =
    [([117, 115, 101, 114, 35, 105, 100], .user), ([117, 115, 101, 114, 35], .user),
     ([99, 104, 97, 116, 35, 105, 100], .chat), ([99, 104, 97, 116, 35], .chat),
     ([115, 101, 99, 114, 101, 116, 95, 99, 104, 97, 116, 35, 105, 100], .encrChat),
     ([115, 101, 99, 114, 101, 116, 95, 99, 104, 97, 116, 35], .encrChat),
     ([99, 104, 97, 110, 110, 101, 108, 35, 105, 100], .channel),
     ([99, 104, 97, 110, 110, 101, 108, 35], .channel)] := rfl

variable {E : Ids.Env}

/-- The entry of the table that takes a number behind one of three kinds. -/
theorem find_kindText {tt : PeerType} (htt : tt = .user ∨ tt = .chat ∨ tt = .channel)
    {mask : Option PeerType} (hmask : mask = none ∨ mask = some tt) {d : UInt8} (hd : d ≠ 105)
    (p : List UInt8) : (idPrefixes.find? fun e => (mask = none || mask = some e.2) &&
      e.1.length < (kindText tt ++ d :: p).length && e.1.isPrefixOf (kindText tt ++ d :: p)) =
      some (kindText tt, tt) := by
  have huser : lit "user#" = [117, 115, 101, 114, 35] := rfl
  have hchat : lit "chat#" = [99, 104, 97, 116, 35] := rfl
  have hchannel : lit "channel#" = [99, 104, 97, 110, 110, 101, 108, 35] := rfl
  rw [lit_prefixes]
  rcases htt with rfl | rfl | rfl <;> rcases hmask with rfl | rfl <;>
    simp [kindText, huser, hchat, hchannel, hd.symm]

/-- A text of one of three kinds is looked up by its number. -/
theorem parse_kindText {tt : PeerType} (htt : tt = .user ∨ tt = .chat ∨ tt = .channel)
    {mask : Option PeerType} (hmask : mask = none ∨ mask = some tt) {n : ℤ} (h0 : 0 ≤ n)
    (hlt : n < 2 ^ 31) : parseInputPeerId E (kindText tt ++ decimal n) mask =
      ((E.peerGet ⟨tt, n, 0⟩).map Peer.id).getD peerNotFound := by
  obtain ⟨d, p, hdec, hd48, hd57⟩ := decimal_cons h0
  have hi : d ≠ 105 := by
    rintro rfl
    exact absurd hd57 (by decide)
  obtain ⟨c, q, hkind, h36, h64⟩ : ∃ c q, kindText tt = c :: q ∧ c ≠ 36 ∧ c ≠ 64 := by
    rcases htt with rfl | rfl | rfl
    · exact ⟨117, _, rfl, by decide, by decide⟩
    · exact ⟨99, _, rfl, by decide, by decide⟩
    · exact ⟨99, _, rfl, by decide, by decide⟩
  have hnul : 0 ∉ kindText tt ++ decimal n := by
    rw [List.mem_append, not_or]
    refine ⟨?_, decimal_notMem_zero n⟩
    rcases htt with rfl | rfl | rfl <;> decide
  have hne : kindText tt ++ decimal n ≠ [] := by simp [hkind]
  have hfirst : deref (kindText tt ++ decimal n) = c := by rw [hkind]; rfl
  have hfind := find_kindText htt hmask hi p
  rw [← hdec] at hfind
  rw [parseInputPeerId, if_neg hne, hfirst, if_neg h36, if_neg h64]
  simp only [cstring_of_notMem hnul]
  split
  · rename_i ss tt' hss
    obtain ⟨rfl, rfl⟩ := Prod.mk.inj (Option.some.inj (hss.symm.trans hfind))
    rw [List.drop_left, atoi_decimal h0 hlt, if_neg (not_lt.mpr h0)]
  · rename_i hss
    cases hss.symm.trans hfind

/-- A secret chat's text is no entry of the table, and is looked up as a name. -/
theorem parse_encrChat (n : ℤ) (mask : Option PeerType) :
    parseInputPeerId E (lit "encr_chat#" ++ decimal n) mask =
      masked mask (E.peerGetByName (lit "encr_chat#" ++ decimal n)) := by
  have hencr : lit "encr_chat#" = 101 :: lit "ncr_chat#" := rfl
  have hnul : 0 ∉ lit "encr_chat#" ++ decimal n := by
    rw [List.mem_append, not_or]
    exact ⟨by decide, decimal_notMem_zero n⟩
  have hfind : (idPrefixes.find? fun e => (mask = none || mask = some e.2) &&
      e.1.length < (lit "encr_chat#" ++ decimal n).length &&
      e.1.isPrefixOf (lit "encr_chat#" ++ decimal n)) = none := by
    rw [lit_prefixes, hencr, List.cons_append]
    simp
  have hfirst : deref (lit "encr_chat#" ++ decimal n) = 101 := rfl
  rw [parseInputPeerId, if_neg (by simp [hencr]), hfirst, if_neg (by decide), if_neg (by decide)]
  simp only [cstring_of_notMem hnul]
  split
  · rename_i hss
    cases hss.symm.trans hfind
  · rfl

/-! ### The round trip -/

/-- The name that is printed for the peer is read back as the peer. -/
def Resolved (E : Ids.Env) (c : Config) (users : List ℤ) (P : Peer) : Prop :=
  ∃ name users', printPeerName c users P.id (some P) = some (name, users') ∧
    ∀ mask, mask = none ∨ mask = some P.id.peerType → parseInputPeerId E name mask = P.id

/-- **The name of a peer** is read back as that peer exactly if it is not a secret chat. -/
theorem name_resolved_iff {c : Config} (hc : UsesIds c) (users : List ℤ) {P : Peer} (hP : Named P)
    (hget : ∀ hash, E.peerGet ⟨P.id.peerType, P.id.peerId, hash⟩ = some P)
    (hname : E.peerGetByName (kindText P.id.peerType ++ decimal P.id.peerId) = none) :
    Resolved E c users P ↔ P.id.peerType ≠ .encrChat := by
  have hprint := printPeerName_useIds hc hP users
  constructor
  · rintro ⟨name, users', hsome, hparse⟩ ht
    rw [hprint] at hsome
    obtain ⟨rfl, -⟩ := Prod.mk.inj (Option.some.inj hsome)
    have hid := hparse none (.inl rfl)
    have hkind : kindText P.id.peerType = lit "encr_chat#" := by rw [ht]; rfl
    rw [hkind] at hid hname
    rw [parse_encrChat, hname] at hid
    have hneg := hP.nonneg
    rw [← hid] at hneg
    exact absurd hneg (by decide)
  · intro ht
    have htt : P.id.peerType = .user ∨ P.id.peerType = .chat ∨ P.id.peerType = .channel := by
      have hchat := hP.isChat
      unfold PeerType.IsChat at hchat
      tauto
    refine ⟨_, _, hprint, fun mask hmask => ?_⟩
    rw [parse_kindText htt hmask hP.nonneg hP.lt, hget 0]
    rfl

/-- A group chat. -/
def sampleChat (tt : PeerType) : Peer :=
  { id := ⟨tt, 5, 0⟩, printName := some (lit "Club"), username := none, phone := none
    encrChatOk := true, deleted := false, created := true
    firstName := none, lastName := none, title := some (lit "Club") }

/-- A library that knows this peer. -/
def sampleEnv (tt : PeerType) : Ids.Env where
  sizeofPeerId := 16
  sizeofMsgId := 24
  peerIdOf _ := peerNotFound
  msgIdOf _ := msgIdZero
  peerTempId := 100
  strtod s := (0, s)
  peerGet id := if id.peerType = tt ∧ id.peerId = 5 then some (sampleChat tt) else none
  peerGetByName name := if name = lit "Club" then some (sampleChat tt) else none
  lookupUsername _ := none

/-- The settings with `use_ids`. -/
def idsConfig : Config := ⟨false, true, fun _ => []⟩

theorem sampleChat_named {tt : PeerType} (h : tt.IsChat) : Named (sampleChat tt) :=
  have hnumber : (0 : ℤ) ≤ 5 ∧ (5 : ℤ) < 2 ^ 31 := by decide
  ⟨h, rfl, rfl, hnumber.1, hnumber.2⟩

theorem sampleEnv_get (tt : PeerType) (hash : ℤ) :
    (sampleEnv tt).peerGet ⟨tt, 5, hash⟩ = some (sampleChat tt) := if_pos ⟨rfl, rfl⟩

theorem sampleEnv_name {tt : PeerType} (h : deref (kindText tt ++ decimal 5) ≠ 67) :
    (sampleEnv tt).peerGetByName (kindText tt ++ decimal 5) = none :=
  if_neg fun hclub => h (by rw [hclub]; rfl)

theorem name_resolved_iff_chat : Resolved (sampleEnv .chat) idsConfig [] (sampleChat .chat) ↔
    (sampleChat .chat).id.peerType ≠ .encrChat :=
  name_resolved_iff ⟨rfl, rfl⟩ [] (sampleChat_named (.inr (.inl rfl))) (sampleEnv_get .chat)
    (@sampleEnv_name .chat (by decide))

/-- The secret chat with the number 5. -/
theorem secret_chat_lost : ¬ ∀ (E : Ids.Env) (c : Config) (users : List ℤ) (P : Peer), UsesIds c →
    Named P → (∀ hash, E.peerGet ⟨P.id.peerType, P.id.peerId, hash⟩ = some P) →
    E.peerGetByName (kindText P.id.peerType ++ decimal P.id.peerId) = none →
    Resolved E c users P := by
  intro h
  have hchat : Named (sampleChat .encrChat) := sampleChat_named (.inr (.inr (.inr rfl)))
  have hname := @sampleEnv_name .encrChat (by decide)
  obtain ⟨name, users', hsome, hparse⟩ :=
    h (sampleEnv .encrChat) idsConfig [] (sampleChat .encrChat) ⟨rfl, rfl⟩ hchat
      (sampleEnv_get .encrChat) hname
  rw [printPeerName_useIds ⟨rfl, rfl⟩ hchat] at hsome
  obtain ⟨rfl, -⟩ := Prod.mk.inj (Option.some.inj hsome)
  have hid := hparse none (.inl rfl)
  have hkind : kindText (sampleChat .encrChat).id.peerType = lit "encr_chat#" := rfl
  have hkind' : kindText .encrChat = lit "encr_chat#" := rfl
  have hnumber : (sampleChat .encrChat).id.peerId = 5 := rfl
  rw [hkind'] at hname
  rw [hkind, hnumber, parse_encrChat, hname] at hid
  exact absurd hid (by decide)

end TelegramCli.Interface.PeerNames
