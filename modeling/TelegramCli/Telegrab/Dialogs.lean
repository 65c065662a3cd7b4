import Mathlib.Data.Sym.Sym2
import TelegramCli.Telegrab.ArchiveFiles

/-! # The file of a dialog

A private message goes to the file of its recipient if we have sent it, and else to the one of its
sender; the others go to the file of the chat they were sent to. As one of the two users of a private
message is ourselves, two messages have the same file exactly if they are of the same dialog
(`same_file_iff`). -/

namespace TelegramCli.Telegrab.Dialogs

open TelegramCli.Lib.CString TelegramCli.Tgl TelegramCli.Telegrab.DumpHtml
open TelegramCli.Telegrab.ArchiveFiles

/-- The file that a message is appended to. -/
def archivedTo (E : Env) (M : Message) : Option (List UInt8) := (chatPeer E M).map archiveFile

/-- What `tgl_cmp_peer_id` compares. -/
def key (id : PeerId) : PeerType × ℤ := (id.peerType, id.peerId)

/-- The messages are of one dialog: the same two users, or the same chat. -/
def SameDialog (M N : Message) : Prop :=
  if M.toId.peerType = .user ∧ N.toId.peerType = .user then
    s(key M.fromId, key M.toId) = s(key N.fromId, key N.toId)
  else key M.toId = key N.toId

/-- A message to a user, chat, channel or secret chat, with known peers and the flag `TGLMF_OUT` for
those that we have sent; a private message is between users. -/
structure Regular (E : Env) (M : Message) : Prop where
  recipient : M.toId.peerType.IsChat
  toKnown : ∃ P, E.peerGet M.toId = some P
  fromKnown : ∃ P, E.peerGet M.fromId = some P
  users : M.toId.peerType = .user → M.fromId.peerType = .user
  out : M.out = true ↔ key M.fromId = key E.ourId

/-- The library gives the peer that it is asked for. -/
def Lawful (E : Env) : Prop := ∀ id P, E.peerGet id = some P → key P.id = key id

/-- One of the two users of a private message is ourselves. -/
def Ours (E : Env) (M : Message) : Prop :=
  M.toId.peerType = .user → key M.fromId = key E.ourId ∨ key M.toId = key E.ourId

/-! ### Files -/

/-- **The message is appended to its file**, and the others are unchanged. -/
theorem dumpMessage_appends {m : Machine} {A B : Archive} {D : Dump}
    (h : dumpMessage m A D = some B) :
    ∃ file, archivedTo D.env D.message = some file ∧ ∀ path, B.files path =
      if path = file then some ((A.files path).getD (page D) ++ html D.fragment)
      else A.files path := by
  obtain ⟨-, -, content, r, -, -, rfl⟩ := dumpMessage_cases h
  exact ⟨archiveFile D.chat, by rw [archivedTo, D.chat_eq, Option.map_some], archived_files D A r⟩

/-- The other side of a message. -/
def other (M : Message) : PeerId :=
  if M.toId.peerType = .user then if M.out then M.toId else M.fromId else M.toId

theorem chatPeer_eq (E : Env) (M : Message) : chatPeer E M = E.peerGet (other M) := by
  unfold chatPeer other
  split_ifs <;> rfl

variable {E : Env} {M N : Message}

theorem Regular.other_isChat (h : Regular E M) : (other M).peerType.IsChat := by
  unfold other
  split_ifs with huser
  · exact h.recipient
  · exact .inl (h.users huser)
  · exact h.recipient

/-- The file is the one of the other side. -/
theorem Regular.archivedTo (hE : Lawful E) (h : Regular E M) :
    ∃ P, archivedTo E M = some (archiveFile P) ∧ key P.id = key (other M) := by
  have hknown : ∃ P, E.peerGet (other M) = some P := by
    unfold other
    split_ifs
    · exact h.toKnown
    · exact h.fromKnown
    · exact h.toKnown
  obtain ⟨P, hP⟩ := hknown
  exact ⟨P, by rw [Dialogs.archivedTo, chatPeer_eq, hP, Option.map_some], hE _ P hP⟩

/-- A private message is between us and the other side. -/
theorem Regular.pair (h : Regular E M) (hours : Ours E M) (huser : M.toId.peerType = .user) :
    s(key M.fromId, key M.toId) = s(key E.ourId, key (other M)) := by
  unfold other
  rw [if_pos huser]
  split_ifs with hout
  · rw [h.out.mp hout]
  · rw [(hours huser).resolve_left fun hfrom => hout (h.out.mpr hfrom), Sym2.eq_swap]

theorem Regular.other_user (h : Regular E M) :
    (other M).peerType = .user ↔ M.toId.peerType = .user := by
  unfold other
  split_ifs with huser
  · rfl
  · exact iff_of_true (h.users huser) huser
  · rfl

/-- The dialog is given by the other side. -/
theorem sameDialog_iff (hM : Regular E M) (hN : Regular E N) (hMours : Ours E M)
    (hNours : Ours E N) : SameDialog M N ↔ key (other M) = key (other N) := by
  have htype : ∀ {a b : PeerId}, key a = key b → a.peerType = b.peerType :=
    fun h => congrArg Prod.fst h
  unfold SameDialog
  by_cases huM : M.toId.peerType = .user <;> by_cases huN : N.toId.peerType = .user
  · rw [if_pos ⟨huM, huN⟩, hM.pair hMours huM, hN.pair hNours huN, Sym2.congr_right]
  · rw [if_neg fun h => huN h.2]
    refine iff_of_false (fun h => huN ((htype h).symm.trans huM)) fun h => huN ?_
    exact hN.other_user.mp ((htype h).symm.trans (hM.other_user.mpr huM))
  · rw [if_neg fun h => huM h.1]
    refine iff_of_false (fun h => huM ((htype h).trans huN)) fun h => huM ?_
    exact hM.other_user.mp ((htype h).trans (hN.other_user.mpr huN))
  · rw [if_neg fun h => huM h.1, other, other, if_neg huM, if_neg huN]

/-- **Two messages are appended to one file** exactly if they are of the same dialog. -/
theorem same_file_iff (hE : Lawful E) (hM : Regular E M) (hN : Regular E N) (hMours : Ours E M)
    (hNours : Ours E N) : ∃ p q, archivedTo E M = some p ∧ archivedTo E N = some q ∧
      (p = q ↔ SameDialog M N) := by
  obtain ⟨P, hP, hkeyP⟩ := hM.archivedTo hE
  obtain ⟨Q, hQ, hkeyQ⟩ := hN.archivedTo hE
  have htypeP : P.id.peerType.IsChat := by
    rw [show P.id.peerType = (other M).peerType from congrArg Prod.fst hkeyP]
    exact hM.other_isChat
  have htypeQ : Q.id.peerType.IsChat := by
    rw [show Q.id.peerType = (other N).peerType from congrArg Prod.fst hkeyQ]
    exact hN.other_isChat
  refine ⟨archiveFile P, archiveFile Q, hP, hQ, ?_⟩
  rw [archiveFile_inj htypeP htypeQ, sameDialog_iff hM hN hMours hNours, ← hkeyP, ← hkeyQ, key, key,
    Prod.mk.injEq]
  rfl

/-! ### Messages of three users -/

/-- A library that knows every peer; our own number is 1. -/
def sampleEnv : Env where
  peerGet id := some ⟨id, none, none, none, false, false, true, some (lit "Ann"), none, none⟩
  ourId := ⟨.user, 1, 0⟩
  cmpPeerId a b := if a.peerType = b.peerType ∧ a.peerId = b.peerId then 0 else 1
  localtime _ := ⟨0, 0, 0, 0, 0, 0⟩
  rand := (0, 0)
  fmtReal := RawStrings.sampleEnv.fmtReal
  u8IsRtl _ := false

theorem sampleEnv_lawful : Lawful sampleEnv := by
  rintro id P ⟨⟩
  rfl

/-- A private message of two of the users. -/
def sampleMessage (sender recipient : ℤ) : Message where
  permanentId := 1
  out := sender = 1
  service := false
  fwdFromId := ⟨.other 0, 0, 0⟩
  fromId := ⟨.user, sender, 0⟩
  toId := ⟨.user, recipient, 0⟩
  replyId := 0
  date := 1460000000
  message := some (lit "hi")
  media := .none

theorem sampleMessage_regular (sender recipient : ℤ) :
    Regular sampleEnv (sampleMessage sender recipient) where
  recipient := .inl rfl
  toKnown := ⟨_, rfl⟩
  fromKnown := ⟨_, rfl⟩
  users _ := rfl
  out := by
    change decide (sender = 1) = true ↔ (PeerType.user, sender) = (PeerType.user, 1)
    rw [decide_eq_true_iff, Prod.mk.injEq, and_iff_right rfl]

/-- What we send to a user and what the user sends to us. -/
theorem same_file_iff_answer : ∃ p q, archivedTo sampleEnv (sampleMessage 1 2) = some p ∧
    archivedTo sampleEnv (sampleMessage 2 1) = some q ∧
    (p = q ↔ SameDialog (sampleMessage 1 2) (sampleMessage 2 1)) :=
  same_file_iff sampleEnv_lawful (sampleMessage_regular 1 2) (sampleMessage_regular 2 1)
    (fun _ => .inl rfl) fun _ => .inr rfl

/-- What a user sends to us and to another user. -/
theorem others_share_file : ¬ ∀ (E : Env) (M N : Message), Lawful E → Regular E M → Regular E N →
    ∃ p q, archivedTo E M = some p ∧ archivedTo E N = some q ∧ (p = q ↔ SameDialog M N) := by
  intro h
  obtain ⟨p, q, hp, hq, hiff⟩ := h sampleEnv (sampleMessage 2 3) (sampleMessage 2 1)
    sampleEnv_lawful (sampleMessage_regular 2 3) (sampleMessage_regular 2 1)
  have hsame : p = q := Option.some.inj (hp.symm.trans hq)
  have hdialog := hiff.mp hsame
  rw [SameDialog, if_pos ⟨rfl, rfl⟩] at hdialog
  have hto : key (sampleMessage 2 3).toId = key (sampleMessage 2 1).toId :=
    Sym2.congr_right.mp hdialog
  exact absurd hto (by decide)

end TelegramCli.Telegrab.Dialogs
