import TelegramCli.Interface.PeerNames

/-! # What is printed about messages marked read

`print_read_list` takes the first message that is left, counts the messages of its dialog from there
on and erases them from the list. So it prints a line for each dialog, in the order of their first
messages, with the numbers of messages it had in the whole list (`printReadList_eq`). Its switch
over the kinds of peers leaves out the channels, and the list of unknown users has room for 1000
(`read_list_printed_iff`). -/

namespace TelegramCli.Interface.ReadList

open TelegramCli.Lib.CNumber TelegramCli.Lib.CString TelegramCli.Tgl
open TelegramCli.Interface.UnknownUsers TelegramCli.Interface.PeerNames

/-- The peers of the library, our own id, and `tgl_cmp_peer_id`. -/
structure Env where
  peerGet : PeerId → Option Peer
  ourId : PeerId
  cmpPeerId : PeerId → PeerId → ℤ

/-- The other side of a message. -/
def dialog (E : Env) (M : Message) : PeerId :=
  if E.cmpPeerId M.toId E.ourId = 0 then M.fromId else M.toId

/-- The loop over `j`: the counts `c1` and `c2`, and the list from `j` on. -/
def countLoop (E : Env) (toId : PeerId) :
    ℕ → ℕ → List (Option Message) → (ℕ × ℕ) × List (Option Message)
  | c1, c2, [] => ((c1, c2), [])
  | c1, c2, none :: list =>
    let r := countLoop E toId c1 c2 list
    (r.1, none :: r.2)
  | c1, c2, some M :: list =>
    if E.cmpPeerId toId (dialog E M) = 0 then
      let r := if M.out then countLoop E toId (c1 + 1) c2 list
        else countLoop E toId c1 (c2 + 1) list
      (r.1, none :: r.2)
    else
      let r := countLoop E toId c1 c2 list
      (r.1, some M :: r.2)

theorem length_countLoop (E : Env) (toId : PeerId) : ∀ (c1 c2 : ℕ) (list : List (Option Message)),
    (countLoop E toId c1 c2 list).2.length = list.length
  | _, _, [] => rfl
  | c1, c2, none :: list => by
    rw [countLoop, List.length_cons, List.length_cons, length_countLoop E toId c1 c2 list]
  | c1, c2, some M :: list => by
    rw [countLoop]
    split_ifs
    · rw [List.length_cons, List.length_cons, length_countLoop E toId (c1 + 1) c2 list]
    · rw [List.length_cons, List.length_cons, length_countLoop E toId c1 (c2 + 1) list]
    · rw [List.length_cons, List.length_cons, length_countLoop E toId c1 c2 list]

/-- The switch over the kinds of peers: what it prints, and `unknown_user_list`. -/
def printDialog (E : Env) (c : Config) (users : List ℤ) (toId : PeerId) :
    Option (List UInt8 × List ℤ) :=
  if toId.peerType = .user then
    (printUserName c users toId (E.peerGet toId)).map fun r => (lit "User " ++ r.1, r.2)
  else if toId.peerType = .chat then
    (printChatName c toId (E.peerGet toId)).map fun name => (lit "Chat " ++ name, users)
  else if toId.peerType = .encrChat then
    (printEncrChatName c toId (E.peerGet toId)).map fun name => (lit "Secret chat " ++ name, users)
  else none

/-- The end of a line. -/
def markedRead (c1 c2 : ℕ) : List UInt8 :=
  lit " marked read " ++ decimal c1 ++ lit " outbox and " ++ decimal c2 ++ lit " inbox messages\n"

/-- `print_read_list` in text mode, with the list from `i` on: the lines it prints, without colors,
and `unknown_user_list`; `none` is a failed assertion. -/
def printReadList (E : Env) (c : Config) (users : List ℤ) :
    List (Option Message) → Option (List (List UInt8) × List ℤ)
  | [] => some ([], users)
  | none :: list => printReadList E c users list
  | some M :: list =>
    let toId := dialog E M
    let r := countLoop E toId 0 0 (some M :: list)
    if 0 < r.1.1 + r.1.2 then
      (printDialog E c users toId).bind fun d =>
        (printReadList E c d.2 r.2.tail).map fun rest =>
          ((d.1 ++ markedRead r.1.1 r.1.2) :: rest.1, rest.2)
    else none
termination_by list => list.length
decreasing_by
  · exact Nat.lt_succ_self _
  · have hlen := length_countLoop E (dialog E M) 0 0 (some M :: list)
    rw [List.length_tail, hlen, List.length_cons]
    omega

/-! ### Dialogs -/

/-- `tgl_cmp_peer_id` compares the type and the number, and peers are looked up by these. -/
structure Env.Lawful (E : Env) : Prop where
  cmp : ∀ a b, E.cmpPeerId a b = 0 ↔ a.peerType = b.peerType ∧ a.peerId = b.peerId
  get : ∀ a b, E.cmpPeerId a b = 0 → E.peerGet a = E.peerGet b

/-- The messages of a dialog, the outgoing or the incoming ones. -/
def marked (E : Env) (d : PeerId) (out : Bool) (list : List (Option Message)) : ℕ :=
  list.countP fun m => m.any fun M => M.out = out && E.cmpPeerId d (dialog E M) = 0

/-- The list without the messages of a dialog. -/
def erased (E : Env) (d : PeerId) (list : List (Option Message)) : List (Option Message) :=
  list.map fun m => m.filter fun M => E.cmpPeerId d (dialog E M) ≠ 0

/-- The dialogs of the messages, in the order of their first messages. -/
def dialogs (E : Env) : List (Option Message) → List PeerId
  | [] => []
  | none :: list => dialogs E list
  | some M :: list => dialog E M :: dialogs E (erased E (dialog E M) list)
termination_by list => list.length
decreasing_by
  · exact Nat.lt_succ_self _
  · rw [erased, List.length_map, List.length_cons]
    exact Nat.lt_succ_self _

/-- The lines of some dialogs, whose numbers of messages are given. -/
def printLines (E : Env) (c : Config) (count : PeerId → ℕ × ℕ) :
    List ℤ → List PeerId → Option (List (List UInt8) × List ℤ)
  | users, [] => some ([], users)
  | users, d :: ds => (printDialog E c users d).bind fun r =>
      (printLines E c count r.2 ds).map fun rest =>
        ((r.1 ++ markedRead (count d).1 (count d).2) :: rest.1, rest.2)

variable {E : Env} {c : Config}

theorem Env.Lawful.refl (hE : E.Lawful) (d : PeerId) : E.cmpPeerId d d = 0 :=
  (hE.cmp d d).mpr ⟨rfl, rfl⟩

theorem Env.Lawful.trans (hE : E.Lawful) {a b d : PeerId} (hab : E.cmpPeerId a b = 0)
    (hbd : E.cmpPeerId b d = 0) : E.cmpPeerId a d = 0 := by
  rw [hE.cmp] at hab hbd ⊢
  exact ⟨hab.1.trans hbd.1, hab.2.trans hbd.2⟩

theorem Env.Lawful.symm (hE : E.Lawful) {a b : PeerId} (h : E.cmpPeerId a b = 0) :
    E.cmpPeerId b a = 0 := by
  rw [hE.cmp] at h ⊢
  exact ⟨h.1.symm, h.2.symm⟩

theorem mem_erased {d : PeerId} {list : List (Option Message)} {M : Message} :
    some M ∈ erased E d list ↔ some M ∈ list ∧ E.cmpPeerId d (dialog E M) ≠ 0 := by
  unfold erased
  rw [List.mem_map]
  constructor
  · rintro ⟨m, hm, hM⟩
    rw [Option.filter_eq_some_iff] at hM
    obtain ⟨rfl, hne⟩ := hM
    exact ⟨hm, of_decide_eq_true hne⟩
  · rintro ⟨hm, hne⟩
    exact ⟨some M, hm, by rw [Option.filter_some, if_pos (decide_eq_true hne)]⟩

section Cons

variable {d : PeerId} {M : Message} {list : List (Option Message)}

theorem marked_none (out : Bool) : marked E d out (none :: list) = marked E d out list := by
  simp [marked]

theorem marked_same (h : E.cmpPeerId d (dialog E M) = 0) (out : Bool) :
    marked E d out (some M :: list) = marked E d out list + if M.out = out then 1 else 0 := by
  by_cases hout : M.out = out <;> simp [marked, h, hout]

theorem marked_other (h : E.cmpPeerId d (dialog E M) ≠ 0) (out : Bool) :
    marked E d out (some M :: list) = marked E d out list := by
  simp [marked, h]

theorem erased_same (h : E.cmpPeerId d (dialog E M) = 0) :
    erased E d (some M :: list) = none :: erased E d list := by
  rw [erased, List.map_cons, Option.filter_some, if_neg (by simp [h])]
  rfl

theorem erased_other (h : E.cmpPeerId d (dialog E M) ≠ 0) :
    erased E d (some M :: list) = some M :: erased E d list := by
  rw [erased, List.map_cons, Option.filter_some, if_pos (decide_eq_true h)]
  rfl

end Cons

/-- **The inner loop** counts the messages of the dialog and erases them. -/
theorem countLoop_eq (E : Env) (d : PeerId) : ∀ (c1 c2 : ℕ) (list : List (Option Message)),
    countLoop E d c1 c2 list =
      ((c1 + marked E d true list, c2 + marked E d false list), erased E d list)
  | _, _, [] => rfl
  | c1, c2, none :: list => by
    rw [countLoop, countLoop_eq E d c1 c2 list, marked_none, marked_none]
    rfl
  | c1, c2, some M :: list => by
    rw [countLoop]
    split_ifs with hd hout
    · rw [countLoop_eq E d (c1 + 1) c2 list, marked_same hd, marked_same hd, erased_same hd, hout,
        if_pos rfl, if_neg (by decide), Nat.add_zero, Nat.add_right_comm c1 1, Nat.add_assoc]
      rfl
    · rw [countLoop_eq E d c1 (c2 + 1) list, marked_same hd, marked_same hd, erased_same hd,
        if_neg hout, if_pos (Bool.not_eq_true _ ▸ hout), Nat.add_zero, Nat.add_right_comm c2 1,
        Nat.add_assoc]
      rfl
    · rw [countLoop_eq E d c1 c2 list, marked_other hd, marked_other hd, erased_other hd]

/-- Other dialogs keep their messages. -/
theorem marked_erased (hE : E.Lawful) {d e : PeerId} (hde : E.cmpPeerId d e ≠ 0) (out : Bool)
    (list : List (Option Message)) : marked E e out (erased E d list) = marked E e out list := by
  unfold marked erased
  rw [List.countP_map]
  refine List.countP_congr fun m _ => ?_
  cases m with
  | none => rfl
  | some M =>
    by_cases hd : E.cmpPeerId d (dialog E M) = 0
    · have he : E.cmpPeerId e (dialog E M) ≠ 0 := fun he => hde (hE.trans hd (hE.symm he))
      simp [hd, he]
    · simp [hd]

theorem mem_dialogs {d : PeerId} : ∀ {list : List (Option Message)}, d ∈ dialogs E list →
    ∃ M, some M ∈ list ∧ d = dialog E M
  | [], h => by
    rw [dialogs] at h
    cases h
  | none :: list, h => by
    rw [dialogs] at h
    obtain ⟨M, hM, hd⟩ := mem_dialogs h
    exact ⟨M, List.mem_cons_of_mem _ hM, hd⟩
  | some M :: list, h => by
    rw [dialogs] at h
    rcases List.mem_cons.mp h with rfl | h
    · exact ⟨M, List.mem_cons_self, rfl⟩
    · obtain ⟨N, hN, hd⟩ := mem_dialogs h
      exact ⟨N, List.mem_cons_of_mem _ (mem_erased.mp hN).1, hd⟩
termination_by list => list.length
decreasing_by
  · exact Nat.lt_succ_self _
  · rw [erased, List.length_map, List.length_cons]
    exact Nat.lt_succ_self _

theorem dialogs_complete (hE : E.Lawful) {M : Message} : ∀ {list : List (Option Message)},
    some M ∈ list → ∃ d ∈ dialogs E list, E.cmpPeerId d (dialog E M) = 0
  | [], h => by cases h
  | none :: list, h => by
    rw [dialogs]
    exact dialogs_complete hE ((List.mem_cons.mp h).resolve_left (by simp))
  | some N :: list, h => by
    rw [dialogs]
    by_cases hd : E.cmpPeerId (dialog E N) (dialog E M) = 0
    · exact ⟨_, List.mem_cons_self, hd⟩
    · have hne : M ≠ N := by
        rintro rfl
        exact hd (hE.refl _)
      have hM : some M ∈ list := (List.mem_cons.mp h).resolve_left fun he => hne (Option.some.inj he)
      obtain ⟨d, hmem, hcmp⟩ := dialogs_complete hE (mem_erased.mpr ⟨hM, hd⟩)
      exact ⟨d, List.mem_cons_of_mem _ hmem, hcmp⟩
termination_by list => list.length
decreasing_by
  · exact Nat.lt_succ_self _
  · rw [erased, List.length_map, List.length_cons]
    exact Nat.lt_succ_self _

theorem dialogs_distinct : ∀ list : List (Option Message),
    (dialogs E list).Pairwise fun a b => E.cmpPeerId a b ≠ 0
  | [] => by
    rw [dialogs]
    exact .nil
  | none :: list => by
    rw [dialogs]
    exact dialogs_distinct list
  | some M :: list => by
    rw [dialogs]
    refine .cons (fun d hd => ?_) (dialogs_distinct _)
    obtain ⟨N, hN, rfl⟩ := mem_dialogs hd
    exact (mem_erased.mp hN).2
termination_by list => list.length
decreasing_by
  · exact Nat.lt_succ_self _
  · rw [erased, List.length_map, List.length_cons]
    exact Nat.lt_succ_self _

theorem printLines_congr {f g : PeerId → ℕ × ℕ} : ∀ {ds : List PeerId} (users : List ℤ),
    (∀ d ∈ ds, f d = g d) → printLines E c f users ds = printLines E c g users ds
  | [], _, _ => rfl
  | d :: ds, users, h => by
    simp only [printLines, h d List.mem_cons_self,
      printLines_congr _ fun e he => h e (List.mem_cons_of_mem d he)]

/-- **The function** prints the lines of the dialogs, with the numbers of their messages. -/
theorem printReadList_eq (hE : E.Lawful) : ∀ (list : List (Option Message)) (users : List ℤ),
    printReadList E c users list = printLines E c
      (fun d => (marked E d true list, marked E d false list)) users (dialogs E list)
  | [], users => by
    rw [printReadList, dialogs]
    rfl
  | none :: list, users => by
    rw [printReadList, dialogs, printReadList_eq hE list users]
    refine printLines_congr users fun d _ => ?_
    rw [marked_none, marked_none]
  | some M :: list, users => by
    have hself := hE.refl (dialog E M)
    have hpos : 0 < marked E (dialog E M) true (some M :: list) +
        marked E (dialog E M) false (some M :: list) := by
      rw [marked_same hself, marked_same hself]
      cases M.out <;> simp
    have htail : (erased E (dialog E M) (some M :: list)).tail = erased E (dialog E M) list := rfl
    rw [printReadList, dialogs, printLines]
    simp only [countLoop_eq, Nat.zero_add, if_pos hpos, htail]
    congr 1
    funext r
    rw [printReadList_eq hE (erased E (dialog E M) list) r.2]
    congr 1
    refine printLines_congr r.2 fun d hd => ?_
    obtain ⟨N, hN, rfl⟩ := mem_dialogs hd
    have hne := (mem_erased.mp hN).2
    have hne' : E.cmpPeerId (dialog E N) (dialog E M) ≠ 0 := fun h => hne (hE.symm h)
    rw [marked_erased hE hne, marked_erased hE hne, marked_other hne', marked_other hne']
termination_by list => list.length
decreasing_by
  · exact Nat.lt_succ_self _
  · rw [erased, List.length_map, List.length_cons]
    exact Nat.lt_succ_self _

/-! ### Lines -/

/-- The id that a dialog puts into `unknown_user_list`: the one of a user who is not known. -/
def unknownId (E : Env) (c : Config) (d : PeerId) : Option ℤ :=
  if !c.permanentPeerIdMode && d.peerType = .user && (E.peerGet d).isNone then some d.peerId
  else none

/-- `unknown_user_list` behind the name of a dialog. -/
def noted (E : Env) (c : Config) (users : List ℤ) (d : PeerId) : Option (List ℤ) :=
  (unknownId E c d).elim (some users) (addUnknown users)

/-- The line of a dialog in the list. -/
def LineOf (E : Env) (c : Config) (list : List (Option Message)) (d : PeerId)
    (line : List UInt8) : Prop :=
  ∃ users users' text, printDialog E c users d = some (text, users') ∧
    line = text ++ markedRead (marked E d true list) (marked E d false list)

theorem printDialog_channel {d : PeerId} (h : d.peerType = .channel) (users : List ℤ) :
    printDialog E c users d = none := by
  simp [printDialog, h]

/-- The kinds of peers that the switch knows are printed, if there is room for an unknown user. -/
theorem printDialog_eq {d : PeerId} (htype : d.peerType.IsChat) (hne : d.peerType ≠ .channel) :
    ∃ text, ∀ users,
      printDialog E c users d = (noted E c users d).map fun users => (text, users) := by
  rcases htype with ht | ht | ht | ht
  · cases hperm : c.permanentPeerIdMode with
    | true =>
      exact ⟨lit "User " ++ c.printPermanentPeerId d, fun users => by
        simp [printDialog, printUserName, noted, unknownId, ht, hperm]⟩
    | false =>
      cases hget : E.peerGet d with
      | none =>
        refine ⟨lit "User " ++ (lit "user#" ++ decimal d.peerId), fun users => ?_⟩
        simp [printDialog, printUserName, noted, unknownId, ht, hperm, hget, Option.map_map]
        rfl
      | some U =>
        obtain ⟨text, htext⟩ : ∃ text, ∀ users, printUserName c users d (some U) =
            some (text, users) := ⟨_, fun users => by
          rw [printUserName, if_neg (not_not.mpr ht), hperm, if_neg Bool.false_ne_true]⟩
        refine ⟨lit "User " ++ text, fun users => ?_⟩
        simp [printDialog, noted, unknownId, ht, hget, htext]
  · obtain ⟨text, htext⟩ : ∃ text, printChatName c d (E.peerGet d) = some text := by
      unfold printChatName
      rw [if_neg (not_not.mpr ht)]
      cases c.permanentPeerIdMode <;> cases E.peerGet d <;> cases c.useIds <;> exact ⟨_, rfl⟩
    exact ⟨lit "Chat " ++ text, fun users => by simp [printDialog, noted, unknownId, ht, htext]⟩
  · exact absurd ht hne
  · obtain ⟨text, htext⟩ : ∃ text, printEncrChatName c d (E.peerGet d) = some text := by
      unfold printEncrChatName
      rw [if_neg (not_not.mpr ht)]
      cases c.permanentPeerIdMode <;> cases E.peerGet d <;> cases c.useIds <;> exact ⟨_, rfl⟩
    exact ⟨lit "Secret chat " ++ text, fun users => by
      simp [printDialog, noted, unknownId, ht, htext]⟩

theorem printLines_channel {f : PeerId → ℕ × ℕ} {d : PeerId} (hd : d.peerType = .channel) :
    ∀ {ds : List PeerId} (users : List ℤ), d ∈ ds → printLines E c f users ds = none
  | e :: ds, users, h => by
    rw [printLines]
    rcases List.mem_cons.mp h with rfl | h
    · rw [printDialog_channel hd]
      rfl
    · cases printDialog E c users e with
      | none => rfl
      | some r =>
        rw [Option.bind_some, printLines_channel hd r.2 h]
        rfl

/-- **Lines are printed** for all dialogs, as long as there is room for the unknown users. -/
theorem printLines_eq (list : List (Option Message)) : ∀ {ds : List PeerId},
    (∀ d ∈ ds, d.peerType.IsChat ∧ d.peerType ≠ .channel) →
    ∃ lines, List.Forall₂ (LineOf E c list) ds lines ∧ ∀ users, printLines E c
      (fun d => (marked E d true list, marked E d false list)) users ds =
        (ds.foldlM (noted E c) users).map fun users => (lines, users)
  | [], _ => ⟨[], .nil, fun _ => rfl⟩
  | d :: ds, h => by
    obtain ⟨lines, hlines, hrest⟩ := @printLines_eq list ds fun e he =>
      h e (List.mem_cons_of_mem d he)
    obtain ⟨htype, hne⟩ := h d List.mem_cons_self
    obtain ⟨text, htext⟩ := @printDialog_eq E c d htype hne
    have hroom : ∃ users, noted E c [] d = some users := by
      unfold noted
      cases unknownId E c d <;> exact ⟨_, rfl⟩
    obtain ⟨users₁, husers₁⟩ := hroom
    refine ⟨_ :: lines, .cons ⟨[], users₁, text, ?_, rfl⟩ hlines, fun users => ?_⟩
    · rw [htext, husers₁]
      rfl
    · rw [printLines, htext, List.foldlM_cons, Option.bind_eq_bind]
      cases noted E c users d with
      | none => rfl
      | some users' =>
        rw [Option.map_some, Option.bind_some, hrest, Option.bind_some]
        cases ds.foldlM (noted E c) users' <;> rfl

/-- The users among the other sides of the messages that the library does not know. -/
def unknownIds (E : Env) (c : Config) (list : List (Option Message)) : List ℤ :=
  list.filterMap fun m => m.bind fun M => unknownId E c (dialog E M)

theorem foldlM_noted : ∀ (ds : List PeerId) (users : List ℤ),
    ds.foldlM (noted E c) users = (ds.filterMap (unknownId E c)).foldlM addUnknown users
  | [], _ => rfl
  | d :: ds, users => by
    rw [List.foldlM_cons, noted]
    cases hd : unknownId E c d with
    | none =>
      rw [List.filterMap_cons_none hd, Option.elim_none, Option.bind_eq_bind, Option.bind_some]
      exact foldlM_noted ds users
    | some n =>
      rw [List.filterMap_cons_some hd, Option.elim_some, List.foldlM_cons]
      congr 1
      funext users'
      exact foldlM_noted ds users'

theorem unknownId_congr (hE : E.Lawful) {a b : PeerId} (h : E.cmpPeerId a b = 0) :
    unknownId E c a = unknownId E c b := by
  obtain ⟨htype, hid⟩ := (hE.cmp a b).mp h
  unfold unknownId
  rw [hE.get a b h, htype, hid]

/-- The dialogs have the unknown users of the messages. -/
theorem unknownIds_dialogs (hE : E.Lawful) (list : List (Option Message)) :
    ((dialogs E list).filterMap (unknownId E c)).toFinset = (unknownIds E c list).toFinset := by
  ext n
  simp only [List.mem_toFinset, List.mem_filterMap, unknownIds]
  constructor
  · rintro ⟨d, hd, hn⟩
    obtain ⟨M, hM, rfl⟩ := mem_dialogs hd
    exact ⟨some M, hM, hn⟩
  · rintro ⟨m, hm, hn⟩
    cases m with
    | none => cases hn
    | some M =>
      obtain ⟨d, hd, hcmp⟩ := dialogs_complete hE hm
      refine ⟨d, hd, ?_⟩
      rw [unknownId_congr hE hcmp]
      exact hn

/-- No assertion fails, and there is one line for each dialog, with the numbers of its messages. -/
def Printed (E : Env) (c : Config) (users : List ℤ) (list : List (Option Message)) : Prop :=
  ∃ lines users', printReadList E c users list = some (lines, users') ∧ ∃ ds : List PeerId,
    ds.Pairwise (fun a b => E.cmpPeerId a b ≠ 0) ∧ (∀ d ∈ ds, ∃ M, some M ∈ list ∧ d = dialog E M) ∧
    (∀ M, some M ∈ list → ∃ d ∈ ds, E.cmpPeerId d (dialog E M) = 0) ∧
    List.Forall₂ (LineOf E c list) ds lines

/-- **The messages marked read are printed**, a line for each dialog, exactly if none of the dialogs
is a channel and `unknown_user_list` has room for the users that the library does not know. -/
theorem read_list_printed_iff (hE : E.Lawful) {users : List ℤ} (hnodup : users.Nodup)
    (hlen : users.length ≤ unknownUserMax) {list : List (Option Message)}
    (hlist : ∀ M, some M ∈ list → (dialog E M).peerType.IsChat) :
    Printed E c users list ↔ (∀ M, some M ∈ list → (dialog E M).peerType ≠ .channel) ∧
      (users.toFinset ∪ (unknownIds E c list).toFinset).card ≤ unknownUserMax := by
  have hroom := foldlM_addUnknown ((dialogs E list).filterMap (unknownId E c)) hnodup hlen
  rw [← foldlM_noted, unknownIds_dialogs hE] at hroom
  by_cases hchannel : ∃ M, some M ∈ list ∧ (dialog E M).peerType = .channel
  · obtain ⟨M, hM, htype⟩ := hchannel
    obtain ⟨d, hd, hcmp⟩ := dialogs_complete hE hM
    have hdtype : d.peerType = .channel := ((hE.cmp _ _).mp hcmp).1.trans htype
    refine iff_of_false ?_ fun h => h.1 M hM htype
    rintro ⟨lines, users', hsome, -⟩
    rw [printReadList_eq hE, printLines_channel hdtype users hd] at hsome
    cases hsome
  · push Not at hchannel
    have hds : ∀ d ∈ dialogs E list, d.peerType.IsChat ∧ d.peerType ≠ .channel := by
      intro d hd
      obtain ⟨M, hM, rfl⟩ := mem_dialogs hd
      exact ⟨hlist M hM, hchannel M hM⟩
    obtain ⟨lines, hlines, hprint⟩ := @printLines_eq E c list _ hds
    rw [Printed, and_iff_right hchannel, printReadList_eq hE, hprint]
    rcases hroom with ⟨users', hsome, hnodup', hlen', hids⟩ | ⟨hnone, hcard⟩
    · refine iff_of_true ?_ ?_
      · exact ⟨lines, users', by rw [hsome]; rfl, dialogs E list, dialogs_distinct list,
          fun d hd => mem_dialogs hd, fun M hM => dialogs_complete hE hM, hlines⟩
      · rwa [← hids, List.toFinset_card_of_nodup hnodup']
    · refine iff_of_false ?_ (Nat.not_le_of_lt hcard)
      rintro ⟨lines', users', hsome, -⟩
      rw [hnone] at hsome
      cases hsome

/-- A library that knows no peer; our own number is 1. -/
def sampleEnv : Env where
  peerGet _ := none
  ourId := ⟨.user, 1, 0⟩
  cmpPeerId a b := if a.peerType = b.peerType ∧ a.peerId = b.peerId then 0 else 1

theorem sampleEnv_lawful : sampleEnv.Lawful where
  cmp a b := by
    change (if a.peerType = b.peerType ∧ a.peerId = b.peerId then (0 : ℤ) else 1) = 0 ↔ _
    split_ifs with h <;> simp [h]
  get _ _ _ := rfl

/-- A message from the user with the number 7. -/
def sampleMessage (toId : PeerId) : Message where
  permanentId := 1
  out := false
  service := false
  fwdFromId := ⟨.other 0, 0, 0⟩
  fromId := ⟨.user, 7, 0⟩
  toId := toId
  replyId := 0
  date := 1460000000
  message := some (lit "hi")
  media := .none

theorem dialog_sample {M : Message} {toId : PeerId}
    (h : some M ∈ [none, some (sampleMessage toId)]) : M = sampleMessage toId :=
  Option.some.inj (List.mem_singleton.mp ((List.mem_cons.mp h).resolve_left (by simp)))

/-- A message to us. -/
theorem read_list_printed_iff_user :
    Printed sampleEnv defaultConfig [] [none, some (sampleMessage ⟨.user, 1, 0⟩)] ↔
      (∀ M, some M ∈ [none, some (sampleMessage ⟨.user, 1, 0⟩)] →
        (dialog sampleEnv M).peerType ≠ .channel) ∧
      (([] : List ℤ).toFinset ∪ (unknownIds sampleEnv defaultConfig
        [none, some (sampleMessage ⟨.user, 1, 0⟩)]).toFinset).card ≤ unknownUserMax :=
  read_list_printed_iff sampleEnv_lawful List.nodup_nil (Nat.zero_le _) fun M hM => by
    rw [dialog_sample hM]
    exact .inl rfl

/-- A message to a channel. -/
theorem channel_fails : ¬ ∀ (E : Env) (c : Config) (users : List ℤ) (list : List (Option Message)),
    E.Lawful → users.Nodup → users.length ≤ unknownUserMax →
    (∀ M, some M ∈ list → (dialog E M).peerType.IsChat) → Printed E c users list := by
  intro h
  have hchat : ∀ M, some M ∈ [none, some (sampleMessage ⟨.channel, 5, 0⟩)] →
      dialog sampleEnv M = ⟨.channel, 5, 0⟩ := by
    intro M hM
    rw [dialog_sample hM]
    rfl
  obtain ⟨lines, users', hsome, -⟩ := h sampleEnv defaultConfig []
    [none, some (sampleMessage ⟨.channel, 5, 0⟩)] sampleEnv_lawful List.nodup_nil (Nat.zero_le _)
    fun M hM => by rw [hchat M hM]; exact .inr (.inr (.inl rfl))
  obtain ⟨d, hd, hcmp⟩ := dialogs_complete sampleEnv_lawful
    (show some (sampleMessage ⟨.channel, 5, 0⟩) ∈ [none, some (sampleMessage ⟨.channel, 5, 0⟩)] by
      simp)
  have htype : d.peerType = .channel := by
    rw [hchat _ (by simp)] at hcmp
    exact ((sampleEnv_lawful.cmp _ _).mp hcmp).1
  rw [printReadList_eq sampleEnv_lawful, printLines_channel htype [] hd] at hsome
  cases hsome

end TelegramCli.Interface.ReadList
