import TelegramCli.Telegrab.DumpHtml

/-! # Users the library does not know

`print_user_name` puts the id of a user that the library does not know into `unknown_user_list`,
which has room for 1000 ids. The loop of `net_loop` that would empty the list is a comment. So the
list has every unknown id once (`printNames_spec`), and the assertion on its room holds exactly as
long as no more than 1000 different users have been unknown (`names_printed_iff`). -/

namespace TelegramCli.Interface.UnknownUsers

open TelegramCli.Lib.CNumber TelegramCli.Lib.CString TelegramCli.Tgl TelegramCli.Telegrab.DumpHtml

/-- The size of `unknown_user_list`. -/
def unknownUserMax : ℕ := 1000

/-- `permanent_peer_id_mode`, `use_ids` and `print_permanent_peer_id`. -/
structure Config where
  permanentPeerIdMode : Bool
  useIds : Bool
  printPermanentPeerId : PeerId → List UInt8

/-- The ids in `unknown_user_list` with one more; `none` is a failed assertion. -/
def addUnknown (users : List ℤ) (id : ℤ) : Option (List ℤ) :=
  if id ∈ users then some users
  else if users.length < unknownUserMax then some (users ++ [id])
  else none

/-- `print_user_name`: what it prints, without colors, and `unknown_user_list`. -/
def printUserName (c : Config) (users : List ℤ) (id : PeerId) (U : Option Peer) :
    Option (List UInt8 × List ℤ) :=
  if id.peerType ≠ .user then none
  else if c.permanentPeerIdMode then some (c.printPermanentPeerId id, users)
  else
    match U with
    | none => (addUnknown users id.peerId).map fun users =>
      (lit "user#" ++ decimal id.peerId, users)
    | some U =>
      let name :=
        if U.deleted then lit "deleted user#" ++ decimal id.peerId
        else if !U.created then lit "user#" ++ decimal id.peerId
        else if c.useIds then lit "user#" ++ decimal id.peerId
        else if Str.isEmpty U.firstName then Str.print U.lastName
        else if Str.isEmpty U.lastName then Str.print U.firstName
        else Str.print U.firstName ++ lit " " ++ Str.print U.lastName
      some (name, users)

/-- The id of a user. -/
abbrev UserId := { id : PeerId // id.peerType = .user }

/-- The names of users that messages, lists and updates print, one after the other. -/
def printNames (c : Config) (users : List ℤ) : List (UserId × Option Peer) → Option (List ℤ)
  | [] => some users
  | (id, U) :: names => (printUserName c users id U).bind fun r => printNames c r.2 names

/-- The ids of the users that the library does not know. -/
def unknowns (names : List (UserId × Option Peer)) : List ℤ :=
  names.filterMap fun n => if n.2.isNone then some n.1.val.peerId else none

/-- **Names are printed**: no assertion fails, and the list has each id once and room for it. -/
def Printed (c : Config) (names : List (UserId × Option Peer)) : Prop :=
  ∃ users, printNames c [] names = some users ∧ users.Nodup ∧ users.length ≤ unknownUserMax

theorem printUserName_known (c : Config) (users : List ℤ) (id : UserId) (U : Peer) :
    (printUserName c users id (some U)).map Prod.snd = some users := by
  unfold printUserName
  rw [if_neg (not_not.mpr id.property)]
  split_ifs <;> rfl

theorem printUserName_unknown {c : Config} (hc : c.permanentPeerIdMode = false) (users : List ℤ)
    (id : UserId) :
    (printUserName c users id none).map Prod.snd = addUnknown users id.val.peerId := by
  unfold printUserName
  rw [if_neg (not_not.mpr id.property), hc, if_neg Bool.false_ne_true, Option.map_map]
  exact Option.map_id'

/-- **Printing names** puts the ids of unknown users into the list, as long as there is room. -/
theorem printNames_eq {c : Config} (hc : c.permanentPeerIdMode = false) :
    ∀ (names : List (UserId × Option Peer)) (users : List ℤ),
    printNames c users names = (unknowns names).foldlM addUnknown users
  | [], _ => rfl
  | (id, some U) :: names, users => by
    obtain ⟨r, hr, hsnd⟩ := Option.map_eq_some_iff.mp (printUserName_known c users id U)
    rw [printNames, hr, Option.bind_some, hsnd, printNames_eq hc names users]
    rfl
  | (id, none) :: names, users => by
    have hname := printUserName_unknown hc users id
    have hcons : unknowns ((id, none) :: names) = id.val.peerId :: unknowns names := rfl
    rw [printNames, hcons, List.foldlM_cons, ← hname, Option.bind_eq_bind, Option.bind_map]
    cases printUserName c users id none with
    | none => rfl
    | some r => exact printNames_eq hc names r.2

theorem addUnknown_spec {users users' : List ℤ} {id : ℤ} (h : addUnknown users id = some users')
    (hnodup : users.Nodup) (hlen : users.length ≤ unknownUserMax) :
    users'.Nodup ∧ users'.length ≤ unknownUserMax ∧
      users'.toFinset = insert id users.toFinset := by
  unfold addUnknown at h
  split_ifs at h with hmem hroom
  · cases h
    rw [Finset.insert_eq_of_mem (List.mem_toFinset.mpr hmem)]
    exact ⟨hnodup, hlen, rfl⟩
  · cases h
    refine ⟨?_, ?_, ?_⟩
    · rw [List.nodup_append_comm]
      exact List.nodup_cons.mpr ⟨hmem, hnodup⟩
    · rw [List.length_append, List.length_singleton]
      omega
    · ext x
      simp

theorem addUnknown_eq_none {users : List ℤ} {id : ℤ} (h : addUnknown users id = none) :
    id ∉ users ∧ unknownUserMax ≤ users.length := by
  unfold addUnknown at h
  split_ifs at h with hmem hroom
  exact ⟨hmem, Nat.le_of_not_lt hroom⟩

/-- Adding ids either puts all of them in or ends without room, and then there are too many. -/
theorem foldlM_addUnknown : ∀ (ids : List ℤ) {users : List ℤ}, users.Nodup →
    users.length ≤ unknownUserMax →
    (∃ users', ids.foldlM addUnknown users = some users' ∧ users'.Nodup ∧
      users'.length ≤ unknownUserMax ∧ users'.toFinset = users.toFinset ∪ ids.toFinset) ∨
    (ids.foldlM addUnknown users = none ∧
      unknownUserMax < (users.toFinset ∪ ids.toFinset).card)
  | [], users, hnodup, hlen => by
    refine .inl ⟨users, rfl, hnodup, hlen, ?_⟩
    rw [List.toFinset_nil, Finset.union_empty]
  | id :: ids, users, hnodup, hlen => by
    rw [List.foldlM_cons, List.toFinset_cons, Finset.union_insert, ← Finset.insert_union]
    cases hadd : addUnknown users id with
    | some users₁ =>
      obtain ⟨hnodup₁, hlen₁, hids⟩ := addUnknown_spec hadd hnodup hlen
      rw [← hids]
      exact foldlM_addUnknown ids hnodup₁ hlen₁
    | none =>
      obtain ⟨hmem, hfull⟩ := addUnknown_eq_none hadd
      refine .inr ⟨rfl, ?_⟩
      have hcard : (insert id users.toFinset).card = users.length + 1 := by
        rw [Finset.card_insert_of_notMem (by rwa [List.mem_toFinset]),
          List.toFinset_card_of_nodup hnodup]
      have hsub : insert id users.toFinset ⊆ insert id users.toFinset ∪ ids.toFinset :=
        Finset.subset_union_left
      have hle := Finset.card_le_card hsub
      omega

/-- Names that print leave the ids of the unknown users in the list, each once. -/
theorem printNames_spec {c : Config} (hc : c.permanentPeerIdMode = false)
    (names : List (UserId × Option Peer)) :
    (∃ users, printNames c [] names = some users ∧ users.Nodup ∧
      users.length ≤ unknownUserMax ∧ users.toFinset = (unknowns names).toFinset) ∨
    (printNames c [] names = none ∧ unknownUserMax < (unknowns names).toFinset.card) := by
  have h := foldlM_addUnknown (unknowns names) List.nodup_nil (Nat.zero_le unknownUserMax)
  rwa [← printNames_eq hc, List.toFinset_nil, Finset.empty_union] at h

/-- **Names are printed exactly when** no more than 1000 different users have been unknown. -/
theorem names_printed_iff {c : Config} (hc : c.permanentPeerIdMode = false)
    (names : List (UserId × Option Peer)) :
    Printed c names ↔ (unknowns names).toFinset.card ≤ unknownUserMax := by
  rcases printNames_spec hc names with ⟨users, hsome, hnodup, hlen, hids⟩ | ⟨hnone, hcard⟩
  · refine iff_of_true ⟨users, hsome, hnodup, hlen⟩ ?_
    rwa [← hids, List.toFinset_card_of_nodup hnodup]
  · refine iff_of_false ?_ (Nat.not_le_of_lt hcard)
    rintro ⟨users, hsome, -⟩
    rw [hnone] at hsome
    exact absurd hsome (by simp)

/-- The default settings. -/
def defaultConfig : Config := ⟨false, false, fun _ => []⟩

/-- The user with the number `n`, of whom the library knows nothing. -/
def stranger (n : ℕ) : UserId × Option Peer := (⟨⟨.user, n, 0⟩, rfl⟩, none)

/-- One unknown user, who is mentioned twice. -/
theorem names_printed_iff_one : Printed defaultConfig [stranger 5, stranger 5] ↔
    (unknowns [stranger 5, stranger 5]).toFinset.card ≤ unknownUserMax :=
  names_printed_iff rfl _

theorem unknowns_strangers (n : ℕ) :
    unknowns ((List.range n).map stranger) = (List.range n).map fun (k : ℕ) => (k : ℤ) := by
  unfold unknowns
  rw [List.filterMap_map, ← List.filterMap_eq_map]
  rfl

/-- 1001 unknown users are too many. -/
theorem strangers_fail :
    ¬ ∀ (c : Config) (names : List (UserId × Option Peer)), c.permanentPeerIdMode = false →
      Printed c names := by
  intro h
  obtain ⟨users, hsome, hnodup, hlen⟩ := h defaultConfig ((List.range 1001).map stranger) rfl
  rcases printNames_spec (c := defaultConfig) rfl ((List.range 1001).map stranger) with
    ⟨users', hsome', -, -, hids⟩ | ⟨hnone, -⟩
  · rw [hsome] at hsome'
    cases hsome'
    have hcard := List.toFinset_card_of_nodup hnodup
    rw [hids, unknowns_strangers, List.toFinset_card_of_nodup
      (List.nodup_range.map Nat.cast_injective), List.length_map, List.length_range] at hcard
    unfold unknownUserMax at hlen
    omega
  · rw [hsome] at hnone
    exact absurd hnone (by simp)

end TelegramCli.Interface.UnknownUsers
