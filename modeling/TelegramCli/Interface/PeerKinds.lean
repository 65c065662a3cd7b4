import TelegramCli.Interface.Answers
import TelegramCli.Interface.Dispatch
import TelegramCli.Interface.Standing

/-! # Peers of the kind asked for

Whatever the syntax of a peer is, `parse_input_peer_id` gives an id of the type asked for, or
`TGL_PEER_NOT_FOUND`. So the arguments of a command stand in the order of its signature (`Filled`),
and the one of a `ca_user`, `ca_chat`, `ca_secret_chat` or `ca_channel` that was found is a peer of
that kind (`peers_of_kind`). -/

namespace TelegramCli.Interface.PeerKinds

open TelegramCli.Lib.CString TelegramCli.Tgl TelegramCli.Interface.Token
open TelegramCli.Interface.Ids hiding Env
open TelegramCli.Interface.Args TelegramCli.Interface.Slots TelegramCli.Interface.Dispatch
open TelegramCli.Interface.Commands TelegramCli.Interface.Standing TelegramCli.Interface.Answers

/-- What a slot stores: a value of its member, and a peer of the type it asks for if it found
one. -/
def Stores (op : CommandArgument) (a : Arg) : Prop :=
  a.member = op.member ∧
    ∀ id, a = .peerId id → id = peerNotFound ∨ ∀ tt, maskOf op = some tt → id.peerType = tt

/-- The arguments are what the slots store one after the other, a repeated one any number, up to a
slot in front of which the line ends. -/
inductive Filled : List Slot → List Arg → Prop
  | stop (sig : List Slot) : Filled sig []
  | slot {slot : Slot} {rest : List Slot} {a : Arg} {as : List Arg}
      (hrest : slotAt rest 0 ≠ Slot.period) (ha : Stores slot.op a) (has : Filled rest as) :
      Filled (slot :: rest) (a :: as)
  | again {slot : Slot} {rest : List Slot} {a : Arg} {as : List Arg} (ha : Stores slot.op a)
      (has : Filled (slot :: Slot.period :: rest) as) :
      Filled (slot :: Slot.period :: rest) (a :: as)
  | leave {slot : Slot} {rest : List Slot} {as : List Arg} (has : Filled rest as) :
      Filled (slot :: Slot.period :: rest) as

variable {E : Ids.Env}

/-! ### One round -/

theorem stores_of_readId (hE : PeersTyped E) {op : CommandArgument} {tok : List UInt8} {a : Arg}
    {ok : Bool} (h : readId E op tok = some (a, ok)) : Stores op a := by
  refine ⟨readId_member h, ?_⟩
  rintro id rfl
  have hpeer : ∀ tt, readId E op tok = some (peerArg E tok (some tt)) →
      id = peerNotFound ∨ id.peerType = tt := by
    intro tt hr
    rw [hr] at h
    obtain ⟨hid, -⟩ := Prod.mk.inj (Option.some.inj h)
    obtain rfl := Arg.peerId.inj hid
    exact parseInputPeerId_cases hE tok tt
  have hmask : ∀ tt, maskOf op = some tt → readId E op tok = some (peerArg E tok (some tt)) := by
    intro tt htt
    cases op <;> first | (cases htt; rfl) | cases htt
  by_cases hnot : id = peerNotFound
  · exact .inl hnot
  · exact .inr fun tt htt => (hpeer tt (hmask tt htt)).resolve_left hnot

theorem stores_missing {op : CommandArgument} (h : isId op = true) : Stores op (missing op) := by
  refine ⟨missing_member h, fun id hid => .inl ?_⟩
  cases op <;> first | exact (Arg.peerId.inj hid).symm | cases hid

theorem stores_str {op : CommandArgument} (h : isWord op = true ∨ isEnd op = true) (x : Str) :
    Stores op (.str x) := by
  have hm : op.member = .str := by
    revert h
    cases op <;> simp [isWord, isEnd, CommandArgument.member]
  refine ⟨hm.symm, fun id hid => ?_⟩
  cases hid

/-- What a round adds to the arguments. -/
theorem slotRound_stores (hE : PeersTyped E) {slot : Slot} (hslot : taken slot = true)
    {period : Bool} {args : List Arg} {a : Arg} {s s' : Scanner} {m : ℕ}
    (h : slotRound E slot period args s = .next m (args ++ [a]) s') : Stores slot.op a := by
  have hlast : ∀ {b : Arg}, args ++ [b] = args ++ [a] → b = a := fun hb =>
    List.singleton_inj.mp (List.append_cancel_left hb)
  have hstay : ¬ args = args ++ [a] := fun hs => by simpa using congrArg List.length hs
  rcases taken_iff.mp hslot with hs | hs | hs
  · rw [slotRound_id hs] at h
    cases ht : nextToken true s with
    | none => simp [ht] at h
    | some t =>
      rw [ht, Option.elim_some] at h
      split_ifs at h
      unfold idRound at h
      simp only at h
      split_ifs at h
      · rw [← hlast (Round.next.inj h).2.1]
        exact stores_missing hs
      · exact absurd (Round.next.inj h).2.1 hstay
      cases hr : readId E slot.op t.tok with
      | none => simp [hr] at h
      | some r =>
        obtain ⟨b, ok⟩ := r
        simp only [hr] at h
        split_ifs at h
        · exact absurd (Round.next.inj h).2.1 hstay
        · exact hlast (Round.next.inj h).2.1 ▸ stores_of_readId hE hr
        · exact hlast (Round.next.inj h).2.1 ▸ stores_of_readId hE hr
  · rw [slotRound_word hs] at h
    cases ht : nextToken true s with
    | none => simp [ht] at h
    | some t =>
      rw [ht, Option.elim_some] at h
      split_ifs at h
      unfold wordRound at h
      split_ifs at h
      · exact hlast (Round.next.inj h).2.1 ▸ stores_str (.inl hs) _
      · exact hlast (Round.next.inj h).2.1 ▸ stores_str (.inl hs) _
  · rw [slotRound_end hs] at h
    cases ht : nextTokenEnd true s with
    | none => simp [ht] at h
    | some t =>
      rw [ht, Option.elim_some] at h
      split_ifs at h

/-- What a round adds when it calls the command. -/
theorem slotRound_out {slot : Slot} (hslot : taken slot = true) {period : Bool}
    {args out : List Arg} {s : Scanner} (h : slotRound E slot period args s = .dispatch out) :
    out = args ∨ ∃ a, out = args ++ [a] ∧ Stores slot.op a := by
  rcases taken_iff.mp hslot with hs | hs | hs
  · exact .inl (slotRound_id_dispatch hs h).2.2
  · rw [slotRound_word hs] at h
    cases ht : nextToken true s with
    | none => simp [ht] at h
    | some t =>
      rw [ht, Option.elim_some] at h
      split_ifs at h
      · exact .inl (Round.dispatch.inj h).symm
      · exact absurd h wordRound_ne_dispatch
  · rw [slotRound_end hs] at h
    cases ht : nextTokenEnd true s with
    | none => simp [ht] at h
    | some t =>
      rw [ht, Option.elim_some] at h
      split_ifs at h
      exact .inr ⟨_, (Round.dispatch.inj h).symm, stores_str (.inr hs) _⟩

/-! ### The whole signature -/

/-- A repeated slot, when the later ones fill the rest. -/
theorem repeatSlot_filled (hE : PeersTyped E) {slot : Slot} (hslot : taken slot = true)
    {rest : List Slot} {leave : List Arg → Scanner → Exit}
    (hleave : ∀ {args out : List Arg} {s : Scanner}, leave args s = .dispatch out →
      ∃ more, out = args ++ more ∧ Filled rest more) :
    ∀ {n : ℕ} {args out : List Arg} {s : Scanner}, repeatSlot E slot leave n args s = .dispatch out →
      ∃ more, out = args ++ more ∧ Filled (slot :: Slot.period :: rest) more
  | 0, _, _, _, h => by cases h
  | n + 1, args, out, s, h => by
    rw [repeatSlot] at h
    rcases exitOf_cases h with hout | ⟨args', s', hr, hnext⟩ | ⟨m, args', s', hr, hm, hnext⟩
    · rcases slotRound_out hslot hout with rfl | ⟨a, rfl, ha⟩
      · exact ⟨[], (List.append_nil _).symm, .stop _⟩
      · exact ⟨[a], rfl, .again ha (.stop _)⟩
    · rcases slotRound_next hslot hr with ⟨-, a, -, rfl⟩ | ⟨hm, -, -⟩
      · obtain ⟨more, rfl, hmore⟩ := repeatSlot_filled hE hslot hleave hnext
        exact ⟨a :: more, (List.append_cons args a more).symm,
          .again (slotRound_stores hE hslot hr) hmore⟩
      · exact absurd hm (by decide)
    · rcases slotRound_next hslot hr with ⟨hm1, -⟩ | ⟨-, -, rfl⟩
      · exact absurd hm1 hm
      · obtain ⟨more, rfl, hmore⟩ := hleave hnext
        exact ⟨more, rfl, .leave hmore⟩

theorem readSlots_filled (hE : PeersTyped E) : ∀ {sig : List Slot} {args out : List Arg}
    {s : Scanner}, Regular sig = true → readSlots E sig args s = .dispatch out →
    ∃ more, out = args ++ more ∧ Filled sig more
  | [], args, out, s, _, h => ⟨[], by rw [(readSlots_nil_dispatch h).2, List.append_nil], .stop _⟩
  | slot :: rest, args, out, s, hreg, h => by
    obtain ⟨hslot, ⟨tail, rfl, hreg'⟩ | ⟨hp, hreg'⟩⟩ := Regular.cases hreg
    · rw [readSlots_period] at h
      exact repeatSlot_filled hE hslot (readSlots_filled hE hreg') h
    · rcases readSlots_cons_dispatch hslot hp h with ⟨hend, x, rfl⟩ | ⟨a, s', -, hr, h⟩
      · exact ⟨[.str x], rfl, .slot hp (stores_str (.inr hend) x) (.stop _)⟩
      · obtain ⟨more, rfl, hmore⟩ := readSlots_filled hE hreg' h
        exact ⟨a :: more, (List.append_cons args a more).symm,
          .slot hp (slotRound_stores hE hslot hr) hmore⟩

/-- **Peers are of the kind asked for**, in every syntax, and so are the arguments of every
command. -/
theorem peers_of_kind (hE : PeersTyped E) :
    (∀ tok tt, parseInputPeerId E tok (some tt) = peerNotFound ∨
      (parseInputPeerId E tok (some tt)).peerType = tt) ∧
    ∀ cmd ∈ commands, ∀ s out, parseArgs E cmd.args s = .dispatch out → Filled cmd.args out := by
  refine ⟨parseInputPeerId_cases hE, fun cmd hcmd s out h => ?_⟩
  obtain ⟨hreg, -⟩ := commands_regular cmd hcmd
  rw [parseArgs_eq_readSlots hreg] at h
  obtain ⟨more, rfl, hmore⟩ := readSlots_filled hE hreg h
  exact hmore

/-- A user looked up as one by her number. -/
theorem peers_of_kind_alice :
    (parseInputPeerId Interpreter.aliceEnv.ids (lit "user#1") (some .user)).peerType = .user :=
  ((peers_of_kind aliceEnv_typed).1 (lit "user#1") .user).resolve_left (by decide +kernel)

end TelegramCli.Interface.PeerKinds
