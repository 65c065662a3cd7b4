import TelegramCli.Interface.Ids
import TelegramCli.Lib.Trees

/-! # The index of usernames

The program keeps the last username of every peer at `P->extra` and a tree of the pairs of a
username and its peer. `Exact` says that the tree and the usernames agree with what was reported,
and that `@name` finds the peer whose username it is.

A call keeps the index exact, unless it gives a peer a name that another peer has: then the tree has
the key already (`update_exact`, `update_taken`). So the index is exact along a sequence of calls
exactly when a name is never given before it is free (`exact_iff`). -/

namespace TelegramCli.Interface.Usernames

open TelegramCli.Lib.CString TelegramCli.Lib.Trees TelegramCli.Tgl TelegramCli.Interface.Ids

/-- `struct username_peer_pair`; a peer is its address. -/
structure Pair where
  username : List UInt8
  peer : ℕ
  deriving DecidableEq, Repr

variable (S : KeyTree Pair.username)

/-- `username_peer_pair`, and the `extra` of every peer. -/
structure Index where
  tree : S.Tree
  extra : ℕ → Option (List UInt8)

/-- The index when the program starts. -/
def Index.start : Index S := ⟨S.empty, fun _ => none⟩

variable {S}

/-- The old username of a peer is taken out; `none` is a failed assertion. -/
def dropUsername (I : Index S) (P : ℕ) : Option (Index S) :=
  match I.extra P with
  | none => some I
  | some old =>
    match S.lookup I.tree old with
    | none => none
    | some p => some ⟨S.delete I.tree p, Function.update I.extra P none⟩

/-- `peer_update_username`, with what `rand` gives. -/
def peerUpdateUsername (I : Index S) (P : ℕ) (username : Option (List UInt8)) (rand : ℤ) :
    Option (Index S) :=
  match username with
  | none => dropUsername I P
  | some u =>
    if I.extra P = some u then some I
    else do
      let I ← dropUsername I P
      let tree ← S.insert I.tree ⟨u, P⟩ rand
      return ⟨tree, Function.update I.extra P (some u)⟩

/-- The arguments of a call. -/
structure Call where
  peer : ℕ
  username : Option (List UInt8)
  rand : ℤ

/-- Calls in a row. -/
def updates (I : Index S) (calls : List Call) : Option (Index S) :=
  calls.foldlM (fun I c => peerUpdateUsername I c.peer c.username c.rand) I

/-- What `parse_input_peer_id` looks a name up in; `peers` are the peers at their addresses. -/
def Index.env (I : Index S) (E : Env) (peers : ℕ → Peer) : Env :=
  { E with lookupUsername := fun u => (S.lookup I.tree u).map fun p => peers p.peer }

/-! ### The exact index -/

/-- The username that each peer was last reported with. -/
def lastReported : (ℕ → Option (List UInt8)) → List Call → ℕ → Option (List UInt8)
  | last, [] => last
  | last, c :: calls => lastReported (Function.update last c.peer c.username) calls

/-- **The index is exact** for what was last reported. -/
structure Exact (I : Index S) (last : ℕ → Option (List UInt8)) : Prop where
  extra_eq : I.extra = last
  entry : ∀ u p, S.lookup I.tree u = some p → p.username = u ∧ I.extra p.peer = some u
  reachable : ∀ P u, I.extra P = some u → S.lookup I.tree u = some ⟨u, P⟩

/-- **`@name`** finds the peer that was last reported with the name, and nothing when there is
none. -/
def ParsesNames (I : Index S) (last : ℕ → Option (List UInt8)) : Prop :=
  ∀ (E : Env) (peers : ℕ → Peer) (mask : Option PeerType) (u : List UInt8),
    (∀ P, last P = some (cstring u) →
      parseInputPeerId (I.env E peers) (64 :: u) mask = masked mask (some (peers P))) ∧
    ((∀ P, last P ≠ some (cstring u)) →
      parseInputPeerId (I.env E peers) (64 :: u) mask = peerNotFound)

theorem Exact.parsesNames {I : Index S} {last : ℕ → Option (List UInt8)} (h : Exact I last) :
    ParsesNames I last := by
  intro E peers mask u
  have hparse : parseInputPeerId (I.env E peers) (64 :: u) mask =
      masked mask ((S.lookup I.tree (cstring u)).map fun p => peers p.peer) := by
    simp [parseInputPeerId, Index.env]
  rw [hparse]
  constructor
  · intro P hP
    rw [← h.extra_eq] at hP
    rw [h.reachable P _ hP, Option.map_some]
  · intro hnone
    cases hp : S.lookup I.tree (cstring u) with
    | none => rfl
    | some p =>
      obtain ⟨-, hextra⟩ := h.entry _ p hp
      rw [h.extra_eq] at hextra
      exact absurd hextra (hnone p.peer)

theorem start_exact : Exact (Index.start S) fun _ => none where
  extra_eq := rfl
  entry u p h := by simp [Index.start, S.lookup_empty] at h
  reachable P u h := by simp [Index.start] at h

/-- The old username goes, the others stay. -/
theorem dropUsername_exact {I : Index S} {last : ℕ → Option (List UInt8)} (h : Exact I last)
    (P : ℕ) : ∃ J, dropUsername I P = some J ∧ Exact J (Function.update last P none) := by
  unfold dropUsername
  cases hP : I.extra P with
  | none =>
    refine ⟨I, rfl, ⟨?_, h.entry, h.reachable⟩⟩
    rw [← h.extra_eq, ← hP, Function.update_eq_self]
  | some old =>
    have hold := h.reachable P old hP
    simp only [hold]
    refine ⟨_, rfl, ⟨by rw [h.extra_eq], fun u p hp => ?_, fun Q u hQ => ?_⟩⟩
    · dsimp only at hp ⊢
      by_cases hu : u = old
      · subst hu
        exact absurd hp (by rw [S.lookup_delete_self I.tree ⟨u, P⟩]; simp)
      · rw [S.lookup_delete I.tree ⟨old, P⟩ u hu] at hp
        obtain ⟨hname, hextra⟩ := h.entry u p hp
        refine ⟨hname, ?_⟩
        have hne : p.peer ≠ P := by
          rintro rfl
          rw [hP] at hextra
          exact hu (Option.some.inj hextra).symm
        rw [Function.update_of_ne hne, hextra]
    · dsimp only at hQ ⊢
      by_cases hQP : Q = P
      · subst hQP
        rw [Function.update_self] at hQ
        cases hQ
      · rw [Function.update_of_ne hQP] at hQ
        have hne : u ≠ old := by
          rintro rfl
          have hlookup := h.reachable Q u hQ
          rw [hold] at hlookup
          cases hlookup
          exact hQP rfl
        rw [S.lookup_delete I.tree ⟨old, P⟩ u hne]
        exact h.reachable Q u hQ

/-- **A call** that gives a peer no name of another peer keeps the index exact. -/
theorem update_exact {I : Index S} {last : ℕ → Option (List UInt8)} (h : Exact I last) {P : ℕ}
    {username : Option (List UInt8)} (hfree : ∀ u, username = some u → ∀ Q, Q ≠ P → last Q ≠ some u)
    (rand : ℤ) : ∃ J, peerUpdateUsername I P username rand = some J ∧
      Exact J (Function.update last P username) := by
  obtain ⟨J, hJ, hdropped⟩ := dropUsername_exact h P
  unfold peerUpdateUsername
  cases username with
  | none => exact ⟨J, hJ, hdropped⟩
  | some u =>
    simp only
    by_cases hsame : I.extra P = some u
    · rw [if_pos hsame]
      refine ⟨I, rfl, ?_⟩
      rwa [← hsame, h.extra_eq, Function.update_eq_self]
    · have habsent : S.lookup J.tree u = none := by
        cases hp : S.lookup J.tree u with
        | none => rfl
        | some p =>
          obtain ⟨-, hextra⟩ := hdropped.entry u p hp
          rw [hdropped.extra_eq] at hextra
          by_cases hpP : p.peer = P
          · rw [hpP, Function.update_self] at hextra
            cases hextra
          · rw [Function.update_of_ne hpP] at hextra
            exact absurd hextra (hfree u rfl p.peer hpP)
      obtain ⟨tree, hinsert, hself, hother⟩ := S.insert_absent J.tree ⟨u, P⟩ rand habsent
      rw [if_neg hsame, hJ]
      refine ⟨⟨tree, Function.update J.extra P (some u)⟩, ?_, ⟨?_, fun v p hp => ?_,
        fun Q v hQ => ?_⟩⟩
      · simp only [Option.bind_eq_bind, Option.bind_some, hinsert, Option.pure_def]
      · rw [hdropped.extra_eq, Function.update_idem]
      · dsimp only at hp ⊢
        by_cases hv : v = u
        · subst hv
          rw [hself] at hp
          cases hp
          exact ⟨rfl, Function.update_self _ _ _⟩
        · rw [hother v hv] at hp
          obtain ⟨hname, hextra⟩ := hdropped.entry v p hp
          refine ⟨hname, ?_⟩
          have hne : p.peer ≠ P := by
            rintro rfl
            rw [hdropped.extra_eq, Function.update_self] at hextra
            cases hextra
          rw [Function.update_of_ne hne, hextra]
      · dsimp only at hQ ⊢
        by_cases hQP : Q = P
        · subst hQP
          rw [Function.update_self] at hQ
          cases hQ
          exact hself
        · rw [Function.update_of_ne hQP] at hQ
          have hlookup := hdropped.reachable Q v hQ
          have hne : v ≠ u := by
            rintro rfl
            rw [habsent] at hlookup
            cases hlookup
          rw [hother v hne, hlookup]

/-- A call that gives a peer a name of another peer fails. -/
theorem update_taken {I : Index S} {last : ℕ → Option (List UInt8)} (h : Exact I last) {P Q : ℕ}
    {u : List UInt8} (hQP : Q ≠ P) (hQ : last Q = some u) (rand : ℤ) :
    peerUpdateUsername I P (some u) rand = none := by
  have hsame : I.extra P ≠ some u := by
    intro hP
    have hlookup := h.reachable P u hP
    rw [h.reachable Q u (by rw [h.extra_eq, hQ])] at hlookup
    cases hlookup
    exact hQP rfl
  obtain ⟨J, hJ, hdropped⟩ := dropUsername_exact h P
  have hpresent : S.lookup J.tree u ≠ none := by
    rw [hdropped.reachable Q u (by rw [hdropped.extra_eq, Function.update_of_ne hQP, hQ])]
    simp
  unfold peerUpdateUsername
  simp only
  rw [if_neg hsame, hJ]
  simp only [Option.bind_eq_bind, Option.bind_some, S.insert_present J.tree ⟨u, P⟩ rand hpresent,
    Option.bind_none]

/-! ### Calls in a row -/

/-- No call gives a peer a name that another peer was last reported with. -/
def NeverTaken : (ℕ → Option (List UInt8)) → List Call → Prop
  | _, [] => True
  | last, c :: calls =>
    (∀ u, c.username = some u → ∀ Q, Q ≠ c.peer → last Q ≠ some u) ∧
      NeverTaken (Function.update last c.peer c.username) calls

/-- **The index stays exact**: behind every call no assertion has failed, no key was present, the
index is exact and names are parsed. -/
def StaysExact (I : Index S) (last : ℕ → Option (List UInt8)) (calls : List Call) : Prop :=
  ∀ n, ∃ J, updates I (calls.take n) = some J ∧ Exact J (lastReported last (calls.take n)) ∧
    ParsesNames J (lastReported last (calls.take n))

theorem updates_cons (I : Index S) (c : Call) (calls : List Call) :
    updates I (c :: calls) =
      (peerUpdateUsername I c.peer c.username c.rand).bind fun J => updates J calls := by
  unfold updates
  rw [List.foldlM_cons]
  rfl

theorem staysExact_iff : ∀ (calls : List Call) {I : Index S} {last : ℕ → Option (List UInt8)},
    Exact I last → (StaysExact I last calls ↔ NeverTaken last calls)
  | [], I, last, h => iff_of_true (fun n => ⟨I, by rw [List.take_nil]; rfl,
      by rw [List.take_nil]; exact h, by rw [List.take_nil]; exact h.parsesNames⟩) trivial
  | c :: calls, I, last, h => by
    by_cases hfree : ∀ u, c.username = some u → ∀ Q, Q ≠ c.peer → last Q ≠ some u
    · obtain ⟨J, hJ, hexact⟩ := update_exact h hfree c.rand
      have ih := staysExact_iff calls hexact
      unfold NeverTaken
      rw [and_iff_right hfree, ← ih]
      constructor
      · intro hstays n
        have hn := hstays (n + 1)
        rwa [List.take_succ_cons, updates_cons, hJ] at hn
      · intro hstays n
        cases n with
        | zero => exact ⟨I, rfl, h, h.parsesNames⟩
        | succ n =>
          rw [List.take_succ_cons, updates_cons, hJ]
          exact hstays n
    · refine iff_of_false (fun hstays => ?_) fun hnever => hfree hnever.1
      push Not at hfree
      obtain ⟨u, hu, Q, hQ, htaken⟩ := hfree
      obtain ⟨J, hJ, -⟩ := hstays 1
      rw [List.take_succ_cons, updates_cons, hu, update_taken h hQ htaken] at hJ
      cases hJ

/-- **The index stays exact** along calls from the start exactly when a name is never given to a
peer before the peer that has it has given it up. -/
theorem exact_iff (calls : List Call) : StaysExact (Index.start S) (fun _ => none) calls ↔
    NeverTaken (fun _ => none) calls := staysExact_iff calls start_exact

/-- The peer 2 takes the name of the peer 1, which gives it up only afterwards. -/
theorem taken_before_free :
    ¬ StaysExact (Index.start (assoc Pair.username)) (fun _ => none)
      [⟨1, some (lit "x"), 0⟩, ⟨2, some (lit "x"), 0⟩, ⟨1, none, 0⟩] := by
  intro hstays
  obtain ⟨J, hJ, -⟩ := hstays 2
  cases hJ

end TelegramCli.Interface.Usernames
