import TelegramCli.Interface.Complete
import TelegramCli.Lib.Run

/-! # Places in a signature

Complete tokens without quotes (`Word`) are read one after the other. `place` is the walk of such
words over a signature, for rules that say which words a slot accepts and what a refused word leads
to: it gives the slot that the last token of the line is for. `stands_iff_place` says that a loop
that keeps the rules gets where `place` says. -/

namespace TelegramCli.Interface.Places

open TelegramCli.Lib.CString TelegramCli.Lib.Run TelegramCli.Interface.Token
open TelegramCli.Interface.Args TelegramCli.Interface.Slots

/-- White space between two tokens. -/
abbrev Gap := { b : List UInt8 // b ≠ [] ∧ ∀ c ∈ b, 1 ≤ c ∧ c ≤ 32 }

/-- A complete token without quotes, and the white space in front of it. -/
structure Word where
  gap : Gap
  bytes : List UInt8
  ne_nil : bytes ≠ []
  printed : ∀ c ∈ bytes, 32 < c
  unquoted : deref bytes ≠ dquote ∧ deref bytes ≠ squote

/-- A line of words, with more white space and the last token behind. -/
def text (ws : List Word) (b : Gap) (p : List UInt8) : List UInt8 :=
  ws.flatMap (fun w => w.gap.val ++ w.bytes) ++ (b.val ++ p)

/-! ### The walk over the words -/

/-- Which words a slot accepts (`none` is a failing assertion), how far the pointer goes at a slot
that refuses a word, for the slot's `ca_optional`, a `ca_period` behind it and a word accepted
before, and whether there is room for another argument. A slot that is not repeated leads to the
next one; one that goes on to its own `ca_period` does so again. -/
structure Rules where
  test : CommandArgument → List UInt8 → Option Bool
  refuse : Bool → Bool → Bool → Option ℕ
  room : ℕ → Bool
  single : ∀ opt move, refuse opt false false = some move → move = 1
  again : ∀ opt visited move, refuse opt true visited = some move →
    move = 2 ∨ move = 1 ∧ refuse opt true true = some 1

/-- A repeated slot, where `visited` says that it has accepted a word before. -/
def placeRepeat (R : Rules) (slot : Slot) (leave : ℕ → List Word → Option ℕ) :
    Bool → ℕ → List Word → Option ℕ
  | _, n, [] => if R.room n then some 0 else none
  | visited, n, w :: ws =>
    if !R.room n then none
    else if isEnd slot.op then some 0
    else
      match R.test slot.op w.bytes with
      | none => none
      | some true => placeRepeat R slot leave true (n + 1) ws
      | some false =>
        if R.refuse slot.opt true visited = some 2 then (leave n (w :: ws)).map (2 + ·) else none

/-- The slot, counted from the first one, at which the walk stands when it has the words behind it,
or which takes the rest of the line. There are `n` arguments before. -/
def place (R : Rules) : List Slot → ℕ → List Word → Option ℕ
  | [], n, ws => if R.room n && ws.isEmpty then some 0 else none
  | slot :: ⟨.period, false⟩ :: rest, n, ws => placeRepeat R slot (place R rest) false n ws
  | slot :: rest, n, ws =>
    if !R.room n then none
    else if isEnd slot.op then some 0
    else
      match ws with
      | [] => some 0
      | w :: ws =>
        match R.test slot.op w.bytes with
        | none => none
        | some true => (place R rest (n + 1) ws).map (1 + ·)
        | some false =>
          if R.refuse slot.opt false false = some 1 then
            (place R rest (n + 1) (w :: ws)).map (1 + ·)
          else none

/-! ### A loop that keeps the rules -/

section Loop

variable {σ : Type} (R : Rules) (sig : List Slot) (step : σ → Option σ) (flags : σ → ℕ)
  (line : σ → List UInt8) (count : σ → ℕ)

/-- The slot a state is at. -/
def slotOf (st : σ) : Slot := slotAt sig (stepBack sig (flags st))

/-- From `st` the pointer has gone `move` slots on, past `k` more arguments, to `rest`. -/
structure Goes (st st' : σ) (move k : ℕ) (rest : List UInt8) : Prop where
  flags_eq : flags st' = stepBack sig (flags st) + move
  line_eq : line st' = rest
  room_eq : ∀ i, R.room (count st' + i) = R.room (count st + k + i)

/-- **The loop keeps the rules**. -/
structure Follows : Prop where
  full : ∀ st, R.room (count st) = false → step st = none
  none : ∀ st, slotOf sig flags st = Slot.none → step st = none
  word : ∀ (st : σ) (w : Word) (ws : List Word) (b : Gap) (p : List UInt8),
    R.room (count st) = true → taken (slotOf sig flags st) = true →
    isEnd (slotOf sig flags st).op = false → line st = text (w :: ws) b p →
    match R.test (slotOf sig flags st).op w.bytes with
    | .none => step st = .none
    | some true => ∃ st', step st = some st' ∧ Goes R sig flags line count st st' 1 1 (text ws b p)
    | some false =>
      match R.refuse (slotOf sig flags st).opt (repeated sig (stepBack sig (flags st)))
        (slotAt sig (flags st) = Slot.period) with
      | .none => step st = .none
      | some move => ∃ st', step st = some st' ∧
        Goes R sig flags line count st st' move (2 - move) (line st)

/-- The walk stands in front of `p`, or at a slot that takes the rest of the line. -/
def Stop (b : Gap) (p : List UInt8) (st : σ) : Prop :=
  R.room (count st) = true ∧ (isEnd (slotOf sig flags st).op = true ∨ line st = b.val ++ p)

/-- The first such state is at slot `i`. -/
def StandsAt (b : Gap) (p : List UInt8) (st : σ) (i : ℕ) : Prop :=
  ∃ st', FirstAt step (Stop R sig flags line count b p) st st' ∧ stepBack sig (flags st') = i

variable {R sig step flags line count} {b : Gap} {p : List UInt8} {st st' : σ} {i n : ℕ}

theorem standsAt_of_stop (h : Stop R sig flags line count b p st) :
    StandsAt R sig step flags line count b p st i ↔ stepBack sig (flags st) = i := by
  constructor
  · rintro ⟨u, hu, hi⟩
    rw [firstAt_of_stop h] at hu
    rwa [hu] at hi
  · intro hi
    exact ⟨st, .here h, hi⟩

theorem standsAt_of_step (h : ¬ Stop R sig flags line count b p st) (hs : step st = some st') :
    StandsAt R sig step flags line count b p st i ↔
      StandsAt R sig step flags line count b p st' i := by
  unfold StandsAt
  simp only [firstAt_of_step h hs]

theorem not_standsAt (h : ¬ Stop R sig flags line count b p st) (hs : step st = none) :
    ¬ StandsAt R sig step flags line count b p st i := by
  rintro ⟨u, hu, -⟩
  exact not_firstAt_of_none h hs hu

theorem text_cons (w : Word) (ws : List Word) (b : Gap) (p : List UInt8) :
    text (w :: ws) b p = w.gap.val ++ (w.bytes ++ text ws b p) := by
  simp [text]

theorem length_text_le (ws : List Word) (b : Gap) (p : List UInt8) :
    (b.val ++ p).length ≤ (text ws b p).length :=
  (List.suffix_append _ _).length_le

theorem text_cons_ne (w : Word) (ws : List Word) (b : Gap) (p : List UInt8) :
    text (w :: ws) b p ≠ b.val ++ p := by
  intro h
  have hlen := congrArg List.length h
  have hle := length_text_le ws b p
  have hpos := List.length_pos_of_ne_nil w.ne_nil
  rw [text_cons, List.length_append, List.length_append] at hlen
  omega

theorem not_stop_word {w : Word} {ws : List Word} (hend : isEnd (slotOf sig flags st).op = false)
    (hline : line st = text (w :: ws) b p) : ¬ Stop R sig flags line count b p st := by
  rintro ⟨-, h | h⟩
  · rw [hend] at h
    cases h
  · exact text_cons_ne w ws b p (hline ▸ h)

theorem not_stop_full (hroom : R.room (count st) = false) :
    ¬ Stop R sig flags line count b p st := by
  rintro ⟨h, -⟩
  rw [hroom] at h
  cases h

theorem slotOf_repeat {pre rest : List Slot} {slot : Slot} {visited : Bool}
    (hsig : sig = pre ++ slot :: Slot.period :: rest)
    (hat : Complete.AtRepeat pre rest slot visited (flags st)) : slotOf sig flags st = slot := by
  rw [slotOf, hsig, hat.1]
  exact slotAt_append pre (slot :: Slot.period :: rest) 0

/-- What a step does with a word at a repeated slot. -/
theorem Follows.repeat (hf : Follows R sig step flags line count) {pre rest : List Slot}
    {slot : Slot} {visited : Bool} (hslot : taken slot = true) (hend : isEnd slot.op = false)
    (hsig : sig = pre ++ slot :: Slot.period :: rest)
    (hat : Complete.AtRepeat pre rest slot visited (flags st)) {w : Word} {ws : List Word}
    (hroom : R.room (count st) = true) (hline : line st = text (w :: ws) b p) :
    match R.test slot.op w.bytes with
    | .none => step st = .none
    | some true => ∃ st', step st = some st' ∧ Goes R sig flags line count st st' 1 1 (text ws b p)
    | some false =>
      match R.refuse slot.opt true visited with
      | .none => step st = .none
      | some move => ∃ st', step st = some st' ∧
        Goes R sig flags line count st st' move (2 - move) (line st) := by
  have hof := slotOf_repeat hsig hat
  have hrep : repeated sig (stepBack sig (flags st)) = true := by
    rw [hsig, hat.1, repeated_append]
    simp [repeated, slotAt, taken_ne_none hslot]
  have hvisited : decide (slotAt sig (flags st) = Slot.period) = visited := by
    rw [hsig]
    cases visited <;> simp [hat.2]
  have h := hf.word st w ws b p hroom (hof ▸ hslot) (hof ▸ hend) hline
  rw [hof, hrep, hvisited] at h
  exact h

/-- A slot that is both optional and repeated keeps refusing its word. -/
theorem not_standsAt_spin (hf : Follows R sig step flags line count) {pre rest : List Slot}
    {slot : Slot} (hslot : taken slot = true) (hend : isEnd slot.op = false)
    (hsig : sig = pre ++ slot :: Slot.period :: rest) {w : Word} {ws : List Word}
    (htest : R.test slot.op w.bytes = some false) (hrefuse : R.refuse slot.opt true true = some 1)
    (hat : Complete.AtRepeat pre rest slot true (flags st)) (hline : line st = text (w :: ws) b p) :
    ¬ StandsAt R sig step flags line count b p st i := by
  rintro ⟨t, ht, -⟩
  refine not_firstAt_of_closed (P := fun u =>
    Complete.AtRepeat pre rest slot true (flags u) ∧ line u = text (w :: ws) b p) ?_ ?_
    ⟨hat, hline⟩ ht
  · rintro u ⟨hu, hu'⟩
    exact not_stop_word (by rw [slotOf_repeat hsig hu, hend]) hu'
  · rintro u v ⟨hu, hu'⟩ hv
    cases hroom : R.room (count u) with
    | false =>
      rw [hf.full u hroom] at hv
      cases hv
    | true =>
      have h := hf.repeat hslot hend hsig hu hroom hu'
      rw [htest] at h
      simp only [hrefuse] at h
      obtain ⟨v', hv', hgoes⟩ := h
      obtain rfl : v' = v := Option.some.inj (hv'.symm.trans hv)
      rw [hgoes.line_eq, hgoes.flags_eq, hsig, hu.1]
      exact ⟨Complete.atRepeat_again pre rest slot, hu'⟩

theorem place_iff_map {o : Option ℕ} {j k l : ℕ} :
    (∃ m, o.map (l + ·) = some m ∧ j = k + m) ↔ ∃ m, o = some m ∧ j = k + l + m := by
  simp [Option.map_eq_some_iff, Nat.add_assoc]

/-- **A repeated slot**; `leave` is the walk over the slots behind it. -/
theorem stands_repeat (hf : Follows R sig step flags line count) {pre rest : List Slot}
    {slot : Slot} {leave : ℕ → List Word → Option ℕ} (hslot : taken slot = true)
    (hsig : sig = pre ++ slot :: Slot.period :: rest)
    (hleave : ∀ (st : σ) (ws : List Word) (n : ℕ), flags st = pre.length + 2 →
      line st = text ws b p → (∀ j, R.room (count st + j) = R.room (n + j)) →
      (StandsAt R sig step flags line count b p st i ↔
        ∃ k, leave n ws = some k ∧ i = pre.length + 2 + k)) :
    ∀ (ws : List Word) {visited : Bool} {st : σ} {n : ℕ},
    Complete.AtRepeat pre rest slot visited (flags st) → line st = text ws b p →
    (∀ j, R.room (count st + j) = R.room (n + j)) →
    (StandsAt R sig step flags line count b p st i ↔
      ∃ k, placeRepeat R slot leave visited n ws = some k ∧ i = pre.length + k)
  | ws, visited, st, n, hat, hline, hcount => by
    have hof : slotOf sig flags st = slot := slotOf_repeat hsig hat
    have hback : stepBack sig (flags st) = pre.length := by rw [hsig, hat.1]
    have h0 : R.room (count st) = R.room n := hcount 0
    cases hroom : R.room n with
    | false =>
      rw [hroom] at h0
      refine iff_of_false (not_standsAt (not_stop_full h0) (hf.full st h0)) ?_
      rintro ⟨k, hk, -⟩
      cases ws <;> simp [placeRepeat, hroom] at hk
    | true =>
      rw [hroom] at h0
      match ws with
      | [] =>
        rw [standsAt_of_stop ⟨h0, .inr hline⟩, hback]
        simp [placeRepeat, hroom, eq_comm]
      | w :: ws =>
        cases hend : isEnd slot.op with
        | true =>
          rw [standsAt_of_stop ⟨h0, .inl (by rw [hof, hend])⟩, hback]
          simp [placeRepeat, hroom, hend, eq_comm]
        | false =>
          have hns : ¬ Stop R sig flags line count b p st :=
            not_stop_word (by rw [hof, hend]) hline
          have hword := hf.repeat hslot hend hsig hat h0 hline
          rw [placeRepeat]
          simp only [hroom, hend, Bool.not_true, if_neg Bool.false_ne_true]
          cases htest : R.test slot.op w.bytes with
          | none =>
            rw [htest] at hword
            exact iff_of_false (not_standsAt hns hword) (by simp)
          | some ok =>
            cases ok with
            | true =>
              rw [htest] at hword
              obtain ⟨st', hs, hgoes⟩ := hword
              rw [standsAt_of_step hns hs]
              refine stands_repeat hf hslot hsig hleave ws ?_ hgoes.line_eq fun j => ?_
              · rw [hgoes.flags_eq, hback]
                exact Complete.atRepeat_again pre rest slot
              · rw [hgoes.room_eq, Nat.add_assoc, hcount, Nat.add_assoc]
            | false =>
              simp only [htest] at hword ⊢
              cases hrefuse : R.refuse slot.opt true visited with
              | none =>
                rw [hrefuse] at hword
                exact iff_of_false (not_standsAt hns hword) (by simp)
              | some move =>
                rw [hrefuse] at hword
                obtain ⟨st', hs, hgoes⟩ := hword
                rw [standsAt_of_step hns hs]
                rcases R.again _ _ _ hrefuse with rfl | ⟨rfl, hspin⟩
                · rw [if_pos rfl, place_iff_map]
                  refine hleave st' _ n ?_ (hgoes.line_eq.trans hline) fun j => ?_
                  · rw [hgoes.flags_eq, hback]
                  · rw [hgoes.room_eq, ← hcount]
                    rfl
                · rw [if_neg (by simp)]
                  refine iff_of_false ?_ (by simp)
                  refine not_standsAt_spin hf hslot hend hsig htest hspin ?_
                    (hgoes.line_eq.trans hline)
                  rw [hgoes.flags_eq, hback]
                  exact Complete.atRepeat_again pre rest slot

theorem place_cons {slot : Slot} {rest : List Slot} (h : slotAt rest 0 ≠ Slot.period) (n : ℕ)
    (ws : List Word) : place R (slot :: rest) n ws =
      if !R.room n then none
      else if isEnd slot.op then some 0
      else
        match ws with
        | [] => some 0
        | w :: ws =>
          match R.test slot.op w.bytes with
          | none => none
          | some true => (place R rest (n + 1) ws).map (1 + ·)
          | some false =>
            if R.refuse slot.opt false false = some 1 then
              (place R rest (n + 1) (w :: ws)).map (1 + ·)
            else none := by
  cases rest with
  | nil => cases ws <;> rfl
  | cons next rest =>
    have hne : ∀ rest', ¬ next :: rest = ⟨.period, false⟩ :: rest' := by
      rintro rest' he
      cases he
      exact h rfl
    cases ws with
    | nil =>
      rw [place]
      exact hne
    | cons w ws =>
      rw [place]
      exact hne

/-- Behind the last slot. -/
theorem stands_last (hf : Follows R sig step flags line count) {pre : List Slot}
    (hsig : sig = pre ++ []) {ws : List Word} (hflags : flags st = pre.length)
    (hline : line st = text ws b p) (hcount : R.room (count st) = R.room n) :
    StandsAt R sig step flags line count b p st i ↔
      ∃ k, place R [] n ws = some k ∧ i = pre.length + k := by
  have h0 : slotAt sig pre.length = Slot.none := by rw [hsig]; exact slotAt_append pre [] 0
  have hback : stepBack sig (flags st) = pre.length := by
    rw [hflags, stepBack_of_ne]
    rw [h0]
    decide
  have hof : slotOf sig flags st = Slot.none := by rw [slotOf, hback, h0]
  have hend : isEnd (slotOf sig flags st).op = false := by rw [hof]; rfl
  cases hroom : R.room n with
  | false =>
    rw [hroom] at hcount
    refine iff_of_false (not_standsAt (not_stop_full hcount) (hf.full st hcount)) ?_
    simp [place, hroom]
  | true =>
    rw [hroom] at hcount
    cases ws with
    | nil =>
      rw [standsAt_of_stop ⟨hcount, .inr hline⟩, hback]
      simp [place, hroom, eq_comm]
    | cons w ws =>
      refine iff_of_false (not_standsAt (not_stop_word hend hline) (hf.none st hof)) ?_
      simp [place]

theorem stepBack_single {pre rest : List Slot} {slot : Slot} (hslot : taken slot = true)
    (hsig : sig = pre ++ slot :: rest) (hflags : flags st = pre.length) :
    stepBack sig (flags st) = pre.length := by
  rw [hflags, stepBack_of_ne]
  rw [hsig, show slotAt (pre ++ slot :: rest) pre.length = slot from
    slotAt_append pre (slot :: rest) 0]
  exact taken_ne_period hslot

theorem slotOf_single {pre rest : List Slot} {slot : Slot} (hslot : taken slot = true)
    (hsig : sig = pre ++ slot :: rest) (hflags : flags st = pre.length) :
    slotOf sig flags st = slot := by
  rw [slotOf, stepBack_single hslot hsig hflags, hsig]
  exact slotAt_append pre (slot :: rest) 0

/-- What a step does with a word at a slot that is not repeated. -/
theorem Follows.single (hf : Follows R sig step flags line count) {pre rest : List Slot}
    {slot : Slot} (hslot : taken slot = true) (hend : isEnd slot.op = false)
    (hp : slotAt rest 0 ≠ Slot.period) (hsig : sig = pre ++ slot :: rest)
    (hflags : flags st = pre.length) {w : Word} {ws : List Word}
    (hroom : R.room (count st) = true) (hline : line st = text (w :: ws) b p) :
    match R.test slot.op w.bytes with
    | .none => step st = .none
    | some true => ∃ st', step st = some st' ∧ Goes R sig flags line count st st' 1 1 (text ws b p)
    | some false =>
      match R.refuse slot.opt false false with
      | .none => step st = .none
      | some move => ∃ st', step st = some st' ∧
        Goes R sig flags line count st st' move (2 - move) (line st) := by
  have hof := slotOf_single hslot hsig hflags
  have hback := stepBack_single hslot hsig hflags
  have hrep : repeated sig (stepBack sig (flags st)) = false := by
    have h1 : slotAt (slot :: rest) 1 = slotAt rest 0 := rfl
    rw [hback, hsig, repeated_append]
    simp [repeated, h1, hp]
  have hvisited : decide (slotAt sig (flags st) = Slot.period) = false := by
    rw [slotOf, hback, ← hflags] at hof
    rw [hof]
    exact decide_eq_false (taken_ne_period hslot)
  have h := hf.word st w ws b p hroom (hof ▸ hslot) (hof ▸ hend) hline
  rw [hof, hrep, hvisited] at h
  exact h

/-- A slot that is not repeated. -/
theorem stands_slot (hf : Follows R sig step flags line count) {pre rest : List Slot} {slot : Slot}
    (hslot : taken slot = true) (hp : slotAt rest 0 ≠ Slot.period) (hsig : sig = pre ++ slot :: rest)
    (hnext : ∀ (st : σ) (ws : List Word) (n : ℕ), flags st = pre.length + 1 →
      line st = text ws b p → (∀ j, R.room (count st + j) = R.room (n + j)) →
      (StandsAt R sig step flags line count b p st i ↔
        ∃ k, place R rest n ws = some k ∧ i = pre.length + 1 + k))
    {ws : List Word} (hflags : flags st = pre.length) (hline : line st = text ws b p)
    (hcount : ∀ j, R.room (count st + j) = R.room (n + j)) :
    StandsAt R sig step flags line count b p st i ↔
      ∃ k, place R (slot :: rest) n ws = some k ∧ i = pre.length + k := by
  have hback := stepBack_single hslot hsig hflags
  have hof := slotOf_single hslot hsig hflags
  have h0 : R.room (count st) = R.room n := hcount 0
  rw [place_cons hp]
  cases hroom : R.room n with
  | false =>
    rw [hroom] at h0
    exact iff_of_false (not_standsAt (not_stop_full h0) (hf.full st h0)) (by simp)
  | true =>
    rw [hroom] at h0
    cases hend : isEnd slot.op with
    | true =>
      rw [standsAt_of_stop ⟨h0, .inl (by rw [hof, hend])⟩, hback]
      simp [eq_comm]
    | false =>
      simp only [Bool.not_true, if_neg Bool.false_ne_true]
      cases ws with
      | nil =>
        rw [standsAt_of_stop ⟨h0, .inr hline⟩, hback]
        simp [eq_comm]
      | cons w ws =>
        have hns : ¬ Stop R sig flags line count b p st := not_stop_word (by rw [hof, hend]) hline
        have hword := hf.single hslot hend hp hsig hflags h0 hline
        simp only
        cases htest : R.test slot.op w.bytes with
        | none =>
          rw [htest] at hword
          exact iff_of_false (not_standsAt hns hword) (by simp)
        | some ok =>
          cases ok with
          | true =>
            rw [htest] at hword
            obtain ⟨st', hs, hgoes⟩ := hword
            rw [standsAt_of_step hns hs, place_iff_map]
            refine hnext st' ws (n + 1) ?_ hgoes.line_eq fun j => ?_
            · rw [hgoes.flags_eq, hback]
            · rw [hgoes.room_eq, Nat.add_assoc, hcount, Nat.add_assoc]
          | false =>
            simp only [htest] at hword ⊢
            cases hrefuse : R.refuse slot.opt false false with
            | none =>
              rw [hrefuse] at hword
              exact iff_of_false (not_standsAt hns hword) (by simp)
            | some move =>
              obtain rfl : move = 1 := R.single _ _ hrefuse
              rw [hrefuse] at hword
              obtain ⟨st', hs, hgoes⟩ := hword
              rw [standsAt_of_step hns hs, if_pos rfl, place_iff_map]
              refine hnext st' (w :: ws) (n + 1) ?_ (hgoes.line_eq.trans hline) fun j => ?_
              · rw [hgoes.flags_eq, hback]
              · rw [hgoes.room_eq, Nat.add_assoc, hcount, Nat.add_assoc]

/-- **A loop that keeps the rules** gets where `place` says. -/
theorem stands_iff_place (hf : Follows R sig step flags line count) : ∀ (rest pre : List Slot)
    {st : σ} {ws : List Word} {n : ℕ}, Regular rest = true → sig = pre ++ rest →
    flags st = pre.length → line st = text ws b p →
    (∀ j, R.room (count st + j) = R.room (n + j)) →
    (StandsAt R sig step flags line count b p st i ↔
      ∃ k, place R rest n ws = some k ∧ i = pre.length + k)
  | [], pre, st, ws, n, _, hsig, hflags, hline, hcount =>
    stands_last hf hsig hflags hline (hcount 0)
  | slot :: rest, pre, st, ws, n, hreg, hsig, hflags, hline, hcount => by
    obtain ⟨hslot, ⟨tail, rfl, hreg'⟩ | ⟨hp, hreg'⟩⟩ := Regular.cases hreg
    · refine stands_repeat hf hslot hsig (fun st' ws' n' hflags' hline' hcount' => ?_) ws
        (hflags ▸ Complete.atRepeat_first hslot) hline hcount
      have hlen : (pre ++ [slot, Slot.period]).length = pre.length + 2 := List.length_append
      have ih := stands_iff_place hf tail (pre ++ [slot, Slot.period]) hreg'
        (by rw [hsig, List.append_assoc]; rfl) (hflags'.trans hlen.symm) hline' hcount'
      rwa [hlen] at ih
    · refine stands_slot hf hslot hp hsig (fun st' ws' n' hflags' hline' hcount' => ?_) hflags hline
        hcount
      have hlen : (pre ++ [slot]).length = pre.length + 1 := List.length_append
      have ih := stands_iff_place hf rest (pre ++ [slot]) hreg'
        (by rw [hsig, List.append_assoc]; rfl) (hflags'.trans hlen.symm) hline' hcount'
      rwa [hlen] at ih

end Loop

/-! ### Repeated slots -/

/-- **A repeated slot** is stood at when it accepts all words and there is room for them. -/
theorem placeRepeat_eq_zero {slot : Slot} {leave : ℕ → List Word → Option ℕ}
    (hend : isEnd slot.op = false) : ∀ {ws : List Word} {visited : Bool} {n : ℕ},
    placeRepeat R slot leave visited n ws = some 0 ↔
      (∀ w ∈ ws, R.test slot.op w.bytes = some true) ∧ ∀ j ≤ ws.length, R.room (n + j) = true
  | [], visited, n => by simp [placeRepeat]
  | w :: ws, visited, n => by
    have hroom : (∀ j ≤ (w :: ws).length, R.room (n + j) = true) ↔
        R.room n = true ∧ ∀ j ≤ ws.length, R.room (n + 1 + j) = true := by
      constructor
      · intro h
        refine ⟨h 0 (Nat.zero_le _), fun j hj => ?_⟩
        rw [Nat.add_assoc, Nat.add_comm 1 j]
        exact h (j + 1) (Nat.succ_le_succ hj)
      · rintro ⟨h0, h⟩ j hj
        cases j with
        | zero => exact h0
        | succ j =>
          rw [Nat.add_comm j 1, ← Nat.add_assoc]
          exact h j (Nat.le_of_succ_le_succ hj)
    rw [List.forall_mem_cons, hroom, placeRepeat]
    cases h0 : R.room n with
    | false => simp
    | true =>
      simp only [Bool.not_true, if_neg Bool.false_ne_true, hend]
      cases htest : R.test slot.op w.bytes with
      | none => simp
      | some ok =>
        cases ok with
        | true =>
          simp only [true_and]
          exact placeRepeat_eq_zero hend
        | false =>
          refine iff_of_false ?_ (by simp)
          simp only
          split_ifs
          · cases leave n (w :: ws) <;> simp
          · simp

/-- Any other place is behind the slot. -/
theorem placeRepeat_cases {slot : Slot} {leave : ℕ → List Word → Option ℕ} {i : ℕ} :
    ∀ {ws : List Word} {visited : Bool} {n : ℕ},
    placeRepeat R slot leave visited n ws = some i → i = 0 ∨
      ∃ m w vs, w ∈ ws ∧ R.test slot.op w.bytes = some false ∧ (leave m (w :: vs)).isSome = true
  | [], visited, n, h => by
    rw [placeRepeat] at h
    split_ifs at h
    exact .inl (Option.some.inj h).symm
  | w :: ws, visited, n, h => by
    rw [placeRepeat] at h
    cases htest : R.test slot.op w.bytes with
    | none =>
      simp only [htest] at h
      split_ifs at h
      exact .inl (Option.some.inj h).symm
    | some ok =>
      cases ok with
      | true =>
        simp only [htest] at h
        split_ifs at h
        · exact .inl (Option.some.inj h).symm
        · rcases placeRepeat_cases h with hi | ⟨m, v, vs, hv, hrest⟩
          · exact .inl hi
          · exact .inr ⟨m, v, vs, List.mem_cons_of_mem w hv, hrest⟩
      | false =>
        simp only [htest] at h
        split_ifs at h
        · exact .inl (Option.some.inj h).symm
        · obtain ⟨k, hk, -⟩ := Option.map_eq_some_iff.mp h
          exact .inr ⟨n, w, ws, List.mem_cons_self, htest, by rw [hk]; rfl⟩

/-! ### Words and the scanner -/

theorem text_head (b : Gap) (p : List UInt8) : ∀ ws : List Word,
    ∃ c q, text ws b p = c :: q ∧ 1 ≤ c ∧ c ≤ 32
  | [] => by
    obtain ⟨c, q, hq⟩ := List.exists_cons_of_ne_nil b.property.1
    have hc := b.property.2 c (by rw [hq]; exact List.mem_cons_self)
    exact ⟨c, q ++ p, by rw [text, hq]; rfl, hc⟩
  | w :: ws => by
    obtain ⟨c, q, hq⟩ := List.exists_cons_of_ne_nil w.gap.property.1
    have hc := w.gap.property.2 c (by rw [hq]; exact List.mem_cons_self)
    exact ⟨c, _, by rw [text_cons, hq]; rfl, hc⟩

/-- The end of a word is found. -/
theorem skipWord_append {q : List UInt8} (hq : deref q ≤ 32) : ∀ {w : List UInt8},
    (∀ x ∈ w, 32 < x) → skipWord (w ++ q) = q
  | [], _ => by
    cases q with
    | nil => rfl
    | cons c q =>
      rw [List.nil_append, skipWord, if_neg]
      exact fun h => UInt8.not_le.mpr h.2 hq
  | x :: w, h => by
    have hx : 32 < x := h x List.mem_cons_self
    have h0 : x ≠ 0 := by
      rintro rfl
      exact absurd hx (by decide)
    rw [List.cons_append, skipWord, if_pos ⟨h0, hx⟩]
    exact skipWord_append hq fun y hy => h y (List.mem_cons_of_mem x hy)

/-- A word is read as it stands between white space and the next blank or the end of the line. -/
theorem nextToken_bytes (force : Bool) {b w q : List UInt8} (hb : ∀ c ∈ b, 1 ≤ c ∧ c ≤ 32)
    (hne : w ≠ []) (hw : ∀ x ∈ w, 32 < x) (hquote : deref w ≠ dquote ∧ deref w ≠ squote)
    (hq : deref q ≤ 32) {s : Scanner} (h : s.linePtr = b ++ (w ++ q)) :
    nextToken force s = some ⟨q, w ++ q, w.length, !force && deref q == 0, false⟩ := by
  obtain ⟨x, v, rfl⟩ := List.exists_cons_of_ne_nil hne
  have hx : 32 < x := hw x List.mem_cons_self
  have hx0 : x ≠ 0 := by
    rintro rfl
    exact absurd hx (by decide)
  have hnot : ¬ (x = dquote ∨ x = squote) := by
    rw [deref_cons] at hquote
    exact not_or.mpr hquote
  have hskip : skipWspc s.linePtr = x :: (v ++ q) := by
    rw [h, skipWspc_append _ hb, List.cons_append, skipWspc_of_lt hx]
  have hword : skipWord (x :: (v ++ q)) = q := skipWord_append hq hw
  have hlen : (x :: (v ++ q)).length - q.length = (x :: v).length := by
    rw [← List.cons_append, List.length_append, Nat.add_sub_cancel]
  unfold nextToken
  simp only [hskip, deref_cons, if_neg hx0, if_neg hnot, hword, hlen]
  rfl

/-- **A word** is read as it stands in the line. -/
theorem nextToken_word (force : Bool) {w : Word} {ws : List Word} {b : Gap} {p : List UInt8}
    {s : Scanner} (h : s.linePtr = text (w :: ws) b p) : ∃ t, nextToken force s = some t ∧
      t.linePtr = text ws b p ∧ t.tok = w.bytes ∧ t.curTokenQuoted = false ∧
      t.curTokenEndStr = false ∧ 0 ≤ t.curTokenLen := by
  obtain ⟨c, q, hq, hc1, hc⟩ := text_head b p ws
  have hc0 : c ≠ 0 := by
    rintro rfl
    exact absurd hc1 (by decide)
  have hrest : deref (text ws b p) ≤ 32 := by
    rw [hq]
    exact hc
  have hline : s.linePtr = w.gap.val ++ (w.bytes ++ text ws b p) := by rw [h, text_cons]
  refine ⟨_, nextToken_bytes force w.gap.property.2 w.ne_nil w.printed w.unquoted hrest hline, rfl,
    ?_, rfl, ?_, Int.natCast_nonneg _⟩
  · rw [Scanner.tok, Int.toNat_natCast, List.take_left]
  · simp [hq, hc0]

end TelegramCli.Interface.Places
