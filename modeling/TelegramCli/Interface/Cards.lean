import TelegramCli.Interface.Head
import TelegramCli.Interface.Places
import TelegramCli.Json.Pack

/-! # Cards

A card is a row of 32-bit words. `print_card_gw` prints it as hexadecimal numbers with colons between
them, and `do_import_card` reads such a text into a static array of 10 words. The words that were
printed are read back, and no text makes the reader write outside the array
(`import_card_round_trip`). -/

namespace TelegramCli.Interface.Cards

open TelegramCli.Lib.CNumber (toInt32 toInt32_of_lt)
open TelegramCli.Lib.CString TelegramCli.Tgl
open TelegramCli.Interface.Token TelegramCli.Interface.Args TelegramCli.Interface.Actions
open TelegramCli.Interface.Handlers TelegramCli.Interface.Commands TelegramCli.Interface.Interpreter
open TelegramCli.Interface.Head TelegramCli.Interface.Slots TelegramCli.Interface.Places
open TelegramCli.Json.Pack (hexDigit hexFixed)

/-! ### Printing -/

/-- `%08x` of an `int`. -/
def hex8 (w : BitVec 32) : List UInt8 := hexFixed 8 w.toNat

/-- The answer of `print_card_gw` without JSON. -/
def printCardGw (card : List (BitVec 32)) : List UInt8 :=
  lit "Card: " ++
    card.zipIdx.flatMap fun e => hex8 e.1 ++ [if e.2 = card.length - 1 then 10 else 58]

/-! ### Reading -/

/-- The array `p`. It is static: a call finds in it what the call before has left. -/
abbrev Words : Type := Vector (BitVec 32) 10

/-- What a call of `do_import_card` comes to. -/
inductive Call
  /-- `p` is written outside its bounds. -/
  | outside
  /-- No query is sent. -/
  | quiet
  /-- `tgl_do_import_card (TLS, pp, p, ...)`. -/
  | request (pp : ℕ) (p : Words)

/-- `p[pp ++] = cur`, and what follows it. -/
def Words.store (p : Words) (pp : ℕ) (cur : BitVec 32) (next : ℕ → Words → Call) : Call :=
  if h : pp < 10 then next (pp + 1) (p.set pp cur) else .outside

/-- The loop of `do_import_card`, and the last word behind it. -/
def importLoop : Words → ℕ → BitVec 32 → List UInt8 → Call
  | p, pp, cur, [] => p.store pp cur .request
  | p, pp, cur, c :: s =>
    if 48 ≤ c && c ≤ 57 then
      importLoop p pp (cur * 16 + BitVec.ofNat 32 c.toNat - BitVec.ofNat 32 48) s
    else if 97 ≤ c && c ≤ 102 then
      importLoop p pp
        (cur * 16 + BitVec.ofNat 32 c.toNat - BitVec.ofNat 32 97 + BitVec.ofNat 32 10) s
    else if c = 58 then
      if 9 ≤ pp then .quiet else p.store pp cur fun pp p => importLoop p pp 0 s
    else importLoop p pp cur s

/-- `do_import_card` with the array as it finds it; `l` is an `int`. -/
def importCard (p : Words) (s : List UInt8) : Call :=
  let l := toInt32 s.length
  if 0 < l then importLoop p 0 0 (s.take l.toNat) else .quiet

/-- The words a call sends. -/
def Call.words : Call → Option (List (BitVec 32))
  | .request pp p => some (p.toList.take pp)
  | _ => none

/-! ### No write outside -/

theorem store_of_lt {p : Words} {pp : ℕ} (h : pp < 10) (cur : BitVec 32)
    (next : ℕ → Words → Call) : p.store pp cur next = next (pp + 1) (p.set pp cur) := dif_pos h

/-- A colon is passed with 8 words at most, so there is room for the word behind the loop. -/
theorem importLoop_inside : ∀ (s : List UInt8) {p : Words} {pp : ℕ} {cur : BitVec 32}, pp ≤ 9 →
    importLoop p pp cur s ≠ .outside
  | [], p, pp, cur, h => by
    rw [importLoop, store_of_lt (by omega)]
    simp
  | c :: s, p, pp, cur, h => by
    rw [importLoop]
    split_ifs with hdigit hletter hcolon hfull
    · exact importLoop_inside s h
    · exact importLoop_inside s h
    · simp
    · rw [store_of_lt (by omega)]
      exact importLoop_inside s (by omega)
    · exact importLoop_inside s h

theorem importCard_inside (p : Words) (s : List UInt8) : importCard p s ≠ .outside := by
  rw [importCard]
  split_ifs
  · exact importLoop_inside _ (by omega)
  · simp

/-! ### Reading back -/

/-- Words are added modulo `2 ^ 32`, as the numbers they stand for. -/
theorem shift_digit (v k d : ℕ) :
    BitVec.ofNat 32 v * 16 + BitVec.ofNat 32 (k + d) - BitVec.ofNat 32 k =
      BitVec.ofNat 32 (v * 16 + d) := by
  rw [BitVec.ofNat_add, BitVec.ofNat_add, BitVec.ofNat_mul]
  show _ = BitVec.ofNat 32 v * 16 + _
  rw [BitVec.add_comm (BitVec.ofNat 32 k), ← BitVec.add_assoc, BitVec.add_sub_cancel]

theorem importLoop_digit {d : ℕ} (hd : d < 16) (p : Words) (pp v : ℕ) (s : List UInt8) :
    importLoop p pp (BitVec.ofNat 32 v) (hexDigit d :: s) =
      importLoop p pp (BitVec.ofNat 32 (v * 16 + d)) s := by
  rw [importLoop]
  by_cases hten : d < 10
  · have hrange : (48 ≤ hexDigit d && hexDigit d ≤ 57) = true := by
      interval_cases d <;> rfl
    have hval : (hexDigit d).toNat = 48 + d := by
      interval_cases d <;> rfl
    rw [if_pos hrange, hval, shift_digit]
  · have hrange : (48 ≤ hexDigit d && hexDigit d ≤ 57) = false ∧
        (97 ≤ hexDigit d && hexDigit d ≤ 102) = true := by
      interval_cases d <;> exact ⟨rfl, rfl⟩
    have hval : (hexDigit d).toNat = 97 + (d - 10) := by
      interval_cases d <;> rfl
    rw [hrange.1, if_neg Bool.false_ne_true, if_pos hrange.2, hval, shift_digit,
      ← BitVec.ofNat_add, show v * 16 + (d - 10) + 10 = v * 16 + d by omega]

/-- The digits of a number go to the end of the word being read. -/
theorem importLoop_hexFixed (p : Words) (pp : ℕ) : ∀ (n u v : ℕ) (s : List UInt8),
    importLoop p pp (BitVec.ofNat 32 u) (hexFixed n v ++ s) =
      importLoop p pp (BitVec.ofNat 32 (u * 16 ^ n + v % 16 ^ n)) s
  | 0, u, v, s => by
    rw [hexFixed, List.nil_append, pow_zero, mul_one, Nat.mod_one, add_zero]
  | n + 1, u, v, s => by
    have hmod : v % 16 ^ (n + 1) = v / 16 % 16 ^ n * 16 + v % 16 := by
      rw [pow_succ', Nat.mod_mul]
      omega
    have hshift : (u * 16 ^ n + v / 16 % 16 ^ n) * 16 + v % 16 =
        u * 16 ^ (n + 1) + v % 16 ^ (n + 1) := by
      rw [hmod, pow_succ]
      ring
    rw [hexFixed, List.append_assoc, importLoop_hexFixed p pp n, List.cons_append, List.nil_append,
      importLoop_digit (Nat.mod_lt v (by omega)), hshift]

/-- **A word that was printed** is read back, whatever its top bit. -/
theorem importLoop_hex8 (p : Words) (pp : ℕ) (w : BitVec 32) (s : List UInt8) :
    importLoop p pp 0 (hex8 w ++ s) = importLoop p pp w s := by
  have hw : w.toNat < 16 ^ 8 := w.isLt
  have h := importLoop_hexFixed p pp 8 0 w.toNat s
  rw [Nat.mod_eq_of_lt hw, zero_mul, zero_add, BitVec.ofNat_toNat, BitVec.setWidth_eq] at h
  exact h

/-- The words with colons between them. -/
def cardText : List (BitVec 32) → List UInt8
  | [] => []
  | [w] => hex8 w
  | w :: ws => hex8 w ++ 58 :: cardText ws

theorem cardText_cons (w : BitVec 32) {ws : List (BitVec 32)} (h : ws ≠ []) :
    cardText (w :: ws) = hex8 w ++ 58 :: cardText ws := by
  obtain ⟨x, ws, rfl⟩ := List.exists_cons_of_ne_nil h
  rw [cardText]
  exact fun hnil => absurd hnil h

theorem take_set {p : Words} {pp : ℕ} (h : pp < 10) (cur : BitVec 32) :
    (p.set pp cur).toList.take (pp + 1) = p.toList.take pp ++ [cur] := by
  have hlen : pp < p.toList.length := by rw [Vector.length_toList]; exact h
  rw [Vector.toList_set, List.take_set, List.take_succ_eq_append_getElem hlen,
    List.set_append_right _ _ (List.length_take_le pp _),
    List.length_take, Nat.min_eq_left hlen.le, Nat.sub_self, List.set_cons_zero]

theorem importLoop_cardText : ∀ {card : List (BitVec 32)} {p : Words} {pp : ℕ}, card ≠ [] →
    pp + card.length ≤ 10 → ∃ p' : Words,
      importLoop p pp 0 (cardText card) = .request (pp + card.length) p' ∧
        p'.toList.take (pp + card.length) = p.toList.take pp ++ card
  | [], p, pp, h, _ => absurd rfl h
  | [w], p, pp, _, hlen => by
    rw [List.length_singleton] at hlen
    have hloop := importLoop_hex8 p pp w []
    rw [List.append_nil] at hloop
    rw [cardText, hloop, importLoop, store_of_lt (by omega), List.length_singleton]
    exact ⟨_, rfl, take_set (by omega) w⟩
  | w :: x :: ws, p, pp, _, hlen => by
    have hne := List.cons_ne_nil x ws
    have hpos := List.length_pos_of_ne_nil hne
    rw [List.length_cons] at hlen
    obtain ⟨p', hcall, htake⟩ :=
      @importLoop_cardText _ (p.set pp w) (pp + 1) hne (by omega)
    rw [cardText_cons w hne, importLoop_hex8, importLoop, if_neg (by decide), if_neg (by decide),
      if_pos rfl, if_neg (by omega), store_of_lt (by omega), List.length_cons,
      show pp + ((x :: ws).length + 1) = pp + 1 + (x :: ws).length by omega]
    refine ⟨p', hcall, ?_⟩
    rw [htake, take_set, List.append_assoc, List.singleton_append]

theorem length_hexFixed : ∀ n v : ℕ, (hexFixed n v).length = n
  | 0, _ => rfl
  | n + 1, v => by
    rw [hexFixed, List.length_append, length_hexFixed n, List.length_singleton]

theorem length_cardText : ∀ {card : List (BitVec 32)}, card ≠ [] →
    (cardText card).length + 1 = 9 * card.length
  | [], h => absurd rfl h
  | [w], _ => by rw [cardText, hex8, length_hexFixed, List.length_singleton]
  | w :: x :: ws, _ => by
    have hne := List.cons_ne_nil x ws
    have ih := length_cardText hne
    rw [cardText_cons w hne, List.length_append, List.length_cons, hex8, length_hexFixed,
      List.length_cons (a := w)]
    omega

/-- The place of a word tells what stands behind it. -/
theorem flatMap_cardText : ∀ {card : List (BitVec 32)} {k n : ℕ}, card ≠ [] →
    k + card.length = n →
    ((card.zipIdx k).flatMap fun e => hex8 e.1 ++ [if e.2 = n - 1 then 10 else 58]) =
      cardText card ++ [10]
  | [], _, _, h, _ => absurd rfl h
  | [w], k, n, _, hn => by
    rw [List.length_singleton] at hn
    subst hn
    simp [cardText]
  | w :: x :: ws, k, n, _, hn => by
    have hne := List.cons_ne_nil x ws
    have hpos := List.length_pos_of_ne_nil hne
    rw [List.length_cons] at hn
    have ih := flatMap_cardText (k := k + 1) (n := n) hne (by omega)
    rw [List.zipIdx_cons, List.flatMap_cons, ih, if_neg (by omega), cardText_cons w hne]
    simp only [List.append_assoc, List.cons_append, List.nil_append]

theorem printCardGw_eq {card : List (BitVec 32)} (h : card ≠ []) :
    printCardGw card = lit "Card: " ++ (cardText card ++ [10]) := by
  rw [printCardGw, flatMap_cardText h (Nat.zero_add _)]

/-- **A card of ten words at most** is read back from its text. -/
theorem importCard_cardText (p : Words) {card : List (BitVec 32)} (h : card ≠ [])
    (hlen : card.length ≤ 10) : ∃ p' : Words,
      importCard p (cardText card) = .request card.length p' ∧
        p'.toList.take card.length = card := by
  have htext := length_cardText h
  have hpos := List.length_pos_of_ne_nil h
  have hl : toInt32 (cardText card).length = (cardText card).length :=
    toInt32_of_lt (by omega) (by omega)
  obtain ⟨p', hcall, htake⟩ := @importLoop_cardText _ p 0 h (by omega)
  rw [Nat.zero_add] at hcall htake
  refine ⟨p', ?_, htake⟩
  rw [importCard, hl, Int.toNat_natCast, List.take_length, ← hcall]
  exact if_pos (by omega)

/-! ### The handler -/

theorem ofInt_digit (cur : BitVec 32) (n k : ℕ) :
    BitVec.ofInt 32 (cur.toInt * 16 + n - k) =
      cur * 16 + BitVec.ofNat 32 n - BitVec.ofNat 32 k := by
  rw [Int.sub_eq_add_neg, BitVec.ofInt_add, BitVec.ofInt_add, BitVec.ofInt_mul, BitVec.ofInt_toInt,
    BitVec.ofInt_neg, BitVec.ofInt_natCast, BitVec.ofInt_natCast, ← BitVec.sub_eq_add_neg]
  rfl

/-- The loop of the handler is the loop over the array. -/
theorem cardLoop_eq : ∀ (s : List UInt8) {p : Words} {pp : ℕ} {cur : BitVec 32}, pp ≤ 9 →
    cardLoop ((p.toList.take pp).map BitVec.toInt) cur.toInt s =
      (importLoop p pp cur s).words.map fun ws => ws.map BitVec.toInt
  | [], p, pp, cur, h => by
    rw [cardLoop, importLoop, store_of_lt (by omega), Call.words, take_set, Option.map_some,
      List.map_append]
    rfl
  | c :: s, p, pp, cur, h => by
    have hlen : ((p.toList.take pp).map BitVec.toInt).length = pp := by
      rw [List.length_map, List.length_take, Vector.length_toList]
      omega
    rw [cardLoop, importLoop, hlen]
    split_ifs with hdigit hletter hcolon hfull
    · have hcur : toInt32 (cur.toInt * 16 + c.toNat - 48) = _ :=
        congrArg BitVec.toInt (ofInt_digit cur c.toNat 48)
      rw [hcur, cardLoop_eq s h]
    · have hcur : BitVec.ofInt 32 (cur.toInt * 16 + c.toNat - 97) = _ := ofInt_digit cur c.toNat 97
      rw [toInt32, BitVec.ofInt_add, hcur, cardLoop_eq s h]
      rfl
    · rfl
    · rw [store_of_lt (by omega), ← cardLoop_eq s (by omega), take_set, List.map_append]
      rfl
    · exact cardLoop_eq s h

/-- The handler starts the query that the call over the array starts. -/
theorem run_doImportCard (p : Words) {s : List UInt8} (h : s.length < 2 ^ 31) (c : Ctx) :
    doImportCard.run [.str (some s)] c = .ok (match (importCard p s).words with
      | some ws => [.ref, .query (.importCard (ws.map BitVec.toInt)) .printUser]
      | none => []) := by
  have hl : toInt32 s.length = s.length := toInt32_of_lt (by omega) (by omega)
  have hloop := @cardLoop_eq s p 0 0 (Nat.zero_le 9)
  rw [List.take_zero, List.map_nil, show BitVec.toInt (0 : BitVec 32) = 0 from rfl] at hloop
  rw [importCard, hl, Int.toNat_natCast, List.take_length]
  show Except.ok (if 0 < s.length then _ else _) = _
  rw [Option.getD_some, hloop]
  by_cases hs : 0 < s.length
  · rw [if_pos hs, if_pos (by omega)]
    cases (importLoop p 0 0 s).words <;> rfl
  · rw [if_neg hs, if_neg (by omega)]
    rfl

/-! ### The whole line -/

/-- The entry of `import_card` in the table. -/
def importCardCommand : Command :=
  ⟨"import_card", [req .string], doImportCard,
    "import_card <card>\tGets user by card and prints it name. You can then send messages to " ++
    "him as usual"⟩

theorem hexFixed_byte : ∀ (n v : ℕ), ∀ c ∈ hexFixed n v, 48 ≤ c
  | 0, _, c, h => absurd h List.not_mem_nil
  | n + 1, v, c, h => by
    rcases List.mem_append.mp h with h | h
    · exact hexFixed_byte n (v / 16) c h
    · rw [List.mem_singleton] at h
      subst h
      have hd : v % 16 < 16 := Nat.mod_lt v (by omega)
      interval_cases v % 16 <;> decide

theorem cardText_byte : ∀ (card : List (BitVec 32)), ∀ c ∈ cardText card, 48 ≤ c
  | [], c, h => absurd h List.not_mem_nil
  | [w], c, h => hexFixed_byte 8 w.toNat c h
  | w :: x :: ws, c, h => by
    rw [cardText_cons w (List.cons_ne_nil x ws)] at h
    rcases List.mem_append.mp h with h | h
    · exact hexFixed_byte 8 w.toNat c h
    · rcases List.mem_cons.mp h with rfl | h
      · decide
      · exact cardText_byte (x :: ws) c h

/-- The scanner behind the name of the command. -/
def behindName (w : List UInt8) : Scanner :=
  ⟨32 :: w, lit "import_card" ++ 32 :: w, 11, false, false⟩

theorem parseHead_import_card (E : Env) (w : List UInt8) :
    parseHead E (lit "import_card " ++ w) = .name Globals.reset (behindName w) := by
  have hall : (lit "import_card").all (fun c => 32 < c) = true := by decide
  have hprinted : ∀ c ∈ lit "import_card", 32 < c := fun c hc =>
    of_decide_eq_true (List.all_eq_true.mp hall c hc)
  have hname : nextToken true (Scanner.start (lit "import_card " ++ w)) = some (behindName w) :=
    nextToken_bytes true (b := []) (w := lit "import_card") (q := 32 :: w) (by simp) (by decide)
      hprinted (by decide) (by rw [deref_cons]; decide) rfl
  rw [parseHead, modifierLoop, hname]
  rfl

/-- A word of bytes from `0` on is the argument of the command. -/
theorem parseArgs_import_card (E : Ids.Env) {w : List UInt8} (hne : w ≠ [])
    (hw : ∀ c ∈ w, 48 ≤ c) :
    parseArgs E importCardCommand.args (behindName w) = .dispatch [.str (some w)] := by
  have hprinted : ∀ c ∈ w, 32 < c := fun c hc => UInt8.lt_of_lt_of_le (by decide) (hw c hc)
  have hzero : (0 : UInt8) ∉ w := fun h => absurd (hw 0 h) (by decide)
  have hhead : deref w ≠ dquote ∧ deref w ≠ squote := by
    obtain ⟨c, v, rfl⟩ := List.exists_cons_of_ne_nil hne
    have hc := hw c List.mem_cons_self
    rw [deref_cons]
    constructor
    · rintro rfl
      exact absurd hc (by decide)
    · rintro rfl
      exact absurd hc (by decide)
  have hword : nextToken true (behindName w) = some ⟨[], w, w.length, false, false⟩ := by
    have hgap : ∀ c ∈ [(32 : UInt8)], 1 ≤ c ∧ c ≤ 32 := fun c hc => by
      rw [List.mem_singleton.mp hc]
      decide
    have h := nextToken_bytes true (q := []) hgap hne hprinted hhead (by rw [deref_nil]; decide)
      (s := behindName w) (by rw [List.append_nil]; rfl)
    rw [List.append_nil] at h
    exact h
  have htok : (⟨[], w, w.length, false, false⟩ : Scanner).tok = w := by
    rw [Scanner.tok, Int.toNat_natCast, List.take_length]
  rw [parseArgs_eq_readSlots rfl, importCardCommand, readSlots, readSlot, if_pos (by decide),
    slotRound_word rfl, hword, Option.elim_some, Bool.false_and, if_neg Bool.false_ne_true,
    wordRound, if_neg (by simp), htok, cstring_of_notMem hzero]
  rfl

theorem import_card_dispatched (E : Env) {w : List UInt8} (hne : w ≠ [])
    (hw : ∀ c ∈ w, 48 ≤ c) :
    interpreterEx E commands false (some (lit "import_card " ++ w)) =
      .dispatched importCardCommand Globals.reset [.str (some w)] := by
  have hhead := parseHead_import_card E w
  have hargs := parseArgs_import_card E.ids hne hw
  have hderef : deref (lit "import_card " ++ w) = 105 := rfl
  exact interpreterEx_dispatched.mpr
    ⟨rfl, _, _, rfl, by rw [hderef]; decide, by rw [hderef]; decide, hhead, rfl, hargs⟩

theorem cardText_ne_nil {card : List (BitVec 32)} (h : card ≠ []) : cardText card ≠ [] := by
  have htext := length_cardText h
  have hpos := List.length_pos_of_ne_nil h
  exact List.ne_nil_of_length_pos (by omega)

/-- What a line sends that has the text of a card. -/
theorem run_cardText {card : List (BitVec 32)} (h : card ≠ []) (hlen : card.length ≤ 10) (c : Ctx) :
    doImportCard.run [.str (some (cardText card))] c =
      .ok [.ref, .query (.importCard (card.map BitVec.toInt)) .printUser] := by
  have htext := length_cardText h
  obtain ⟨p', hcall, htake⟩ := importCard_cardText (Vector.replicate 10 0) h hlen
  rw [run_doImportCard (Vector.replicate 10 0) (by omega) c, hcall, Call.words, htake]

/-- **A card is imported from the text it is printed as**, with its words in their order, and no text
leads out of the array. -/
theorem import_card_round_trip :
    (∀ card : List (BitVec 32), 1 ≤ card.length → card.length ≤ 10 → ∃ text : List UInt8,
      printCardGw card = lit "Card: " ++ (text ++ [10]) ∧
        (∀ p : Words, ∃ p' : Words, importCard p text = .request card.length p' ∧
          p'.toList.take card.length = card) ∧
        (∀ E : Env, interpreterEx E commands false (some (lit "import_card " ++ text)) =
          .dispatched importCardCommand Globals.reset [.str (some text)]) ∧
        ∀ c : Ctx, importCardCommand.handler.run [.str (some text)] c =
          .ok [.ref, .query (.importCard (card.map BitVec.toInt)) .printUser]) ∧
      ∀ (p : Words) (s : List UInt8), importCard p s ≠ .outside := by
  refine ⟨fun card hpos hlen => ?_, importCard_inside⟩
  have h : card ≠ [] := List.ne_nil_of_length_pos hpos
  exact ⟨cardText card, printCardGw_eq h, fun p => importCard_cardText p h hlen,
    fun E => import_card_dispatched E (cardText_ne_nil h) (cardText_byte card),
    fun c => run_cardText h hlen c⟩

/-- A card with all bits of a word set. -/
theorem import_card_round_trip_max (p : Words) : ∃ p' : Words,
    importCard p (lit "ffffffff:0000002a") = .request 2 p' ∧
      p'.toList.take 2 = [BitVec.ofNat 32 (2 ^ 32 - 1), 42] := by
  obtain ⟨text, htext, hcall, -⟩ :=
    import_card_round_trip.1 [BitVec.ofNat 32 (2 ^ 32 - 1), 42] (by decide) (by decide)
  have hprinted : printCardGw [BitVec.ofNat 32 (2 ^ 32 - 1), 42] =
      lit "Card: " ++ (lit "ffffffff:0000002a" ++ [10]) := by decide
  obtain rfl := List.append_cancel_right (List.append_cancel_left (htext.symm.trans hprinted))
  exact hcall p

end TelegramCli.Interface.Cards
