import Mathlib.Tactic

/-! # Characters of a text

`u8_nextchar` takes a byte and the continuation bytes behind it. On UTF-8 this is a character
(`nextchar_char`), so the loops over a text run over its code points, and `u8_is_rtl` finds out
whether more than half of them are written from right to left (`utf8_majority`).

The memory from an address on is a list of bytes. Reading behind its end and an index outside of
`offsetsFromUTF8` give `none`. -/

namespace TelegramCli.Telegrab.Utf8

/-! ### The functions -/

/-- `isutf`. -/
def isutf (c : UInt8) : Bool := c &&& 0xC0 ≠ 0x80

def offsetsFromUTF8 : List UInt32 :=
  [0x00000000, 0x00003080, 0x000E2080, 0x03C82080, 0xFA082080, 0x82082080]

/-- The condition of the loop: another byte of the sequence. -/
def continues (c : UInt8) : Bool := c ≠ 0 && !isutf c

/-- The body of the loop. -/
def addByte (ch : UInt32) (c : UInt8) : UInt32 := (ch <<< 6) + c.toUInt32

/-- The loop of `u8_nextchar`: `ch`, `sz` and the memory behind the sequence. -/
def sequence (ch : UInt32) (sz : ℕ) : List UInt8 → Option (UInt32 × ℕ × List UInt8)
  | [] => none
  | [_] => none
  | c :: d :: s =>
    if continues d then sequence (addByte ch c) (sz + 1) (d :: s)
    else some (addByte ch c, sz + 1, d :: s)

/-- `u8_nextchar`, and the memory from the new index on. -/
def nextchar (s : List UInt8) : Option (UInt32 × List UInt8) :=
  (sequence 0 0 s).bind fun r =>
    (offsetsFromUTF8[r.2.1 - 1]?).map fun offset => (r.1 - offset, r.2.2)

theorem sequence_length : ∀ {ch : UInt32} {sz : ℕ} {s : List UInt8} {r : UInt32 × ℕ × List UInt8},
    sequence ch sz s = some r → r.2.2.length < s.length
  | ch, sz, c :: d :: s, r, h => by
    rw [sequence] at h
    split_ifs at h
    · exact (sequence_length h).trans (Nat.lt_succ_self _)
    · cases h
      exact Nat.lt_succ_self _

theorem nextchar_length {s : List UInt8} {r : UInt32 × List UInt8} (h : nextchar s = some r) :
    r.2.length < s.length := by
  obtain ⟨q, hq, h⟩ := Option.bind_eq_some_iff.mp h
  obtain ⟨offset, -, rfl⟩ := Option.map_eq_some_iff.mp h
  exact sequence_length hq

/-- `while ((c = u8_nextchar (s, &i)) != 0)`, where the body makes `f a c` of `a`. -/
def whileNext {α : Type} (f : α → UInt32 → α) (a : α) (s : List UInt8) : Option α :=
  match _h : nextchar s with
  | none => none
  | some r => if r.1 = 0 then some a else whileNext f (f a r.1) r.2
termination_by s.length
decreasing_by exact nextchar_length _h

def u8Strlen (s : List UInt8) : Option ℕ := whileNext (fun count _ => count + 1) 0 s

/-- The ranges of `is_rtl` up to 0x85E. -/
def rtlLow : List (UInt32 × UInt32) :=
  [(0x5BE, 0x5BE), (0x5C0, 0x5C0), (0x5C3, 0x5C3), (0x5C6, 0x5C6), (0x5D0, 0x5EA), (0x5F0, 0x5F4),
    (0x608, 0x608), (0x60B, 0x60B), (0x60D, 0x60D), (0x61B, 0x61B), (0x61E, 0x64A), (0x66D, 0x66F),
    (0x671, 0x6D5), (0x6E5, 0x6E6), (0x6EE, 0x6EF), (0x6FA, 0x70D), (0x710, 0x710), (0x712, 0x72F),
    (0x74D, 0x7A5), (0x7B1, 0x7B1), (0x7C0, 0x7EA), (0x7F4, 0x7F5), (0x7FA, 0x7FA), (0x800, 0x815),
    (0x81A, 0x81A), (0x824, 0x824), (0x828, 0x828), (0x830, 0x83E), (0x840, 0x858), (0x85E, 0x85E)]

/-- The ranges from 0xFB1D on. -/
def rtlHigh : List (UInt32 × UInt32) :=
  [(0xFB1D, 0xFB1D), (0xFB1F, 0xFB28), (0xFB2A, 0xFB36), (0xFB38, 0xFB3C), (0xFB3E, 0xFB3E),
    (0xFB40, 0xFB41), (0xFB43, 0xFB44), (0xFB46, 0xFBC1), (0xFBD3, 0xFD3D), (0xFD50, 0xFD8F),
    (0xFD92, 0xFDC7), (0xFDF0, 0xFDFC), (0xFE70, 0xFE74), (0xFE76, 0xFEFC), (0x10800, 0x10805),
    (0x10808, 0x10808), (0x1080A, 0x10835), (0x10837, 0x10838), (0x1083C, 0x1083C),
    (0x1083F, 0x10855), (0x10857, 0x1085F), (0x10900, 0x1091B), (0x10920, 0x10939),
    (0x1093F, 0x1093F), (0x10A00, 0x10A00), (0x10A10, 0x10A13), (0x10A15, 0x10A17),
    (0x10A19, 0x10A33), (0x10A40, 0x10A47), (0x10A50, 0x10A58), (0x10A60, 0x10A7F),
    (0x10B00, 0x10B35), (0x10B40, 0x10B55), (0x10B58, 0x10B72), (0x10B78, 0x10B7F)]

def inRanges (ranges : List (UInt32 × UInt32)) (c : UInt32) : Bool :=
  ranges.any fun r => decide (r.1 ≤ c) && decide (c ≤ r.2)

def isRtl (c : UInt32) : Bool :=
  if 0x5BE ≤ c ∧ c ≤ 0x10B7F then
    if c ≤ 0x85E then inRanges rtlLow c
    else if c = 0x200F then true
    else if 0xFB1D ≤ c then inRanges rtlHigh c
    else false
  else false

def u8IsRtl (s : List UInt8) : Option Bool :=
  (whileNext (fun rtl c => rtl + if isRtl c then 1 else 0) 0 s).bind fun rtl =>
    (u8Strlen s).map fun n => decide (n / 2 < rtl)

/-! ### Sequences -/

theorem addByte_toNat (ch : UInt32) (c : UInt8) :
    (addByte ch c).toNat = (64 * ch.toNat + c.toNat) % 2 ^ 32 := by
  have hshift : (ch <<< 6).toNat = 64 * ch.toNat % 2 ^ 32 := by
    rw [UInt32.toNat_shiftLeft, Nat.shiftLeft_eq, Nat.mul_comm]
    rfl
  rw [addByte, UInt32.toNat_add, hshift, UInt8.toNat_toUInt32, Nat.mod_add_mod]

theorem continues_iff (c : UInt8) : continues c = true ↔ 128 ≤ c.toNat ∧ c.toNat < 192 := by
  have hbyte : ∀ n < 256, continues (UInt8.ofNat n) = true ↔ 128 ≤ n ∧ n < 192 := by
    decide +kernel
  have h := hbyte c.toNat c.toNat_lt
  rwa [UInt8.ofNat_toNat] at h

/-- A byte and the continuation bytes behind it. -/
def value (g : List UInt8) : UInt32 := g.foldl addByte 0

theorem sequence_group {d : UInt8} (hd : continues d = false) (rest : List UInt8) :
    ∀ (ch : UInt32) (sz : ℕ) (c : UInt8) (g : List UInt8), g.all continues = true →
    sequence ch sz (c :: g ++ d :: rest) =
      some ((c :: g).foldl addByte ch, sz + g.length + 1, d :: rest)
  | ch, sz, c, [], _ => by
    change sequence ch sz (c :: d :: rest) = _
    rw [sequence, if_neg (by rw [hd]; exact Bool.false_ne_true)]
    rfl
  | ch, sz, c, b :: g, hg => by
    rw [List.all_cons, Bool.and_eq_true] at hg
    change sequence ch sz (c :: b :: (g ++ d :: rest)) = _
    rw [sequence, if_pos hg.1]
    have ih := sequence_group hd rest (addByte ch c) (sz + 1) b g hg.2
    rw [List.cons_append] at ih
    rw [ih, List.length_cons, Nat.add_right_comm sz 1, Nat.add_assoc sz]
    rfl

theorem nextchar_group {d : UInt8} (hd : continues d = false) (rest : List UInt8) (c : UInt8)
    {g : List UInt8} (hg : g.all continues = true) : nextchar (c :: g ++ d :: rest) =
      (offsetsFromUTF8[g.length]?).map fun offset => (value (c :: g) - offset, d :: rest) := by
  rw [nextchar, sequence_group hd rest 0 0 c g hg, Option.bind_some]
  simp only [Nat.zero_add, Nat.add_sub_cancel, value]

/-! ### Characters -/

theorem continues_ofNat (n : ℕ) : continues (UInt8.ofNat (n % 64 + 128)) = true := by
  rw [continues_iff, UInt8.toNat_ofNat']
  omega

/-- The number of a sequence is read when its offset has been added to it. -/
theorem nextchar_of_value {d : UInt8} (hd : continues d = false) (rest : List UInt8) {b : UInt8}
    {g : List UInt8} (hg : g.all continues = true) {v offset : UInt32}
    (hoffset : offsetsFromUTF8[g.length]? = some offset)
    (hv : (value (b :: g)).toNat = v.toNat + offset.toNat) :
    nextchar (b :: g ++ d :: rest) = some (v, d :: rest) := by
  have hsum : value (b :: g) = v + offset := by
    rw [← UInt32.toNat_inj, UInt32.toNat_add, ← hv, Nat.mod_eq_of_lt (UInt32.toNat_lt _)]
  rw [nextchar_group hd rest b hg, hoffset, Option.map_some, hsum, UInt32.add_sub_cancel]

/-- **A character is read**, if its bytes end behind it. -/
theorem nextchar_char (c : Char) {d : UInt8} (hd : continues d = false) (rest : List UInt8) :
    nextchar (String.utf8EncodeChar c ++ d :: rest) = some (c.val, d :: rest) := by
  have hv : c.val.toNat < 1114112 := by
    have h := c.valid
    unfold UInt32.isValidChar Nat.isValidChar at h
    omega
  unfold String.utf8EncodeChar
  simp only
  split_ifs with h1 h2 h3
  · refine nextchar_of_value hd rest rfl rfl ?_
    simp only [value, List.foldl, addByte_toNat, UInt8.toNat_ofNat', UInt32.toNat_zero]
    omega
  · refine nextchar_of_value hd rest ?_ rfl ?_
    · simp only [List.all_cons, continues_ofNat, List.all_nil, Bool.and_self]
    · simp only [value, List.foldl, addByte_toNat, UInt8.toNat_ofNat', UInt32.toNat_zero,
        UInt32.reduceToNat]
      omega
  · refine nextchar_of_value hd rest ?_ rfl ?_
    · simp only [List.all_cons, continues_ofNat, List.all_nil, Bool.and_self]
    · simp only [value, List.foldl, addByte_toNat, UInt8.toNat_ofNat', UInt32.toNat_zero,
        UInt32.reduceToNat]
      omega
  · refine nextchar_of_value hd rest ?_ rfl ?_
    · simp only [List.all_cons, continues_ofNat, List.all_nil, Bool.and_self]
    · simp only [value, List.foldl, addByte_toNat, UInt8.toNat_ofNat', UInt32.toNat_zero,
        UInt32.reduceToNat]
      omega

theorem char_front (c : Char) :
    ∃ b g, String.utf8EncodeChar c = b :: g ∧ continues b = false := by
  have hbyte : ∀ n : ℕ, n % 256 < 128 ∨ 192 ≤ n % 256 → continues (UInt8.ofNat n) = false := by
    intro n hn
    rw [Bool.eq_false_iff, ne_eq, continues_iff, UInt8.toNat_ofNat']
    omega
  unfold String.utf8EncodeChar
  simp only
  split_ifs with h1 h2 h3
  · exact ⟨_, _, rfl, hbyte _ (by omega)⟩
  · exact ⟨_, _, rfl, hbyte _ (by omega)⟩
  · exact ⟨_, _, rfl, hbyte _ (by omega)⟩
  · exact ⟨_, _, rfl, hbyte _ (by omega)⟩

/-! ### The loops -/

variable {α β : Type}

theorem whileNext_none {f : α → UInt32 → α} {a : α} {s : List UInt8} (h : nextchar s = none) :
    whileNext f a s = none := by
  rw [whileNext]
  split
  · rfl
  · simp_all

theorem whileNext_some {f : α → UInt32 → α} {a : α} {s t : List UInt8} {c : UInt32}
    (h : nextchar s = some (c, t)) :
    whileNext f a s = if c = 0 then some a else whileNext f (f a c) t := by
  rw [whileNext]
  split
  · simp_all
  · rename_i r hr
    obtain rfl := Option.some.inj (h.symm.trans hr)
    rfl

/-- Loops whose states correspond. -/
theorem whileNext_map {f : α → UInt32 → α} {g : β → UInt32 → β} (φ : α → β)
    (hφ : ∀ a c, φ (f a c) = g (φ a) c) (a : α) (s : List UInt8) :
    (whileNext f a s).map φ = whileNext g (φ a) s := by
  cases h : nextchar s with
  | none => rw [whileNext_none h, whileNext_none h, Option.map_none]
  | some r =>
    rw [whileNext_some h, whileNext_some h]
    split_ifs
    · rfl
    · rw [whileNext_map φ hφ, hφ]
termination_by s.length
decreasing_by exact nextchar_length h

/-- The results of successive calls of `u8_nextchar`, up to the first zero. -/
def chars (s : List UInt8) : Option (List UInt32) := whileNext (fun cs c => cs ++ [c]) [] s

/-- **A loop** runs over the results of the calls. -/
theorem whileNext_eq (f : α → UInt32 → α) (a : α) (s : List UInt8) :
    whileNext f a s = (chars s).map fun cs => cs.foldl f a :=
  (whileNext_map (fun cs => cs.foldl f a) (fun cs c => List.foldl_concat f a c cs) [] s).symm

theorem u8Strlen_eq (s : List UInt8) : u8Strlen s = (chars s).map List.length := by
  rw [u8Strlen, whileNext_eq]
  congr 1
  funext cs
  rw [List.foldl_add_const, Nat.one_mul, Nat.zero_add]

theorem foldl_rtl : ∀ (rtl : ℕ) (cs : List UInt32),
    cs.foldl (fun rtl c => rtl + if isRtl c then 1 else 0) rtl = rtl + cs.countP isRtl
  | rtl, [] => rfl
  | rtl, c :: cs => by
    rw [List.foldl_cons, foldl_rtl _ cs, List.countP_cons, Nat.add_assoc, Nat.add_comm (cs.countP _)]

theorem u8IsRtl_eq (s : List UInt8) : u8IsRtl s =
    (chars s).map fun cs => decide (cs.length / 2 < cs.countP isRtl) := by
  rw [u8IsRtl, whileNext_eq, u8Strlen_eq]
  cases chars s with
  | none => rfl
  | some cs =>
    rw [Option.map_some, Option.bind_some, foldl_rtl, Nat.zero_add]
    rfl

/-! ### Texts -/

/-- All ranges of `is_rtl`. -/
def rtlRanges : List (UInt32 × UInt32) := rtlLow ++ (0x200F, 0x200F) :: rtlHigh

theorem inRanges_bounds {ranges : List (UInt32 × UInt32)} {lo hi c : UInt32}
    (hranges : (ranges.all fun r => decide (lo ≤ r.1) && decide (r.2 ≤ hi)) = true)
    (h : inRanges ranges c = true) : lo ≤ c ∧ c ≤ hi := by
  obtain ⟨r, hr, hc⟩ := List.any_eq_true.mp h
  have hbounds := List.all_eq_true.mp hranges r hr
  simp only [Bool.and_eq_true, decide_eq_true_eq] at hbounds hc
  exact ⟨UInt32.le_trans hbounds.1 hc.1, UInt32.le_trans hc.2 hbounds.2⟩

/-- The comparisons outside of the ranges leave out none of them. -/
theorem isRtl_eq (c : UInt32) : isRtl c = inRanges rtlRanges c := by
  have hlow : inRanges rtlLow c = true → 0x5BE ≤ c ∧ c ≤ 0x85E := inRanges_bounds (by decide)
  have hhigh : inRanges rtlHigh c = true → 0xFB1D ≤ c ∧ c ≤ 0x10B7F := inRanges_bounds (by decide)
  have hmark : (decide (0x200F ≤ c) && decide (c ≤ 0x200F)) = decide (c = 0x200F) := by
    rw [← Bool.decide_and, decide_eq_decide]
    exact ⟨fun h => UInt32.le_antisymm h.2 h.1, by rintro rfl; decide⟩
  have hall : inRanges rtlRanges c =
      (inRanges rtlLow c || (decide (c = 0x200F) || inRanges rtlHigh c)) := by
    rw [← hmark]
    exact List.any_append
  rw [hall]
  unfold isRtl
  split_ifs <;> grind

/-- The bytes of a text. -/
def encode (cs : List Char) : List UInt8 := cs.flatMap String.utf8EncodeChar

theorem encode_front (cs : List Char) (s : List UInt8) :
    ∃ b rest, encode cs ++ 0 :: s = b :: rest ∧ continues b = false := by
  cases cs with
  | nil => exact ⟨0, s, rfl, rfl⟩
  | cons c cs =>
    obtain ⟨b, g, hb, hc⟩ := char_front c
    exact ⟨b, g ++ encode cs ++ 0 :: s, by rw [encode, List.flatMap_cons, hb]; rfl, hc⟩

/-- **The loop over a text** runs over its characters. -/
theorem whileNext_encode {d : UInt8} (hd : continues d = false) (rest : List UInt8)
    (f : α → UInt32 → α) : ∀ {cs : List Char} (a : α), '\x00' ∉ cs →
    whileNext f a (encode cs ++ 0 :: d :: rest) = some ((cs.map Char.val).foldl f a)
  | [], a, _ => by
    have hend : nextchar (0 :: d :: rest) = some (0, d :: rest) :=
      @nextchar_group d hd rest 0 [] rfl
    rw [encode, List.flatMap_nil, List.nil_append, whileNext_some hend, if_pos rfl]
    rfl
  | c :: cs, a, h0 => by
    rw [List.mem_cons, not_or] at h0
    obtain ⟨b, s, hs, hb⟩ := encode_front cs (d :: rest)
    have hc : c.val ≠ 0 := fun hc => h0.1 (Char.ext hc).symm
    have hchar : nextchar (encode (c :: cs) ++ 0 :: d :: rest) =
        some (c.val, encode cs ++ 0 :: d :: rest) := by
      rw [encode, List.flatMap_cons, List.append_assoc, ← encode, hs]
      exact nextchar_char c hb s
    rw [whileNext_some hchar, if_neg hc, whileNext_encode hd rest f _ h0.2]
    rfl

/-- **A text in UTF-8** is read character by character: the calls yield its code points,
`u8_strlen` is their number, and `u8_is_rtl` tells whether more than half of them are in the ranges
of `is_rtl`. -/
theorem utf8_majority {cs : List Char} (h0 : '\x00' ∉ cs) {d : UInt8} (hd : continues d = false)
    (rest : List UInt8) : chars (encode cs ++ 0 :: d :: rest) = some (cs.map Char.val) ∧
      u8Strlen (encode cs ++ 0 :: d :: rest) = some cs.length ∧
      ∃ r, u8IsRtl (encode cs ++ 0 :: d :: rest) = some r ∧
        (r = true ↔ cs.length < 2 * cs.countP fun c => inRanges rtlRanges c.val) := by
  have hchars : chars (encode cs ++ 0 :: d :: rest) = some (cs.map Char.val) := by
    rw [chars, whileNext_encode hd rest _ _ h0, List.foldl_append_eq_append, List.nil_append,
      ← List.flatMap_def, List.flatMap_singleton']
  refine ⟨hchars, ?_, _, by rw [u8IsRtl_eq, hchars, Option.map_some], ?_⟩
  · rw [u8Strlen_eq, hchars, Option.map_some, List.length_map]
  · rw [decide_eq_true_iff, List.length_map, List.countP_map, funext isRtl_eq]
    change _ < cs.countP (fun c => inRanges rtlRanges c.val) ↔ _
    omega

/-- The letter alef, whose code point is 0x5D0, and the letter a. -/
theorem utf8_majority_alef :
    chars (encode ['א', 'א', 'a'] ++ 0 :: 0 :: []) = some (['א', 'א', 'a'].map Char.val) ∧
      u8Strlen (encode ['א', 'א', 'a'] ++ 0 :: 0 :: []) = some ['א', 'א', 'a'].length ∧
      ∃ r, u8IsRtl (encode ['א', 'א', 'a'] ++ 0 :: 0 :: []) = some r ∧
        (r = true ↔ ['א', 'א', 'a'].length <
          2 * ['א', 'א', 'a'].countP fun c => inRanges rtlRanges c.val) :=
  utf8_majority (by decide) rfl []

end TelegramCli.Telegrab.Utf8
