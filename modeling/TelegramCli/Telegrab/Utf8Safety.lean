import TelegramCli.Telegrab.Utf8

/-! # Texts that are not UTF-8

Before `u8_nextchar` returns the zero of the terminator, it has read the byte behind it. So the
loops over a text stay within its bytes only if a sequence before the terminator is read as zero, as
C0 80 is, and no sequence in front of it has more than six bytes (`utf8_safe_iff`). -/

namespace TelegramCli.Telegrab.Utf8Safety

open TelegramCli.Telegrab.Utf8

/-- Both functions return, read no byte behind the terminator, and no entry that is not in
`offsetsFromUTF8`; what they return is given by the text. -/
def Safe (text : List UInt8) : Prop :=
  ∃ n r, ∀ rest, u8Strlen (text ++ 0 :: rest) = some n ∧ u8IsRtl (text ++ 0 :: rest) = some r

/-- The sequences of a text: each is a byte and the continuation bytes behind it. -/
def sequences : List UInt8 → List (List UInt8)
  | [] => []
  | c :: s => (c :: s.takeWhile continues) :: sequences (s.dropWhile continues)
termination_by s => s.length
decreasing_by exact Nat.lt_succ_of_le (List.dropWhile_sublist _).length_le

/-- The sequences of at most five bytes that are read as zero. -/
def zeros : List (List UInt8) :=
  [[0xC0, 0x80], [0xE0, 0x80, 0x80], [0xF0, 0x80, 0x80, 0x80], [0xF8, 0x80, 0x80, 0x80, 0x80]]

/-- A sequence that is read as zero. -/
def Null (g : List UInt8) : Prop :=
  g ∈ zeros ∨ ∃ c : UInt8, c.toNat % 4 = 0 ∧ g = [c, 0x80, 0x80, 0x80, 0x80, 0x80]

/-- A sequence is read as zero before one of more than six bytes is read. -/
def NullFirst (text : List UInt8) : Prop :=
  ∃ gs g gs', sequences text = gs ++ g :: gs' ∧ Null g ∧ ∀ h ∈ gs, h.length ≤ 6

/-! ### Zeros -/

theorem sub_eq_zero_iff {a b : UInt32} : a - b = 0 ↔ a.toNat = b.toNat := by
  rw [UInt32.toNat_inj]
  constructor
  · intro h
    rw [← UInt32.sub_add_cancel a b, h, UInt32.zero_add]
  · rintro rfl
    exact UInt32.sub_self a

/-- The number that the bytes are digits of. -/
def digits : ℕ → List UInt8 → ℕ
  | n, [] => n
  | n, c :: g => digits (64 * n + c.toNat) g

theorem foldl_addByte : ∀ (g : List UInt8) (ch : UInt32) (n : ℕ), ch.toNat = n % 2 ^ 32 →
    (g.foldl addByte ch).toNat = digits n g % 2 ^ 32
  | [], _, _, h => h
  | c :: g, ch, n, h => by
    refine foldl_addByte g _ _ ?_
    rw [addByte_toNat, h]
    omega

/-- **The sequences read as zero**, among those that the text can have. -/
theorem null_iff {c : UInt8} (hc : c ≠ 0) : ∀ {g : List UInt8}, g.all continues = true →
    (Null (c :: g) ↔
      ∃ offset, offsetsFromUTF8[g.length]? = some offset ∧ value (c :: g) - offset = 0) := by
  have hpos : c.toNat ≠ 0 := fun h => hc (UInt8.toNat_inj.mp h)
  have hlt := c.toNat_lt
  have hvalue : ∀ g, (value (c :: g)).toNat = digits c.toNat g % 2 ^ 32 := fun g => by
    rw [value, foldl_addByte (c :: g) 0 0 rfl, digits, Nat.mul_zero, Nat.zero_add]
  intro g hg
  simp only [sub_eq_zero_iff, hvalue]
  -- the text of a sequence is one of the first six cases; the offset of a longer one is not there
  rcases g with _ | ⟨b, _ | ⟨d, _ | ⟨e, _ | ⟨f, _ | ⟨k, _ | ⟨l, g⟩⟩⟩⟩⟩⟩
  · simp [Null, zeros, offsetsFromUTF8, digits]
    omega
  · simp [continues_iff] at hg
    simp [Null, zeros, offsetsFromUTF8, digits, ← UInt8.toNat_inj]
    omega
  · simp [continues_iff] at hg
    simp [Null, zeros, offsetsFromUTF8, digits, ← UInt8.toNat_inj]
    omega
  · simp [continues_iff] at hg
    simp [Null, zeros, offsetsFromUTF8, digits, ← UInt8.toNat_inj]
    omega
  · simp [continues_iff] at hg
    simp [Null, zeros, offsetsFromUTF8, digits, ← UInt8.toNat_inj]
    omega
  · simp [continues_iff] at hg
    simp [Null, zeros, offsetsFromUTF8, digits, ← UInt8.toNat_inj]
    constructor
    · omega
    · -- the first byte is shifted out but for its last two bits
      intro h
      have hk : k.toNat = 128 := by omega
      have hf : f.toNat = 128 := by omega
      have he : e.toNat = 128 := by omega
      have hd : d.toNat = 128 := by omega
      have hb : b.toNat = 128 := by omega
      exact ⟨c, by omega, rfl, hb, hd, he, hf, hk⟩
  · simp [Null, zeros, offsetsFromUTF8]

/-! ### Runs over a text -/

/-- The text in front of a sequence. -/
theorem text_front (c : UInt8) (s t : List UInt8) : c :: s ++ 0 :: t =
    c :: s.takeWhile continues ++ (s.dropWhile continues ++ 0 :: t) := by
  change c :: (s ++ 0 :: t) = c :: (s.takeWhile continues ++ (s.dropWhile continues ++ 0 :: t))
  rw [← List.append_assoc, List.takeWhile_append_dropWhile]

theorem dropWhile_front (s t : List UInt8) :
    ∃ d rest, s.dropWhile continues ++ 0 :: t = d :: rest ∧ continues d = false := by
  cases h : s.dropWhile continues with
  | nil => exact ⟨0, t, rfl, rfl⟩
  | cons d r =>
    refine ⟨d, r ++ 0 :: t, rfl, ?_⟩
    have hhead := List.head_dropWhile_not continues (l := s) (by rw [h]; simp)
    simpa [h] using hhead

/-- **The first call** reads the first sequence. -/
theorem nextchar_text (c : UInt8) (s t : List UInt8) : nextchar (c :: s ++ 0 :: t) =
    (offsetsFromUTF8[(s.takeWhile continues).length]?).map fun offset =>
      (value (c :: s.takeWhile continues) - offset, s.dropWhile continues ++ 0 :: t) := by
  obtain ⟨d, rest, hd, hcont⟩ := dropWhile_front s t
  rw [text_front, hd]
  exact nextchar_group hcont rest c List.all_takeWhile

variable {α : Type} {f : α → UInt32 → α}

/-- A loop stops at the first sequence that is read as zero. -/
theorem whileNext_of_null : ∀ {text : List UInt8} (a : α), 0 ∉ text → NullFirst text →
    ∃ r, ∀ rest, whileNext f a (text ++ 0 :: rest) = some r
  | [], _, _, ⟨gs, g, gs', hgs, _⟩ => by
    rw [sequences] at hgs
    exact absurd hgs (by simp)
  | c :: s, a, h0, ⟨gs, g, gs', hgs, hnull, hlen⟩ => by
    rw [List.mem_cons, not_or] at h0
    rw [sequences] at hgs
    have hdrop : 0 ∉ s.dropWhile continues := fun h => h0.2 ((List.dropWhile_sublist _).subset h)
    cases gs with
    | nil =>
      obtain ⟨rfl, -⟩ := List.cons.inj hgs
      obtain ⟨offset, hoffset, hzero⟩ := (null_iff (Ne.symm h0.1) List.all_takeWhile).mp hnull
      refine ⟨a, fun rest => ?_⟩
      rw [whileNext_some ((nextchar_text c s rest).trans (by rw [hoffset]; rfl)), if_pos hzero]
    | cons h gs =>
      obtain ⟨rfl, htail⟩ := List.cons.inj hgs
      have hshort : (s.takeWhile continues).length < offsetsFromUTF8.length :=
        Nat.lt_of_succ_le (hlen _ List.mem_cons_self)
      have hoffset := List.getElem?_eq_getElem hshort
      obtain ⟨r, hr⟩ := @whileNext_of_null _ (f a (value (c :: s.takeWhile continues) -
        offsetsFromUTF8[(s.takeWhile continues).length])) hdrop
        ⟨gs, g, gs', htail, hnull, fun h hh => hlen h (List.mem_cons_of_mem _ hh)⟩
      have hnext := fun rest => (nextchar_text c s rest).trans (by rw [hoffset, Option.map_some])
      by_cases hzero : value (c :: s.takeWhile continues) -
          offsetsFromUTF8[(s.takeWhile continues).length] = 0
      · exact ⟨a, fun rest => by rw [whileNext_some (hnext rest), if_pos hzero]⟩
      · exact ⟨r, fun rest => by rw [whileNext_some (hnext rest), if_neg hzero, hr]⟩
termination_by text => text.length
decreasing_by exact Nat.lt_succ_of_le (List.dropWhile_sublist _).length_le

/-- A loop that reads nothing behind the terminator has stopped at such a sequence. -/
theorem null_of_whileNext : ∀ {text : List UInt8} {a r : α}, 0 ∉ text →
    whileNext f a (text ++ [0]) = some r → NullFirst text
  | [], a, r, _, h => by
    rw [List.nil_append, whileNext_none rfl] at h
    cases h
  | c :: s, a, r, h0, h => by
    rw [List.mem_cons, not_or] at h0
    have hdrop : 0 ∉ s.dropWhile continues := fun h => h0.2 ((List.dropWhile_sublist _).subset h)
    cases hoffset : offsetsFromUTF8[(s.takeWhile continues).length]? with
    | none =>
      rw [whileNext_none ((nextchar_text c s []).trans (by rw [hoffset]; rfl))] at h
      cases h
    | some offset =>
      rw [whileNext_some ((nextchar_text c s []).trans (by rw [hoffset]; rfl))] at h
      have hshort : (c :: s.takeWhile continues).length ≤ 6 :=
        Nat.succ_le_of_lt (List.getElem?_eq_some_iff.mp hoffset).1
      split_ifs at h with hzero
      · refine ⟨[], c :: s.takeWhile continues, sequences (s.dropWhile continues), ?_, ?_, by simp⟩
        · rw [sequences]
          rfl
        · exact (null_iff (Ne.symm h0.1) List.all_takeWhile).mpr ⟨offset, hoffset, hzero⟩
      · obtain ⟨gs, g, gs', hgs, hnull, hlen⟩ := null_of_whileNext hdrop h
        refine ⟨(c :: s.takeWhile continues) :: gs, g, gs', ?_, hnull, ?_⟩
        · rw [sequences, hgs]
          rfl
        · exact List.forall_mem_cons.mpr ⟨hshort, hlen⟩
termination_by text => text.length
decreasing_by exact Nat.lt_succ_of_le (List.dropWhile_sublist _).length_le

/-- **The functions are safe** on a text exactly if one of its sequences is read as zero, and those
in front of it have at most six bytes. -/
theorem utf8_safe_iff {text : List UInt8} (h0 : 0 ∉ text) : Safe text ↔ NullFirst text := by
  constructor
  · rintro ⟨n, r, h⟩
    exact null_of_whileNext h0 (h []).1
  · intro h
    obtain ⟨cs, hcs⟩ := whileNext_of_null (f := fun cs c => cs ++ [c]) [] h0 h
    refine ⟨cs.length, decide (cs.length / 2 < cs.countP isRtl), fun rest => ?_⟩
    rw [u8Strlen_eq, u8IsRtl_eq, chars, hcs]
    exact ⟨rfl, rfl⟩

/-- The two bytes C0 80. -/
theorem utf8_safe_iff_zero : Safe [0xC0, 0x80] ↔ NullFirst [0xC0, 0x80] :=
  utf8_safe_iff (by decide)

/-- Behind the terminator of `a` another byte is read. -/
theorem letter_unsafe : ¬ ∀ text : List UInt8, 0 ∉ text → Safe text := by
  intro h
  obtain ⟨n, r, hr⟩ := h [97] (by decide)
  have hletter : nextchar ([97] ++ [0]) = some (97, [0]) := rfl
  have hnone := (hr []).1
  rw [u8Strlen, whileNext_some hletter, if_neg (by decide), whileNext_none rfl] at hnone
  cases hnone

end TelegramCli.Telegrab.Utf8Safety
