import Mathlib.Tactic

/-! # Numbers as C programs print and read them

`decimal` is what `%d` prints. `strtoll` reads a number off the front of a string, in a base or with
the base told by its prefix, and gives back what follows it; the value saturates at 64 bits. -/

namespace TelegramCli.Lib.CNumber

/-! ### Printing -/

/-- `%d` of a number that is not negative. -/
def decimalNat (n : ℕ) : List UInt8 :=
  if n = 0 then [48] else (Nat.digits 10 n).reverse.map fun d => UInt8.ofNat (48 + d)

/-- `%d` and `%lld`. -/
def decimal (n : ℤ) : List UInt8 :=
  if n < 0 then 45 :: decimalNat n.natAbs else decimalNat n.natAbs

/-- `%02d`. -/
def decimal2 (n : ℤ) : List UInt8 :=
  if (decimal n).length < 2 then 48 :: decimal n else decimal n

/-! ### Reading -/

/-- `isspace`. -/
def isSpace (c : UInt8) : Bool := c = 32 || (9 ≤ c && c ≤ 13)

/-- The value of a digit, letters counting from 10; 36 for the other bytes. -/
def digitVal (c : UInt8) : ℕ :=
  if 48 ≤ c && c ≤ 57 then c.toNat - 48
  else if 97 ≤ c && c ≤ 122 then c.toNat - 87
  else if 65 ≤ c && c ≤ 90 then c.toNat - 55
  else 36

/-- The digits of base `b` at the front, behind digits worth `v`. -/
def scanDigits (b : ℕ) : ℕ → List UInt8 → ℕ × List UInt8
  | v, [] => (v, [])
  | v, c :: p => if digitVal c < b then scanDigits b (v * b + digitVal c) p else (v, c :: p)

/-- An optional sign, and whether it is a minus. -/
def takeSign : List UInt8 → Bool × List UInt8
  | [] => (false, [])
  | c :: p => if c = 45 then (true, p) else if c = 43 then (false, p) else (false, c :: p)

/-- The base told by the prefix: `0x` in front of a digit, `0`, or none. -/
def takeBase (p : List UInt8) : ℕ × List UInt8 :=
  if p.head? ≠ some 48 then (10, p)
  else
    match p.drop 1 with
    | x :: d :: q => if (x = 120 || x = 88) && digitVal d < 16 then (16, d :: q) else (8, p)
    | _ => (8, p)

def saturate64 (x : ℤ) : ℤ := max (-2 ^ 63) (min x (2 ^ 63 - 1))

/-- `strtoll (s, &end, base)`, where `none` is base 0: the value and the string at `end`, which is
`s` itself when no digit was found. -/
def strtoll (base : Option ℕ) (s : List UInt8) : ℤ × List UInt8 :=
  let (neg, p) := takeSign (s.dropWhile isSpace)
  let (b, p) := base.elim (takeBase p) fun b => (b, p)
  let (v, q) := scanDigits b 0 p
  if q.length = p.length then (0, s) else (saturate64 (if neg then -v else v), q)

/-- The conversion of a `long long` to `int`. -/
def toInt32 (x : ℤ) : ℤ := (BitVec.ofInt 32 x).toInt

def atoi (s : List UInt8) : ℤ := toInt32 (strtoll (some 10) s).1

/-- `%d` of `sscanf`; `none` when no number was found. -/
def scanInt (s : List UInt8) : Option ℤ :=
  let (x, q) := strtoll (some 10) s
  if q.length = s.length then none else some (toInt32 x)

/-! ### Conversion -/

theorem toInt32_of_lt {x : ℤ} (h0 : -2 ^ 31 ≤ x) (h : x < 2 ^ 31) : toInt32 x = x := by
  rw [toInt32, BitVec.toInt_ofInt, Int.bmod_def]
  split_ifs <;> omega

theorem toInt32_bounds (x : ℤ) : -2 ^ 31 ≤ toInt32 x ∧ toInt32 x < 2 ^ 31 := by
  rw [toInt32, BitVec.toInt_ofInt, Int.bmod_def]
  split_ifs <;> omega

/-- What wraps around is less by a multiple of `2 ^ 32`. -/
theorem toInt32_of_ge {x : ℤ} (h : 2 ^ 31 ≤ x) : toInt32 x ≤ x - 2 ^ 32 := by
  rw [toInt32, BitVec.toInt_ofInt, Int.bmod_def]
  split_ifs <;> omega

theorem toInt32_le {x : ℤ} (h : 0 ≤ x) : toInt32 x ≤ x := by
  rw [toInt32, BitVec.toInt_ofInt, Int.bmod_def]
  split_ifs <;> omega

/-! ### Reading what was printed -/

theorem digitVal_ascii {d : ℕ} (h : d < 10) : digitVal (UInt8.ofNat (48 + d)) = d := by
  interval_cases d <;> rfl

theorem scanDigits_map : ∀ {ds : List ℕ}, (∀ d ∈ ds, d < 10) →
    ∀ {v : ℕ} {c : UInt8} {s : List UInt8}, 10 ≤ digitVal c →
    scanDigits 10 v ((ds.map fun d => UInt8.ofNat (48 + d)) ++ c :: s) =
      (ds.foldl (fun v d => v * 10 + d) v, c :: s)
  | [], _, v, c, s, hc => by
    rw [List.map_nil, List.nil_append, scanDigits, if_neg (by omega), List.foldl_nil]
  | d :: ds, hds, v, c, s, hc => by
    have hd := digitVal_ascii (hds d List.mem_cons_self)
    have ih := scanDigits_map (fun x hx => hds x (List.mem_cons_of_mem d hx))
      (v := v * 10 + d) (s := s) hc
    rw [List.map_cons, List.cons_append, scanDigits, hd, if_pos (hds d List.mem_cons_self), ih,
      List.foldl_cons]

theorem length_scanDigits_le (b : ℕ) : ∀ (p : List UInt8) (v : ℕ),
    (scanDigits b v p).2.length ≤ p.length
  | [], _ => le_rfl
  | c :: p, v => by
    rw [scanDigits]
    split_ifs
    · exact (length_scanDigits_le b p _).trans (Nat.le_succ _)
    · exact le_rfl

/-- **A number that was printed** is read back, up to a byte that is no digit. -/
theorem scanDigits_decimalNat (n : ℕ) {c : UInt8} (s : List UInt8) (hc : 10 ≤ digitVal c) :
    scanDigits 10 0 (decimalNat n ++ c :: s) = (n, c :: s) := by
  unfold decimalNat
  split_ifs with hn
  · subst hn
    have hzero : ∀ d ∈ [0], d < 10 := by simp
    exact scanDigits_map hzero hc
  · rw [scanDigits_map (fun d hd => Nat.digits_lt_base (by omega) (List.mem_reverse.mp hd)) hc,
      List.foldl_reverse]
    have hval := Nat.ofDigits_digits 10 n
    rw [Nat.ofDigits_eq_foldr] at hval
    refine congrArg (·, c :: s) (Eq.trans ?_ hval)
    congr 1
    funext d v
    rw [Nat.cast_id, Nat.add_comm, Nat.mul_comm]

theorem decimalNat_ne_nil (n : ℕ) : decimalNat n ≠ [] := by
  unfold decimalNat
  split_ifs with hn
  · simp
  · rw [ne_eq, List.map_eq_nil_iff, List.reverse_eq_nil_iff]
    exact Nat.digits_ne_nil_iff_ne_zero.mpr hn

theorem decimal_ne_nil (n : ℤ) : decimal n ≠ [] := by
  unfold decimal
  split_ifs
  · exact List.cons_ne_nil _ _
  · exact decimalNat_ne_nil _

theorem decimalNat_digit (n : ℕ) : ∀ c ∈ decimalNat n, 48 ≤ c ∧ c ≤ 57 := by
  intro c hc
  unfold decimalNat at hc
  split_ifs at hc
  · rw [List.mem_singleton] at hc
    subst hc
    decide
  · obtain ⟨d, hd, rfl⟩ := List.mem_map.mp hc
    have hlt : d < 10 := Nat.digits_lt_base (by omega) (List.mem_reverse.mp hd)
    interval_cases d <;> decide

theorem decimalNat_cons (n : ℕ) : ∃ c p, decimalNat n = c :: p ∧ 48 ≤ c ∧ c ≤ 57 := by
  obtain ⟨c, p, hp⟩ := List.exists_cons_of_ne_nil (decimalNat_ne_nil n)
  exact ⟨c, p, hp, decimalNat_digit n c (by rw [hp]; exact List.mem_cons_self)⟩

/-- A sign or a digit. -/
theorem decimal_byte (n : ℤ) : ∀ c ∈ decimal n, c = 45 ∨ 48 ≤ c ∧ c ≤ 57 := by
  intro c hc
  unfold decimal at hc
  split_ifs at hc
  · rcases List.mem_cons.mp hc with rfl | hc
    · exact .inl rfl
    · exact .inr (decimalNat_digit n.natAbs c hc)
  · exact .inr (decimalNat_digit n.natAbs c hc)

/-- Another byte than a sign or a digit. -/
theorem notMem_decimal {c : UInt8} (hsign : c ≠ 45) (hdigit : ¬ (48 ≤ c ∧ c ≤ 57)) (n : ℤ) :
    c ∉ decimal n := by
  intro hc
  rcases decimal_byte n c hc with h | h
  · exact hsign h
  · exact hdigit h

theorem decimalNat_inj {m n : ℕ} (h : decimalNat m = decimalNat n) : m = n := by
  have hscan := scanDigits_decimalNat m (c := 32) [] (by decide)
  rw [h, scanDigits_decimalNat n (c := 32) [] (by decide)] at hscan
  exact (congrArg Prod.fst hscan).symm

theorem takeSign_digit {c : UInt8} (h : 48 ≤ c) (p : List UInt8) :
    takeSign (c :: p) = (false, c :: p) := by
  have h45 : c ≠ 45 := by rintro rfl; exact absurd h (by decide)
  have h43 : c ≠ 43 := by rintro rfl; exact absurd h (by decide)
  rw [takeSign, if_neg h45, if_neg h43]

/-- A sign and a number that were printed are read back. -/
theorem takeSign_decimal (x : ℤ) (s : List UInt8) :
    takeSign (decimal x ++ s) = (decide (x < 0), decimalNat x.natAbs ++ s) := by
  unfold decimal
  split_ifs with hx
  · rw [decide_eq_true hx]
    rfl
  · rw [decide_eq_false hx]
    obtain ⟨c, p, hp, hc, -⟩ := decimalNat_cons x.natAbs
    rw [hp]
    exact takeSign_digit hc _

/-- **Different numbers** are printed differently. -/
theorem decimal_inj {x y : ℤ} (h : decimal x = decimal y) : x = y := by
  have hsign := takeSign_decimal x []
  rw [h, takeSign_decimal, List.append_nil, List.append_nil, Prod.mk.injEq] at hsign
  have hneg : y < 0 ↔ x < 0 := decide_eq_decide.mp hsign.1
  have habs : y.natAbs = x.natAbs := decimalNat_inj hsign.2
  omega

theorem dropWhile_isSpace_decimal (x : ℤ) (s : List UInt8) :
    (decimal x ++ s).dropWhile isSpace = decimal x ++ s := by
  obtain ⟨c, p, hp⟩ := List.exists_cons_of_ne_nil (decimal_ne_nil x)
  have hc : isSpace c = false := by
    rcases decimal_byte x c (by rw [hp]; exact List.mem_cons_self) with rfl | hdigit
    · decide
    · have h32 : c ≠ 32 := by rintro rfl; exact absurd hdigit.1 (by decide)
      have h13 : ¬ c ≤ 13 := fun h =>
        absurd (show (48 : UInt8) ≤ 13 from UInt8.le_trans hdigit.1 h) (by decide)
      simp [isSpace, h32, h13]
  rw [hp, List.cons_append, List.dropWhile_cons_of_neg (by simp [hc])]

theorem decimal_natCast (n : ℕ) : decimal n = decimalNat n := by
  unfold decimal
  rw [if_neg (by omega), Int.natAbs_natCast]

theorem scanDigits_cut {b : ℕ} (c : UInt8) (s : List UInt8) : ∀ {p : List UInt8} {v x : ℕ},
    scanDigits b v (p ++ c :: s) = (x, c :: s) → scanDigits b v p = (x, [])
  | [], v, x, h => by
    rw [List.nil_append, scanDigits] at h
    split_ifs at h with hc
    · have hlen := congrArg (fun r => r.2.length) h
      have hle := length_scanDigits_le b s (v * b + digitVal c)
      simp only [List.length_cons] at hlen
      omega
    · rw [scanDigits, (Prod.mk.inj h).1]
  | d :: p, v, x, h => by
    rw [List.cons_append, scanDigits] at h
    rw [scanDigits]
    split_ifs at h ⊢
    · exact scanDigits_cut c s h
    · have hlen := congrArg (fun r => r.2.length) h
      simp only [List.length_cons, List.length_append] at hlen
      omega

theorem decimalNat_head {n : ℕ} (hn : n ≠ 0) : (decimalNat n).head? ≠ some 48 := by
  unfold decimalNat
  rw [if_neg hn, List.head?_map, List.head?_reverse]
  have hne : Nat.digits 10 n ≠ [] := Nat.digits_ne_nil_iff_ne_zero.mpr hn
  rw [List.getLast?_eq_some_getLast hne, Option.map_some]
  have hlast := Nat.getLast_digit_ne_zero 10 hn
  have hlt : (Nat.digits 10 n).getLast hne < 10 :=
    Nat.digits_lt_base (by omega) (List.getLast_mem hne)
  generalize (Nat.digits 10 n).getLast hne = d at hlast hlt
  interval_cases d
  · exact absurd rfl hlast
  all_goals decide

/-- No prefix tells another base. -/
theorem takeBase_decimalNat (n : ℕ) : ∃ b, takeBase (decimalNat n) = (b, decimalNat n) ∧
    scanDigits b 0 (decimalNat n) = (n, []) := by
  by_cases hn : n = 0
  · subst hn
    exact ⟨8, rfl, rfl⟩
  · exact ⟨10, if_pos (decimalNat_head hn),
      scanDigits_cut 32 [] (scanDigits_decimalNat n [] (by decide))⟩

/-- **A number that was printed** is read back, in base 10 or with the base left open, as far as 64
bits go. -/
theorem strtoll_decimal {base : Option ℕ} (hbase : base = none ∨ base = some 10) (x : ℤ) :
    strtoll base (decimal x) = (saturate64 x, []) := by
  have hspace := dropWhile_isSpace_decimal x []
  have hsign := takeSign_decimal x []
  rw [List.append_nil] at hspace hsign
  rw [List.append_nil] at hsign
  obtain ⟨b, hb, hscan⟩ : ∃ b, base.elim (takeBase (decimalNat x.natAbs))
      (fun b => (b, decimalNat x.natAbs)) = (b, decimalNat x.natAbs) ∧
      scanDigits b 0 (decimalNat x.natAbs) = (x.natAbs, []) := by
    rcases hbase with rfl | rfl
    · exact takeBase_decimalNat x.natAbs
    · exact ⟨10, rfl, scanDigits_cut 32 [] (scanDigits_decimalNat x.natAbs [] (by decide))⟩
  have hlen : ¬ ([] : List UInt8).length = (decimalNat x.natAbs).length := by
    have hpos := List.length_pos_of_ne_nil (decimalNat_ne_nil x.natAbs)
    rw [List.length_nil]
    omega
  have habs : (if decide (x < 0) = true then -(x.natAbs : ℤ) else x.natAbs) = x := by
    split_ifs with hx
    · rw [decide_eq_true_iff] at hx
      omega
    · rw [decide_eq_true_iff] at hx
      omega
  unfold strtoll
  simp only [hspace, hsign, hb, hscan, if_neg hlen, habs]

end TelegramCli.Lib.CNumber
