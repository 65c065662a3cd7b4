import TelegramCli.Lib.CNumber
import TelegramCli.Lib.Pieces
import TelegramCli.Lib.Run
import TelegramCli.Telegrab.Escape
import TelegramCli.Tgl

/-! # `str_replace` and its memory

The function counts the occurrences, allocates memory for the result and then copies the pieces
between the occurrences. Both loops find the same ones, so the result fits exactly as long as its
size does not overflow an `int` (`str_replace_exact_iff`). With an empty pattern the counting loop
finds an occurrence at the place where it stands, over and over (`str_replace_returns_iff`).

The arithmetic of `int` wraps around. A string is read from an offset that may be outside of it. -/

namespace TelegramCli.Telegrab.StrReplace

open TelegramCli.Lib.CNumber TelegramCli.Lib.CString TelegramCli.Lib.Pieces TelegramCli.Tgl
open TelegramCli.Lib.Run TelegramCli.Telegrab.Escape

/-! ### Memory -/

/-- Why a call has not returned: an access outside of an object, or a loop that still goes on. -/
inductive Stuck
  | fault
  | running
  deriving DecidableEq

/-- `malloc`: memory of the size with anything in it, or none. An object has less than `2 ^ 63`
bytes. -/
structure Malloc where
  give : ℕ → Option (List UInt8)
  length_eq : ∀ n m, give n = some m → m.length = n
  bound : ∀ n m, give n = some m → n < 2 ^ 63

/-- The memory at `result`, and the end of what has been written of it. -/
structure Block where
  mem : List UInt8
  top : ℕ

/-- Some bytes at a place. -/
def Block.put (B : Block) (i : ℕ) (bytes : List UInt8) : Block :=
  ⟨B.mem.take i ++ bytes ++ B.mem.drop (i + bytes.length), max B.top (i + bytes.length)⟩

def Block.write (B : Block) (tmp : ℤ) (bytes : List UInt8) : Except Stuck Block :=
  if 0 ≤ tmp ∧ tmp + bytes.length ≤ B.mem.length then .ok (B.put tmp.toNat bytes)
  else .error .fault

/-- The conversion to `size_t`. -/
def sizeT (x : ℤ) : ℕ := (x % 2 ^ 64).toNat

def strcpy (B : Block) (tmp : ℤ) (src : List UInt8) : Except Stuck Block :=
  B.write tmp (src ++ [0])

/-- `strncpy`, which fills up with zeros. -/
def strncpy (B : Block) (tmp : ℤ) (src : List UInt8) (n : ℤ) : Except Stuck Block :=
  B.write tmp ((src ++ .replicate (sizeT n - src.length) 0).take (sizeT n))

/-- The string at an offset. -/
def pointed (s : List UInt8) (i : ℤ) : Except Stuck (List UInt8) :=
  if 0 ≤ i ∧ i ≤ s.length then .ok (s.drop i.toNat) else .error .fault

/-! ### The function -/

/-- The counting loop, at most `fuel` rounds; `ins` is an offset into `orig`. -/
def countLoop (orig rep : List UInt8) (lenRep : ℤ) : ℕ → ℤ → ℤ → Except Stuck ℤ
  | 0, _, _ => .error .running
  | fuel + 1, ins, count => do
    let s ← pointed orig ins
    match strstr rep s with
    | none => .ok count
    | some i => countLoop orig rep lenRep fuel (ins + i + lenRep) (toInt32 (count + 1))

/-- The copying loop and the `strcpy` behind it; `i` is the offset that `orig` has been moved by and
`tmp` one into the memory. -/
def copyLoop (orig rep new : List UInt8) (lenRep lenWith : ℤ) :
    ℕ → ℤ → ℤ → Block → Except Stuck Block
  | 0, i, tmp, B => do
    let s ← pointed orig i
    strcpy B tmp s
  | count + 1, i, tmp, B => do
    let s ← pointed orig i
    match strstr rep s with
    | none => .error .fault
    | some ins =>
      let lenFront := toInt32 ins
      let B ← strncpy B tmp s lenFront
      let B ← strcpy B (tmp + lenFront) new
      copyLoop orig rep new lenRep lenWith count (i + toInt32 (lenFront + lenRep))
        (tmp + lenFront + lenWith) B

/-- The argument of `malloc`. -/
def requested (orig rep new : List UInt8) (count : ℤ) : ℕ :=
  sizeT (orig.length +
    toInt32 (toInt32 (toInt32 new.length - toInt32 rep.length) * count) + 1)

/-- `str_replace`, with the memory that is returned; `none` is `NULL`. A negative `count` is counted
down to zero as well. -/
def strReplace (M : Malloc) (fuel : ℕ) (orig rep new : Str) : Except Stuck (Option Block) :=
  match orig with
  | none => .ok none
  | some orig => do
    let rep := rep.getD []
    let new := new.getD []
    let count ← countLoop orig rep (toInt32 rep.length) fuel 0 0
    match M.give (requested orig rep new count) with
    | none => .ok none
    | some mem => do
      let B ← copyLoop orig rep new (toInt32 rep.length) (toInt32 new.length)
        (count % 2 ^ 32).toNat 0 0 ⟨mem, 0⟩
      .ok (some B)

/-! ### Arithmetic and writes -/

theorem sizeT_of_nonneg {n : ℕ} (h : n < 2 ^ 64) : sizeT n = n := by
  unfold sizeT
  omega

theorem write_ofNat (B : Block) (i : ℕ) (bytes : List UInt8) : B.write i bytes =
    if i + bytes.length ≤ B.mem.length then .ok (B.put i bytes) else .error .fault := by
  have hfits : (0 ≤ (i : ℤ) ∧ (i : ℤ) + bytes.length ≤ B.mem.length) ↔
      i + bytes.length ≤ B.mem.length := by omega
  simp only [Block.write, hfits, Int.toNat_natCast]

theorem length_put {B : Block} {i : ℕ} {bytes : List UInt8}
    (h : i + bytes.length ≤ B.mem.length) : (B.put i bytes).mem.length = B.mem.length := by
  simp only [Block.put, List.length_append, List.length_take, List.length_drop]
  omega

/-- A write behind the first bytes of another one, up to its end or behind it. -/
theorem put_put {B : Block} {i j : ℕ} {bytes bytes' : List UInt8}
    (hfits : i + bytes.length ≤ B.mem.length) (hj : j ≤ bytes.length)
    (hend : bytes.length ≤ j + bytes'.length) :
    (B.put i bytes).put (i + j) bytes' = B.put i (bytes.take j ++ bytes') := by
  have htake : (B.mem.take i).length = i := by
    rw [List.length_take]
    omega
  have hcut : bytes.take j ++ bytes.drop j = bytes := List.take_append_drop j bytes
  unfold Block.put
  congr 1
  · have hfront : (B.mem.take i ++ bytes ++ B.mem.drop (i + bytes.length)).take (i + j) =
        B.mem.take i ++ bytes.take j := by
      rw [List.append_assoc, List.take_append, htake, Nat.add_sub_cancel_left,
        List.take_of_length_le (by omega), List.take_append_of_le_length hj]
    have hback : (B.mem.take i ++ bytes ++ B.mem.drop (i + bytes.length)).drop
        (i + j + bytes'.length) = B.mem.drop (i + (bytes.take j ++ bytes').length) := by
      rw [List.drop_append, List.drop_of_length_le (by rw [List.length_append]; omega),
        List.nil_append, List.drop_drop, List.length_append, htake, List.length_append,
        List.length_take]
      congr 1
      omega
    rw [hfront, hback, List.append_assoc (B.mem.take i)]
  · simp only [List.length_append, List.length_take]
    omega

theorem pointed_append (a s : List UInt8) : pointed (a ++ s) a.length = .ok s := by
  have hin : 0 ≤ (a.length : ℤ) ∧ (a.length : ℤ) ≤ (a ++ s).length := by
    rw [List.length_append]
    omega
  rw [pointed, if_pos hin, Int.toNat_natCast, List.drop_left]

/-! ### Occurrences -/

theorem strstr_eq (rep : List UInt8) : ∀ s : List UInt8,
    strstr rep s = (cut rep s).map fun p => p.1.length
  | [] => by
    rw [strstr, cut]
    by_cases hrep : rep = []
    · rw [if_pos hrep, hrep]
      rfl
    · rw [if_neg hrep, if_neg (by simp [hrep])]
      rfl
  | c :: s => by
    rw [strstr, cut, strstr_eq rep s]
    by_cases hrep : rep <+: c :: s
    · rw [if_pos hrep, if_pos (List.isPrefixOf_iff_prefix.mpr hrep)]
      rfl
    · rw [if_neg hrep, if_neg (mt List.isPrefixOf_iff_prefix.mp hrep), Option.map_map,
        Option.map_map]
      rfl

/-- A round of the counting loop that finds no occurrence. -/
theorem countLoop_last {rep s : List UInt8} (h : cut rep s = none) (front : List UInt8)
    (lenRep : ℤ) (fuel : ℕ) (count : ℤ) :
    countLoop (front ++ s) rep lenRep (fuel + 1) front.length count = .ok count := by
  have hfind : strstr rep s = none := by rw [strstr_eq, h, Option.map_none]
  simp only [countLoop, pointed_append, bind, Except.bind, hfind]

/-- A round that finds one. -/
theorem countLoop_front {rep s a b : List UInt8} (h : cut rep s = some (a, b))
    (front : List UInt8) (lenRep : ℤ) (fuel : ℕ) (count : ℤ) :
    countLoop (front ++ s) rep lenRep (fuel + 1) front.length count =
      countLoop (front ++ s) rep lenRep fuel (front.length + a.length + lenRep)
        (toInt32 (count + 1)) := by
  have hfind : strstr rep s = some a.length := by rw [strstr_eq, h, Option.map_some]
  simp only [countLoop, pointed_append, bind, Except.bind, hfind]

/-- **The counting loop** finds the occurrences of a pattern, if it has time. -/
theorem countLoop_pieces {rep : List UInt8} (hrep : rep ≠ []) (s : List UInt8) :
    ∀ (front : List UInt8) (count fuel : ℕ), count + (pieces rep s).1.length < 2 ^ 31 →
      countLoop (front ++ s) rep rep.length fuel front.length count =
        if (pieces rep s).1.length < fuel then .ok (count + (pieces rep s).1.length : ℕ)
        else .error .running := by
  induction s using pieces_induction hrep with
  | last s h =>
    intro front count fuel _
    rw [pieces_of_none h]
    cases fuel with
    | zero => rfl
    | succ fuel =>
      rw [countLoop_last h]
      exact (if_pos (Nat.succ_pos fuel)).symm
  | front s a b h ih =>
    intro front count fuel hfits
    rw [pieces_of_some hrep h] at hfits ⊢
    rw [List.length_cons] at hfits ⊢
    cases fuel with
    | zero => rfl
    | succ fuel =>
      have horig : front ++ s = front ++ a ++ rep ++ b := by
        rw [cut_append h, List.append_assoc, List.append_assoc]
      have hplace : (front.length : ℤ) + a.length + rep.length = (front ++ a ++ rep).length := by
        rw [List.length_append, List.length_append]
        omega
      have hcount : toInt32 ((count : ℤ) + 1) = (count + 1 : ℕ) :=
        toInt32_of_lt (by omega) (by omega)
      rw [countLoop_front h, hplace, hcount, horig, ih _ _ _ (by omega)]
      simp only [Nat.add_lt_add_iff_right, Nat.add_right_comm count 1, Nat.add_assoc]

/-! ### The copy -/

theorem strncpy_front (B : Block) (tmp : ℕ) (a s : List UInt8) (h : a.length < 2 ^ 31) :
    strncpy B tmp (a ++ s) a.length = B.write tmp a := by
  rw [strncpy, sizeT_of_nonneg (by omega), List.append_assoc, List.take_left]

/-- The `strcpy` behind the loop. -/
theorem copyLoop_zero (front s rep new : List UInt8) (lenRep lenWith : ℤ) (tmp : ℕ) (B : Block) :
    copyLoop (front ++ s) rep new lenRep lenWith 0 front.length tmp B =
      if tmp + s.length < B.mem.length then .ok (B.put tmp (s ++ [0])) else .error .fault := by
  simp only [copyLoop, pointed_append, bind, Except.bind, strcpy, write_ofNat, List.length_append,
    List.length_singleton, ← Nat.add_assoc, Nat.succ_le_iff]

/-- The two copies of a round are one write. -/
theorem write_strcpy (B : Block) (tmp : ℕ) (a new : List UInt8) :
    ((B.write tmp a).bind fun B => strcpy B (tmp + a.length : ℕ) new) =
      if tmp + (a.length + new.length) < B.mem.length then .ok (B.put tmp (a ++ (new ++ [0])))
      else .error .fault := by
  rw [write_ofNat]
  by_cases hfront : tmp + a.length ≤ B.mem.length
  · have hput : (B.put tmp a).put (tmp + a.length) (new ++ [0]) =
        B.put tmp (a ++ (new ++ [0])) := by
      rw [put_put hfront le_rfl (Nat.le_add_right _ _), List.take_length]
    have hroom : tmp + a.length + (new.length + 1) ≤ B.mem.length ↔
        tmp + (a.length + new.length) < B.mem.length := by omega
    rw [if_pos hfront]
    change strcpy (B.put tmp a) (tmp + a.length : ℕ) new = _
    simp only [strcpy, write_ofNat, length_put hfront, List.length_append, List.length_singleton,
      hput, hroom]
  · rw [if_neg hfront, if_neg (by omega)]
    rfl

/-- A round of the copying loop. -/
theorem copyLoop_front {rep s a b : List UInt8} (h : cut rep s = some (a, b))
    (ha : a.length < 2 ^ 31) (front new : List UInt8) (lenRep lenWith : ℤ) (count tmp : ℕ)
    (B : Block) : copyLoop (front ++ s) rep new lenRep lenWith (count + 1) front.length tmp B =
      if tmp + (a.length + new.length) < B.mem.length then
        copyLoop (front ++ s) rep new lenRep lenWith count
          (front.length + toInt32 (a.length + lenRep)) (tmp + a.length + lenWith)
          (B.put tmp (a ++ (new ++ [0])))
      else .error .fault := by
  have hfind : strstr rep s = some a.length := by rw [strstr_eq, h, Option.map_some]
  have hint : toInt32 a.length = a.length := toInt32_of_lt (by omega) (by omega)
  have hcopy : strncpy B tmp s a.length = B.write tmp a := by
    rw [cut_append h, strncpy_front B tmp a _ ha]
  have hround : copyLoop (front ++ s) rep new lenRep lenWith (count + 1) front.length tmp B =
      ((B.write tmp a).bind fun B => strcpy B (tmp + a.length : ℕ) new).bind fun B =>
        copyLoop (front ++ s) rep new lenRep lenWith count
          (front.length + toInt32 (a.length + lenRep)) (tmp + a.length + lenWith) B := by
    simp only [copyLoop, pointed_append, bind, Except.bind, hfind, hint, hcopy, Nat.cast_add]
    cases B.write tmp a with
    | error e => rfl
    | ok B => rfl
  rw [hround, write_strcpy]
  split_ifs
  · rfl
  · rfl

/-- **The copying loop** puts the pieces with the new text between them into the memory, if there is
room. -/
theorem copyLoop_pieces {rep new : List UInt8} (hrep : rep ≠ []) (s : List UInt8) :
    ∀ (front : List UInt8) (tmp : ℕ) (B : Block),
      (∀ a ∈ (pieces rep s).1, a.length + rep.length < 2 ^ 31) → tmp ≤ B.mem.length →
      copyLoop (front ++ s) rep new rep.length new.length (pieces rep s).1.length front.length tmp
          B =
        if tmp + (joined new (pieces rep s)).length < B.mem.length then
          .ok (B.put tmp (joined new (pieces rep s) ++ [0]))
        else .error .fault := by
  induction s using pieces_induction hrep with
  | last s h =>
    intro front tmp B _ _
    have hjoined : joined new (pieces rep s) = s := by
      rw [pieces_of_none h]
      rfl
    rw [hjoined, pieces_of_none h]
    exact copyLoop_zero front s rep new _ _ tmp B
  | front s a b h ih =>
    intro front tmp B hlen htmp
    rw [pieces_of_some hrep h, List.forall_mem_cons] at hlen
    obtain ⟨hfirst, hlen⟩ := hlen
    have horig : front ++ s = front ++ a ++ rep ++ b := by
      rw [cut_append h, List.append_assoc, List.append_assoc]
    have hplace : (front.length : ℤ) + toInt32 (a.length + rep.length) =
        (front ++ a ++ rep).length := by
      rw [toInt32_of_lt (by omega) (by omega), List.length_append, List.length_append]
      omega
    have hnext : (tmp : ℤ) + a.length + new.length = (tmp + (a.length + new.length) : ℕ) := by
      omega
    have hjoined : joined new (pieces rep s) = a ++ (new ++ joined new (pieces rep b)) := by
      rw [pieces_of_some hrep h]
      simp only [joined, List.flatMap_cons, List.append_assoc]
    have hcount : (pieces rep s).1.length = (pieces rep b).1.length + 1 := by
      rw [pieces_of_some hrep h]
      rfl
    have hlength : (a ++ (new ++ joined new (pieces rep b))).length =
        a.length + new.length + (joined new (pieces rep b)).length := by
      rw [List.length_append, List.length_append, Nat.add_assoc]
    rw [hjoined, hlength, hcount, copyLoop_front h (by omega), hplace, hnext, horig]
    by_cases hroom : tmp + (a.length + new.length) < B.mem.length
    · have hfits : tmp + (a ++ (new ++ [0])).length ≤ B.mem.length := by
        simp only [List.length_append, List.length_singleton]
        omega
      have hbelow : a.length + new.length ≤ (a ++ (new ++ [0])).length := by
        simp only [List.length_append]
        omega
      have htake : (a ++ (new ++ [0])).take (a.length + new.length) = a ++ new := by
        rw [← List.append_assoc, List.take_append_of_le_length, List.take_of_length_le]
        · rw [List.length_append]
        · rw [List.length_append]
      rw [if_pos hroom, ih _ _ _ hlen (by rw [length_put hfits]; omega), length_put hfits,
        Nat.add_assoc tmp,
        put_put hfits hbelow (by simp only [List.length_append, List.length_singleton]; omega),
        htake]
      simp only [List.append_assoc]
    · rw [if_neg hroom, if_neg (by omega)]

/-! ### The request -/

/-- How much longer the result is than the text. -/
def growth (orig rep new : List UInt8) : ℤ :=
  ((new.length : ℤ) - rep.length) * (pieces rep orig).1.length

theorem length_joined_eq {rep : List UInt8} (hrep : rep ≠ []) (orig new : List UInt8) :
    ((joined new (pieces rep orig)).length : ℤ) = orig.length + growth orig rep new := by
  have hlen := length_joined new hrep orig
  rw [growth, Int.sub_mul]
  omega

theorem growth_lower {rep : List UInt8} (hrep : rep ≠ []) (orig new : List UInt8) :
    -(orig.length : ℤ) ≤ growth orig rep new := by
  have hlen := length_joined_eq hrep orig new
  omega

/-- The count of the occurrences fits into an `int`, and the length of what is counted. -/
structure Counted (orig rep : List UInt8) : Prop where
  fits : (pieces rep orig).1.length < 2 ^ 31
  pattern : (pieces rep orig).1 ≠ [] → rep.length < 2 ^ 31

/-- The steps from one occurrence behind the next one fit into an `int`. -/
def Steps (orig rep : List UInt8) : Prop :=
  ∀ a ∈ (pieces rep orig).1, a.length + rep.length < 2 ^ 31

theorem length_step_le {rep : List UInt8} (hrep : rep ≠ []) (s : List UInt8) :
    ∀ a ∈ (pieces rep s).1, a.length + rep.length ≤ s.length := by
  induction s using pieces_induction hrep with
  | last s h =>
    rw [pieces_of_none h]
    exact fun a ha => absurd ha List.not_mem_nil
  | front s a b h ih =>
    have hlen := congrArg List.length (cut_append h)
    simp only [List.length_append] at hlen
    rw [pieces_of_some hrep h, List.forall_mem_cons]
    refine ⟨by omega, fun c hc => ?_⟩
    have hle := ih c hc
    omega

theorem steps_of_length {orig rep : List UInt8} (hrep : rep ≠ []) (h : orig.length < 2 ^ 31) :
    Steps orig rep := fun a ha => lt_of_le_of_lt (length_step_le hrep orig a ha) h

theorem Counted.of_length {orig rep : List UInt8} (hrep : rep ≠ []) (h : orig.length < 2 ^ 31) :
    Counted orig rep where
  fits := by
    have hle := length_pieces_le hrep orig
    have hpos := Nat.le_mul_of_pos_left (pieces rep orig).1.length (List.length_pos_iff.mpr hrep)
    omega
  pattern hne := by
    obtain ⟨a, ha⟩ := List.exists_mem_of_ne_nil _ hne
    have hle := length_step_le hrep orig a ha
    omega

theorem Counted.of_nil {orig rep : List UInt8} (h : (pieces rep orig).1 = []) :
    Counted orig rep := ⟨by rw [h]; decide, fun hne => absurd h hne⟩

theorem requested_eq (orig : List UInt8) {rep new : List UInt8} (hlenRep : rep.length < 2 ^ 31)
    (hnew : new.length < 2 ^ 31) : requested orig rep new (pieces rep orig).1.length =
      sizeT (orig.length + toInt32 (growth orig rep new) + 1) := by
  have hw : toInt32 new.length = new.length := toInt32_of_lt (by omega) (by omega)
  have hr : toInt32 rep.length = rep.length := toInt32_of_lt (by omega) (by omega)
  have hdiff : toInt32 ((new.length : ℤ) - rep.length) = new.length - rep.length :=
    toInt32_of_lt (by omega) (by omega)
  rw [requested, hw, hr, hdiff]
  rfl

/-- **The request** is what the result and its terminator need, if the growth fits into an `int`. -/
theorem requested_of_fits {orig rep new : List UInt8} (hrep : rep ≠ [])
    (horig : orig.length < 2 ^ 31) (hlenRep : rep.length < 2 ^ 31) (hnew : new.length < 2 ^ 31)
    (h : growth orig rep new < 2 ^ 31) :
    requested orig rep new (pieces rep orig).1.length =
      (joined new (pieces rep orig)).length + 1 := by
  have hlower := growth_lower hrep orig new
  have hlen := length_joined_eq hrep orig new
  rw [requested_eq orig hlenRep hnew, toInt32_of_lt (by omega) h, ← hlen]
  exact sizeT_of_nonneg (n := (joined new (pieces rep orig)).length + 1) (by omega)

/-- Otherwise less is requested, or more than there is. -/
theorem requested_of_ge {orig rep new : List UInt8} (hrep : rep ≠ [])
    (horig : orig.length < 2 ^ 31) (hlenRep : rep.length < 2 ^ 31) (hnew : new.length < 2 ^ 31)
    (h : 2 ^ 31 ≤ growth orig rep new) :
    requested orig rep new (pieces rep orig).1.length ≤ (joined new (pieces rep orig)).length ∨
      2 ^ 63 ≤ requested orig rep new (pieces rep orig).1.length := by
  have hlen := length_joined_eq hrep orig new
  have hwrap := toInt32_of_ge h
  have hbound := (toInt32_bounds (growth orig rep new)).1
  rw [requested_eq orig hlenRep hnew]
  unfold sizeT
  omega

/-- In no case is it `2 ^ 32` bytes that there are. -/
theorem requested_bounds {orig : List UInt8} (horig : orig.length < 2 ^ 31) (rep new : List UInt8)
    (count : ℤ) : requested orig rep new count < 2 ^ 32 ∨ 2 ^ 63 ≤ requested orig rep new count := by
  obtain ⟨hlower, hupper⟩ :=
    toInt32_bounds (toInt32 (toInt32 new.length - toInt32 rep.length) * count)
  unfold requested sizeT
  omega

/-! ### The result -/

theorem countLoop_start {orig rep : List UInt8} (hrep : rep ≠ []) (h : Counted orig rep)
    (fuel : ℕ) : countLoop orig rep (toInt32 rep.length) fuel 0 0 =
      if (pieces rep orig).1.length < fuel then .ok ((pieces rep orig).1.length : ℤ)
      else .error .running := by
  by_cases hnone : (pieces rep orig).1 = []
  · have hcut := (pieces_eq_nil hrep orig).mp hnone
    rw [hnone]
    cases fuel with
    | zero => rfl
    | succ fuel => exact countLoop_last hcut [] (toInt32 rep.length) fuel 0
  · have hfits := h.fits
    have hloop := countLoop_pieces hrep orig [] 0 fuel (by omega)
    have hlenRep := h.pattern hnone
    rw [Nat.zero_add] at hloop
    rw [toInt32_of_lt (by omega) (by omega)]
    exact hloop

/-- **A call** counts the occurrences, and copies the pieces if there is memory. -/
theorem strReplace_eq (M : Malloc) (fuel : ℕ) {orig : List UInt8} {rep new : Str}
    (hrep : rep.getD [] ≠ []) (h : Counted orig (rep.getD [])) :
    strReplace M fuel (some orig) rep new =
      if (pieces (rep.getD []) orig).1.length < fuel then
        match M.give (requested orig (rep.getD []) (new.getD [])
          (pieces (rep.getD []) orig).1.length) with
        | none => .ok none
        | some mem =>
          (copyLoop orig (rep.getD []) (new.getD []) (toInt32 (rep.getD []).length)
            (toInt32 (new.getD []).length) (pieces (rep.getD []) orig).1.length 0 0
            ⟨mem, 0⟩).map some
      else .error .running := by
  have hfits := h.fits
  have hrounds : (((pieces (rep.getD []) orig).1.length : ℤ) % 2 ^ 32).toNat =
      (pieces (rep.getD []) orig).1.length := by omega
  unfold strReplace
  simp only [countLoop_start hrep h]
  split_ifs
  · simp only [bind, Except.bind, hrounds]
    cases M.give _ with
    | none => rfl
    | some mem => rfl
  · rfl

/-- The copy of a text without occurrences, or with a new text whose length fits into an `int`. -/
theorem copy_start {orig rep new : List UInt8} (hrep : rep ≠ []) (hcounted : Counted orig rep)
    (hsteps : Steps orig rep) (h : (pieces rep orig).1 = [] ∨ new.length < 2 ^ 31)
    (mem : List UInt8) :
    copyLoop orig rep new (toInt32 rep.length) (toInt32 new.length) (pieces rep orig).1.length 0 0
        ⟨mem, 0⟩ =
      if (joined new (pieces rep orig)).length < mem.length then
        .ok (Block.put ⟨mem, 0⟩ 0 (joined new (pieces rep orig) ++ [0]))
      else .error .fault := by
  by_cases hnone : (pieces rep orig).1 = []
  · have hpieces := pieces_of_none ((pieces_eq_nil hrep orig).mp hnone)
    have hloop := copyLoop_zero [] orig rep new (toInt32 rep.length) (toInt32 new.length) 0 ⟨mem, 0⟩
    rw [Nat.zero_add] at hloop
    rw [hpieces]
    exact hloop
  · have hlenRep := hcounted.pattern hnone
    have hloop := @copyLoop_pieces rep new hrep orig [] 0 ⟨mem, 0⟩ hsteps (Nat.zero_le _)
    have hr : toInt32 rep.length = rep.length := toInt32_of_lt (by omega) (by omega)
    have hw : toInt32 new.length = new.length :=
      toInt32_of_lt (by omega) (by have := h.resolve_left hnone; omega)
    rw [Nat.zero_add] at hloop
    rw [hr, hw]
    exact hloop

/-- Memory of the right size is filled. -/
theorem put_all {mem bytes : List UInt8} (h : bytes.length = mem.length) :
    Block.put ⟨mem, 0⟩ 0 bytes = ⟨bytes, bytes.length⟩ := by
  unfold Block.put
  simp only [List.take_zero, List.nil_append, Nat.zero_add, Nat.zero_max, h, List.drop_length,
    List.append_nil]

/-- **A memory is returned** if it has room for the result. -/
theorem returned_iff (M : Malloc) {orig : List UInt8} {rep new : Str} (hrep : rep.getD [] ≠ [])
    (hcounted : Counted orig (rep.getD [])) (hsteps : Steps orig (rep.getD []))
    (h : (pieces (rep.getD []) orig).1 = [] ∨ (new.getD []).length < 2 ^ 31) (B : Block) :
    (∃ fuel, strReplace M fuel (some orig) rep new = .ok (some B)) ↔
      ∃ mem, M.give (requested orig (rep.getD []) (new.getD [])
          (pieces (rep.getD []) orig).1.length) = some mem ∧
        (joined (new.getD []) (pieces (rep.getD []) orig)).length < mem.length ∧
        B = Block.put ⟨mem, 0⟩ 0 (joined (new.getD []) (pieces (rep.getD []) orig) ++ [0]) := by
  constructor
  · rintro ⟨fuel, hrun⟩
    rw [strReplace_eq M fuel hrep hcounted] at hrun
    split_ifs at hrun
    cases hgive : M.give (requested orig (rep.getD []) (new.getD [])
        (pieces (rep.getD []) orig).1.length) with
    | none =>
      rw [hgive] at hrun
      cases hrun
    | some mem =>
      simp only [hgive, copy_start hrep hcounted hsteps h] at hrun
      split_ifs at hrun with hroom
      · cases hrun
        exact ⟨mem, rfl, hroom, rfl⟩
      · cases hrun
  · rintro ⟨mem, hgive, hroom, rfl⟩
    refine ⟨(pieces (rep.getD []) orig).1.length + 1, ?_⟩
    rw [strReplace_eq M _ hrep hcounted, if_pos (Nat.lt_succ_self _), hgive]
    simp only [copy_start hrep hcounted hsteps h, if_pos hroom]
    rfl

/-- The call returns the text with every occurrence replaced, and has written what was allocated. -/
def Exact (M : Malloc) (orig rep : List UInt8) (new : Str) : Prop :=
  ∃ B, (∃ fuel, strReplace M fuel (some orig) (some rep) new = .ok (some B)) ∧
    B.mem = joined (new.getD []) (pieces rep orig) ++ [0] ∧ B.top = B.mem.length

theorem Exact.growth_lt {M : Malloc} {orig rep : List UInt8} {new : Str} (h : Exact M orig rep new)
    (hrep : rep ≠ []) (hlen : orig.length + rep.length + (new.getD []).length < 2 ^ 31) :
    growth orig rep (new.getD []) < 2 ^ 31 ∧
      (M.give ((joined (new.getD []) (pieces rep orig)).length + 1)).isSome := by
  have horig : orig.length < 2 ^ 31 := by omega
  have hnew : (new.getD []).length < 2 ^ 31 := by omega
  obtain ⟨B, hrun, hmem, -⟩ := h
  obtain ⟨mem, hgive, hroom, rfl⟩ :=
    (@returned_iff M orig (some rep) new hrep (.of_length hrep horig) (steps_of_length hrep horig)
      (.inr hnew) B).mp hrun
  rw [Option.getD_some] at hgive hroom hmem
  have hsize := congrArg List.length hmem
  rw [length_put (by simpa using hroom), M.length_eq _ _ hgive, List.length_append,
    List.length_singleton] at hsize
  rw [hsize] at hgive
  refine ⟨not_le.mp fun hge => ?_, by rw [hgive]; rfl⟩
  have hbound := M.bound _ _ hgive
  rcases requested_of_ge hrep horig (by omega) hnew hge with hless | hmore
  · omega
  · omega

theorem exact_of_growth {M : Malloc} {orig rep : List UInt8} {new : Str} (hrep : rep ≠ [])
    (hlen : orig.length + rep.length + (new.getD []).length < 2 ^ 31)
    (hgrowth : growth orig rep (new.getD []) < 2 ^ 31)
    (hgive : (M.give ((joined (new.getD []) (pieces rep orig)).length + 1)).isSome) :
    Exact M orig rep new := by
  have horig : orig.length < 2 ^ 31 := by omega
  have hnew : (new.getD []).length < 2 ^ 31 := by omega
  obtain ⟨mem, hmem⟩ := Option.isSome_iff_exists.mp hgive
  have hsize := M.length_eq _ _ hmem
  have hall : (joined (new.getD []) (pieces rep orig) ++ [0]).length = mem.length := by
    rw [List.length_append, List.length_singleton, hsize]
  refine ⟨⟨joined (new.getD []) (pieces rep orig) ++ [0],
    (joined (new.getD []) (pieces rep orig) ++ [0]).length⟩,
    (@returned_iff M orig (some rep) new hrep (.of_length hrep horig) (steps_of_length hrep horig)
      (.inr hnew) _).mpr ⟨mem, ?_, ?_, ?_⟩, rfl, rfl⟩
  · rw [Option.getD_some, requested_of_fits hrep horig (by omega) hnew hgrowth, hmem]
  · rw [Option.getD_some]
    omega
  · rw [Option.getD_some, put_all hall]

/-! ### Newlines in the archive -/

theorem countRep_pieces {rep : List UInt8} (hrep : rep ≠ []) (s : List UInt8) :
    ∀ fuel, s.length ≤ fuel → countRep rep fuel s = (pieces rep s).1.length := by
  induction s using pieces_induction hrep with
  | last s h =>
    intro fuel _
    rw [pieces_of_none h]
    cases fuel with
    | zero => rfl
    | succ fuel =>
      have hfind : strstr rep s = none := by rw [strstr_eq, h, Option.map_none]
      simp only [countRep, hfind, List.length_nil]
  | front s a b h ih =>
    intro fuel hfuel
    have hlt := cut_shorter hrep h
    cases fuel with
    | zero => omega
    | succ fuel =>
      have hfind : strstr rep s = some a.length := by rw [strstr_eq, h, Option.map_some]
      have hdrop : s.drop (a.length + rep.length) = b := by
        rw [cut_append h, ← List.drop_drop, List.drop_left, List.drop_left]
      simp only [countRep, hfind, hdrop]
      rw [ih fuel (by omega), pieces_of_some hrep h, List.length_cons]

theorem replaceLoop_pieces {rep : List UInt8} (hrep : rep ≠ []) (new s : List UInt8) :
    replaceLoop rep new (pieces rep s).1.length s = joined new (pieces rep s) := by
  induction s using pieces_induction hrep with
  | last s h =>
    rw [pieces_of_none h]
    rfl
  | front s a b h ih =>
    have hfind : strstr rep s = some a.length := by rw [strstr_eq, h, Option.map_some]
    have htake : s.take a.length = a := by rw [cut_append h, List.take_left]
    have hdrop : s.drop (a.length + rep.length) = b := by
      rw [cut_append h, ← List.drop_drop, List.drop_left, List.drop_left]
    rw [pieces_of_some hrep h, List.length_cons]
    simp only [replaceLoop, hfind, Option.getD_some, htake, hdrop, ih]
    simp only [joined, List.flatMap_cons, List.append_assoc]

/-- The text that the archive prints is the one with every occurrence replaced. -/
theorem escape_strReplace {rep : List UInt8} (hrep : rep ≠ []) (orig new : List UInt8) :
    Escape.strReplace orig rep new = joined new (pieces rep orig) := by
  rw [Escape.strReplace, countRep_pieces hrep orig _ le_rfl, replaceLoop_pieces hrep]

/-- **`nl2br`** of a text below `2 ^ 29` bytes is in the memory, if there is any. -/
theorem nl2br_returned {M : Malloc} {src : List UInt8} (h : src.length < 2 ^ 29)
    (hgive : (M.give ((nl2br src).length + 1)).isSome) :
    ∃ B, (∃ fuel, strReplace M fuel (some src) (some [nl]) (some (lit "<br/>")) = .ok (some B)) ∧
      B.mem = nl2br src ++ [0] ∧ B.top = B.mem.length := by
  have hne : [nl] ≠ [] := List.cons_ne_nil nl []
  have hbr : (lit "<br/>").length = 5 := by decide
  have heq : nl2br src = joined (lit "<br/>") (pieces [nl] src) := escape_strReplace hne src _
  have hcount := length_pieces_le hne src
  have hgrowth : growth src [nl] (lit "<br/>") < 2 ^ 31 := by
    rw [growth, hbr, List.length_singleton]
    rw [List.length_singleton] at hcount
    omega
  rw [heq] at hgive ⊢
  exact exact_of_growth hne (by rw [Option.getD_some, hbr, List.length_singleton]; omega) hgrowth
    hgive

/-- **The result is right and as long as the memory** exactly if it grows by less than `2 ^ 31`
bytes, and there is memory for it. -/
theorem str_replace_exact_iff (M : Malloc) {orig rep : List UInt8} (new : Str) (hrep : rep ≠ [])
    (hlen : orig.length + rep.length + (new.getD []).length < 2 ^ 31) :
    Exact M orig rep new ↔ growth orig rep (new.getD []) < 2 ^ 31 ∧
      (M.give ((joined (new.getD []) (pieces rep orig)).length + 1)).isSome :=
  ⟨fun h => h.growth_lt hrep hlen, fun h => exact_of_growth hrep hlen h.1 h.2⟩

/-- Memory for everything. -/
def plenty : Malloc where
  give n := if n < 2 ^ 63 then some (.replicate n 0) else none
  length_eq n m h := by
    split_ifs at h
    cases h
    exact List.length_replicate
  bound n m h := by
    split_ifs at h with hn
    exact hn

/-- Newlines in `a`, newline, `b`. -/
theorem str_replace_exact_iff_newline : Exact plenty (lit "a\nb") [nl] (some (lit "<br/>")) ↔
    growth (lit "a\nb") [nl] (lit "<br/>") < 2 ^ 31 ∧
      (plenty.give ((joined (lit "<br/>") (pieces [nl] (lit "a\nb"))).length + 1)).isSome :=
  str_replace_exact_iff plenty (some (lit "<br/>")) (by decide) (by decide)

theorem cut_replicate (c : UInt8) (n : ℕ) :
    cut [c] (.replicate (n + 1) c) = some ([], .replicate n c) := by
  rw [List.replicate_succ, cut, if_pos ((List.prefix_cons_inj c).mpr List.nil_prefix)]
  rfl

theorem pieces_replicate (c : UInt8) : ∀ n : ℕ, pieces [c] (.replicate n c) = (.replicate n [], [])
  | 0 => pieces_of_none rfl
  | n + 1 => by
    rw [pieces_of_some (List.cons_ne_nil c []) (cut_replicate c n), pieces_replicate c n,
      List.replicate_succ]

/-- Every one of `2 ^ 16` bytes replaced by as many: too little memory is allocated. -/
theorem large_result_overruns : ¬ ∀ (M : Malloc) (orig rep : List UInt8) (new : Str), rep ≠ [] →
    orig.length + rep.length + (new.getD []).length < 2 ^ 31 →
    (M.give ((joined (new.getD []) (pieces rep orig)).length + 1)).isSome →
    Exact M orig rep new := by
  intro h
  have hlen : (List.replicate (2 ^ 16) (97 : UInt8)).length + [(97 : UInt8)].length +
      ((some (.replicate (2 ^ 16) (98 : UInt8)) : Str).getD []).length < 2 ^ 31 := by
    rw [Option.getD_some, List.length_replicate, List.length_replicate]
    decide
  have hgrowth :
      growth (.replicate (2 ^ 16) 97) [97] (.replicate (2 ^ 16) 98) = 2 ^ 32 - 2 ^ 16 := by
    rw [growth, pieces_replicate, List.length_replicate, List.length_replicate]
    decide
  have hsize := length_joined_eq (List.cons_ne_nil (97 : UInt8) []) (.replicate (2 ^ 16) 97)
    (.replicate (2 ^ 16) 98)
  rw [hgrowth, List.length_replicate] at hsize
  have hexact := h plenty _ _ _ (List.cons_ne_nil (97 : UInt8) []) hlen (by
    rw [Option.getD_some]
    exact Option.isSome_iff_exists.mpr ⟨_, if_pos (by omega)⟩)
  have hlt := (hexact.growth_lt (List.cons_ne_nil _ _) hlen).1
  rw [Option.getD_some, hgrowth] at hlt
  exact absurd hlt (by decide)

/-! ### Calls that do not return -/

theorem pointed_negative {i : ℤ} (h : i < 0) (s : List UInt8) : pointed s i = .error .fault :=
  if_neg fun hin => absurd hin.1 (not_le.mpr h)

theorem write_negative {tmp : ℤ} (h : tmp < 0) (B : Block) (bytes : List UInt8) :
    B.write tmp bytes = .error .fault := if_neg fun hin => absurd hin.1 (not_le.mpr h)

/-- **The counting loop goes on** from every place up to the first occurrence, if it does not move
on from there. -/
theorem countLoop_stays {orig rep a b : List UInt8} (h : cut rep orig = some (a, b)) {lenRep : ℤ}
    (hlen : lenRep ≤ 0) : ∀ (fuel : ℕ) (i : ℤ), i ≤ a.length → ∀ count c,
      countLoop orig rep lenRep fuel i count ≠ .ok c
  | 0, i, _, count, c => by
    rw [countLoop]
    rintro ⟨⟩
  | fuel + 1, i, hi, count, c => by
    by_cases hneg : i < 0
    · rw [countLoop, pointed_negative hneg]
      rintro ⟨⟩
    · obtain ⟨n, rfl⟩ := Int.eq_ofNat_of_zero_le (not_lt.mp hneg)
      have hn : n ≤ a.length := by omega
      have horig := congrArg List.length (cut_append h)
      rw [List.length_append] at horig
      have htake : (orig.take n).length = n := by
        rw [List.length_take]
        omega
      have hround := countLoop_front (cut_drop h hn) (orig.take n) lenRep fuel count
      rw [List.take_append_drop, htake] at hround
      rw [hround]
      refine countLoop_stays h hlen fuel _ ?_ _ c
      rw [List.length_drop]
      omega

/-- If it moves on, it comes to an end. -/
theorem countLoop_ends (rep : List UInt8) {lenRep : ℤ} (hpos : 0 < lenRep)
    (hle : lenRep ≤ rep.length) (front s : List UInt8) (count : ℤ) :
    ∃ fuel c, countLoop (front ++ s) rep lenRep fuel front.length count = .ok c := by
  cases h : cut rep s with
  | none => exact ⟨1, count, countLoop_last h front lenRep 0 count⟩
  | some p =>
    obtain ⟨n, rfl⟩ := Int.eq_ofNat_of_zero_le hpos.le
    have hs := cut_append h
    have htake : (rep.take n).length = n := by
      rw [List.length_take]
      omega
    have horig : front ++ s = front ++ p.1 ++ rep.take n ++ (rep.drop n ++ p.2) := by
      rw [hs, List.append_assoc _ (rep.take n), ← List.append_assoc (rep.take n),
        List.take_append_drop, List.append_assoc]
    have hplace : (front.length : ℤ) + p.1.length + n = (front ++ p.1 ++ rep.take n).length := by
      rw [List.length_append, List.length_append, htake]
      omega
    obtain ⟨fuel, c, hrun⟩ := countLoop_ends rep hpos hle (front ++ p.1 ++ rep.take n)
      (rep.drop n ++ p.2) (toInt32 (count + 1))
    refine ⟨fuel + 1, c, ?_⟩
    rw [countLoop_front h, hplace, horig, hrun]
termination_by s.length
decreasing_by
  rw [hs]
  simp only [List.length_append, List.length_drop]
  omega

/-- The counting loop comes to an end. -/
def CountingEnds (orig rep : List UInt8) : Prop :=
  ∃ fuel count, countLoop orig rep (toInt32 rep.length) fuel 0 0 = .ok count

theorem countingEnds_iff (orig rep : List UInt8) :
    CountingEnds orig rep ↔ ¬ rep <:+: orig ∨ 0 < toInt32 rep.length := by
  rw [← cut_eq_none]
  constructor
  · rintro ⟨fuel, count, hrun⟩
    by_contra hnot
    rw [not_or, not_lt] at hnot
    obtain ⟨p, hp⟩ := Option.ne_none_iff_exists'.mp hnot.1
    exact countLoop_stays hp hnot.2 fuel 0 (Int.natCast_nonneg _) 0 count hrun
  · rintro (hnone | hpos)
    · exact ⟨1, 0, countLoop_last hnone [] (toInt32 rep.length) 0 0⟩
    · exact countLoop_ends rep hpos (toInt32_le (Int.natCast_nonneg _)) [] orig 0

/-- A copy in front of the memory is a fault. -/
theorem copyLoop_negative {tmp : ℤ} (h : tmp < 0) (orig rep new : List UInt8) (lenRep lenWith : ℤ)
    (count : ℕ) (i : ℤ) (B B' : Block) :
    copyLoop orig rep new lenRep lenWith count i tmp B ≠ .ok B' := by
  intro hrun
  cases count with
  | zero =>
    rw [copyLoop] at hrun
    obtain ⟨s, -, hcopy⟩ := bind_eq_ok.mp hrun
    rw [strcpy, write_negative h] at hcopy
    cases hcopy
  | succ count =>
    rw [copyLoop] at hrun
    obtain ⟨s, -, hround⟩ := bind_eq_ok.mp hrun
    cases hfind : strstr rep s with
    | none =>
      rw [hfind] at hround
      cases hround
    | some n =>
      rw [hfind] at hround
      obtain ⟨B₁, hcopy, -⟩ := bind_eq_ok.mp hround
      rw [strncpy, write_negative h] at hcopy
      cases hcopy

/-- **A new text whose length does not fit** into an `int` ends in a fault, where there is something
to replace. -/
theorem copyLoop_long {orig rep new a b : List UInt8} (hcut : cut rep orig = some (a, b))
    (horig : orig.length < 2 ^ 31) (hnew : 2 ^ 31 ≤ new.length) (lenRep : ℤ) (count : ℕ)
    {B : Block} (hmem : B.mem.length < 2 ^ 32) (B' : Block) :
    copyLoop orig rep new lenRep (toInt32 new.length) (count + 1) 0 0 B ≠ .ok B' := by
  intro hrun
  have hlen := congrArg List.length (cut_append hcut)
  rw [List.length_append] at hlen
  have hround := copyLoop_front hcut (by omega) [] new lenRep (toInt32 new.length) count 0 B
  rw [List.nil_append] at hround
  have hwrap := toInt32_of_ge (x := new.length) (by omega)
  have hrest := hround.symm.trans hrun
  split_ifs at hrest
  exact copyLoop_negative (by omega) _ _ _ _ _ _ _ _ _ hrest

theorem requested_zero {orig : List UInt8} (horig : orig.length < 2 ^ 63) (rep new : List UInt8) :
    requested orig rep new 0 = orig.length + 1 := by
  have hzero : toInt32 0 = 0 := rfl
  rw [requested, Int.mul_zero, hzero, Int.add_zero]
  exact sizeT_of_nonneg (n := orig.length + 1) (by omega)

/-- Enough is requested if the growth is below `2 ^ 31`, also where its `int` wraps around. -/
theorem requested_enough {orig rep new : List UInt8} (hrep : rep ≠ [])
    (horig : orig.length < 2 ^ 63) (hlenRep : rep.length < 2 ^ 31) (hnew : new.length < 2 ^ 31)
    (h : growth orig rep new < 2 ^ 31) :
    (joined new (pieces rep orig)).length < requested orig rep new (pieces rep orig).1.length := by
  have hlen := length_joined_eq hrep orig new
  obtain ⟨hlower, hupper⟩ := toInt32_bounds (growth orig rep new)
  have hmore : growth orig rep new ≤ toInt32 (growth orig rep new) := by
    by_cases hsmall : growth orig rep new < -2 ^ 31
    · omega
    · rw [toInt32_of_lt (by omega) h]
  rw [requested_eq orig hlenRep hnew]
  unfold sizeT
  omega

/-- The call returns a string or `NULL`. -/
def Returns (M : Malloc) (orig rep new : Str) : Prop :=
  ∃ fuel r, strReplace M fuel orig rep new = .ok r

/-- There is room for the result: what is computed on the way to it fits into an `int`. -/
structure Room (orig rep new : List UInt8) : Prop where
  steps : Steps orig rep
  length : new.length < 2 ^ 31
  growth : growth orig rep new < 2 ^ 31

/-- **There is nothing to replace**, or the occurrences can be counted and no memory is given or
there is room for the result. -/
def Settled (M : Malloc) (orig rep new : List UInt8) : Prop :=
  ¬ rep <:+: orig ∨ rep ≠ [] ∧ rep.length < 2 ^ 31 ∧ (pieces rep orig).1.length < 2 ^ 31 ∧
    (M.give (requested orig rep new (pieces rep orig).1.length) = none ∨ Room orig rep new)

theorem returns_of_settled {M : Malloc} {orig : List UInt8} {rep new : Str}
    (horig : orig.length < 2 ^ 63) (h : Settled M orig (rep.getD []) (new.getD [])) :
    Returns M (some orig) rep new := by
  have hrep : rep.getD [] ≠ [] := by
    rcases h with hnot | ⟨hrep, -⟩
    · intro hnil
      rw [hnil] at hnot
      exact hnot List.nil_infix
    · exact hrep
  have hcounted : Counted orig (rep.getD []) := by
    rcases h with hnot | ⟨-, hlen, hfits, -⟩
    · exact .of_nil ((pieces_eq_nil hrep orig).mpr (cut_eq_none.mpr hnot))
    · exact ⟨hfits, fun _ => hlen⟩
  cases hgive : M.give (requested orig (rep.getD []) (new.getD [])
      (pieces (rep.getD []) orig).1.length) with
  | none =>
    refine ⟨(pieces (rep.getD []) orig).1.length + 1, none, ?_⟩
    rw [strReplace_eq M _ hrep hcounted, if_pos (Nat.lt_succ_self _), hgive]
  | some mem =>
    have hsize := M.length_eq _ _ hgive
    have hparts : Steps orig (rep.getD []) ∧
        ((pieces (rep.getD []) orig).1 = [] ∨ (new.getD []).length < 2 ^ 31) ∧
          (joined (new.getD []) (pieces (rep.getD []) orig)).length < mem.length := by
      rcases h with hnot | ⟨-, hlen, -, hnone | hroom⟩
      · have hpieces := pieces_of_none (cut_eq_none.mpr hnot)
        refine ⟨fun a ha => ?_, .inl (by rw [hpieces]), ?_⟩
        · rw [hpieces] at ha
          exact absurd ha List.not_mem_nil
        · rw [hsize, hpieces]
          exact Nat.lt_of_lt_of_eq (Nat.lt_succ_self orig.length) (requested_zero horig _ _).symm
      · rw [hnone] at hgive
        cases hgive
      · refine ⟨hroom.steps, .inr hroom.length, ?_⟩
        rw [hsize]
        exact requested_enough hrep horig hlen hroom.length hroom.growth
    obtain ⟨fuel, hrun⟩ :=
      (returned_iff M hrep hcounted hparts.1 hparts.2.1 _).mpr ⟨mem, hgive, hparts.2.2, rfl⟩
    exact ⟨fuel, _, hrun⟩

theorem settled_of_returns {M : Malloc} {orig : List UInt8} {rep new : Str}
    (hrep : rep.getD [] ≠ []) (horig : orig.length < 2 ^ 31) (h : Returns M (some orig) rep new) :
    Settled M orig (rep.getD []) (new.getD []) := by
  obtain ⟨fuel, r, hrun⟩ := h
  have hcounted := Counted.of_length hrep horig
  have hsteps := steps_of_length hrep horig
  rw [strReplace_eq M fuel hrep hcounted] at hrun
  split_ifs at hrun
  by_cases hnone : (pieces (rep.getD []) orig).1 = []
  · exact .inl (cut_eq_none.mp ((pieces_eq_nil hrep orig).mp hnone))
  refine .inr ⟨hrep, hcounted.pattern hnone, hcounted.fits, ?_⟩
  cases hgive : M.give (requested orig (rep.getD []) (new.getD [])
      (pieces (rep.getD []) orig).1.length) with
  | none => exact .inl rfl
  | some mem =>
    have hsize := M.length_eq _ _ hgive
    have hbound := M.bound _ _ hgive
    have hlenRep := hcounted.pattern hnone
    obtain ⟨count, hcount⟩ := Nat.exists_eq_succ_of_ne_zero (mt List.length_eq_zero_iff.mp hnone)
    obtain ⟨p, hp⟩ := Option.ne_none_iff_exists'.mp (mt (pieces_eq_nil hrep orig).mpr hnone)
    have hnew : (new.getD []).length < 2 ^ 31 := by
      by_contra hlong
      have hmem : mem.length < 2 ^ 32 := by
        rcases requested_bounds horig (rep.getD []) (new.getD [])
          (pieces (rep.getD []) orig).1.length with hless | hmore
        · omega
        · omega
      simp only [hgive] at hrun
      cases hloop : copyLoop orig (rep.getD []) (new.getD []) (toInt32 (rep.getD []).length)
          (toInt32 (new.getD []).length) (pieces (rep.getD []) orig).1.length 0 0 ⟨mem, 0⟩ with
      | error e =>
        rw [hloop] at hrun
        cases hrun
      | ok B =>
        rw [hcount] at hloop
        exact copyLoop_long hp horig (not_lt.mp hlong) _ count hmem B hloop
    refine .inr ⟨hsteps, hnew, not_le.mp fun hge => ?_⟩
    simp only [hgive, copy_start hrep hcounted hsteps (.inr hnew)] at hrun
    split_ifs at hrun with hroom
    · rcases requested_of_ge hrep horig hlenRep hnew hge with hless | hmore
      · omega
      · omega
    · cases hrun

/-- **`str_replace` returns** for `NULL`, and for a text if there is nothing to replace, or the
pattern is not empty and all that is computed fits; for a text below `2 ^ 31` bytes only then. The
counting loop comes to an end, for a text of any length, exactly if the pattern does not occur or
its length in an `int` is positive. -/
theorem str_replace_returns_iff (M : Malloc) (rep new : Str) : Returns M none rep new ∧
    ∀ orig : List UInt8,
      (CountingEnds orig (rep.getD []) ↔
        ¬ rep.getD [] <:+: orig ∨ 0 < toInt32 (rep.getD []).length) ∧
      (orig.length < 2 ^ 63 → Settled M orig (rep.getD []) (new.getD []) →
        Returns M (some orig) rep new) ∧
      (orig.length < 2 ^ 31 → Returns M (some orig) rep new →
        Settled M orig (rep.getD []) (new.getD [])) := by
  refine ⟨⟨0, none, rfl⟩, fun orig =>
    ⟨countingEnds_iff orig (rep.getD []), returns_of_settled, fun horig hreturns => ?_⟩⟩
  by_cases hrep : rep.getD [] = []
  · -- the counting loop does not come to an end
    obtain ⟨fuel, r, hrun⟩ := hreturns
    obtain ⟨count, hcount, -⟩ := bind_eq_ok.mp hrun
    have hends : CountingEnds orig (rep.getD []) := ⟨fuel, count, hcount⟩
    rw [countingEnds_iff, hrep] at hends
    rcases hends with hnot | hpos
    · exact absurd List.nil_infix hnot
    · exact absurd hpos (by decide)
  · exact settled_of_returns hrep horig hreturns

/-- An empty pattern. -/
theorem empty_pattern_hangs : ¬ ∀ (M : Malloc) (orig rep new : Str), Returns M orig rep new := by
  intro h
  obtain ⟨fuel, r, hrun⟩ := h plenty (some (lit "a")) none none
  obtain ⟨count, hcount, -⟩ := bind_eq_ok.mp hrun
  rcases (countingEnds_iff (lit "a") []).mp ⟨fuel, count, hcount⟩ with hnot | hpos
  · exact hnot List.nil_infix
  · exact absurd hpos (by decide)

end TelegramCli.Telegrab.StrReplace
