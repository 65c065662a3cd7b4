import Mathlib.Tactic
import Mathlib.Data.Vector.Basic

/-! # Binary files of fixed and variable records

A file is its bytes and the position of the descriptor. `write` overwrites from the position on and
never shortens the file, so a program that rewrites an old file in place leaves the old file's end
behind what it wrote (`opened_write`).

A reader consumes the bytes still ahead of its position. A `Codec` is a way to write a value
together with a reader that gives it back whatever follows; records are read by running the
readers of their fields in the order the fields were written. -/

namespace TelegramCli.Lib.Records

/-! ### Files -/

structure File where
  content : List UInt8
  pos : ℕ

/-- A file just opened. -/
def File.opened (content : List UInt8) : File := ⟨content, 0⟩

/-- Overwrite from the position on; a gap behind the end of the file is filled with zeros. -/
def File.write (f : File) (bs : List UInt8) : File where
  content := f.content.take f.pos ++ List.replicate (f.pos - f.content.length) 0 ++ bs ++
    f.content.drop (f.pos + bs.length)
  pos := f.pos + bs.length

def File.seek (f : File) (pos : ℕ) : File := { f with pos := pos }

/-- Two writes in a row write the two pieces. -/
theorem File.write_write (f : File) (a b : List UInt8) :
    (f.write a).write b = f.write (a ++ b) := by
  have hlen : (f.content.take f.pos ++ List.replicate (f.pos - f.content.length) 0 ++ a).length =
      f.pos + a.length := by
    simp only [List.length_append, List.length_take, List.length_replicate]; omega
  set w := f.content.take f.pos ++ List.replicate (f.pos - f.content.length) 0 ++ a with hw
  set d := f.content.drop (f.pos + a.length) with hd
  have hgap : f.pos + a.length - (w ++ d).length = 0 := by rw [List.length_append, hlen]; omega
  have hdrop : (w ++ d).drop (f.pos + a.length + b.length) =
      f.content.drop (f.pos + (a.length + b.length)) := by
    rw [← List.drop_drop, List.drop_left' hlen, hd, List.drop_drop, Nat.add_assoc]
  have hl : f.write a = ⟨w ++ d, f.pos + a.length⟩ := rfl
  rw [hl]
  simp only [File.write, File.mk.injEq, hgap, hdrop]
  rw [List.take_left' hlen, hw, List.length_append]
  exact ⟨by simp, by omega⟩

/-- One `write` after the other. -/
def File.writes (f : File) (bss : List (List UInt8)) : File := bss.foldl File.write f

theorem File.writes_write (f : File) (b : List UInt8) :
    ∀ bss : List (List UInt8), (f.write b).writes bss = f.write (b ++ bss.flatten)
  | [] => by simp [File.writes]
  | c :: bss => by
    have ih := File.writes_write f (b ++ c) bss
    calc (f.write b).writes (c :: bss)
        = ((f.write b).write c).writes bss := rfl
      _ = (f.write (b ++ c)).writes bss := by rw [File.write_write]
      _ = f.write (b ++ (c :: bss).flatten) := by rw [ih, List.flatten_cons, List.append_assoc]

theorem File.writes_append (f : File) (ass bss : List (List UInt8)) :
    f.writes (ass ++ bss) = (f.writes ass).writes bss := List.foldl_append

theorem File.writes_cons (f : File) (b : List UInt8) (bss : List (List UInt8)) :
    f.writes (b :: bss) = f.write (b ++ bss.flatten) := File.writes_write f b bss

/-- Writing in front of an old file. -/
theorem File.opened_write (old bs : List UInt8) :
    ((File.opened old).write bs).content = bs ++ old.drop bs.length := by
  simp [File.opened, File.write]

theorem File.opened_writes (old : List UInt8) : ∀ bss : List (List UInt8),
    ((File.opened old).writes bss).content = bss.flatten ++ old.drop bss.flatten.length
  | [] => by simp [File.writes, File.opened]
  | b :: bss => by rw [File.writes_cons, File.opened_write, List.flatten_cons]

/-- Patching a field of what has been written. -/
theorem File.patch (f : File) {a b b' c : List UInt8} (hf : f.content = a ++ b ++ c)
    (hb : b'.length = b.length) :
    ((f.seek a.length).write b').content = a ++ b' ++ c := by
  simp only [File.seek, File.write, hf]
  rw [List.append_assoc a b c, List.take_left, hb, ← List.drop_drop, List.drop_left,
    List.drop_left]
  simp

/-! ### Readers and codecs -/

/-- A reader takes a value off the bytes ahead; `none` is a failed assertion. -/
abbrev Reader (α : Type) := StateT (List UInt8) Option α

/-- Read exactly `n` bytes. -/
def readExact (n : ℕ) : Reader (List UInt8) := fun s =>
  if n ≤ s.length then some (s.take n, s.drop n) else none

theorem readExact_append {n : ℕ} {a : List UInt8} (h : a.length = n) (s : List UInt8) :
    readExact n (a ++ s) = some (a, s) := by
  subst h
  simp [readExact]

/-- A way to write a value, and a reader that gives it back. -/
structure Codec (α : Type) where
  enc : α → List UInt8
  dec : Reader α
  dec_enc : ∀ a s, dec (enc a ++ s) = some (a, s)

/-- Encodings are read off in one way. -/
theorem Codec.enc_append_inj {α : Type} (c : Codec α) {a b : α} {s t : List UInt8}
    (h : c.enc a ++ s = c.enc b ++ t) : a = b ∧ s = t := by
  have hdec := congrArg c.dec h
  rw [c.dec_enc, c.dec_enc] at hdec
  cases hdec
  exact ⟨rfl, rfl⟩

/-- An assertion of the reading program. -/
def check (p : Prop) [Decidable p] : Reader Unit := fun s => if p then some ((), s) else none

/-- A reader run `n` times. -/
def readMany {α : Type} (r : Reader α) : ℕ → Reader (List α)
  | 0 => pure []
  | n + 1 => do
    let a ← r
    let as ← readMany r n
    return a :: as

/-- The bytes that must come next. -/
def expect (a : List UInt8) : Reader Unit := fun s =>
  if a <+: s then some ((), s.drop a.length) else none

/-- A reader run until nothing is left. -/
def readAll {α : Type} (r : Reader α) (s : List UInt8) : Option (List α) :=
  if s = [] then some []
  else
    match r s with
    | none => none
    | some (a, t) => if t.length < s.length then (readAll r t).map (a :: ·) else none
termination_by s.length

section Bind

variable {α β : Type}

/-- **A field read where its encoding stands**: the rest of the reader goes on behind it. -/
theorem bind_dec (c : Codec α) (k : α → Reader β) (a : α) (s : List UInt8) :
    (c.dec >>= k) (c.enc a ++ s) = k a s := by
  simp only [bind, StateT.bind, c.dec_enc, Option.bind_some]

theorem bind_readExact {n : ℕ} {a : List UInt8} (h : a.length = n) (k : List UInt8 → Reader β)
    (s : List UInt8) : (readExact n >>= k) (a ++ s) = k a s := by
  simp only [bind, StateT.bind, readExact_append h, Option.bind_some]

theorem bind_check {p : Prop} [Decidable p] (h : p) (k : Unit → Reader β) (s : List UInt8) :
    (check p >>= k) s = k () s := by
  simp only [bind, StateT.bind, check, if_pos h, Option.bind_some]

theorem bind_of_eq {r : Reader α} {s t : List UInt8} {a : α} (h : r s = some (a, t))
    (k : α → Reader β) : (r >>= k) s = k a t := by
  simp only [bind, StateT.bind, h, Option.bind_some]

theorem bind_expect (a : List UInt8) (k : Unit → Reader β) (s : List UInt8) :
    (expect a >>= k) (a ++ s) = k () s := by
  simp only [bind, StateT.bind, expect, if_pos (List.prefix_append a s), List.drop_left,
    Option.bind_some]

/-- **Frames in a row**, each of which is read back whatever follows. -/
theorem readAll_encoded {r : Reader β} {enc : α → List UInt8} {f : α → β} :
    ∀ {as : List α}, (∀ a ∈ as, enc a ≠ [] ∧ ∀ s, r (enc a ++ s) = some (f a, s)) →
      readAll r (as.map enc).flatten = some (as.map f)
  | [], _ => by rw [readAll]; rfl
  | a :: as, h => by
    have ih := readAll_encoded fun b hb => h b (List.mem_cons_of_mem a hb)
    obtain ⟨hne, ha⟩ := h a List.mem_cons_self
    have hpos := List.length_pos_of_ne_nil hne
    rw [List.map_cons, List.flatten_cons, readAll, if_neg (by simp [hne]), ha]
    simp only
    rw [if_pos (by rw [List.length_append]; omega), ih]
    rfl

/-- Records that are each read back are read back in a row. -/
theorem readMany_encoded {r : Reader β} {enc : α → List UInt8} {f : α → β} :
    ∀ {as : List α}, (∀ a ∈ as, ∀ s, r (enc a ++ s) = some (f a, s)) → ∀ s,
      readMany r as.length ((as.map enc).flatten ++ s) = some (as.map f, s)
  | [], _, _ => rfl
  | a :: as, h, s => by
    have ih := readMany_encoded (fun b hb => h b (List.mem_cons_of_mem a hb)) s
    have ha := h a List.mem_cons_self ((as.map enc).flatten ++ s)
    rw [List.map_cons, List.flatten_cons, List.append_assoc, List.length_cons, readMany,
      bind_of_eq ha, bind_of_eq ih]
    rfl

end Bind

/-! ### Readers that take nothing but encodings -/

/-- What the codec's reader takes is the encoding of what it gives. -/
def Codec.Exact {α : Type} (c : Codec α) : Prop :=
  ∀ {s : List UInt8} {a : α} {t : List UInt8}, c.dec s = some (a, t) → s = c.enc a ++ t

section Exact

variable {α β : Type}

theorem bind_eq_some {r : Reader α} {k : α → Reader β} {s t : List UInt8} {b : β} :
    (r >>= k) s = some (b, t) ↔ ∃ a u, r s = some (a, u) ∧ k a u = some (b, t) := by
  simp only [bind, StateT.bind, Option.bind_eq_some_iff, Prod.exists]

theorem bind_dec_eq_some {c : Codec α} (hc : c.Exact) {k : α → Reader β} {s t : List UInt8}
    {b : β} : (c.dec >>= k) s = some (b, t) ↔ ∃ a u, s = c.enc a ++ u ∧ k a u = some (b, t) := by
  rw [bind_eq_some]
  constructor
  · rintro ⟨a, u, hdec, hk⟩
    exact ⟨a, u, hc hdec, hk⟩
  · rintro ⟨a, u, rfl, hk⟩
    exact ⟨a, u, c.dec_enc a u, hk⟩

theorem bind_check_eq_some {p : Prop} [Decidable p] {k : Unit → Reader β} {s t : List UInt8}
    {b : β} : (check p >>= k) s = some (b, t) ↔ p ∧ k () s = some (b, t) := by
  by_cases hp : p
  · rw [bind_check hp, and_iff_right hp]
  · refine iff_of_false ?_ fun h => hp h.1
    simp [bind, StateT.bind, check, hp]

theorem bind_readExact_eq_some {n : ℕ} {k : List UInt8 → Reader β} {s t : List UInt8} {b : β} :
    (readExact n >>= k) s = some (b, t) ↔
      ∃ a u, a.length = n ∧ s = a ++ u ∧ k a u = some (b, t) := by
  constructor
  · intro h
    obtain ⟨a, u, hread, hk⟩ := bind_eq_some.mp h
    unfold readExact at hread
    split_ifs at hread with hn
    cases hread
    exact ⟨_, _, List.length_take_of_le hn, (List.take_append_drop n s).symm, hk⟩
  · rintro ⟨a, u, hn, rfl, hk⟩
    rw [bind_readExact hn]
    exact hk

/-- The bytes begin with pieces for the values, one after the other. -/
def BeginsWith (P : α → List UInt8 → Prop) : List α → List UInt8 → Prop
  | [], _ => True
  | a :: as, s => ∃ r t, P a r ∧ s = r ++ t ∧ BeginsWith P as t

/-- A text in front of two parts ends in the first one, or it is the first one and a text in front
of the second. -/
theorem prefix_append_iff {r w t : List α} :
    r <+: w ++ t ↔ r <+: w ∨ w <+: r ∧ r.drop w.length <+: t := by
  constructor
  · intro h
    rcases List.prefix_or_prefix_of_prefix h (List.prefix_append w t) with hr | ⟨u, rfl⟩
    · exact .inl hr
    · rw [List.prefix_append_right_inj] at h
      rw [List.drop_left]
      exact .inr ⟨List.prefix_append w u, h⟩
  · rintro (h | ⟨⟨u, rfl⟩, h⟩)
    · exact h.trans (List.prefix_append w t)
    · rw [List.drop_left] at h
      exact (List.prefix_append_right_inj w).mpr h

theorem beginsWith_pair {P : α → List UInt8 → Prop} {a b : α} {s : List UInt8} :
    BeginsWith P [a, b] s ↔ ∃ r q, P a r ∧ P b q ∧ r ++ q <+: s := by
  constructor
  · rintro ⟨r, _, hr, rfl, q, t, hq, rfl, -⟩
    exact ⟨r, q, hr, hq, t, List.append_assoc r q t⟩
  · rintro ⟨r, q, hr, hq, t, rfl⟩
    exact ⟨r, q ++ t, hr, List.append_assoc r q t, q, t, hq, rfl, trivial⟩

/-- **Reading many** of what a reader takes piece by piece. -/
theorem readMany_iff {r : Reader α} {P : α → List UInt8 → Prop}
    (hr : ∀ {s a t}, r s = some (a, t) ↔ ∃ b, P a b ∧ s = b ++ t) :
    ∀ {n : ℕ} {s : List UInt8} {as : List α},
      (readMany r n s).map Prod.fst = some as ↔ as.length = n ∧ BeginsWith P as s
  | 0, _, [] => iff_of_true rfl ⟨rfl, trivial⟩
  | 0, s, a :: as => by
    refine iff_of_false (fun h => ?_) fun h => absurd h.1 (Nat.succ_ne_zero _)
    have hnil : (readMany r 0 s).map Prod.fst = some [] := rfl
    rw [hnil] at h
    cases h
  | n + 1, s, [] => by
    simp only [Option.map_eq_some_iff, Prod.exists, List.length_nil, Nat.zero_ne_add_one, false_and,
      iff_false, not_exists, not_and]
    intro as t h hnil
    obtain ⟨a, u, -, h⟩ := bind_eq_some.mp h
    obtain ⟨bs, v, -, h⟩ := bind_eq_some.mp h
    cases h
    cases hnil
  | n + 1, s, a :: as => by
    rw [List.length_cons, Nat.add_right_cancel_iff, Option.map_eq_some_iff]
    constructor
    · rintro ⟨⟨bs, t⟩, h, hbs⟩
      obtain ⟨b, u, hread, h⟩ := bind_eq_some.mp h
      obtain ⟨cs, v, hmany, h⟩ := bind_eq_some.mp h
      cases h
      cases hbs
      obtain ⟨w, hw, rfl⟩ := hr.mp hread
      obtain ⟨hlen, hbegins⟩ := (readMany_iff hr).mp (Option.map_eq_some_iff.mpr ⟨_, hmany, rfl⟩)
      exact ⟨hlen, w, u, hw, rfl, hbegins⟩
    · rintro ⟨hlen, w, u, hw, rfl, hbegins⟩
      obtain ⟨⟨cs, v⟩, hmany, rfl⟩ :=
        Option.map_eq_some_iff.mp ((readMany_iff hr).mpr ⟨hlen, hbegins⟩)
      exact ⟨(a :: cs, v), bind_eq_some.mpr ⟨a, u, hr.mpr ⟨w, hw, rfl⟩,
        bind_eq_some.mpr ⟨cs, v, hmany, rfl⟩⟩, rfl⟩

end Exact

/-! ### Little-endian words -/

/-- The `n` low bytes of `v`, lowest first. -/
def le : ℕ → ℕ → List UInt8
  | 0, _ => []
  | n + 1, v => UInt8.ofNat v :: le n (v / 256)

/-- The number bytes stand for, lowest first. -/
def ofLe : List UInt8 → ℕ
  | [] => 0
  | b :: bs => b.toNat + 256 * ofLe bs

@[simp] theorem length_le : ∀ n v : ℕ, (le n v).length = n
  | 0, _ => rfl
  | n + 1, v => by simp [le, length_le n]

theorem ofLe_le : ∀ {n v : ℕ}, v < 256 ^ n → ofLe (le n v) = v
  | 0, v, h => by simp only [pow_zero] at h; simp [le, ofLe]; omega
  | n + 1, v, h => by
    have hd : v / 256 < 256 ^ n := by
      rw [Nat.div_lt_iff_lt_mul (by decide), ← pow_succ]; exact h
    simp only [le, ofLe, ofLe_le hd, UInt8.toNat_ofNat']
    omega

/-- The machine words of `n` bytes. -/
def word (n : ℕ) : Codec (BitVec (8 * n)) where
  enc x := le n x.toNat
  dec := do
    let bs ← readExact n
    return BitVec.ofNat _ (ofLe bs)
  dec_enc x s := by
    have hx : x.toNat < 256 ^ n := by
      have := x.isLt
      rwa [pow_mul, show (2 : ℕ) ^ 8 = 256 from rfl] at this
    simp only [bind, StateT.bind, readExact_append (length_le n x.toNat) s, Option.bind_some,
      ofLe_le hx, BitVec.ofNat_toNat, BitVec.setWidth_eq]
    rfl

theorem le_ofLe : ∀ bs : List UInt8, le bs.length (ofLe bs) = bs
  | [] => rfl
  | b :: bs => by
    have hmod : UInt8.ofNat (b.toNat + 256 * ofLe bs) = b := by
      apply UInt8.toNat_inj.mp
      have hb := b.toNat_lt
      rw [UInt8.toNat_ofNat']
      omega
    have hdiv : (b.toNat + 256 * ofLe bs) / 256 = ofLe bs := by
      have hb := b.toNat_lt
      omega
    rw [List.length_cons, le, ofLe, hmod, hdiv, le_ofLe bs]

theorem ofLe_lt : ∀ bs : List UInt8, ofLe bs < 256 ^ bs.length
  | [] => by simp [ofLe]
  | b :: bs => by
    have hb := b.toNat_lt
    have ih := ofLe_lt bs
    rw [ofLe, List.length_cons, pow_succ]
    omega

theorem word_exact (n : ℕ) : (word n).Exact := by
  intro s a t h
  obtain ⟨bs, u, hread, h⟩ := bind_eq_some.mp h
  unfold readExact at hread
  split_ifs at hread with hn
  cases hread
  cases h
  have hlen : (s.take n).length = n := List.length_take_of_le hn
  have hlt : ofLe (s.take n) < 2 ^ (8 * n) := by
    have h256 := ofLe_lt (s.take n)
    rwa [hlen, show (256 : ℕ) = 2 ^ 8 from rfl, ← pow_mul] at h256
  have henc : (word n).enc (BitVec.ofNat (8 * n) (ofLe (s.take n))) = s.take n := by
    have hle := le_ofLe (s.take n)
    rw [hlen] at hle
    change le n (BitVec.ofNat (8 * n) (ofLe (s.take n))).toNat = s.take n
    rw [BitVec.toNat_ofNat, Nat.mod_eq_of_lt hlt, hle]
  rw [henc, List.take_append_drop]

/-- The words of four and of eight bytes. -/
def word32 : Codec (BitVec 32) := word 4

@[inherit_doc word32] def word64 : Codec (BitVec 64) := word 8

theorem word32_exact : word32.Exact := word_exact 4

theorem word64_exact : word64.Exact := word_exact 8

@[simp] theorem length_word32 (x : BitVec 32) : (word32.enc x).length = 4 := length_le 4 _

/-- An array of `n` bytes. -/
def block (n : ℕ) : Codec (List.Vector UInt8 n) where
  enc v := v.1
  dec := fun s => if h : n ≤ s.length then some (⟨s.take n, by simp [h]⟩, s.drop n) else none
  dec_enc v s := by
    have hv : v.1.length = n := v.2
    rw [dif_pos (by simp [hv])]
    refine congrArg some (Prod.ext (Subtype.ext ?_) (List.drop_left' hv))
    exact List.take_left' hv

theorem block_exact (n : ℕ) : (block n).Exact := by
  intro s a t h
  unfold block at h
  simp only at h
  split_ifs at h with hn
  cases h
  exact (List.take_append_drop n s).symm

end TelegramCli.Lib.Records
