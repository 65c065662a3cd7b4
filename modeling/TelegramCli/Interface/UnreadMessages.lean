import TelegramCli.Lib.Run

/-! # Messages marked read

The messages that were marked read are collected in `unread_message_list` and printed together, by a
timer or when there is no room for the next ones. The pointers to messages are of any type `μ`, and
`none` is the null pointer that `print_read_list` leaves in the place of a message.

At every time the messages that were printed, and then those in the list, are those that were
notified; the list has room for them, and its timer is pending. The timer and a notification there
is no room for print all of them (`printed_exactly`). -/

namespace TelegramCli.Interface.UnreadMessages

open TelegramCli.Lib.Run

variable {μ : Type}

/-- `MAX_UNREAD_MESSAGE_COUNT`. -/
def maxUnreadMessageCount : ℤ := 10000

/-- `unread_message_list`, `unread_message_count`, and whether `unread_message_event` is there; in
`printed` are the messages that have been passed to `print_read_list`. -/
structure Unread (μ : Type) where
  list : ℕ → Option μ
  count : ℤ
  event : Bool
  printed : List (Option μ)

def Unread.start : Unread μ := ⟨fun _ => none, 0, false, []⟩

/-- The first `num` places of an array. -/
def firsts (num : ℤ) (list : ℕ → Option μ) : List (Option μ) := (List.range num.toNat).map list

/-- `print_read_list` of the first places of the list. -/
def printReadList (s : Unread μ) (num : ℤ) : Unread μ where
  list := fun i => if i < num then none else s.list i
  count := s.count
  event := s.event
  printed := s.printed ++ firsts num s.list

/-- `memcpy` to place `n` of an array. -/
def memcpy (list : ℕ → Option μ) (n : ℕ) (ms : List μ) : ℕ → Option μ := fun i =>
  if i < n then list i else (ms[i - n]?).elim (list i) some

def unreadMessageAlarm (s : Unread μ) : Unread μ :=
  { printReadList s s.count with count := 0, event := false }

def markReadUpd (binlogRead : Bool) (logLevel : ℤ) (s : Unread μ) (ms : List μ) : Unread μ :=
  if !binlogRead then s
  else if logLevel < 1 then s
  else if s.count + ms.length ≤ maxUnreadMessageCount then
    { s with list := memcpy s.list s.count.toNat ms, count := s.count + ms.length, event := true }
  else
    let s := printReadList s s.count
    { s with printed := s.printed ++ ms.map some, count := 0, event := false }

/-! ### Runs -/

inductive Label (μ : Type)
  | notify (ms : List μ)
  | alarm

/-- The timer fires only while it is pending. -/
inductive Step (binlogRead : Bool) (logLevel : ℤ) : Unread μ → Label μ → Unread μ → Prop
  | notify (s : Unread μ) (ms : List μ) :
    Step binlogRead logLevel s (.notify ms) (markReadUpd binlogRead logLevel s ms)
  | alarm {s : Unread μ} : s.event = true →
    Step binlogRead logLevel s .alarm (unreadMessageAlarm s)

/-- The messages of all notifications. -/
def notified : List (Label μ) → List μ
  | [] => []
  | .notify ms :: ls => ms ++ notified ls
  | .alarm :: ls => notified ls

/-- **The list is in order**, where `ms` are the messages notified so far. -/
structure Inv (ms : List μ) (s : Unread μ) : Prop where
  exactly : s.printed ++ firsts s.count s.list = ms.map some
  nonneg : 0 ≤ s.count
  max : s.count ≤ maxUnreadMessageCount
  pending : 0 < s.count → s.event = true

/-- The list is printed: by the timer, or as there is no room. -/
def Flushes (s : Unread μ) : Label μ → Prop
  | .alarm => True
  | .notify ms => maxUnreadMessageCount < s.count + ms.length

theorem zero_le_max : 0 ≤ maxUnreadMessageCount := by decide

theorem Inv.start : Inv ([] : List μ) Unread.start :=
  ⟨rfl, le_rfl, zero_le_max, fun h => absurd h (lt_irrefl 0)⟩

theorem firsts_memcpy {num : ℤ} (hnum : 0 ≤ num) (list : ℕ → Option μ) (ms : List μ) :
    firsts (num + ms.length) (memcpy list num.toNat ms) = firsts num list ++ ms.map some := by
  unfold firsts
  rw [show (num + ms.length).toNat = num.toNat + ms.length by omega, List.range_add,
    List.map_append, List.map_map]
  congr 1
  · refine List.map_congr_left fun i hi => ?_
    rw [memcpy, if_pos (List.mem_range.mp hi)]
  · refine List.ext_getElem (by simp) fun i hi hi' => ?_
    rw [List.length_map, List.length_range] at hi
    simp [memcpy, hi]

theorem Inv.alarm {ms : List μ} {s : Unread μ} (h : Inv ms s) : Inv ms (unreadMessageAlarm s) where
  exactly := by
    show (s.printed ++ firsts s.count s.list) ++ firsts 0 _ = _
    rw [h.exactly]
    exact List.append_nil _
  nonneg := le_rfl
  max := zero_le_max
  pending := fun hpos => absurd hpos (lt_irrefl 0)

theorem Inv.notify {binlogRead : Bool} {logLevel : ℤ} (hbinlog : binlogRead = true)
    (hlevel : 1 ≤ logLevel) {ms : List μ} {s : Unread μ} (h : Inv ms s) (ns : List μ) :
    Inv (ms ++ ns) (markReadUpd binlogRead logLevel s ns) := by
  have hnonneg := h.nonneg
  unfold markReadUpd
  rw [if_neg (by rw [hbinlog]; decide), if_neg (by omega)]
  split_ifs with hroom
  · refine ⟨?_, ?_, hroom, fun _ => rfl⟩
    · simp only
      rw [firsts_memcpy hnonneg, ← List.append_assoc, h.exactly, List.map_append]
    · simp only
      omega
  · refine ⟨?_, le_rfl, zero_le_max, fun hpos => absurd hpos (lt_irrefl 0)⟩
    show ((s.printed ++ firsts s.count s.list) ++ ns.map some) ++ firsts 0 _ = _
    rw [h.exactly, List.map_append]
    exact List.append_nil _

theorem run_inv {binlogRead : Bool} {logLevel : ℤ} (hbinlog : binlogRead = true)
    (hlevel : 1 ≤ logLevel) : ∀ {ls : List (Label μ)} {ms : List μ} {s t : Unread μ},
    Runs (Step binlogRead logLevel) s ls t → Inv ms s → Inv (ms ++ notified ls) t
  | _, ms, _, _, .nil _, h => by rwa [notified, List.append_nil]
  | _, ms, _, _, .cons hs hr, h => by
    cases hs with
    | notify ns =>
      have ih := run_inv hbinlog hlevel hr (h.notify hbinlog hlevel ns)
      rwa [List.append_assoc] at ih
    | alarm hevent =>
      have ih := run_inv hbinlog hlevel hr h.alarm
      exact ih

theorem notified_append : ∀ ls ms : List (Label μ), notified (ls ++ ms) = notified ls ++ notified ms
  | [], _ => rfl
  | .notify ns :: ls, ms => by
    rw [List.cons_append, notified, notified, notified_append ls ms, List.append_assoc]
  | .alarm :: ls, ms => notified_append ls ms

/-- A step that prints the list leaves it empty. -/
theorem count_of_flushes {binlogRead : Bool} {logLevel : ℤ} (hbinlog : binlogRead = true)
    (hlevel : 1 ≤ logLevel) {s t : Unread μ} {l : Label μ} (hs : Step binlogRead logLevel s l t)
    (hflush : Flushes s l) : t.count = 0 := by
  cases hs with
  | notify ms =>
    rw [markReadUpd, if_neg (by rw [hbinlog]; decide), if_neg (by omega),
      if_neg (not_le.mpr hflush)]
  | alarm => rfl

/-- **Every notified message is printed once**, in the order of the notifications: those printed and
those still in the list are the notified ones. The list has room for its messages, and its timer is
pending while it has any; when the timer fires, or there is no room, all have been printed. -/
theorem printed_exactly {binlogRead : Bool} {logLevel : ℤ} (hbinlog : binlogRead = true)
    (hlevel : 1 ≤ logLevel) {ls : List (Label μ)} {s : Unread μ}
    (hrun : Runs (Step binlogRead logLevel) Unread.start ls s) :
    s.printed ++ firsts s.count s.list = (notified ls).map some ∧ 0 ≤ s.count ∧
      s.count ≤ maxUnreadMessageCount ∧ (0 < s.count → s.event = true) ∧
      ∀ l t, Step binlogRead logLevel s l t → Flushes s l →
        t.count = 0 ∧ t.printed = (notified (ls ++ [l])).map some := by
  have h := run_inv hbinlog hlevel hrun Inv.start
  refine ⟨h.exactly, h.nonneg, h.max, h.pending, fun l t hs hflush => ?_⟩
  have hcount := count_of_flushes hbinlog hlevel hs hflush
  have hnext := run_inv hbinlog hlevel (.cons hs (.nil t)) h
  have hexactly := hnext.exactly
  rw [hcount, List.nil_append, ← notified_append] at hexactly
  exact ⟨hcount, (List.append_nil _).symm.trans hexactly⟩

/-- One message, and the timer. -/
theorem printed_exactly_one : ∃ s t : Unread ℕ, Step true 1 s .alarm t ∧
    s.printed ++ firsts s.count s.list = [some 7] ∧ 0 ≤ s.count ∧
      s.count ≤ maxUnreadMessageCount ∧ (0 < s.count → s.event = true) ∧
        t.count = 0 ∧ t.printed = [some 7] := by
  have hlevel : (1 : ℤ) ≤ 1 := le_rfl
  have halarm : Step true 1 (markReadUpd true 1 Unread.start [7]) .alarm _ := .alarm rfl
  obtain ⟨hexactly, hnonneg, hmax, hpending, hprinted⟩ :=
    printed_exactly rfl hlevel (.cons (.notify _ [7]) (.nil _))
  exact ⟨_, _, halarm, hexactly, hnonneg, hmax, hpending, hprinted _ _ halarm trivial⟩

end TelegramCli.Interface.UnreadMessages
