import TelegramCli.Telegrab.ChatList
import TelegramCli.Telegrab.DumpHtml

/-! # What escaped texts keep, and their sizes

The body of a message is escaped and its newlines are replaced by `<br/>`. It is made of these tags,
of the four references and of other bytes, and the message can be read back from it
(`body_lossless`).

An escaped title is at most six times as long as the title, while `add_to_list` allocates twice the
length for it and `initiate_html` has 1024 bytes (`title_fits_iff`). -/

namespace TelegramCli.Telegrab.EscapedText

open TelegramCli.Lib.CString TelegramCli.Lib.Tags TelegramCli.Lib.Lines
open TelegramCli.Telegrab.Escape TelegramCli.Telegrab.DumpHtml TelegramCli.Telegrab.ChatList

/-! ### The body of a message -/

/-- What is printed for the text of a message. -/
def bodyOf (m : List UInt8) : List UInt8 := (Piece.body m).bytes

/-- Tags `<br/>`, references, and other bytes than `<`, `>` and `&`. -/
inductive BodyText : List UInt8 → Prop
  | nil : BodyText []
  | br {p : List UInt8} : BodyText p → BodyText (lit "<br/>" ++ p)
  | ref {r p : List UInt8} : r ∈ references → BodyText p → BodyText (amp :: (r ++ p))
  | byte {c : UInt8} {p : List UInt8} : c ≠ lt → c ≠ gt → c ≠ amp → BodyText p → BodyText (c :: p)

/-- The references replaced by what they stand for, from left to right. -/
def decodeEntities : List UInt8 → List UInt8
  | [] => []
  | c :: p =>
    if c = amp then
      if (lit "lt;").isPrefixOf p then lt :: decodeEntities (p.drop 3)
      else if (lit "gt;").isPrefixOf p then gt :: decodeEntities (p.drop 3)
      else if (lit "quot;").isPrefixOf p then quot :: decodeEntities (p.drop 5)
      else if (lit "amp;").isPrefixOf p then amp :: decodeEntities (p.drop 4)
      else c :: decodeEntities p
    else c :: decodeEntities p
termination_by s => s.length
decreasing_by all_goals simp only [List.length_drop, List.length_cons]; omega

/-- `<br/>` replaced by a newline, and then the references decoded. -/
def decodeBody (s : List UInt8) : List UInt8 := decodeEntities (strReplace s (lit "<br/>") [nl])

/-! ### References -/

theorem decodeEntities_lt (p : List UInt8) :
    decodeEntities (lit "&lt;" ++ p) = lt :: decodeEntities p := by
  change decodeEntities (amp :: (lit "lt;" ++ p)) = _
  rw [decodeEntities]
  rfl

theorem decodeEntities_gt (p : List UInt8) :
    decodeEntities (lit "&gt;" ++ p) = gt :: decodeEntities p := by
  change decodeEntities (amp :: (lit "gt;" ++ p)) = _
  rw [decodeEntities]
  rfl

theorem decodeEntities_quot (p : List UInt8) :
    decodeEntities (lit "&quot;" ++ p) = quot :: decodeEntities p := by
  change decodeEntities (amp :: (lit "quot;" ++ p)) = _
  rw [decodeEntities]
  rfl

theorem decodeEntities_amp (p : List UInt8) :
    decodeEntities (lit "&amp;" ++ p) = amp :: decodeEntities p := by
  change decodeEntities (amp :: (lit "amp;" ++ p)) = _
  rw [decodeEntities]
  rfl

/-- **Escaping is undone** by decoding. -/
theorem decodeEntities_htmlspecialchars : ∀ s : List UInt8, decodeEntities (htmlspecialchars s) = s
  | [] => by rw [htmlspecialchars, decodeEntities]
  | c :: p => by
    have ih := decodeEntities_htmlspecialchars p
    rw [htmlspecialchars]
    split_ifs with hl hg hq ha
    · rw [decodeEntities_lt, ih, hl]
    · rw [decodeEntities_gt, ih, hg]
    · rw [decodeEntities_quot, ih, hq]
    · rw [decodeEntities_amp, ih, ha]
    · rw [decodeEntities, if_neg ha, ih]

/-! ### Newlines -/

/-- Newlines that were replaced are put back, when what they were replaced by begins with a byte that
was not there. -/
theorem strReplace_flatMap {d : UInt8} (rep : List UInt8) {s : List UInt8} (hd : d ∉ s) :
    strReplace (s.flatMap fun c => if c = nl then d :: rep else [c]) (d :: rep) [nl] = s := by
  suffices h : ∀ fuel, (s.flatMap fun c => if c = nl then d :: rep else [c]).length ≤ fuel →
      replaceLoop (d :: rep) [nl]
        (countRep (d :: rep) fuel (s.flatMap fun c => if c = nl then d :: rep else [c]))
        (s.flatMap fun c => if c = nl then d :: rep else [c]) = s from h _ le_rfl
  induction s using line_induction (n := nl) with
  | open_ a ha =>
    intro fuel _
    rw [flatMap_of_notMem _ ha]
    cases fuel with
    | zero => rfl
    | succ fuel => simp only [countRep, strstr_of_notMem rep hd, replaceLoop]
  | line a s ha ih =>
    rw [List.mem_append, List.mem_cons, not_or, not_or] at hd
    intro fuel hfuel
    rw [List.flatMap_append, flatMap_of_notMem _ ha, List.flatMap_cons, if_pos rfl] at hfuel ⊢
    cases fuel with
    | zero => simp at hfuel
    | succ fuel =>
      have hdrop : ∀ t : List UInt8,
          (a ++ (d :: rep ++ t)).drop (a.length + (d :: rep).length) = t := fun t => by
        rw [← List.drop_drop, List.drop_left, List.drop_left]
      simp only [List.length_append, List.length_cons] at hfuel
      simp only [countRep, strstr_append rep _ hd.1, replaceLoop, Option.getD_some, hdrop]
      rw [ih hd.2.2 fuel (by omega), List.take_left, List.append_assoc, List.singleton_append]

theorem nl2br_append (a b : List UInt8) : nl2br (a ++ b) = nl2br a ++ nl2br b := by
  rw [nl2br_eq, nl2br_eq, nl2br_eq, List.flatMap_append]

/-- A text without newlines in front. -/
theorem nl2br_front {a : List UInt8} (ha : nl ∉ a) (b : List UInt8) :
    nl2br (a ++ b) = a ++ nl2br b := by
  rw [nl2br_append, nl2br_of_notMem ha]

/-- **The body of a text**, piece by piece. -/
theorem bodyText_body : ∀ m : List UInt8, BodyText (bodyOf m)
  | [] => .nil
  | c :: p => by
    have ih := bodyText_body p
    change BodyText (nl2br (htmlspecialchars (c :: p)))
    have href : ∀ r ∈ references, nl ∉ amp :: r →
        BodyText (nl2br (amp :: r ++ htmlspecialchars p)) := by
      intro r hr hnl
      rw [nl2br_front hnl]
      exact .ref hr ih
    rw [htmlspecialchars]
    split_ifs with hl hg hq ha
    · exact href (lit "lt;") (by decide) (by decide)
    · exact href (lit "gt;") (by decide) (by decide)
    · exact href (lit "quot;") (by decide) (by decide)
    · exact href (lit "amp;") (by decide) (by decide)
    · rw [nl2br_eq, List.flatMap_cons, ← nl2br_eq]
      by_cases hnl : c = nl
      · rw [if_pos hnl]
        exact .br ih
      · rw [if_neg hnl]
        exact .byte hl hg ha ih

theorem decodeBody_body (m : List UInt8) : decodeBody (bodyOf m) = m := by
  have hlt : lt ∉ htmlspecialchars m := (inert_htmlspecialchars m).lt_notMem
  have hbr : strReplace (nl2br (htmlspecialchars m)) (lit "<br/>") [nl] = htmlspecialchars m := by
    rw [nl2br_eq]
    exact strReplace_flatMap (lit "br/>") hlt
  change decodeEntities (strReplace (nl2br (htmlspecialchars m)) (lit "<br/>") [nl]) = m
  rw [hbr, decodeEntities_htmlspecialchars]

/-- **The body determines the message**: it consists of `<br/>`, the four references and other bytes
than `<`, `>` and `&`, it is decoded to the message, and no other message has the same. -/
theorem body_lossless (m : List UInt8) :
    BodyText (bodyOf m) ∧ decodeBody (bodyOf m) = m ∧ ∀ m', bodyOf m' = bodyOf m → m' = m := by
  refine ⟨bodyText_body m, decodeBody_body m, fun m' h => ?_⟩
  rw [← decodeBody_body m', h, decodeBody_body]

example : bodyOf (lit "a<br/>\n&lt;") = lit "a&lt;br/&gt;<br/>&amp;lt;" := by decide

/-! ### The sizes of titles -/

/-- The bytes of an escaped title with its terminator. -/
def titleSize (title : List UInt8) : ℕ := (htmlspecialchars title).length + 1

/-- What `add_to_list` allocates for the title. -/
def allocated (title : List UInt8) : ℕ := title.length * 2

/-- `char buf[1024]` in `initiate_html`. -/
def initiateSize : ℕ := 1024

/-- The escaped title fits where it is written to. -/
def TitleFits (title : List UInt8) : Prop :=
  titleSize title ≤ allocated title ∧ (title.length < initiateSize → titleSize title ≤ initiateSize)

/-- The memory of `add_to_list` is that of its model. -/
theorem fits_title {c : Chat} (h : Fits c) : titleSize c.title ≤ allocated c.title := h.1

/-- **A title fits** exactly when escaping adds fewer bytes than the title has, and fewer than are
left in the buffer of `initiate_html` if the title itself has room there. -/
theorem title_fits_iff (title : List UInt8) : TitleFits title ↔
    3 * (title.count lt + title.count gt) + 5 * title.count quot + 4 * title.count amp <
        title.length ∧
      (title.length < initiateSize → 3 * (title.count lt + title.count gt) +
        5 * title.count quot + 4 * title.count amp < initiateSize - title.length) := by
  change TitleFits title ↔ added title < title.length ∧
    (title.length < initiateSize → added title < initiateSize - title.length)
  unfold TitleFits titleSize allocated
  rw [length_htmlspecialchars_eq]
  omega

/-- The title `"` takes seven bytes, and two are allocated. -/
theorem quote_overflows : ¬ TitleFits (lit "\"") ∧ titleSize (lit "\"") = 7 ∧
    allocated (lit "\"") = 2 := by
  refine ⟨fun h => ?_, by decide, by decide⟩
  exact absurd h.1 (by decide)

end TelegramCli.Telegrab.EscapedText
