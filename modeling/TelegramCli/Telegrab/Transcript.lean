import TelegramCli.Lib.Pieces
import TelegramCli.Telegrab.Dialogs
import TelegramCli.Telegrab.EscapedText

/-! # Reading the archive

The file of a chat holds its messages one after the other, each as the fragment that was appended
when it arrived. `transcript` reads such a file: it is cut at the names of the messages, and each
part is searched for the other marks that a fragment has. When no string that is printed as it is
has a `<`, and a preview of a link comes with a text, it finds what was written: the messages of the
chat and no others, in the order in which they were archived (`run_transcript`). -/

namespace TelegramCli.Telegrab.Transcript

open TelegramCli.Lib.CNumber TelegramCli.Lib.CString TelegramCli.Lib.Pieces TelegramCli.Lib.Tags
open TelegramCli.Tgl TelegramCli.Telegrab.Escape TelegramCli.Telegrab.DumpHtml
open TelegramCli.Telegrab.Skeleton TelegramCli.Telegrab.RawStrings
open TelegramCli.Telegrab.ArchiveFiles TelegramCli.Telegrab.EscapedText

/-! ### The reader -/

/-- What the archive tells of a message. The number of the message, of the one it is a reply to, and
the date are as printed. -/
structure Entry where
  id : List UInt8
  sent : Bool
  forwarded : Bool
  reply : Option (List UInt8)
  text : List UInt8
  date : List UInt8
  deriving DecidableEq, Repr

/-- Behind the `<` of the tag that names a message. -/
def nameMark : List UInt8 := lit "a name='message_"

@[inherit_doc nameMark] def dateMark : List UInt8 := lit "span class='date'>"

@[inherit_doc nameMark] def boxMark : List UInt8 := lit "div class='message "

@[inherit_doc nameMark] def forwardMark : List UInt8 := lit "div class='sysem'>Forwarded from "

@[inherit_doc nameMark] def replyMark : List UInt8 :=
  lit "div class='sysem'>Reply to <a href='#message_"

@[inherit_doc nameMark] def contentMark : List UInt8 := lit "div class='content'"

/-- The text in front of the first `c`. -/
def upTo (c : UInt8) (s : List UInt8) : List UInt8 := s.takeWhile (· ≠ c)

/-- The text behind the first mark, if there is one. -/
def behind (mark s : List UInt8) : Option (List UInt8) := (cut (lt :: mark) s).map Prod.snd

/-- What stands in a `div`, behind the name of its tag. -/
def contentOf (s : List UInt8) : List UInt8 := decodeBody ((s.dropWhile (· ≠ gt)).drop 1)

/-- The text of a message stands in the last `div` of its content, whose tag is indented; a medium
has such a `div` without the indentation. -/
def textOf (s : List UInt8) : List UInt8 :=
  match (pieces (lt :: contentMark) s).1.getLast? with
  | some front =>
    if front.getLast? = some 9 then contentOf (pieces (lt :: contentMark) s).2 else []
  | none => []

/-- What stands behind the name of a message. -/
def readEntry (s : List UInt8) : Entry :=
  let p := (cut (lt :: dateMark) s).getD (s, [])
  { id := upTo 39 p.1
    sent := (behind boxMark p.1).elim false (lit "send").isPrefixOf
    forwarded := (behind forwardMark p.1).isSome
    reply := (behind replyMark p.1).map (upTo 39)
    text := textOf p.1
    date := upTo lt p.2 }

/-- **The messages of a file**. -/
def transcript (s : List UInt8) : List Entry := ((parts (lt :: nameMark) s).drop 1).map readEntry

/-! ### What is written -/

/-- The message is shown as one of ours. -/
def shownSent (E : Env) (M : Message) : Bool :=
  if M.toId.peerType = .user then M.out
  else isGroup M.toId.peerType && (shownSender E M).join.isNone

/-- What the archive should tell of a message. -/
def entry (E : Env) (M : Message) : Entry where
  id := decimal M.permanentId
  sent := shownSent E M
  forwarded := peerTypePos M.fwdFromId.peerType
  reply := if M.replyId ≠ 0 then some (decimal M.replyId) else none
  text := M.message.getD []
  date := date2string (E.localtime M.date)

/-- Media whose `div` is indented like that of a text. -/
def indented : Media → Bool
  | .webpage _ _ => true
  | .other => true
  | _ => false

/-- No string printed as it is has a `<`, and a medium shown like a text has a text behind it. -/
structure Legible (E : Env) (M : Message) : Prop where
  raw : ∀ s ∈ rawStrings E M, lt ∉ s
  preview : indented M.media = true → Str.isEmpty M.message = false

/-! ### The marks in the pieces of a fragment -/

/-- The texts of format strings in which none of the marks begins. -/
def Piece.Foreign (marks : List (List UInt8)) : Piece → Prop
  | .text s => (marks.all fun r => decide (Clear lt r s.1)) = true
  | _ => True

instance decidableForeign (marks : List (List UInt8)) : DecidablePred (Piece.Foreign marks)
  | .text _ => inferInstanceAs (Decidable (_ = true))
  | .generated _ => .isTrue trivial
  | .raw _ => .isTrue trivial
  | .escaped _ => .isTrue trivial
  | .body _ => .isTrue trivial

def Foreign (marks : List (List UInt8)) (ps : List Piece) : Prop := ∀ p ∈ ps, Piece.Foreign marks p

instance (marks : List (List UInt8)) (ps : List Piece) : Decidable (Foreign marks ps) :=
  inferInstanceAs (Decidable (∀ p ∈ ps, _))

variable {marks : List (List UInt8)} {ps qs : List Piece}

@[simp] theorem foreign_nil : Foreign marks [] := fun _ h => absurd h List.not_mem_nil

@[simp] theorem foreign_cons {p : Piece} :
    Foreign marks (p :: ps) ↔ Piece.Foreign marks p ∧ Foreign marks ps := List.forall_mem_cons

@[simp] theorem foreign_append :
    Foreign marks (ps ++ qs) ↔ Foreign marks ps ∧ Foreign marks qs := List.forall_mem_append

@[simp] theorem foreign_raw (s : List UInt8) : Piece.Foreign marks (.raw s) := trivial

@[simp] theorem foreign_num (n : ℤ) : Piece.Foreign marks (num n) := trivial

@[simp] theorem foreign_generated (s : Generated) : Piece.Foreign marks (.generated s) := trivial

@[simp] theorem foreign_escaped (s : List UInt8) : Piece.Foreign marks (.escaped s) := trivial

@[simp] theorem foreign_body (s : List UInt8) : Piece.Foreign marks (.body s) := trivial

/-- The marks that begin a tag. -/
def allMarks : List (List UInt8) :=
  [nameMark, dateMark, boxMark, forwardMark, replyMark, contentMark]

/-- A text without `<`. -/
theorem foreign_txt {s : String} {h : Settled (lit s)} (hs : lt ∉ lit s) :
    Piece.Foreign marks (txt s h) :=
  List.all_eq_true.mpr fun _ _ => decide_eq_true (clear_of_notMem hs)

@[simp] theorem foreign_str (s : Str) : Piece.Foreign marks (str s) := by
  cases s with
  | none => exact foreign_txt (by decide)
  | some s => trivial

theorem foreign_folder (P : Peer) : Foreign marks (getPeerFilename P ++ [txt "_files"]) := by
  have hpart : ∀ {s : String} {h : Settled (lit s)} {n : ℤ}, lt ∉ lit s →
      Foreign marks ([txt s h, num n] ++ [txt "_files"]) := fun hs => by
    simp only [foreign_append, foreign_cons, foreign_num, foreign_nil, foreign_txt hs, and_true,
      true_and]
    exact foreign_txt (by decide)
  rw [getPeerFilename]
  split <;> exact hpart (by decide)

theorem foreign_extension {d : Document} {ext : Piece} (h : extension d = some ext) :
    Piece.Foreign marks ext := by
  rw [extension] at h
  split_ifs at h
  · exact Option.some.inj h ▸ foreign_txt (by decide)
  · exact Option.some.inj h ▸ foreign_txt (by decide)
  · exact Option.some.inj h ▸ foreign_txt (by decide)
  · exact Option.some.inj h ▸ foreign_txt (by decide)
  · obtain ⟨c, -, rfl⟩ := Option.map_eq_some_iff.mp h
    trivial

theorem foreign_download {E : Env} {folder : List Piece} {ext : Piece} (hf : Foreign marks folder)
    (hext : Piece.Foreign marks ext) : Foreign marks (createDownloadFile E folder ext) := by
  have h1 : Piece.Foreign marks (txt "grab/") := foreign_txt (by decide)
  have h2 : Piece.Foreign marks (txt "/") := foreign_txt (by decide)
  have h3 : Piece.Foreign marks (txt ".") := foreign_txt (by decide)
  simp only [createDownloadFile, foreign_append, foreign_cons, foreign_nil, foreign_num, h1, h2, h3,
    hf, hext, and_true]

theorem foreign_sender (s : Peer) : Foreign allMarks (senderThumbnail s) ∧
    Foreign allMarks (senderName s) := by
  simp only [senderThumbnail, senderName, foreign_cons, foreign_nil, foreign_str, foreign_num,
    foreign_escaped, and_true, true_and]
  decide

/-! ### Clear parts -/

variable {r : List UInt8}

theorem clear_br (hr : r ∈ allMarks) : Clear lt r (lit "<br/>") := by
  have hall : (allMarks.all fun r => decide (Clear lt r (lit "<br/>"))) = true := by decide
  exact of_decide_eq_true (List.all_eq_true.mp hall r hr)

theorem clear_nl2br (hr : r ∈ allMarks) {s : List UInt8} (hs : lt ∉ s) : Clear lt r (nl2br s) := by
  rw [nl2br_eq]
  refine .flatMap fun c hc => ?_
  split_ifs with hnl
  · exact clear_br hr
  · exact clear_of_notMem fun hlt => hs (List.mem_singleton.mp hlt ▸ hc)

/-- **No mark begins in pieces** whose texts have none. -/
theorem clear_html (hr : r ∈ allMarks) (hraw : ∀ s ∈ raws ps, lt ∉ s) (hf : Foreign allMarks ps) :
    Clear lt r (html ps) := by
  refine .flatMap fun p hp => ?_
  have hforeign := hf p hp
  cases p with
  | text s => exact of_decide_eq_true (List.all_eq_true.mp hforeign r hr)
  | generated s => exact clear_of_notMem s.2.1
  | raw s => exact clear_of_notMem (hraw s (mem_raws.mpr hp))
  | escaped s => exact clear_of_notMem (inert_htmlspecialchars s).lt_notMem
  | body s => exact clear_nl2br hr (inert_htmlspecialchars s).lt_notMem

/-- The mark stands between pieces that have none. -/
structure Marked (mark : List UInt8) (ps pre post : List Piece) : Prop where
  bytes : html ps = html pre ++ (lt :: mark ++ html post)
  raw : raws ps = raws pre ++ raws post
  front : Foreign allMarks pre
  back : Foreign allMarks post

/-- The marks are told apart by how they begin. -/
theorem clear_mark (mark : List UInt8) (hmark : mark ∈ allMarks) (hr : r ∈ allMarks)
    (hne : r ≠ mark) : Clear lt r (lt :: mark) := by
  have hall : (allMarks.all fun m => allMarks.all fun r =>
      decide (r ≠ m → Clear lt r (lt :: m))) = true := by decide
  exact of_decide_eq_true (List.all_eq_true.mp (List.all_eq_true.mp hall mark hmark) r hr) hne

/-- The other marks do not begin there. -/
theorem Marked.clear {mark : List UInt8} {pre post : List Piece} (h : Marked mark ps pre post)
    (hmark : mark ∈ allMarks) (hr : r ∈ allMarks) (hne : r ≠ mark)
    (hraw : ∀ s ∈ raws ps, lt ∉ s) : Clear lt r (html ps) := by
  rw [h.raw, List.forall_mem_append] at hraw
  rw [h.bytes]
  exact (clear_html hr hraw.1 h.front).append
    ((clear_mark mark hmark hr hne).append (clear_html hr hraw.2 h.back))

theorem box_marked (M : Message) (own : Bool) :
    Marked boxMark [txt "<div class='message ", operation M own, txt "'>\n"] []
      [operation M own, txt "'>\n"] where
  bytes := rfl
  raw := rfl
  front := foreign_nil
  back := by
    rw [foreign_cons, operation]
    refine ⟨?_, by decide⟩
    split_ifs <;> exact foreign_txt (by decide)

theorem forwarded_marked (fwd : Peer) :
    Marked forwardMark (forwarded fwd) [txt "\t"]
      [txt "<a href='https://telegram.me/", str fwd.username, txt "'>",
        .escaped (getPeerTitle fwd), txt "</a></div>\n"] where
  bytes := rfl
  raw := by simp only [forwarded, raws_txt, raws_nil, List.nil_append]
  front := by decide
  back := by
    simp only [foreign_cons, foreign_nil, foreign_str, foreign_escaped, and_true, true_and]
    decide

theorem reply_marked (n : ℤ) :
    Marked replyMark (reply n) [txt "\t"] [num n, txt "'>", num n, txt "</a></div>\n"] where
  bytes := rfl
  raw := rfl
  front := by decide
  back := by
    simp only [foreign_cons, foreign_nil, foreign_num, and_true, true_and]
    decide

/-! ### The content -/

theorem html_append (ps qs : List Piece) : html (ps ++ qs) = html ps ++ html qs :=
  List.flatMap_append

/-- The `div` of a medium; the text in front of it does not end with a tab unless the `div` is
indented. -/
structure Content (ME : Media) (ps pre post : List Piece) : Prop extends
    Marked contentMark ps pre post where
  indent : indented ME = false → (html pre).getLast? ≠ some 9

theorem document_content {E : Env} {folder : List Piece} {ME : Media} {d : Option Document}
    {caption : Str} (hf : Foreign allMarks folder) (h : documentPart E folder d caption = some ps) :
    ∃ pre post, Content ME ps pre post := by
  obtain ⟨d, rfl, h⟩ := Option.bind_eq_some_iff.mp h
  obtain ⟨ext, hext, h⟩ := Option.bind_eq_some_iff.mp h
  obtain rfl := Option.some.inj h
  refine ⟨[], txt "><a href='../" :: (createDownloadFile E folder ext ++
    [txt "'>", str (if Str.isEmpty caption then d.caption else caption), txt "</a>"]),
    ⟨rfl, rfl, foreign_nil, ?_⟩, fun _ => by decide⟩
  have h1 : Piece.Foreign allMarks (txt "><a href='../") := by decide
  have h2 : Piece.Foreign allMarks (txt "'>") := by decide
  have h3 : Piece.Foreign allMarks (txt "</a>") := by decide
  simp only [foreign_cons, foreign_append, foreign_nil, foreign_str,
    foreign_download hf (foreign_extension hext), h1, h2, h3, and_true]

theorem foreign_field {label : Piece} (hl : Piece.Foreign allMarks label) (s : Str) :
    Foreign allMarks (field label s) := by
  cases s with
  | none => exact foreign_nil
  | some s =>
    have hquote : Piece.Foreign allMarks (txt "'") := by decide
    simp only [field, foreign_cons, foreign_nil, foreign_raw, hl, hquote, and_true]

/-- **Where the content of a medium begins**. -/
theorem media_content {E : Env} {folder : List Piece} (hf : Foreign allMarks folder) {ME : Media}
    (hnone : ME ≠ .none) (h : mediaPart E folder ME = some ps) :
    ∃ pre post, Content ME ps pre post := by
  cases ME with
  | none => exact absurd rfl hnone
  | photo photo caption =>
    obtain ⟨_, -, h⟩ := Option.bind_eq_some_iff.mp h
    obtain rfl := Option.some.inj h
    have himage := foreign_download (E := E) hf (by decide : Piece.Foreign allMarks (txt "jpg"))
    have h1 : Piece.Foreign allMarks (txt "<a href='../") := by decide
    have h2 : Piece.Foreign allMarks (txt "'><img src='../") := by decide
    have h3 : Piece.Foreign allMarks (txt "' class='media' /></a>") := by decide
    refine ⟨[txt "<a href='../"] ++ createDownloadFile E folder (txt "jpg") ++
      [txt "'><img src='../"] ++ createDownloadFile E folder (txt "jpg") ++
      [txt "' class='media' /></a>"], [txt ">", caption.elim (txt "") .raw], ⟨?_, ?_, ?_, ?_⟩, ?_⟩
    · simp only [html_append, List.append_assoc]
      rfl
    · simp only [raws_append, List.append_assoc]
      rfl
    · simp only [foreign_append, foreign_cons, foreign_nil, himage, h1, h2, h3, and_true]
    · rw [foreign_cons, foreign_cons]
      refine ⟨by decide, ?_, foreign_nil⟩
      cases caption with
      | none => exact foreign_txt (by decide)
      | some c => trivial
    · intro _
      have hlast : html [txt "' class='media' /></a>"] = lit "' class='media' /></a" ++ [gt] := rfl
      rw [html_append, hlast, ← List.append_assoc, List.getLast?_concat]
      decide
  | document d caption => exact document_content hf h
  | audio d caption => exact document_content hf h
  | video d caption => exact document_content hf h
  | documentEncr d caption => exact document_content hf h
  | geo g =>
    obtain rfl := Option.some.inj h
    refine ⟨[], [txt "><a href='https://maps.google.com/?q=", .generated (E.fmtReal g.latitude),
      txt ",", .generated (E.fmtReal g.longitude), txt "'>Map Location</a>"],
      ⟨rfl, rfl, foreign_nil, ?_⟩, fun _ => by decide⟩
    simp only [foreign_cons, foreign_nil, foreign_generated, and_true, true_and]
    decide
  | contact phone firstName lastName =>
    obtain rfl := Option.some.inj h
    refine ⟨[], [txt ">Contact: ", str firstName, txt " ", str lastName, txt " (", str phone,
      txt ")"], ⟨rfl, rfl, foreign_nil, ?_⟩, fun _ => by decide⟩
    simp only [foreign_cons, foreign_nil, foreign_str, and_true, true_and]
    decide
  | unsupported =>
    obtain rfl := Option.some.inj h
    exact ⟨[], [txt ">[Unsupported Message]"], ⟨rfl, rfl, foreign_nil, by decide⟩,
      fun _ => by decide⟩
  | webpage webpage caption =>
    obtain ⟨w, -, h⟩ := Option.bind_eq_some_iff.mp h
    obtain rfl := Option.some.inj h
    refine ⟨[txt "\t"], txt ">" ::
      (caption.elim [] (fun c => [txt "<a href='", .raw c, txt "'>", .raw c, txt "</a>"]) ++
      field (txt " url:'") w.url ++ field (txt " title:'") w.title ++
      field (txt " description:'") w.description ++ field (txt " author:'") w.author),
      ⟨rfl, rfl, by decide, ?_⟩, fun h => Bool.noConfusion h⟩
    have hcaption : Foreign allMarks
        (caption.elim [] (fun c => [txt "<a href='", .raw c, txt "'>", .raw c, txt "</a>"])) := by
      cases caption with
      | none => exact foreign_nil
      | some c =>
        simp only [Option.elim_some, foreign_cons, foreign_nil, foreign_raw, and_true, true_and]
        decide
    simp only [foreign_cons, foreign_append, and_assoc]
    exact ⟨by decide, hcaption, foreign_field (by decide) _, foreign_field (by decide) _,
      foreign_field (by decide) _, foreign_field (by decide) _⟩
  | venue g title address provider venueId =>
    obtain rfl := Option.some.inj h
    refine ⟨[], [txt "><a href='https://maps.google.com/?q=", .generated (E.fmtReal g.latitude),
      txt ",", .generated (E.fmtReal g.longitude), txt "'>Venue</a>"] ++
      field (txt " title:'") title ++ field (txt " address:'") address ++
      field (txt " provider:'") provider ++ field (txt " id:'") venueId,
      ⟨rfl, rfl, foreign_nil, ?_⟩, fun _ => by decide⟩
    simp only [foreign_append, and_assoc]
    refine ⟨?_, foreign_field (by decide) _, foreign_field (by decide) _,
      foreign_field (by decide) _, foreign_field (by decide) _⟩
    simp only [foreign_cons, foreign_nil, foreign_generated, and_true, true_and]
    decide
  | other =>
    obtain rfl := Option.some.inj h
    exact ⟨[txt "\t"], [txt ">", txt "[Unknown Media]"], ⟨rfl, rfl, by decide, by decide⟩,
      fun h => absurd h (by decide)⟩

/-! ### The parts of a fragment -/

variable {E : Env} {M : Message} {sender fwd : Option Peer} {media : List Piece}

theorem settled_headEnd : Settled (lit "'></a>") := by decide

theorem settled_boxBegin : Settled (lit "<div class='message ") := by decide

theorem settled_boxEnd : Settled (lit "'>\n") := by decide

theorem settled_dateEnd : Settled (lit "</span></div>") := by decide

theorem settled_noteBegin : Settled (lit "</div><!-- msgid: ") := by decide

theorem settled_noteEnd : Settled (lit " --></div>\n") := by decide

theorem plain_date (E : Env) (M : Message) : Plain (date2string (E.localtime M.date)) :=
  plain_of_numeric (date2string_numeric _)

def headPart (M : Message) (sender : Option Peer) : List Piece :=
  [num M.permanentId, txt "'></a>" settled_headEnd] ++ sender.elim [] senderThumbnail

def boxPart (M : Message) (sender : Option Peer) : List Piece :=
  [txt "<div class='message " settled_boxBegin, operation M sender.isNone,
    txt "'>\n" settled_boxEnd]

def namePart (sender : Option Peer) : List Piece := sender.elim [] senderName

def forwardPart (fwd : Option Peer) : List Piece := fwd.elim [] forwarded

def replyPart (M : Message) : List Piece := if M.replyId ≠ 0 then reply M.replyId else []

/-- What stands between the name of the message and its date. -/
def inside (E : Env) (M : Message) (sender fwd : Option Peer) (media : List Piece) : List Piece :=
  headPart M sender ++ (boxPart M sender ++ (namePart sender ++ (forwardPart fwd ++
    (replyPart M ++ (media ++ bodyPart E M.message)))))

/-- What stands behind the tag of the date. -/
def datePart (E : Env) (M : Message) : List Piece :=
  [ .generated ⟨date2string (E.localtime M.date), plain_date E M⟩,
    txt "</span></div>" settled_dateEnd, txt "</div><!-- msgid: " settled_noteBegin,
    num M.permanentId, txt " --></div>\n" settled_noteEnd ]

def container : List UInt8 := lit "<div class='message_container'>"

/-- Behind the mark of the name. -/
def record (E : Env) (M : Message) (sender fwd : Option Peer) (media : List Piece) : List UInt8 :=
  html (inside E M sender fwd media) ++ (lt :: dateMark ++ html (datePart E M))

/-- **A fragment is a container and a record**, the mark of the name between them. -/
theorem dump_record (h : dumpMessageHtml E M = some ps) : ∃ sender fwd media chat,
    shownSender E M = some sender ∧ forwardedFrom E M = some fwd ∧
    mediaPart E (getPeerFilename chat ++ [txt "_files"]) M.media = some media ∧
    raws ps = raws (inside E M sender fwd media) ∧
    html ps = container ++ (lt :: nameMark ++ record E M sender fwd media) := by
  obtain ⟨sender, hsender, h⟩ := Option.bind_eq_some_iff.mp h
  obtain ⟨chat, -, h⟩ := Option.bind_eq_some_iff.mp h
  obtain ⟨fwd, hfwd, h⟩ := Option.bind_eq_some_iff.mp h
  obtain ⟨media, hmedia, h⟩ := Option.bind_eq_some_iff.mp h
  obtain rfl := Option.some.inj h
  refine ⟨sender, fwd, media, chat, hsender, hfwd, hmedia, ?_, ?_⟩
  · simp only [inside, headPart, boxPart, namePart, forwardPart, replyPart, raws_append, raws_txt,
      raws_num, raws_generated, raws_nil, List.append_nil, List.nil_append, List.append_assoc]
  · simp only [record, inside, headPart, boxPart, namePart, forwardPart, replyPart, datePart,
      html_append, List.append_assoc]
    rfl

/-- Nothing, or pieces with the mark. -/
def AtMost (mark : List UInt8) (ps : List Piece) : Prop :=
  ps = [] ∨ ∃ pre post, Marked mark ps pre post

theorem AtMost.clear {mark : List UInt8} (h : AtMost mark ps) (hmark : mark ∈ allMarks)
    (hr : r ∈ allMarks) (hne : r ≠ mark) (hraw : ∀ s ∈ raws ps, lt ∉ s) : Clear lt r (html ps) := by
  rcases h with rfl | ⟨pre, post, h⟩
  · exact trivial
  · exact h.clear hmark hr hne hraw

theorem foreign_headPart (M : Message) (sender : Option Peer) :
    Foreign allMarks (headPart M sender) := by
  rw [headPart, foreign_append, foreign_cons]
  refine ⟨⟨trivial, by decide⟩, ?_⟩
  cases sender with
  | none => exact foreign_nil
  | some s => exact (foreign_sender s).1

theorem foreign_namePart (sender : Option Peer) : Foreign allMarks (namePart sender) := by
  cases sender with
  | none => exact foreign_nil
  | some s => exact (foreign_sender s).2

theorem forwardPart_atMost (fwd : Option Peer) : AtMost forwardMark (forwardPart fwd) := by
  cases fwd with
  | none => exact .inl rfl
  | some p => exact .inr ⟨_, _, forwarded_marked p⟩

theorem replyPart_atMost (M : Message) : AtMost replyMark (replyPart M) := by
  unfold replyPart
  split_ifs
  · exact .inr ⟨_, _, reply_marked M.replyId⟩
  · exact .inl rfl

theorem body_marked (E : Env) (c : UInt8) (m : List UInt8) :
    Marked contentMark (bodyPart E (some (c :: m))) [txt "\t"]
      [if E.u8IsRtl (c :: m) then txt " dir='rtl'" else txt "", txt ">", .body (c :: m)] where
  bytes := rfl
  raw := by
    rw [raws_bodyPart]
    split_ifs <;> rfl
  front := by decide
  back := by
    rw [foreign_cons, foreign_cons, foreign_cons]
    refine ⟨?_, by decide, trivial, foreign_nil⟩
    split_ifs <;> exact foreign_txt (by decide)

theorem bodyPart_atMost (E : Env) (message : Str) : AtMost contentMark (bodyPart E message) := by
  match message with
  | none => exact .inl rfl
  | some [] => exact .inl rfl
  | some (c :: m) => exact .inr ⟨_, _, body_marked E c m⟩

theorem media_atMost {folder : List Piece} (hf : Foreign allMarks folder) {ME : Media}
    (h : mediaPart E folder ME = some ps) : AtMost contentMark ps := by
  by_cases hnone : ME = .none
  · subst hnone
    exact .inl (Option.some.inj h).symm
  · obtain ⟨pre, post, hcontent⟩ := media_content hf hnone h
    exact .inr ⟨pre, post, hcontent.toMarked⟩

theorem behind_append {mark s : List UInt8} (h : Clear lt mark s) (t : List UInt8) :
    behind mark (s ++ (lt :: mark ++ t)) = some t := by
  rw [behind, h.cut]
  rfl

theorem behind_none {mark s : List UInt8} (h : Clear lt mark s) : behind mark s = none := by
  rw [behind, h.cut_none]
  rfl

theorem upTo_append {c : UInt8} {s : List UInt8} (hs : c ∉ s) (t : List UInt8) :
    upTo c (s ++ c :: t) = s := by
  have hall : ∀ d ∈ s, decide (d ≠ c) = true := fun d hd =>
    decide_eq_true fun hdc => hs (hdc ▸ hd)
  rw [upTo, List.takeWhile_append_of_pos hall, List.takeWhile_cons_of_neg (by simp),
    List.append_nil]

theorem upTo_decimal (n : ℤ) (t : List UInt8) : upTo 39 (decimal n ++ 39 :: t) = decimal n :=
  upTo_append (fun hmem => absurd (List.all_eq_true.mp (decimal_numeric n) 39 hmem) (by decide)) t

/-- What stands behind the mark of a part. -/
theorem Marked.behind {mark s : List UInt8} {pre post : List Piece} (h : Marked mark ps pre post)
    (hmark : mark ∈ allMarks) (hraw : ∀ s ∈ raws ps, lt ∉ s) (hs : Clear lt mark s)
    (t : List UInt8) : behind mark (s ++ (html ps ++ t)) = some (html post ++ t) := by
  rw [h.raw, List.forall_mem_append] at hraw
  have hbytes : s ++ (html ps ++ t) = s ++ html pre ++ (lt :: mark ++ (html post ++ t)) := by
    rw [h.bytes]
    simp only [List.append_assoc]
  rw [hbytes, behind_append (hs.append (clear_html hmark hraw.1 h.front))]

/-! ### What is read of each part -/

theorem html_inside : html (inside E M sender fwd media) =
    html (headPart M sender ++ (boxPart M sender ++ namePart sender)) ++ (html (forwardPart fwd) ++
      (html (replyPart M) ++ html (media ++ bodyPart E M.message))) := by
  simp only [inside, html_append, List.append_assoc]

section Parts

variable (hraw : ∀ s ∈ raws (inside E M sender fwd media), lt ∉ s)
  (hmedia : AtMost contentMark media)

include hraw

theorem raw_parts : (∀ s ∈ raws (headPart M sender), lt ∉ s) ∧
    (∀ s ∈ raws (boxPart M sender), lt ∉ s) ∧ (∀ s ∈ raws (namePart sender), lt ∉ s) ∧
    (∀ s ∈ raws (forwardPart fwd), lt ∉ s) ∧ (∀ s ∈ raws (replyPart M), lt ∉ s) ∧
    (∀ s ∈ raws media, lt ∉ s) ∧ ∀ s ∈ raws (bodyPart E M.message), lt ∉ s := by
  simpa only [inside, raws_append, List.forall_mem_append] using hraw

theorem clear_head (hr : r ∈ allMarks) : Clear lt r (html (headPart M sender)) :=
  clear_html hr (raw_parts hraw).1 (foreign_headPart M sender)

/-- In front of the forwarding there is only the mark of the box. -/
theorem clear_name (hr : r ∈ allMarks) (hbox : r ≠ boxMark) :
    Clear lt r (html (headPart M sender ++ (boxPart M sender ++ namePart sender))) := by
  have hparts := raw_parts hraw
  rw [html_append, html_append]
  exact (clear_head hraw hr).append
    (((box_marked M sender.isNone).clear (by decide) hr hbox hparts.2.1).append
      (clear_html hr hparts.2.2.1 (foreign_namePart sender)))

theorem sent_inside (hsender : shownSender E M = some sender) :
    (behind boxMark (html (inside E M sender fwd media))).elim false (lit "send").isPrefixOf =
      shownSent E M := by
  have hbytes : html (inside E M sender fwd media) = html (headPart M sender) ++
      (html (boxPart M sender) ++ html (namePart sender ++
        (forwardPart fwd ++ (replyPart M ++ (media ++ bodyPart E M.message))))) := by
    rw [inside, html_append, html_append]
  rw [hbytes, boxPart, (box_marked M sender.isNone).behind (by decide) (raw_parts hraw).2.1
    (clear_head hraw (by decide)), shownSent, hsender, Option.join_some]
  have hsend : ∀ t, (lit "send").isPrefixOf (html [txt "send", txt "'>\n"] ++ t) = true :=
    fun _ => rfl
  have hreceive : ∀ t, (lit "send").isPrefixOf (html [txt "receive", txt "'>\n"] ++ t) = false :=
    fun _ => rfl
  rw [Option.elim_some, operation]
  by_cases huser : M.toId.peerType = .user
  · rw [if_pos huser, if_pos huser]
    cases M.out
    · exact hreceive _
    · exact hsend _
  · rw [if_neg huser, if_neg huser]
    cases isGroup M.toId.peerType && sender.isNone
    · exact hreceive _
    · exact hsend _

include hmedia

/-- The media and the text have only the mark of the content. -/
theorem clear_content (hr : r ∈ allMarks) (hcontent : r ≠ contentMark) :
    Clear lt r (html (media ++ bodyPart E M.message)) := by
  have hparts := raw_parts hraw
  rw [html_append]
  exact (hmedia.clear (by decide) hr hcontent hparts.2.2.2.2.2.1).append
    ((bodyPart_atMost E M.message).clear (by decide) hr hcontent hparts.2.2.2.2.2.2)

/-- **The marks of a message** are in the order of its parts. -/
theorem clear_inside (hr : r ∈ [nameMark, dateMark]) :
    Clear lt r (html (inside E M sender fwd media)) := by
  have hparts := raw_parts hraw
  have hother : r ∈ allMarks ∧ r ≠ boxMark ∧ r ≠ forwardMark ∧ r ≠ replyMark ∧ r ≠ contentMark := by
    rcases List.mem_pair.mp hr with rfl | rfl <;> decide
  obtain ⟨hall, hbox, hforward, hreply, hcontent⟩ := hother
  have hfront := clear_name hraw hall hbox
  rw [html_inside]
  exact hfront.append
    (((forwardPart_atMost fwd).clear (by decide) hall hforward hparts.2.2.2.1).append
      (((replyPart_atMost M).clear (by decide) hall hreply hparts.2.2.2.2.1).append
        (clear_content hraw hmedia hall hcontent)))

theorem forwarded_inside (hfwd : forwardedFrom E M = some fwd) :
    (behind forwardMark (html (inside E M sender fwd media))).isSome =
      peerTypePos M.fwdFromId.peerType := by
  have hparts := raw_parts hraw
  have hfront := clear_name hraw (r := forwardMark) (by decide) (by decide)
  rw [html_inside]
  unfold forwardedFrom at hfwd
  split_ifs at hfwd with hpos
  · obtain ⟨p, -, rfl⟩ := Option.map_eq_some_iff.mp hfwd
    rw [forwardPart, Option.elim_some, (forwarded_marked p).behind (by decide) hparts.2.2.2.1
      hfront, hpos]
    rfl
  · obtain rfl := Option.some.inj hfwd
    have hpos : peerTypePos M.fwdFromId.peerType = false := Bool.eq_false_iff.mpr hpos
    rw [behind_none, hpos]
    · rfl
    · exact hfront.append (.append trivial
        (((replyPart_atMost M).clear (by decide) (by decide) (by decide) hparts.2.2.2.2.1).append
          (clear_content hraw hmedia (by decide) (by decide))))

theorem reply_inside : (behind replyMark (html (inside E M sender fwd media))).map (upTo 39) =
    if M.replyId ≠ 0 then some (decimal M.replyId) else none := by
  have hparts := raw_parts hraw
  have hfront := (clear_name hraw (r := replyMark) (by decide) (by decide)).append
    ((forwardPart_atMost fwd).clear (r := replyMark) (by decide) (by decide) (by decide)
      hparts.2.2.2.1)
  rw [html_inside, ← List.append_assoc, replyPart]
  split_ifs with hreply
  · have hbytes : html [num M.replyId, txt "'>", num M.replyId, txt "</a></div>\n"] =
        decimal M.replyId ++ 39 :: (gt :: html [num M.replyId, txt "</a></div>\n"]) := rfl
    have hreplyRaw : ∀ s ∈ raws (reply M.replyId), lt ∉ s := fun s hs => absurd hs List.not_mem_nil
    rw [(reply_marked M.replyId).behind (by decide) hreplyRaw hfront, Option.map_some, hbytes,
      List.append_assoc, List.cons_append, upTo_decimal]
  · rw [behind_none]
    · rfl
    · exact hfront.append (.append trivial (clear_content hraw hmedia (by decide) (by decide)))

omit hraw hmedia in
theorem id_inside : upTo 39 (html (inside E M sender fwd media)) = decimal M.permanentId := by
  rw [inside, headPart, html_append, html_append, html_append]
  have hbytes : html [num M.permanentId, txt "'></a>"] =
      decimal M.permanentId ++ 39 :: lit "></a>" := rfl
  rw [hbytes, List.append_assoc, List.append_assoc, List.cons_append, upTo_decimal]

end Parts

/-! ### The text -/

/-- One `div`. -/
theorem textOf_one {s t : List UInt8} (hs : Clear lt contentMark s) (ht : Clear lt contentMark t) :
    textOf (s ++ (lt :: contentMark ++ t)) =
      if s.getLast? = some 9 then contentOf t else [] := by
  have hpieces : pieces (lt :: contentMark) (s ++ (lt :: contentMark ++ t)) = ([s], t) := by
    rw [pieces_of_some (List.cons_ne_nil _ _) (hs.cut t), pieces_of_none ht.cut_none]
  rw [textOf, hpieces]
  rfl

/-- Two of them. -/
theorem textOf_two {s t u : List UInt8} (hs : Clear lt contentMark s)
    (ht : Clear lt contentMark t) (hu : Clear lt contentMark u) :
    textOf (s ++ (lt :: contentMark ++ (t ++ (lt :: contentMark ++ u)))) =
      if t.getLast? = some 9 then contentOf u else [] := by
  have hpieces : pieces (lt :: contentMark) (s ++ (lt :: contentMark ++
      (t ++ (lt :: contentMark ++ u)))) = ([s, t], u) := by
    rw [pieces_of_some (List.cons_ne_nil _ _) (hs.cut _),
      pieces_of_some (List.cons_ne_nil _ _) (ht.cut _), pieces_of_none hu.cut_none]
  rw [textOf, hpieces]
  rfl

theorem textOf_none {s : List UInt8} (hs : Clear lt contentMark s) : textOf s = [] := by
  rw [textOf, pieces_of_none hs.cut_none]
  rfl

/-- The `div` of a text gives the text back. -/
theorem contentOf_body (E : Env) (c : UInt8) (m : List UInt8) :
    contentOf (html [if E.u8IsRtl (c :: m) then txt " dir='rtl'" else txt "", txt ">",
      .body (c :: m)]) = c :: m := by
  have hbytes : ∀ s h, html [txt s h, txt ">", .body (c :: m)] =
      lit s ++ gt :: (bodyOf (c :: m) ++ []) := fun _ _ => rfl
  have hdrop : ∀ s : List UInt8, gt ∉ s → ∀ t,
      ((s ++ gt :: t).dropWhile (· ≠ gt)).drop 1 = t := by
    intro s hs t
    have hall : ∀ d ∈ s, decide (d ≠ gt) = true := fun d hd =>
      decide_eq_true fun hdc => hs (hdc ▸ hd)
    rw [List.dropWhile_append_of_pos hall, List.dropWhile_cons_of_neg (by simp), List.drop_succ_cons,
      List.drop_zero]
  rw [contentOf]
  split_ifs
  · rw [hbytes, hdrop _ (by decide), List.append_nil, decodeBody_body]
  · rw [hbytes, hdrop _ (by decide), List.append_nil, decodeBody_body]

/-- The pieces end their line, if there are any. -/
def EndsLine (ps : List Piece) : Prop := ps = [] ∨ (html ps).getLast? = some nl

theorem EndsLine.append (h : (html ps).getLast? = some nl) (hq : EndsLine qs) :
    (html (ps ++ qs)).getLast? = some nl := by
  rw [html_append, List.getLast?_append]
  rcases hq with rfl | hq
  · exact h
  · rw [hq]
    rfl

theorem endsLine_tag (ps : List Piece) :
    (html (ps ++ [txt "</a></div>\n"])).getLast? = some nl := by
  rw [html_append, List.getLast?_append]
  rfl

/-- A medium begins on a line of its own. -/
theorem front_endsLine (M : Message) (sender fwd : Option Peer) :
    (html (headPart M sender ++ (boxPart M sender ++ namePart sender) ++
      (forwardPart fwd ++ replyPart M))).getLast? = some nl := by
  have hbox : (html (headPart M sender ++ boxPart M sender)).getLast? = some nl := by
    have hlast : boxPart M sender =
      [txt "<div class='message ", operation M sender.isNone] ++ [txt "'>\n"] := rfl
    rw [hlast, ← List.append_assoc, html_append, List.getLast?_append]
    rfl
  have hname : EndsLine (namePart sender) := by
    cases sender with
    | none => exact .inl rfl
    | some s => exact .inr (endsLine_tag [txt "\t<div class='sysem'><a href='https://telegram.me/",
        str s.username, txt "'>", .escaped (getPeerTitle s)])
  have hforward : EndsLine (forwardPart fwd) := by
    cases fwd with
    | none => exact .inl rfl
    | some p => exact .inr (endsLine_tag [
        txt "\t<div class='sysem'>Forwarded from <a href='https://telegram.me/", str p.username,
        txt "'>", .escaped (getPeerTitle p)])
  have hreply : EndsLine (replyPart M) := by
    unfold replyPart
    split_ifs
    · exact .inr (endsLine_tag [txt "\t<div class='sysem'>Reply to <a href='#message_",
        num M.replyId, txt "'>", num M.replyId])
    · exact .inl rfl
  rw [← List.append_assoc, ← List.append_assoc]
  exact EndsLine.append (EndsLine.append (EndsLine.append hbox hname) hforward) hreply

/-- What stands in front of the media. -/
theorem clear_front (hraw : ∀ s ∈ raws (inside E M sender fwd media), lt ∉ s) :
    Clear lt contentMark (html (headPart M sender ++ (boxPart M sender ++ namePart sender) ++
      (forwardPart fwd ++ replyPart M))) := by
  have hparts := raw_parts hraw
  rw [html_append, html_append (forwardPart fwd)]
  exact (clear_name hraw (by decide) (by decide)).append
    (((forwardPart_atMost fwd).clear (by decide) (by decide) (by decide) hparts.2.2.2.1).append
      ((replyPart_atMost M).clear (by decide) (by decide) (by decide) hparts.2.2.2.2.1))

/-- A `div` of the media without a text behind it. -/
theorem textOf_content {ME : Media} {pre post : List Piece} {s : List UInt8}
    (h : Content ME ps pre post) (hplain : indented ME = false) (hraw : ∀ s ∈ raws ps, lt ∉ s)
    (hs : Clear lt contentMark s) (hline : s.getLast? = some nl) : textOf (s ++ html ps) = [] := by
  have hbytes := h.bytes
  rw [h.raw, List.forall_mem_append] at hraw
  have hlast : (s ++ html pre).getLast? ≠ some 9 := by
    rw [List.getLast?_append, hline]
    cases hpre : (html pre).getLast? with
    | none => decide
    | some c => exact fun h9 => h.indent hplain (hpre.trans h9)
  rw [hbytes, ← List.append_assoc, textOf_one (hs.append (clear_html (by decide) hraw.1 h.front))
    (clear_html (by decide) hraw.2 h.back), if_neg hlast]

/-- A text behind what is clear, or behind a `div`. -/
theorem textOf_body {s : List UInt8} (hmedia : AtMost contentMark ps)
    (hraw : ∀ s ∈ raws ps, lt ∉ s) (hs : Clear lt contentMark s) (E : Env) (c : UInt8)
    (m : List UInt8) :
    textOf (s ++ (html ps ++ html (bodyPart E (some (c :: m))))) = c :: m := by
  have hbody := body_marked E c m
  have htab : Clear lt contentMark (html [txt "\t"]) := clear_of_notMem (by decide)
  have hnone : raws [if E.u8IsRtl (c :: m) then txt " dir='rtl'" else txt "", txt ">",
      .body (c :: m)] = [] := by
    split_ifs <;> rfl
  have htail := clear_html (r := contentMark) (by decide)
    (fun s hs => absurd hs (hnone ▸ List.not_mem_nil)) hbody.back
  have hlast : ∀ t : List UInt8, (t ++ html [txt "\t"]).getLast? = some 9 :=
    fun t => List.getLast?_concat
  rcases hmedia with rfl | ⟨pre, post, h⟩
  · have hbytes : s ++ (html [] ++ html (bodyPart E (some (c :: m)))) = s ++ html [txt "\t"] ++
        (lt :: contentMark ++ html [if E.u8IsRtl (c :: m) then txt " dir='rtl'" else txt "",
          txt ">", .body (c :: m)]) := by
      rw [hbody.bytes, List.append_assoc]
      rfl
    rw [hbytes, textOf_one (hs.append htab) htail, if_pos (hlast s), contentOf_body]
  · have hbytes : s ++ (html ps ++ html (bodyPart E (some (c :: m)))) = s ++ html pre ++
        (lt :: contentMark ++ (html post ++ html [txt "\t"] ++
          (lt :: contentMark ++ html [if E.u8IsRtl (c :: m) then txt " dir='rtl'" else txt "",
            txt ">", .body (c :: m)]))) := by
      rw [hbody.bytes, h.bytes]
      simp only [List.append_assoc]
    rw [h.raw, List.forall_mem_append] at hraw
    rw [hbytes, textOf_two (hs.append (clear_html (by decide) hraw.1 h.front))
      ((clear_html (by decide) hraw.2 h.back).append htab) htail, if_pos (hlast _),
      contentOf_body]

/-- **The text is found**, if there is one or the media are not shown like one. -/
theorem text_inside {folder : List Piece} (hf : Foreign allMarks folder)
    (hraw : ∀ s ∈ raws (inside E M sender fwd media), lt ∉ s)
    (hmedia : mediaPart E folder M.media = some media)
    (hpreview : indented M.media = true → Str.isEmpty M.message = false) :
    textOf (html (inside E M sender fwd media)) = M.message.getD [] := by
  have hfront := clear_front hraw
  have hline := front_endsLine M sender fwd
  have hmediaRaw := (raw_parts hraw).2.2.2.2.2.1
  have hbytes : html (inside E M sender fwd media) =
      html (headPart M sender ++ (boxPart M sender ++ namePart sender) ++
        (forwardPart fwd ++ replyPart M)) ++ (html media ++ html (bodyPart E M.message)) := by
    simp only [inside, html_append, List.append_assoc]
  have hplain : bodyPart E M.message = [] → Str.isEmpty M.message = true →
      textOf (html (inside E M sender fwd media)) = [] := by
    intro hbody hempty
    have hindent : indented M.media = false := by
      cases hind : indented M.media with
      | false => rfl
      | true => exact absurd (hpreview hind) (by rw [hempty]; decide)
    rw [hbytes, hbody]
    by_cases hnone : M.media = .none
    · rw [hnone] at hmedia
      obtain rfl := Option.some.inj hmedia
      rw [textOf_none]
      exact hfront.append trivial
    · obtain ⟨pre, post, hcontent⟩ := media_content hf hnone hmedia
      have hnil : html media ++ html [] = html media := List.append_nil _
      rw [hnil, textOf_content hcontent hindent hmediaRaw hfront hline]
  rcases hmessage : M.message with _ | _ | ⟨c, m⟩
  · exact hplain (by rw [hmessage]; rfl) (by rw [hmessage]; rfl)
  · exact hplain (by rw [hmessage]; rfl) (by rw [hmessage]; rfl)
  · rw [hbytes, hmessage, textOf_body (media_atMost hf hmedia) hmediaRaw hfront]
    rfl

/-! ### Records -/

/-- **A record is read**, whatever follows it. -/
theorem readEntry_record {folder : List Piece} (hf : Foreign allMarks folder)
    (hsender : shownSender E M = some sender) (hfwd : forwardedFrom E M = some fwd)
    (hmedia : mediaPart E folder M.media = some media)
    (hraw : ∀ s ∈ raws (inside E M sender fwd media), lt ∉ s)
    (hpreview : indented M.media = true → Str.isEmpty M.message = false) (t : List UInt8) :
    readEntry (record E M sender fwd media ++ t) = entry E M := by
  have hatMost := media_atMost hf hmedia
  have hcut : cut (lt :: dateMark) (record E M sender fwd media ++ t) =
      some (html (inside E M sender fwd media), html (datePart E M) ++ t) := by
    rw [record, List.append_assoc, List.append_assoc,
      (clear_inside hraw hatMost (r := dateMark) (by decide)).cut]
  have hdate : upTo lt (html (datePart E M) ++ t) = date2string (E.localtime M.date) := by
    have hbytes : html (datePart E M) = date2string (E.localtime M.date) ++
        lt :: (lit "/span></div>" ++ html [txt "</div><!-- msgid: ", num M.permanentId,
          txt " --></div>\n"]) := rfl
    have hlt := (plain_of_numeric (date2string_numeric (E.localtime M.date))).1
    rw [hbytes, List.append_assoc, List.cons_append, upTo_append hlt]
  rw [readEntry, hcut, Option.getD_some]
  simp only [hdate, id_inside, sent_inside hraw hsender, forwarded_inside hraw hatMost hfwd,
    reply_inside hraw hatMost, text_inside hf hraw hmedia hpreview]
  rfl

/-- No other message is named in a record. -/
theorem record_clear (hmedia : AtMost contentMark media)
    (hraw : ∀ s ∈ raws (inside E M sender fwd media), lt ∉ s) :
    Clear lt nameMark (record E M sender fwd media) := by
  have hdate : Foreign allMarks (datePart E M) := by
    rw [datePart, foreign_cons, foreign_cons, foreign_cons, foreign_cons]
    exact ⟨trivial, by decide, by decide, trivial, by decide⟩
  exact (clear_inside hraw hmedia (by decide)).append
    ((clear_mark dateMark (by decide) (by decide) (by decide)).append
      (clear_html (by decide) (fun s hs => absurd hs List.not_mem_nil) hdate))

/-- What stands behind the mark of the name in the fragment of a message. -/
def recordOf (D : Dump) : List UInt8 :=
  (html D.fragment).drop (container.length + (lt :: nameMark).length)

theorem recordOf_spec {D : Dump} (h : Legible D.env D.message) :
    html D.fragment = container ++ (lt :: nameMark ++ recordOf D) ∧ Clear lt nameMark (recordOf D) ∧
      ∀ t, readEntry (recordOf D ++ t) = entry D.env D.message := by
  obtain ⟨sender, fwd, media, chat, hsender, hfwd, hmedia, hraws, hbytes⟩ :=
    dump_record D.fragment_eq
  have hf : Foreign allMarks (getPeerFilename chat ++ [txt "_files"]) := foreign_folder chat
  have hraw : ∀ s ∈ raws (inside D.env D.message sender fwd media), lt ∉ s := by
    rw [← hraws, raws_dump D.fragment_eq]
    exact h.raw
  have hrecord : recordOf D = record D.env D.message sender fwd media := by
    rw [recordOf, hbytes, ← List.drop_drop, List.drop_left, List.drop_left]
  rw [hrecord]
  exact ⟨hbytes, record_clear (media_atMost hf hmedia) hraw,
    readEntry_record hf hsender hfwd hmedia hraw h.preview⟩

/-- The page names no message: the title is escaped. -/
theorem page_clear (D : Dump) : Clear lt nameMark (page D) := by
  have hid : Clear lt nameMark (decimal (tglGetPeerId D.chat).toInt) :=
    clear_of_notMem (plain_of_numeric (decimal_numeric _)).1
  have htitle : Clear lt nameMark (htmlspecialchars (getPeerTitle D.chat)) :=
    clear_of_notMem (inert_htmlspecialchars _).lt_notMem
  have hall : ∀ {s : List UInt8}, Clear lt nameMark s → ∀ {t : List UInt8}, Clear lt nameMark t →
      Clear lt nameMark (s ++ t) := fun hs _ ht => hs.append ht
  unfold page
  refine hall (hall (hall (hall (hall (hall (hall (hall (hall ?_ ?_) ?_) hid) ?_) hid) ?_) ?_)
    htitle) ?_ <;> decide

/-- **A file is read**: its page, and the fragments of its messages. -/
theorem transcript_pages {Ds : List Dump} (h : ∀ D ∈ Ds, Legible D.env D.message) :
    (pages Ds).map transcript =
      if Ds = [] then none else some (Ds.map fun D => entry D.env D.message) := by
  cases Ds with
  | nil => rfl
  | cons D Ds =>
    have hfragments : ((D :: Ds).flatMap fun F => html F.fragment) =
        (D :: Ds).flatMap fun F => container ++ (lt :: nameMark ++ recordOf F) :=
      List.flatMap_congr fun F hF => (recordOf_spec (h F hF)).1
    rw [pages, Option.map_some, if_neg (List.cons_ne_nil D Ds), hfragments, transcript]
    exact congrArg some (Clear.map_parts (by decide) (page_clear D)
      fun F hF => (recordOf_spec (h F hF)).2)

/-! ### Runs -/

/-- The files after a run. -/
theorem run_files {m : Machine} : ∀ {run : List Dump} (past : List Dump) {A B : Archive},
    (∀ path, A.files path = pages (past.filter fun D => archiveFile D.chat = path)) →
    run.foldlM (dumpMessage m) A = some B →
    ∀ path, B.files path = pages ((past ++ run).filter fun D => archiveFile D.chat = path)
  | [], past, A, _, hA, h, path => by
    obtain rfl := Option.some.inj h
    rw [List.append_nil, hA]
  | D :: run, past, A, B, hA, h, path => by
    obtain ⟨C, hC, hrest⟩ := Option.bind_eq_some_iff.mp h
    obtain ⟨file, hfile, hfiles⟩ := Dialogs.dumpMessage_appends hC
    rw [Dialogs.archivedTo, D.chat_eq] at hfile
    obtain rfl := Option.some.inj hfile
    rw [← List.singleton_append, ← List.append_assoc]
    refine run_files (past ++ [D]) (fun path => ?_) hrest path
    rw [hfiles, List.filter_append, List.filter_singleton]
    by_cases hpath : path = archiveFile D.chat
    · rw [if_pos hpath, hA, decide_eq_true hpath.symm, cond_true, pages_concat]
    · rw [if_neg hpath, hA, decide_eq_false (Ne.symm hpath), cond_false, List.append_nil]

/-- **The archive tells the messages**: after any run from an empty archive on that the machine gets
through, what is read in the file of a peer are its messages, in the order in which they came, and a
peer without messages has no file. -/
theorem run_transcript (m : Machine) (run : List Dump) (A : Archive) (P : Peer)
    (h : run.foldlM (dumpMessage m) Archive.empty = some A)
    (hchats : ∀ D ∈ run, D.chat.id.peerType.IsChat) (hP : P.id.peerType.IsChat)
    (hlegible : ∀ D ∈ run, SamePeer D.chat P → Legible D.env D.message) :
    (A.files (archiveFile P)).map transcript =
      if (run.filter fun D => SamePeer D.chat P) = [] then none
      else some ((run.filter fun D => SamePeer D.chat P).map fun D => entry D.env D.message) := by
  have hfilter : (run.filter fun D => archiveFile D.chat = archiveFile P) =
      run.filter fun D => SamePeer D.chat P :=
    List.filter_congr fun D hD => decide_eq_decide.mpr (archiveFile_inj (hchats D hD) hP)
  rw [run_files [] (fun _ => rfl) h, List.nil_append, hfilter]
  refine transcript_pages fun D hD => ?_
  rw [List.mem_filter] at hD
  exact hlegible D hD.1 (of_decide_eq_true hD.2)

/-- Two messages to a user, and one to a chat between them. -/
theorem run_transcript_twice : ∃ A,
    [sentDump .user, sentDump .chat, sentDump .user].foldlM (dumpMessage ⟨true, true⟩)
      Archive.empty = some A ∧
    (A.files (archiveFile (sentDump .user).chat)).map transcript =
      some [⟨lit "1", true, false, none, lit "hi", lit "12:00:00 00/01/2016"⟩,
        ⟨lit "1", true, false, none, lit "hi", lit "12:00:00 00/01/2016"⟩] := by
  obtain ⟨A, hA⟩ := Option.isSome_iff_exists.mp (show
    ([sentDump .user, sentDump .chat, sentDump .user].foldlM (dumpMessage ⟨true, true⟩)
      Archive.empty).isSome = true by decide +kernel)
  have hlegible : ∀ t, Legible (sentDump t).env (sentDump t).message := fun t =>
    ⟨fun s hs => by cases t <;> exact absurd hs List.not_mem_nil, fun h => Bool.noConfusion h⟩
  have hread := run_transcript ⟨true, true⟩ [sentDump .user, sentDump .chat, sentDump .user] A
    (sentDump .user).chat hA (by simp [sentDump, PeerType.IsChat]) (.inl rfl) fun D hD _ => by
      simp only [List.mem_cons, List.not_mem_nil, or_false] at hD
      rcases hD with rfl | rfl | rfl <;> exact hlegible _
  refine ⟨A, hA, hread.trans ?_⟩
  decide +kernel

end TelegramCli.Telegrab.Transcript
