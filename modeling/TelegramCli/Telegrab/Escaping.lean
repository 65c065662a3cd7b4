import TelegramCli.Telegrab.RawStrings

/-! # Strings in the fragment

A string of the message or of its peers is `Escaped` in a piece when the piece prints it in the form
of `htmlspecialchars`, with or without `nl2br`, and that form is inert. The raw pieces are the only
ones that can fail this, and a raw string is in its own escaped form exactly when it has none of the
four bytes that `htmlspecialchars` replaces (`onlyEscaped_iff`). Then two messages that differ only
in what their strings say have the same tags, up to `<br/>` (`tags_alike`). -/

namespace TelegramCli.Telegrab.Escaping

open TelegramCli.Lib.CString TelegramCli.Lib.Tags TelegramCli.Tgl
open TelegramCli.Telegrab.Escape TelegramCli.Telegrab.DumpHtml TelegramCli.Telegrab.Skeleton
open TelegramCli.Telegrab.RawStrings

/-! ### Escaped pieces -/

/-- The string of the message or of its peers that a piece prints. -/
def Piece.string? : Piece → Option (List UInt8)
  | .raw s => some s
  | .escaped s => some s
  | .body s => some s
  | _ => none

/-- What is printed for a string is the form `htmlspecialchars` produces, up to the tags of
`nl2br`. -/
def Escaped (s printed : List UInt8) : Prop :=
  Inert (htmlspecialchars s) ∧
    (printed = htmlspecialchars s ∨ printed = nl2br (htmlspecialchars s))

/-- No string adds markup to the fragment. -/
def OnlyEscaped (ps : List Piece) : Prop :=
  ∀ p ∈ ps, ∀ s ∈ Piece.string? p, Escaped s p.bytes

theorem escaped_self_iff (s : List UInt8) : Escaped s s ↔ Plain s := by
  rw [← htmlspecialchars_eq_self_iff]
  constructor
  · rintro ⟨-, h | h⟩
    · exact h.symm
    · have hlen := congrArg List.length h
      rw [length_nl2br] at hlen
      have hle := length_htmlspecialchars s
      have hcount : (htmlspecialchars s).count nl = 0 := by omega
      rw [nl2br_of_notMem (List.count_eq_zero.mp hcount)] at h
      exact h.symm
  · exact fun h => ⟨inert_htmlspecialchars s, Or.inl h.symm⟩

/-- **Only raw strings can add markup.** -/
theorem onlyEscaped_iff {E : Env} {M : Message} {ps : List Piece}
    (h : dumpMessageHtml E M = some ps) :
    OnlyEscaped ps ↔ ∀ s ∈ rawStrings E M, Plain s := by
  rw [← raws_dump h]
  constructor
  · intro hps s hs
    exact (escaped_self_iff s).mp (hps _ (mem_raws.mp hs) s rfl)
  · intro hraw p hp s hs
    cases p with
    | raw r =>
      obtain rfl := Option.some.inj hs
      exact (escaped_self_iff r).mpr (hraw r (mem_raws.mpr hp))
    | escaped r =>
      obtain rfl := Option.some.inj hs
      exact ⟨inert_htmlspecialchars r, Or.inl rfl⟩
    | body r =>
      obtain rfl := Option.some.inj hs
      exact ⟨inert_htmlspecialchars r, Or.inr rfl⟩
    | _ => exact absurd hs (by simp [Piece.string?])

/-! ### Messages that differ in what their strings say -/

/-- A string with its contents blanked out: null, empty or not empty. -/
def blank (s : Str) : Str := s.map fun s => if s = [] then [] else [0]

def blankPeer (P : Peer) : Peer :=
  { P with
    printName := blank P.printName
    username := blank P.username
    firstName := blank P.firstName
    lastName := blank P.lastName
    title := blank P.title }

def blankDocument (d : Document) : Document := { d with caption := blank d.caption }

def blankWebpage (w : Webpage) : Webpage :=
  ⟨blank w.url, blank w.title, blank w.description, blank w.author⟩

def blankMedia : Media → Media
  | .none => .none
  | .photo photo caption => .photo photo (blank caption)
  | .document d caption => .document (d.map blankDocument) (blank caption)
  | .audio d caption => .audio (d.map blankDocument) (blank caption)
  | .video d caption => .video (d.map blankDocument) (blank caption)
  | .documentEncr d caption => .documentEncr (d.map blankDocument) (blank caption)
  | .geo g => .geo g
  | .contact phone firstName lastName => .contact (blank phone) (blank firstName) (blank lastName)
  | .unsupported => .unsupported
  | .webpage w caption => .webpage (w.map blankWebpage) (blank caption)
  | .venue g title address provider venueId =>
      .venue g (blank title) (blank address) (blank provider) (blank venueId)
  | .other => .other

def blankMessage (M : Message) : Message :=
  { M with message := blank M.message, media := blankMedia M.media }

/-- The two messages and their peers differ only in the contents of strings. -/
structure Alike (E E' : Env) (M M' : Message) : Prop where
  message : blankMessage M = blankMessage M'
  peers : ∀ id, (E.peerGet id).map blankPeer = (E'.peerGet id).map blankPeer
  env : { E with peerGet := E'.peerGet } = E'

theorem isEmpty_blank (s : Str) : Str.isEmpty (blank s) = Str.isEmpty s := by
  cases s with
  | none => rfl
  | some s => by_cases h : s = [] <;> simp [blank, Str.isEmpty, h]

theorem mediaTags_blank (ME : Media) : mediaTags (blankMedia ME) = mediaTags ME := by
  cases ME with
  | webpage w caption => cases caption <;> rfl
  | _ => rfl

section Alike

variable {E E' : Env} {M M' : Message}

theorem Alike.shownSender (h : Alike E E' M M') :
    (shownSender E M).map (Option.map blankPeer) =
      (shownSender E' M').map (Option.map blankPeer) := by
  have hto : M.toId = M'.toId := by
    simpa only [blankMessage] using congrArg Message.toId h.message
  have hfrom : M.fromId = M'.fromId := by
    simpa only [blankMessage] using congrArg Message.fromId h.message
  have hours : E.ourId = E'.ourId := by rw [← h.env]
  have hcmp : E.cmpPeerId = E'.cmpPeerId := by rw [← h.env]
  have hpeer := h.peers M'.fromId
  simp only [DumpHtml.shownSender, hto, hfrom, hours, hcmp]
  split_ifs
  · cases hP : E.peerGet M'.fromId with
    | none =>
      rw [hP] at hpeer
      have hP' : E'.peerGet M'.fromId = none := by simpa using hpeer.symm
      rw [hP']
    | some P =>
      rw [hP] at hpeer
      obtain ⟨P', hP', hblank⟩ := Option.map_eq_some_iff.mp hpeer.symm
      have hid : P'.id = P.id := by simpa only [blankPeer] using congrArg Peer.id hblank
      rw [hP']
      simp only [Option.bind_eq_bind, Option.bind_some, pure, Option.map_some, hid]
      split_ifs
      · rfl
      · rw [Option.map_some, Option.map_some, hblank]
  · rfl

theorem Alike.forwardedFrom (h : Alike E E' M M') :
    (forwardedFrom E M).map (Option.map blankPeer) =
      (forwardedFrom E' M').map (Option.map blankPeer) := by
  have hfwd : M.fwdFromId = M'.fwdFromId := by
    simpa only [blankMessage] using congrArg Message.fwdFromId h.message
  have hpeer := h.peers M'.fwdFromId
  simp only [DumpHtml.forwardedFrom, hfwd]
  split_ifs
  · have hsome := congrArg (Option.map some) hpeer
    simpa only [Option.map_map, Function.comp_def, Option.map_some] using hsome
  · rfl

theorem isSome_of_map_eq {a a' : Option (Option Peer)} {o o' : Option Peer} (ha : a = some o)
    (ha' : a' = some o') (h : a.map (Option.map blankPeer) = a'.map (Option.map blankPeer)) :
    o.isSome = o'.isSome := by
  subst ha ha'
  have hsome := congrArg Option.isSome (Option.some.inj h)
  simpa only [Option.isSome_map] using hsome

/-- The skeleton does not depend on the contents of strings. -/
theorem Alike.skeleton {ps ps' : List Piece} (h : Alike E E' M M')
    (hps : dumpMessageHtml E M = some ps) (hps' : dumpMessageHtml E' M' = some ps') :
    skeleton ps = skeleton ps' := by
  obtain ⟨sender, fwd, hsender, hfwd, hskel⟩ := skeleton_dump hps
  obtain ⟨sender', fwd', hsender', hfwd', hskel'⟩ := skeleton_dump hps'
  have hreply : M.replyId = M'.replyId := by
    simpa only [blankMessage] using congrArg Message.replyId h.message
  have hmedia : mediaTags M.media = mediaTags M'.media := by
    rw [← mediaTags_blank M.media, ← mediaTags_blank M'.media]
    exact congrArg (fun m => mediaTags m.media) h.message
  have htext : Str.isEmpty M.message = Str.isEmpty M'.message := by
    rw [← isEmpty_blank M.message, ← isEmpty_blank M'.message]
    exact congrArg (fun m => Str.isEmpty m.message) h.message
  rw [hskel, hskel', messageTags, messageTags, hreply, hmedia, htext,
    isSome_of_map_eq hsender hsender' h.shownSender, isSome_of_map_eq hfwd hfwd' h.forwardedFrom]

/-- **Alike messages have the same tags** when their raw strings are plain. -/
theorem tags_alike {ps ps' : List Piece} (h : Alike E E' M M')
    (hps : dumpMessageHtml E M = some ps) (hps' : dumpMessageHtml E' M' = some ps')
    (hraw : ∀ s ∈ rawStrings E M, Plain s) (hraw' : ∀ s ∈ rawStrings E' M', Plain s) :
    (tags (html ps)).filter notBr = (tags (html ps')).filter notBr := by
  rw [tags_html (tagless_of_rawStrings hps fun s hs => (hraw s hs).1),
    tags_html (tagless_of_rawStrings hps' fun s hs => (hraw' s hs).1), h.skeleton hps hps']

end Alike

/-- **Strings in the fragment**: no string adds markup exactly when none of the strings the branches
taken print as they are has a `<`, `>`, `"` or `&`; and of two messages for which this is so and
which differ only in the contents of strings, the tags are the same up to `<br/>`. -/
theorem strings_escaped (E : Env) (M : Message) (ps : List Piece)
    (h : dumpMessageHtml E M = some ps) :
    (OnlyEscaped ps ↔ ∀ s ∈ rawStrings E M, Plain s) ∧
    ((∀ s ∈ rawStrings E M, Plain s) → ∀ E' M' ps', Alike E E' M M' →
      dumpMessageHtml E' M' = some ps' → (∀ s ∈ rawStrings E' M', Plain s) →
      (tags (html ps)).filter notBr = (tags (html ps')).filter notBr) :=
  ⟨onlyEscaped_iff h, fun hraw _ _ _ halike hps' hraw' => tags_alike halike h hps' hraw hraw'⟩

/-- A contact with the first name given. -/
def sampleContact (name : String) : Message :=
  sampleMessage none (.contact (some (lit "1")) (some (lit name)) (some (lit "B")))

theorem strings_escaped_contact : ∃ ps, dumpMessageHtml sampleEnv (sampleContact "A") = some ps ∧
    (OnlyEscaped ps ↔ ∀ s ∈ rawStrings sampleEnv (sampleContact "A"), Plain s) :=
  ⟨_, rfl, (strings_escaped sampleEnv (sampleContact "A") _ rfl).1⟩

/-- The name of a contact can add a tag. -/
theorem contact_adds_script : ∃ ps ps',
    dumpMessageHtml sampleEnv (sampleContact "<script>") = some ps ∧
    dumpMessageHtml sampleEnv (sampleContact "A") = some ps' ∧
    Alike sampleEnv sampleEnv (sampleContact "<script>") (sampleContact "A") ∧
    ¬ OnlyEscaped ps ∧
    (tags (html ps)).filter notBr ≠ (tags (html ps')).filter notBr := by
  have h : dumpMessageHtml sampleEnv (sampleContact "<script>") = some _ := rfl
  refine ⟨_, _, h, rfl, ⟨by decide, fun _ => rfl, rfl⟩, ?_, by decide +kernel⟩
  rw [onlyEscaped_iff h]
  decide

end TelegramCli.Telegrab.Escaping
