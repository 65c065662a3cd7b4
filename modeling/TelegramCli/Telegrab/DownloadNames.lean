import TelegramCli.Telegrab.RawStrings

/-! # The names of saved documents

A document is saved in the folder of its chat, under two random numbers and an extension. The
extension is chosen by the flags or else is what stands behind the last dot of the file name, which
the sender has chosen and which may have a slash; a document that has neither a flag nor a file name
has none (`document_saved_iff`). -/

namespace TelegramCli.Telegrab.DownloadNames

open TelegramCli.Lib.CNumber TelegramCli.Lib.CString TelegramCli.Tgl
open TelegramCli.Telegrab.DumpHtml TelegramCli.Telegrab.RawStrings

/-- `safe_malloc (1024)` for the path. -/
def filepathSize : ℕ := 1024

/-- The document of a document message, plain or encrypted. -/
def documentOf : Media → Option Document
  | .document d _ => d
  | .audio d _ => d
  | .video d _ => d
  | .documentEncr d _ => d
  | _ => none

theorem settled_files : Lib.Tags.Settled (lit "_files") := by decide

/-- The path of a new file of the chat. -/
def downloadPath (E : Env) (chat : Peer) (extension : Piece) : List UInt8 :=
  html (createDownloadFile E (getPeerFilename chat ++ [txt "_files" settled_files]) extension)

/-- The path that the document of a message is saved under; there is none if the extension is not
initialised or the path does not fit. -/
def savedUnder (E : Env) (M : Message) : Option (List UInt8) := do
  let chat ← chatPeer E M
  let d ← documentOf M.media
  let ext ← extension d
  if (downloadPath E chat ext).length < filepathSize then some (downloadPath E chat ext) else none

/-- A file in the folder of the chat, and in no folder below. -/
def DirectChild (chat : Peer) (path : List UInt8) : Prop :=
  ∃ name ext, 47 ∉ name ∧ 47 ∉ ext ∧
    path = lit "grab/" ++ html (getPeerFilename chat) ++ lit "_files/" ++ name ++ 46 :: ext

/-- A flag tells the extension. -/
def Flagged (d : Document) : Prop := d.image || d.audio || d.video || d.sticker

instance (d : Document) : Decidable (Flagged d) := inferInstanceAs (Decidable (_ = true))

/-- Behind the last dot, and not at the beginning of the name, there is a slash. -/
def SlashBehindDot (filename : List UInt8) : Prop :=
  ∃ a b, a ≠ [] ∧ filename = a ++ 46 :: b ∧ 46 ∉ b ∧ 47 ∈ b

/-- A path with an extension of this length fits. -/
def Room (E : Env) (chat : Peer) (n : ℕ) : Prop :=
  (html (getPeerFilename chat)).length + (decimal E.rand.1).length + (decimal E.rand.2).length + n +
    13 < filepathSize

/-- The document has an extension without a slash, and there is room for the path. -/
def Named (E : Env) (chat : Peer) (d : Document) : Prop :=
  Flagged d ∧ Room E chat 3 ∨
    ¬ Flagged d ∧ ∃ filename, d.caption = some filename ∧ ¬ SlashBehindDot filename ∧
      Room E chat (getExtension filename).length

/-! ### Extensions -/

theorem strrchr_of_notMem {c : UInt8} : ∀ {s : List UInt8}, c ∉ s → strrchr c s = none
  | [], _ => rfl
  | d :: s, h => by
    rw [List.mem_cons, not_or] at h
    rw [strrchr, strrchr_of_notMem h.2]
    exact if_neg (Ne.symm h.1)

theorem strrchr_append {c : UInt8} {b : List UInt8} (hb : c ∉ b) :
    ∀ a : List UInt8, strrchr c (a ++ c :: b) = some (c :: b)
  | [] => by
    rw [List.nil_append, strrchr, strrchr_of_notMem hb]
    exact if_pos rfl
  | d :: a => by
    rw [List.cons_append, strrchr, strrchr_append hb a]

/-- A name has no dot, or a last one. -/
theorem last_dot (s : List UInt8) : 46 ∉ s ∨ ∃ a b, s = a ++ 46 :: b ∧ 46 ∉ b := by
  by_cases h : 46 ∈ s
  · obtain ⟨a, b, hs, hb⟩ := List.eq_append_cons_of_mem (List.mem_reverse.mpr h)
    refine .inr ⟨b.reverse, a.reverse, ?_, by rwa [List.mem_reverse]⟩
    rw [← List.reverse_reverse s, hs]
    simp
  · exact .inl h

theorem getExtension_append {a b : List UInt8} (ha : a ≠ []) (hb : 46 ∉ b) :
    getExtension (a ++ 46 :: b) = b := by
  have hlen : (46 :: b : List UInt8).length ≠ (a ++ 46 :: b).length := by
    have hpos := List.length_pos_iff.mpr ha
    rw [List.length_append]
    omega
  rw [getExtension, strrchr_append hb]
  exact if_neg hlen

/-- **The extension of a file name** has a slash exactly if there is one behind the last dot. -/
theorem getExtension_slash (s : List UInt8) : 47 ∈ getExtension s ↔ SlashBehindDot s := by
  constructor
  · intro h
    rcases last_dot s with hdot | ⟨a, b, rfl, hb⟩
    · rw [getExtension, strrchr_of_notMem hdot] at h
      exact absurd (show 47 ∈ lit "dat" from h) (by decide)
    · by_cases ha : a = []
      · have hdat : getExtension (46 :: b) = lit "dat" := by
          rw [getExtension, ← List.nil_append (46 :: b), strrchr_append hb]
          exact if_pos rfl
        rw [ha, List.nil_append, hdat] at h
        exact absurd h (by decide)
      · rw [getExtension_append ha hb] at h
        exact ⟨a, b, ha, rfl, hb, h⟩
  · rintro ⟨a, b, ha, rfl, hb, hslash⟩
    rwa [getExtension_append ha hb]

theorem extension_flagged {d : Document} (h : Flagged d) :
    ∃ ext, extension d = some ext ∧ ext.bytes.length = 3 ∧ 47 ∉ ext.bytes := by
  unfold extension
  split_ifs with hi ha hv hs
  · exact ⟨_, rfl, rfl, by decide⟩
  · exact ⟨_, rfl, rfl, by decide⟩
  · exact ⟨_, rfl, rfl, by decide⟩
  · exact ⟨_, rfl, rfl, by decide⟩
  · simp [Flagged, hi, ha, hv, hs] at h

theorem extension_unflagged {d : Document} (h : ¬ Flagged d) :
    extension d = d.caption.map fun c => .raw (getExtension c) := by
  simp only [Flagged, Bool.or_eq_true, not_or] at h
  rw [extension, if_neg h.1.1.1, if_neg h.1.1.2, if_neg h.1.2, if_neg h.2]

/-! ### Paths -/

theorem downloadPath_eq (E : Env) (chat : Peer) (ext : Piece) : downloadPath E chat ext =
    lit "grab/" ++ html (getPeerFilename chat) ++ lit "_files/" ++
      ((decimal E.rand.1 ++ decimal E.rand.2) ++ 46 :: ext.bytes) := by
  simp only [downloadPath, createDownloadFile, html, List.flatMap_append, List.flatMap_cons,
    List.flatMap_nil, List.append_nil, List.append_assoc]
  rfl

theorem downloadPath_fits (E : Env) (chat : Peer) (ext : Piece) :
    (downloadPath E chat ext).length < filepathSize ↔ Room E chat ext.bytes.length := by
  have hgrab : (lit "grab/").length = 5 := rfl
  have hfiles : (lit "_files/").length = 7 := rfl
  rw [downloadPath_eq, Room]
  simp only [List.length_append, List.length_cons, hgrab, hfiles]
  omega

/-- Two joined numbers. -/
theorem notMem_joined {c : UInt8} (hsign : c ≠ 45) (hdigit : ¬ (48 ≤ c ∧ c ≤ 57)) (m n : ℤ) :
    c ∉ decimal m ++ decimal n := by
  rw [List.mem_append, not_or]
  exact ⟨notMem_decimal hsign hdigit m, notMem_decimal hsign hdigit n⟩

/-- **The path stays in the folder** if the extension has no slash. -/
theorem directChild_iff (E : Env) (chat : Peer) (ext : Piece) :
    DirectChild chat (downloadPath E chat ext) ↔ 47 ∉ ext.bytes := by
  rw [downloadPath_eq]
  constructor
  · rintro ⟨name, ext', hname, hext', h⟩ hslash
    rw [List.append_assoc _ name, List.append_cancel_left_eq] at h
    have hmem : (47 : UInt8) ∈ name ++ 46 :: ext' := by
      rw [← h]
      exact List.mem_append_right _ (List.mem_cons_of_mem _ hslash)
    rcases List.mem_append.mp hmem with hmem | hmem
    · exact hname hmem
    · exact hext' ((List.mem_cons.mp hmem).resolve_left (by decide))
  · intro hslash
    refine ⟨decimal E.rand.1 ++ decimal E.rand.2, ext.bytes, ?_, hslash, ?_⟩
    · exact notMem_joined (by decide) (by decide) _ _
    · rw [List.append_assoc _ (_ ++ _)]

/-- The link that is shown leads to the path. -/
theorem mediaPart_document {media : Media} {d : Document} {ext : Piece}
    (hd : documentOf media = some d) (hext : extension d = some ext) (E : Env)
    (folder : List Piece) : ∃ before after, mediaPart E folder media =
      some (before ++ createDownloadFile E folder ext ++ after) := by
  have hpart : ∀ caption, ∃ before after, documentPart E folder (some d) caption =
      some (before ++ createDownloadFile E folder ext ++ after) := fun caption => by
    unfold documentPart
    simp only [hext, Option.bind_eq_bind, Option.bind_some]
    exact ⟨_, _, rfl⟩
  cases media with
  | document d' caption => exact (show d' = some d from hd) ▸ hpart caption
  | audio d' caption => exact (show d' = some d from hd) ▸ hpart caption
  | video d' caption => exact (show d' = some d from hd) ▸ hpart caption
  | documentEncr d' caption => exact (show d' = some d from hd) ▸ hpart caption
  | _ => cases hd

/-- **A document is saved in the folder of its chat** exactly if a flag tells the extension or the
file name has no slash behind its last dot, and there is room for the path. -/
theorem document_saved_iff {E : Env} {M : Message} {chat : Peer} {d : Document}
    (hchat : chatPeer E M = some chat) (hd : documentOf M.media = some d) :
    (∃ path, savedUnder E M = some path ∧ DirectChild chat path) ↔ Named E chat d := by
  have hsaved : savedUnder E M = (extension d).bind fun ext =>
      if (downloadPath E chat ext).length < filepathSize then some (downloadPath E chat ext)
      else none := by
    rw [savedUnder, hchat, hd]
    rfl
  -- the path of an extension that is there
  have hpath : ∀ ext, extension d = some ext →
      ((∃ path, savedUnder E M = some path ∧ DirectChild chat path) ↔
        47 ∉ ext.bytes ∧ Room E chat ext.bytes.length) := by
    intro ext hext
    rw [hsaved, hext, Option.bind_some, ← directChild_iff E chat, ← downloadPath_fits]
    split_ifs with hfits <;> simp [hfits]
  unfold Named
  by_cases hflag : Flagged d
  · obtain ⟨ext, hext, hlen, hslash⟩ := extension_flagged hflag
    rw [hpath ext hext, hlen]
    simp [hflag, hslash]
  · have hext := extension_unflagged hflag
    cases hcaption : d.caption with
    | none =>
      rw [hcaption] at hext
      rw [hsaved, hext]
      simp [hflag]
    | some c =>
      rw [hcaption] at hext
      rw [hpath _ hext]
      change 47 ∉ getExtension c ∧ Room E chat (getExtension c).length ↔ _
      rw [getExtension_slash]
      simp [hflag]

/-- A picture. -/
def picture : Document := ⟨none, true, false, false, false⟩

/-- A document without a file name and without a flag. -/
def plain : Document := ⟨none, false, false, false, false⟩

theorem document_saved_iff_picture :
    (∃ path, savedUnder sampleEnv (sampleMessage none (.document (some picture) none)) = some path ∧
      DirectChild samplePeer path) ↔ Named sampleEnv samplePeer picture :=
  document_saved_iff rfl rfl

/-- The document without a file name has no extension. -/
theorem plain_unsaved : ¬ ∀ (E : Env) (M : Message) (chat : Peer) (d : Document),
    chatPeer E M = some chat → documentOf M.media = some d →
    ∃ path, savedUnder E M = some path ∧ DirectChild chat path := by
  intro h
  obtain ⟨path, hpath, -⟩ := h sampleEnv (sampleMessage none (.document (some plain) none))
    samplePeer plain rfl rfl
  cases hpath

end TelegramCli.Telegrab.DownloadNames
