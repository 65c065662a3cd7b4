import TelegramCli.Telegrab.ArchiveFiles
import TelegramCli.Telegrab.DownloadNames

/-! # Saved media over several runs

The name of a saved file is made of the next two random numbers, whose decimals are joined. Every
run of the program draws the same sequence from its beginning, and a name of an earlier run is taken
again as soon as a file is saved at the same place of the sequence. So no file of a chat replaces
another exactly if files with the same extension are saved at different places, and the numbers there
are not joined to the same digits (`downloads_kept_iff`). -/

namespace TelegramCli.Telegrab.Downloads

open TelegramCli.Lib.CNumber TelegramCli.Lib.CString TelegramCli.Tgl
open TelegramCli.Telegrab.DumpHtml TelegramCli.Telegrab.ArchiveFiles
open TelegramCli.Telegrab.DownloadNames

/-! ### Runs -/

/-- The numbers that `rand` gives in a run, and whether the last argument of a call is evaluated
first. -/
structure Random where
  rand : ℕ → ℕ
  lastFirst : Bool

/-- The two numbers of a name, of which `n` numbers have been drawn before. -/
def Random.pair (R : Random) (n : ℕ) : ℕ × ℕ :=
  if R.lastFirst then (R.rand (n + 1), R.rand n) else (R.rand n, R.rand (n + 1))

/-- What draws random numbers: `peer_update_username` and a photo or document that is saved. -/
inductive Event
  | username
  | media (chat : Peer) (extension : Piece)

/-- A file that is saved, and how many numbers the run had drawn before. -/
structure Item where
  chat : Peer
  extension : Piece
  drawn : ℕ

/-- The files saved in a run from the place `n` of the sequence on. -/
def saves : ℕ → List Event → List Item
  | _, [] => []
  | n, .username :: es => saves (n + 1) es
  | n, .media chat extension :: es => ⟨chat, extension, n⟩ :: saves (n + 2) es

/-- The files of a chat, saved in some runs of the program. -/
def itemsOf (P : Peer) (runs : List (List Event)) : List Item :=
  (runs.flatMap (saves 0)).filter fun i => SamePeer i.chat P

/-- The path that `create_download_file` makes up. -/
def Item.path (R : Random) (E : Env) (i : Item) : List UInt8 :=
  downloadPath { E with rand := R.pair i.drawn } i.chat i.extension

def paths (R : Random) (E : Env) (P : Peer) (runs : List (List Event)) : List (List UInt8) :=
  (itemsOf P runs).map (Item.path R E)

/-- The calls of `rename` in `download_callback`, one after the other, find no files at the paths;
`taken` are those that are there. -/
def NeverReplaces : List (List UInt8) → List (List UInt8) → Prop
  | _, [] => True
  | taken, path :: done => path ∉ taken ∧ NeverReplaces (path :: taken) done

/-- The files have different paths, and none is replaced, whichever downloads end and in whatever
order they do. -/
structure AllKept (R : Random) (E : Env) (P : Peer) (runs : List (List Event)) : Prop where
  paths : (paths R E P runs).Nodup
  renames : ∀ done, done.Subperm (Downloads.paths R E P runs) → NeverReplaces [] done

/-! ### Names -/

/-- Some digits at the end of one number are at the beginning of the other. -/
def Shifted (x y : ℕ × ℕ) : Prop :=
  ∃ w : List UInt8, w ≠ [] ∧ decimal x.1 = decimal y.1 ++ w ∧ decimal y.2 = w ++ decimal x.2

/-- No digits have moved, or some have. -/
theorem moved_iff (x y : ℕ × ℕ) :
    (∃ w : List UInt8, decimal x.1 = decimal y.1 ++ w ∧ decimal y.2 = w ++ decimal x.2) ↔
      x = y ∨ Shifted x y := by
  have hinj : ∀ {m n : ℕ}, decimal m = decimal n → m = n := fun h => Int.ofNat_inj.mp (decimal_inj h)
  constructor
  · rintro ⟨w, h1, h2⟩
    by_cases hw : w = []
    · rw [hw, List.append_nil] at h1
      rw [hw, List.nil_append] at h2
      exact .inl (Prod.ext (hinj h1) (hinj h2).symm)
    · exact .inr ⟨w, hw, h1, h2⟩
  · rintro (rfl | ⟨w, -, h1, h2⟩)
    · exact ⟨[], (List.append_nil _).symm, rfl⟩
    · exact ⟨w, h1, h2⟩

/-- **Joined numbers** are the same, or some digits have moved. -/
theorem joined_eq_iff (x y : ℕ × ℕ) :
    decimal x.1 ++ decimal x.2 = decimal y.1 ++ decimal y.2 ↔
      x = y ∨ Shifted x y ∨ Shifted y x := by
  rw [List.append_eq_append_iff, moved_iff x y, moved_iff y x, eq_comm (a := y)]
  tauto

theorem getPeerFilename_congr {P Q : Peer} (h : SamePeer P Q) :
    getPeerFilename P = getPeerFilename Q := by
  unfold getPeerFilename
  rw [h.1, h.2]

/-- **Two files of a chat have one path** if they have the same extension, and the numbers are joined
to the same digits. -/
theorem path_eq_iff {R : Random} {E : Env} {i j : Item} (h : SamePeer i.chat j.chat) :
    i.path R E = j.path R E ↔ i.extension.bytes = j.extension.bytes ∧
      (R.pair i.drawn = R.pair j.drawn ∨ Shifted (R.pair i.drawn) (R.pair j.drawn) ∨
        Shifted (R.pair j.drawn) (R.pair i.drawn)) := by
  rw [Item.path, Item.path, downloadPath_eq, downloadPath_eq, getPeerFilename_congr h,
    List.append_cancel_left_eq, ← joined_eq_iff]
  constructor
  · intro heq
    have hdot : ∀ x : ℕ × ℕ, 46 ∉ decimal x.1 ++ decimal x.2 := fun x =>
      notMem_joined (by decide) (by decide) x.1 x.2
    obtain ⟨hname, hext⟩ := append_cons_inj (hdot _) (hdot _) heq
    exact ⟨hext, hname⟩
  · rintro ⟨hext, hname⟩
    rw [hext]
    exact congrArg (· ++ _) hname

/-! ### Files that are replaced -/

theorem neverReplaces_iff : ∀ {taken done : List (List UInt8)},
    NeverReplaces taken done ↔ done.Nodup ∧ ∀ path ∈ done, path ∉ taken
  | _, [] => iff_of_true trivial ⟨.nil, fun _ h => absurd h List.not_mem_nil⟩
  | taken, path :: done => by
    rw [NeverReplaces, neverReplaces_iff, List.nodup_cons, List.forall_mem_cons]
    constructor
    · rintro ⟨hpath, hnodup, hdone⟩
      refine ⟨⟨fun h => hdone path h List.mem_cons_self, hnodup⟩, hpath, fun p hp h => ?_⟩
      exact hdone p hp (List.mem_cons_of_mem _ h)
    · rintro ⟨⟨hnot, hnodup⟩, hpath, hdone⟩
      refine ⟨hpath, hnodup, fun p hp h => ?_⟩
      rcases List.mem_cons.mp h with rfl | h
      · exact hnot hp
      · exact hdone p hp h

theorem allKept_iff {R : Random} {E : Env} {P : Peer} {runs : List (List Event)} :
    AllKept R E P runs ↔ (paths R E P runs).Nodup := by
  refine ⟨fun h => h.paths, fun h => ⟨h, fun done hdone => ?_⟩⟩
  obtain ⟨l, hperm, hsub⟩ := hdone
  refine neverReplaces_iff.mpr ⟨?_, fun _ _ => List.not_mem_nil⟩
  exact hperm.nodup_iff.mp (hsub.nodup h)

/-- Files with the same extension are saved at different places of the sequence, and the numbers
there are not joined to the same digits. -/
def Separate (R : Random) (i j : Item) : Prop :=
  i.extension.bytes = j.extension.bytes → i.drawn ≠ j.drawn ∧
    ¬ Shifted (R.pair i.drawn) (R.pair j.drawn) ∧ ¬ Shifted (R.pair j.drawn) (R.pair i.drawn)

/-- **No file of a chat replaces another** exactly if any two of them are separate, the pairs at
different places being different. -/
theorem downloads_kept_iff {R : Random} {P : Peer} {runs : List (List Event)}
    (hpairs : ∀ i ∈ itemsOf P runs, ∀ j ∈ itemsOf P runs,
      R.pair i.drawn = R.pair j.drawn → i.drawn = j.drawn) (E : Env) :
    AllKept R E P runs ↔ (itemsOf P runs).Pairwise (Separate R) := by
  have hchat : ∀ i ∈ itemsOf P runs, SamePeer i.chat P := fun i hi =>
    of_decide_eq_true (List.mem_filter.mp hi).2
  rw [allKept_iff, paths, List.Nodup, List.pairwise_map]
  refine List.Pairwise.iff_of_mem fun {i j} hi hj => ?_
  have hsame : SamePeer i.chat j.chat :=
    ⟨(hchat i hi).1.trans (hchat j hj).1.symm, (hchat i hi).2.trans (hchat j hj).2.symm⟩
  have hplace : R.pair i.drawn = R.pair j.drawn ↔ i.drawn = j.drawn :=
    ⟨hpairs i hi j hj, fun h => by rw [h]⟩
  rw [ne_eq, path_eq_iff hsame, hplace, not_and, not_or, not_or]
  rfl

/-! ### Photos -/

/-- The numbers 0, 1, 2 and so on. -/
def counting : Random := ⟨id, false⟩

theorem counting_pairs {m n : ℕ} (h : counting.pair m = counting.pair n) : m = n :=
  congrArg Prod.fst h

theorem settled_jpg : Lib.Tags.Settled (lit "jpg") := by decide

/-- A photo that is saved at the beginning of a run. -/
def photo : Event := .media RawStrings.samplePeer (txt "jpg" settled_jpg)

/-- One run with two photos. -/
theorem downloads_kept_iff_run : AllKept counting RawStrings.sampleEnv RawStrings.samplePeer
    [[photo, photo]] ↔ (itemsOf RawStrings.samplePeer [[photo, photo]]).Pairwise
      (Separate counting) :=
  downloads_kept_iff (fun _ _ _ _ h => counting_pairs h) RawStrings.sampleEnv

/-- The first photos of two runs. -/
theorem photo_replaced : ¬ ∀ (R : Random) (E : Env) (P : Peer) (runs : List (List Event)),
    (∀ m n, R.pair m = R.pair n → m = n) → AllKept R E P runs := by
  intro h
  have hkept := h counting RawStrings.sampleEnv RawStrings.samplePeer [[photo], [photo]]
    fun m n hmn => counting_pairs hmn
  have hitems : itemsOf RawStrings.samplePeer [[photo], [photo]] =
      [⟨RawStrings.samplePeer, txt "jpg", 0⟩, ⟨RawStrings.samplePeer, txt "jpg", 0⟩] := rfl
  have hnodup := hkept.paths
  rw [paths, hitems] at hnodup
  exact List.not_nodup_pair _ hnodup

end TelegramCli.Telegrab.Downloads
