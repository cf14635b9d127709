import Nyx.Lib.Chunks
import Nyx.Qemu.Sharedir

/-!
# Streaming of shared files

Each request for a name is answered by the next page of the file, a request at its end by 0, and
then the file begins again. All files share one open handle.
-/

namespace Nyx.Sharedir

open Function

variable {fs : Fs} {dir file : Path} {content : Path → List UInt8} {share : Share}

def Regular (fs : Fs) (dir file : Path) (bytes : List UInt8) : Prop :=
  ∃ path mtime, fs.realpath (joined dir file) = some path ∧ dir <+: path ∧
    fs.stat path = some ⟨bytes.length, mtime⟩ ∧ fs.fopen path = some bytes

/-- The object in the table describes the file as it is. -/
structure SharedirFile.Describes (fs : Fs) (bytes : List UInt8) (obj : SharedirFile) : Prop where
  stat : fs.stat obj.path = some ⟨obj.size, obj.modTime⟩
  fopen : fs.fopen obj.path = some bytes
  size : obj.size = bytes.length
  bytesLeft : obj.bytesLeft ≤ obj.size

def SharedirFile.rest (bytes : List UInt8) (obj : SharedirFile) : List UInt8 :=
  bytes.drop (obj.size - obj.bytesLeft)

variable {obj : SharedirFile}

lemma SharedirFile.Describes.length_rest {bytes : List UInt8}
    (h : obj.Describes fs bytes) : (obj.rest bytes).length = obj.bytesLeft := by
  have hsize := h.size
  have hleft := h.bytesLeft
  simp only [SharedirFile.rest, List.length_drop]
  omega

/-- All objects describe their files, and the open handle reads the file it was opened for. -/
structure Reading (fs : Fs) (dir : Path) (content : Path → List UInt8) (share : Share) : Prop where
  dir_eq : share.dir = some dir
  describes : ∀ {file obj}, share.lookup file = some obj → obj.Describes fs (content file)
  handle : ∀ {file f}, share.lastFileObjPtr = some file → share.lastFileF = some f →
    f.content = content file

lemma Reading.opened (fs : Fs) (dir : Path) (content : Path → List UInt8) :
    Reading fs dir content (opened dir) where
  dir_eq := rfl
  describes := fun h => by cases h
  handle := fun h => by cases h

lemma Reading.setObject (h : Reading fs dir content share)
    (hobj : obj.Describes fs (content file)) : Reading fs dir content (setObject share file obj) where
  dir_eq := h.dir_eq
  describes := fun {other found} hfound => by
    simp only [Sharedir.setObject, update_apply] at hfound
    split at hfound
    · next heq =>
      obtain rfl := Option.some.inj hfound
      rwa [heq]
    · exact h.describes hfound
  handle := h.handle

def rest (content : Path → List UInt8) (share : Share) (file : Path) : List UInt8 :=
  match share.lookup file with
  | some obj => obj.rest (content file)
  | none => content file

lemma rest_of_lookup {lookup : Path → Option SharedirFile}
    (h : share.lookup = update lookup file (some obj)) :
    rest content share file = obj.rest (content file) := by
  simp [rest, h]

lemma rest_of_ne {other : Path}
    {before : Share} (h : share.lookup = update before.lookup file (some obj))
    (hne : other ≠ file) : rest content share other = rest content before other := by
  simp [rest, h, hne]

lemma Reading.sharedirGetObject (h : Reading fs dir content share)
    (hfile : Regular fs dir file (content file)) :
    ∃ obj, sharedirGetObject fs share dir file = some (some obj, Sharedir.setObject share file obj) ∧
      obj.Describes fs (content file) ∧ obj.rest (content file) = rest content share file := by
  unfold Sharedir.sharedirGetObject
  cases hlookup : share.lookup file with
  | some obj =>
    have hobj := h.describes hlookup
    refine ⟨obj, ?_, hobj, by simp [rest, hlookup]⟩
    simp [hobj.stat, Sharedir.setObject, ← hlookup]
  | none =>
    obtain ⟨path, mtime, hreal, hpre, hstat, hopen⟩ := hfile
    have hscan : sharedirScan fs dir file = some path :=
      sharedirScan_eq_some.mpr ⟨hreal, hpre, by simp [fileExits, hstat]⟩
    refine ⟨⟨path, _, _, mtime⟩, by simp only [hscan, hstat]; rfl, ⟨hstat, hopen, rfl, le_rfl⟩, ?_⟩
    simp [rest, hlookup, SharedirFile.rest]

lemma Reading.getFilePtr (h : Reading fs dir content share)
    (hobj : obj.Describes fs (content file)) :
    ∃ f, (getFilePtr fs share file obj).1 = some f ∧ f.content = content file ∧
      (Sharedir.getFilePtr fs share file obj).2.lastFileObjPtr = some file := by
  unfold Sharedir.getFilePtr
  split
  · next hopen =>
    obtain ⟨f, hf⟩ := Option.isSome_iff_exists.mp hopen.2
    exact ⟨f, hf, h.handle hopen.1 hf, hopen.1⟩
  · exact ⟨⟨content file, 0⟩, by simp [hobj.fopen], rfl, rfl⟩

lemma Reading.readChunk (h : Reading fs dir content share)
    (hobj : obj.Describes fs (content file)) {n : ℕ} (hn : n ≤ obj.bytesLeft) :
    ∃ share', readChunk fs share file obj n = some ((obj.rest (content file)).take n, share') ∧
      Reading fs dir content share' ∧ share'.lookup =
        update share.lookup file (some { obj with bytesLeft := obj.bytesLeft - n }) := by
  obtain ⟨f, hf, hcontent, hptr⟩ := h.getFilePtr hobj
  obtain ⟨hdir, hlookup⟩ := getFilePtr_snd fs share file obj
  have hfull : ((obj.rest (content file)).take n).length = n := by
    rw [List.length_take, hobj.length_rest, min_eq_left hn]
  have hleft := hobj.bytesLeft
  have hobj' : SharedirFile.Describes fs (content file) { obj with bytesLeft := obj.bytesLeft - n } :=
    ⟨hobj.stat, hobj.fopen, hobj.size, by simp only; omega⟩
  unfold Sharedir.readChunk
  generalize Sharedir.getFilePtr fs share file obj = opened at hf hptr hdir hlookup
  obtain ⟨handle, share₁⟩ := opened
  subst hf
  have hread : fread (fseek f (obj.size - obj.bytesLeft)) n =
      ((obj.rest (content file)).take n, ⟨f.content, obj.size - obj.bytesLeft + n⟩) := by
    rw [← hfull]
    simp [fread, fseek, hcontent, SharedirFile.rest]
  simp only [hread, hfull, if_true]
  have hmoved : ∀ pos, Reading fs dir content { share₁ with lastFileF := some ⟨f.content, pos⟩ } := by
    intro pos
    refine ⟨hdir.trans h.dir_eq, fun {other found} hfound => ?_, fun {other f'} hother hf' => ?_⟩
    · exact h.describes (by rwa [← hlookup])
    · obtain rfl : file = other := Option.some.inj (hptr.symm.trans hother)
      obtain rfl := Option.some.inj hf'
      exact hcontent
  exact ⟨_, rfl, (hmoved _).setObject hobj', by rw [← hlookup]; rfl⟩

lemma SharedirFile.Describes.rest_sub {bytes : List UInt8}
    (h : obj.Describes fs bytes) {n : ℕ} (hn : n ≤ obj.bytesLeft) :
    SharedirFile.rest bytes { obj with bytesLeft := obj.bytesLeft - n } = (obj.rest bytes).drop n := by
  have hleft := h.bytesLeft
  simp only [SharedirFile.rest, List.drop_drop]
  congr 1
  omega

/-- What a request for `file` does to the state: it is answered by `bytes`, leaves `left` of the file
and does not touch the other files. -/
def Sends (fs : Fs) (dir : Path) (content : Path → List UInt8) (share : Share) (file : Path)
    (bytes left : List UInt8) (result : Option (Reply × Share)) : Prop :=
  ∃ path share', result = some (.served path bytes, share') ∧ Reading fs dir content share' ∧
    rest content share' file = left ∧
    ∀ other, other ≠ file → rest content share' other = rest content share other

lemma Reading.sends_readChunk (h : Reading fs dir content share)
    (hobj : obj.Describes fs (content file)) {n : ℕ} (hn : n ≤ obj.bytesLeft) :
    Sends fs dir content share file ((obj.rest (content file)).take n)
      ((obj.rest (content file)).drop n)
      ((Sharedir.readChunk fs (Sharedir.setObject share file obj) file obj n).map fun (bytes, share) =>
        (.served obj.path bytes, share)) := by
  obtain ⟨share', hread, hreading, hlookup⟩ := (h.setObject hobj).readChunk hobj hn
  rw [Sharedir.setObject, update_idem] at hlookup
  refine ⟨obj.path, share', by rw [hread]; rfl, hreading, ?_, fun other hne => rest_of_ne hlookup hne⟩
  rw [rest_of_lookup hlookup, hobj.rest_sub hn]

lemma Reading.sends_request (h : Reading fs dir content share)
    (hfile : Regular fs dir file (content file)) :
    Sends fs dir content share file ((rest content share file).take 0x1000)
      (if rest content share file = [] then content file
        else (rest content share file).drop 0x1000)
      (sharedirRequestFile fs share file) := by
  obtain ⟨obj, hget, hobj, hrest⟩ := h.sharedirGetObject hfile
  have hlen := hobj.length_rest
  unfold sharedirRequestFile
  simp only [h.dir_eq, hget]
  rw [← hrest]
  by_cases hpage : 0x1000 ≤ obj.bytesLeft
  · have hne : obj.rest (content file) ≠ [] := List.ne_nil_of_length_pos (by omega)
    rw [if_pos hpage, if_neg hne]
    exact h.sends_readChunk hobj hpage
  rw [if_neg hpage]
  by_cases hleft : obj.bytesLeft = 0
  · have hnil : obj.rest (content file) = [] := List.eq_nil_of_length_eq_zero (by omega)
    rw [if_neg (not_not.mpr hleft), if_pos hnil, hnil]
    have hobj' : SharedirFile.Describes fs (content file) { obj with bytesLeft := obj.size } :=
      ⟨hobj.stat, hobj.fopen, hobj.size, le_rfl⟩
    have hlookup := update_idem (some obj) (some { obj with bytesLeft := obj.size })
      (a := file) (f := share.lookup)
    refine ⟨obj.path, _, rfl, (h.setObject hobj).setObject hobj', ?_, fun other hne =>
      rest_of_ne hlookup hne⟩
    rw [rest_of_lookup hlookup, SharedirFile.rest, Nat.sub_self, List.drop_zero]
  · -- the last page, which is not full
    have hne : obj.rest (content file) ≠ [] := List.ne_nil_of_length_pos (by omega)
    rw [if_pos hleft, if_neg hne, List.take_of_length_le (by omega), List.drop_of_length_le (by omega)]
    have hsends := h.sends_readChunk hobj (le_refl obj.bytesLeft)
    rwa [List.take_of_length_le (by omega), List.drop_of_length_le (by omega)] at hsends

def received (file : Path) (requests : List Path) (replies : List Reply) : List (List UInt8) :=
  ((requests.zip replies).filter fun sent => sent.1 = file).map fun sent => sent.2.bytes

lemma received_cons_self (requests : List Path) (reply : Reply) (replies : List Reply) :
    received file (file :: requests) (reply :: replies) =
      reply.bytes :: received file requests replies := by
  simp [received]

lemma received_cons_of_ne {other : Path} (h : other ≠ file) (requests : List Path) (reply : Reply)
    (replies : List Reply) :
    received other (file :: requests) (reply :: replies) = received other requests replies := by
  simp [received, Ne.symm h]

lemma Reading.answers (h : Reading fs dir content share) {requests : List Path}
    (hfiles : ∀ file ∈ requests, Regular fs dir file (content file)) :
    ∃ replies, sharedir.answers share (requests.map fun file => (fs, file)) = some replies ∧
      (∀ reply ∈ replies, reply ≠ .failed) ∧
      ∀ file, Streams 0x1000 (content file) (rest content share file)
        (received file requests replies) := by
  induction requests generalizing share with
  | nil => exact ⟨[], rfl, by simp, fun file => .stop _⟩
  | cons file requests ih =>
    obtain ⟨path, share', hrequest, hreading, hleft, hother⟩ :=
      h.sends_request (hfiles file List.mem_cons_self)
    obtain ⟨replies, hanswers, hserved, hstreams⟩ :=
      ih hreading fun other hmem => hfiles other (List.mem_cons_of_mem _ hmem)
    refine ⟨.served path ((rest content share file).take 0x1000) :: replies, ?_, ?_, fun other => ?_⟩
    · rw [List.map_cons, Machine.answers_cons (show sharedir share (fs, file) = _ from hrequest),
        hanswers]
      rfl
    · rintro reply (_ | ⟨_, hmem⟩)
      · exact Reply.noConfusion
      · exact hserved reply hmem
    · by_cases hne : other = file
      · subst hne
        have hnext := hstreams other
        rw [hleft] at hnext
        rw [received_cons_self]
        by_cases hnil : rest content share other = []
        · rw [if_pos hnil] at hnext
          rw [hnil]
          exact .again hnext
        · rw [if_neg hnil] at hnext
          exact .block hnil hnext
      · rw [received_cons_of_ne hne, ← hother other hne]
        exact hstreams other

/-- However requests for files of the share are interleaved, all of them are answered, and what each
name gets are rounds of its file's pages, all full but the last one, with a 0 behind them. -/
theorem streams_requested {requests : List Path}
    (hfiles : ∀ file ∈ requests, Regular fs dir file (content file)) :
    ∃ replies, sharedir.answers (opened dir) (requests.map fun file => (fs, file)) = some replies ∧
      (∀ reply ∈ replies, reply ≠ .failed) ∧
      ∀ file, ∃ blocks k, Blocks 0x1000 (content file) blocks ∧
        received file requests replies <+: (List.replicate k (blocks ++ [[]])).flatten := by
  obtain ⟨replies, hanswers, hserved, hstreams⟩ := (Reading.opened fs dir content).answers hfiles
  exact ⟨replies, hanswers, hserved, fun file => (hstreams file).exists_rounds (by decide)⟩

def twoFiles (file : Path) : List UInt8 :=
  if file = ascii "a" then List.replicate 0x1001 7 else [1, 2]

def twoFilesFs : Fs where
  realpath path := some path
  stat path :=
    if path = ascii "/share/a" then some ⟨0x1001, 0⟩ else
    if path = ascii "/share/b" then some ⟨2, 0⟩ else none
  fopen path :=
    if path = ascii "/share/a" then some (List.replicate 0x1001 7) else
    if path = ascii "/share/b" then some [1, 2] else none

theorem streams_requested_twoFiles :
    ∃ replies, sharedir.answers (opened (ascii "/share"))
        ((["a", "b", "a", "a", "b", "b", "a"].map ascii).map fun file => (twoFilesFs, file)) =
          some replies ∧
      (∀ reply ∈ replies, reply ≠ .failed) ∧
      ∀ file, ∃ blocks k, Blocks 0x1000 (twoFiles file) blocks ∧
        received file (["a", "b", "a", "a", "b", "b", "a"].map ascii) replies <+:
          (List.replicate k (blocks ++ [[]])).flatten := by
  have ha : Regular twoFilesFs (ascii "/share") (ascii "a") (twoFiles (ascii "a")) :=
    ⟨ascii "/share/a", 0, rfl, by decide, by rw [twoFiles, if_pos rfl, List.length_replicate]; rfl, rfl⟩
  have hb : Regular twoFilesFs (ascii "/share") (ascii "b") (twoFiles (ascii "b")) :=
    ⟨ascii "/share/b", 0, rfl, by decide, rfl, rfl⟩
  refine streams_requested fun file hmem => ?_
  simp only [List.map_cons, List.map_nil, List.mem_cons, List.not_mem_nil, or_false] at hmem
  obtain rfl | rfl | rfl | rfl | rfl | rfl | rfl := hmem <;> assumption

end Nyx.Sharedir
