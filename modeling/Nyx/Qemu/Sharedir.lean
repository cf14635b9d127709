import Mathlib.Data.List.Basic
import Nyx.Lib.Machine

/-!
# The shared directory

The guest asks for files by name, and QEMU sends the files of one directory page by page. A name is
appended to the directory and resolved by `realpath`; the result must begin with the directory. What
a name stands for is looked up once and kept in a table, with the number of bytes still to be sent.
All files share one open handle.

Names are C strings without the zero. An object of the table is never freed and belongs to one name.
A failed assertion and a read through a null pointer are `none`.
-/

namespace Nyx.Sharedir

open Function

abbrev Path := List UInt8

def slash : UInt8 := 0x2f

/-- What `stat` says about a file. -/
structure Stat where
  size : ℕ
  mtime : Int

/-- The file system of the host. -/
structure Fs where
  realpath : Path → Option Path
  stat : Path → Option Stat
  /-- What a handle from `fopen` reads; nothing for a directory. -/
  fopen : Path → Option (List UInt8)

/-- An open file. -/
structure FilePtr where
  content : List UInt8
  pos : ℕ

def fseek (f : FilePtr) (offset : ℕ) : FilePtr := { f with pos := offset }

def fread (f : FilePtr) (n : ℕ) : List UInt8 × FilePtr :=
  let bytes := (f.content.drop f.pos).take n
  (bytes, { f with pos := f.pos + bytes.length })

/-- `sharedir_file_t`. The base name in its field `file` is only printed. -/
structure SharedirFile where
  path : Path
  size : ℕ
  bytesLeft : ℕ
  modTime : Int

/-- `sharedir_t`. -/
structure Share where
  dir : Option Path
  lookup : Path → Option SharedirFile
  lastFileF : Option FilePtr
  lastFileObjPtr : Option Path

def sharedirNew : Share := ⟨none, fun _ => none, none, none⟩

def fileExits (fs : Fs) (file : Path) : Bool := (fs.stat file).isSome

def joined (dir file : Path) : Path := dir ++ slash :: file

def sharedirScan (fs : Fs) (dir file : Path) : Option Path :=
  match fs.realpath (joined dir file) with
  | some realPath => if dir.isPrefixOf realPath && fileExits fs realPath then some realPath else none
  | none => none

/-- The object of a name, which is entered into the table when the name is new; `some (none, _)` is
the null pointer for a file that is not found. -/
def sharedirGetObject (fs : Fs) (self : Share) (dir file : Path) :
    Option (Option SharedirFile × Share) :=
  match self.lookup file with
  | some obj =>
    match fs.stat obj.path with
    | some st => if st.mtime = obj.modTime ∧ st.size = obj.size then some (some obj, self) else none
    | none => none
  | none =>
    match sharedirScan fs dir file with
    | some realpath =>
      match fs.stat realpath with
      | some st =>
        let obj : SharedirFile := ⟨realpath, st.size, st.size, st.mtime⟩
        some (some obj, { self with lookup := update self.lookup file (some obj) })
      | none => none
    | none => some (none, self)

def getFilePtr (fs : Fs) (self : Share) (file : Path) (obj : SharedirFile) :
    Option FilePtr × Share :=
  if self.lastFileObjPtr = some file ∧ self.lastFileF.isSome then (self.lastFileF, self)
  else
    let f := (fs.fopen obj.path).map (⟨·, 0⟩)
    (f, { self with lastFileF := f, lastFileObjPtr := some file })

def setObject (self : Share) (file : Path) (obj : SharedirFile) : Share :=
  { self with lookup := update self.lookup file (some obj) }

/-- The two branches of `sharedir_request_file` that read `n` bytes from the file. -/
def readChunk (fs : Fs) (self : Share) (file : Path) (obj : SharedirFile) (n : ℕ) :
    Option (List UInt8 × Share) :=
  match getFilePtr fs self file obj with
  | (none, _) => none
  | (some f, self) =>
    let (bytes, f) := fread (fseek f (obj.size - obj.bytesLeft)) n
    if bytes.length = n then
      some (bytes, setObject { self with lastFileF := some f } file
        { obj with bytesLeft := obj.bytesLeft - n })
    else none

/-- What `sharedir_request_file` returns, with the bytes that it has put into the page buffer and
the path of the file that they are from. -/
inductive Reply
  | failed
  | served (path : Path) (bytes : List UInt8)
  deriving DecidableEq

def Reply.bytes : Reply → List UInt8
  | .failed => []
  | .served _ bytes => bytes

def sharedirRequestFile (fs : Fs) (self : Share) (file : Path) : Option (Reply × Share) :=
  match self.dir with
  | none => some (.failed, self)
  | some dir =>
    match sharedirGetObject fs self dir file with
    | none => none
    | some (none, self) => some (.failed, self)
    | some (some obj, self) =>
      if 0x1000 ≤ obj.bytesLeft then
        (readChunk fs self file obj 0x1000).map fun (bytes, self) => (.served obj.path bytes, self)
      else if obj.bytesLeft ≠ 0 then
        (readChunk fs self file obj obj.bytesLeft).map fun (bytes, self) =>
          (.served obj.path bytes, self)
      else some (.served obj.path [], setObject self file { obj with bytesLeft := obj.size })

/-- Requests come with the file system as it is at that time. -/
def sharedir : Machine (Fs × Path) Reply Share := fun self (fs, file) =>
  sharedirRequestFile fs self file

def opened (dir : Path) : Share := { sharedirNew with dir := some dir }

/-! ### Confinement -/

def Within (dir path : Path) : Prop := path = dir ∨ dir ++ [slash] <+: path

instance (dir path : Path) : Decidable (Within dir path) := inferInstanceAs (Decidable (_ ∨ _))

/-- A path that continues the name of the directory, such as `/share2/x` for `/share`. -/
def Beside (dir path : Path) : Prop := dir <+: path ∧ ¬Within dir path

def Reply.Confined (dir : Path) : Reply → Prop
  | .failed => True
  | .served path _ => Within dir path

/-- The request is for a name that is not in the table and that resolves to an existing file beside
the directory. -/
def Strays (dir : Path) (self : Share) (request : Fs × Path) : Prop :=
  self.lookup request.2 = none ∧ ∃ path, request.1.realpath (joined dir request.2) = some path ∧
    fileExits request.1 path ∧ Beside dir path

lemma sharedirScan_eq_some {fs : Fs} {dir file path : Path} :
    sharedirScan fs dir file = some path ↔
      fs.realpath (joined dir file) = some path ∧ dir <+: path ∧ fileExits fs path := by
  unfold sharedirScan
  split
  · next realPath h =>
    rw [h, Option.some_inj]
    constructor
    · intro hsome
      split at hsome
      · next hcheck =>
        obtain rfl := Option.some.inj hsome
        simpa using hcheck
      · cases hsome
    · rintro ⟨rfl, hpre, hexists⟩
      simp [hpre, hexists]
  · next h => simp [h]

def Names (fs : Fs) (dir : Path) (self : Share) (file path : Path) : Prop :=
  (∃ obj, self.lookup file = some obj ∧ obj.path = path) ∨
    self.lookup file = none ∧ sharedirScan fs dir file = some path

lemma sharedirGetObject_cases {fs : Fs} {self self' : Share} {dir file : Path}
    {found : Option SharedirFile} (h : sharedirGetObject fs self dir file = some (found, self')) :
    (found = none ∧ self' = self ∧ self.lookup file = none ∧ sharedirScan fs dir file = none) ∨
      ∃ obj, found = some obj ∧ Names fs dir self file obj.path ∧ self' = setObject self file obj := by
  unfold sharedirGetObject at h
  split at h
  · next obj hobj =>
    split at h
    · next st hst =>
      split at h
      · obtain ⟨rfl, rfl⟩ := Prod.mk.inj (Option.some.inj h)
        refine .inr ⟨obj, rfl, .inl ⟨obj, hobj, rfl⟩, ?_⟩
        simp [setObject, ← hobj]
      · cases h
    · cases h
  · next hnone =>
    split at h
    · next path hscan =>
      split at h
      · obtain ⟨rfl, rfl⟩ := Prod.mk.inj (Option.some.inj h)
        exact .inr ⟨_, rfl, .inr ⟨hnone, hscan⟩, rfl⟩
      · cases h
    · next hscan =>
      obtain ⟨rfl, rfl⟩ := Prod.mk.inj (Option.some.inj h)
      exact .inl ⟨rfl, rfl, hnone, hscan⟩

lemma getFilePtr_snd (fs : Fs) (self : Share) (file : Path) (obj : SharedirFile) :
    (getFilePtr fs self file obj).2.dir = self.dir ∧
      (getFilePtr fs self file obj).2.lookup = self.lookup := by
  unfold getFilePtr
  split <;> exact ⟨rfl, rfl⟩

lemma readChunk_cases {fs : Fs} {self self' : Share} {file : Path} {obj : SharedirFile} {n : ℕ}
    {bytes : List UInt8} (h : readChunk fs self file obj n = some (bytes, self')) :
    self'.dir = self.dir ∧ self'.lookup =
      update self.lookup file (some { obj with bytesLeft := obj.bytesLeft - n }) := by
  have hptr := getFilePtr_snd fs self file obj
  unfold readChunk at h
  split at h
  · cases h
  · next f t ht =>
    rw [ht] at hptr
    dsimp only [fread] at h
    split at h
    · obtain ⟨-, rfl⟩ := Prod.mk.inj (Option.some.inj h)
      exact ⟨hptr.1, by rw [← hptr.2]; rfl⟩
    · cases h

lemma sharedirRequestFile_cases {fs : Fs} {self self' : Share} {dir file : Path} {reply : Reply}
    (hdir : self.dir = some dir) (h : sharedirRequestFile fs self file = some (reply, self')) :
    (reply = .failed ∧ self' = self ∧ self.lookup file = none ∧ sharedirScan fs dir file = none) ∨
      ∃ obj bytes, reply = .served obj.path bytes ∧ Names fs dir self file obj.path ∧
        self'.dir = some dir ∧ self'.lookup = update self.lookup file (some obj) := by
  unfold sharedirRequestFile at h
  simp only [hdir] at h
  split at h
  · cases h
  · next t ht =>
    obtain ⟨rfl, rfl⟩ := Prod.mk.inj (Option.some.inj h)
    obtain ⟨-, rfl, hnone⟩ | ⟨obj, hobj, -⟩ := sharedirGetObject_cases ht
    · exact .inl ⟨rfl, rfl, hnone⟩
    · cases hobj
  · next obj t ht =>
    obtain ⟨hnone, -⟩ | ⟨found, hfound, hnames, rfl⟩ := sharedirGetObject_cases ht
    · cases hnone
    obtain rfl := Option.some.inj hfound
    right
    have hread : ∀ n, (readChunk fs (setObject self file obj) file obj n).map
        (fun (bytes, self) => (Reply.served obj.path bytes, self)) = some (reply, self') →
        ∃ obj bytes, reply = .served obj.path bytes ∧ Names fs dir self file obj.path ∧
          self'.dir = some dir ∧ self'.lookup = update self.lookup file (some obj) := by
      intro n hn
      obtain ⟨⟨bytes, t⟩, hread, heq⟩ := Option.map_eq_some_iff.mp hn
      obtain ⟨rfl, rfl⟩ := Prod.mk.inj heq
      obtain ⟨hd, hl⟩ := readChunk_cases hread
      refine ⟨{ obj with bytesLeft := obj.bytesLeft - n }, bytes, rfl, hnames, hd.trans hdir, ?_⟩
      rw [hl, setObject, update_idem]
    split_ifs at h with hpage hrest
    · exact hread _ h
    · exact hread _ h
    · obtain ⟨rfl, rfl⟩ := Prod.mk.inj (Option.some.inj h)
      refine ⟨{ obj with bytesLeft := obj.size }, [], rfl, hnames, hdir, ?_⟩
      simp [setObject]

/-- All known files are in the directory. -/
structure TableWithin (dir : Path) (share : Share) : Prop where
  dir_eq : share.dir = some dir
  within : ∀ {file obj}, share.lookup file = some obj → Within dir obj.path

lemma TableWithin.opened (dir : Path) : TableWithin dir (opened dir) where
  dir_eq := rfl
  within := fun h => by cases h

section

variable {dir : Path} {self self' : Share} {request : Fs × Path} {reply : Reply}

variable (hw : TableWithin dir self)
include hw

lemma TableWithin.names {fs : Fs} {file path : Path}
    (h : Names fs dir self file path) : Within dir path ↔ ¬Strays dir self (fs, file) := by
  obtain ⟨obj, hobj, rfl⟩ | ⟨hnone, hscan⟩ := h
  · have hwithin := hw.within hobj
    simp [Strays, hobj, hwithin]
  · obtain ⟨hreal, hpre, hexists⟩ := sharedirScan_eq_some.mp hscan
    simp [Strays, Beside, hnone, hreal, hpre, hexists]

lemma TableWithin.confined_iff (h : sharedir self request = some (reply, self')) :
    reply.Confined dir ↔ ¬Strays dir self request := by
  obtain ⟨rfl, -, -, hscan⟩ | ⟨obj, bytes, rfl, hnames, -⟩ := sharedirRequestFile_cases hw.dir_eq h
  · refine ⟨fun _ => ?_, fun _ => trivial⟩
    rintro ⟨-, path, hreal, hexists, hbeside⟩
    rw [sharedirScan_eq_some.mpr ⟨hreal, hbeside.1, hexists⟩] at hscan
    cases hscan
  · exact hw.names hnames

lemma TableWithin.step (hok : ¬Strays dir self request)
    (h : sharedir self request = some (reply, self')) : TableWithin dir self' := by
  obtain ⟨-, rfl, -⟩ | ⟨obj, bytes, -, hnames, hdir, hlookup⟩ :=
    sharedirRequestFile_cases hw.dir_eq h
  · exact hw
  · refine ⟨hdir, fun {other found} hfound => ?_⟩
    rw [hlookup, update_apply] at hfound
    split at hfound
    · obtain rfl := Option.some.inj hfound
      exact (hw.names hnames).mpr hok
    · exact hw.within hfound

end

/-- All files that are served lie within the directory exactly if no new name ever resolves to a
file beside it. -/
theorem gives_confined_iff (dir : Path) (requests : List (Fs × Path)) :
    sharedir.Gives (Reply.Confined dir) (opened dir) requests ↔
      sharedir.Meets (fun self request => ¬Strays dir self request) (opened dir) requests :=
  Machine.gives_iff_meets (TableWithin dir) (fun _ _ _ _ hw hok h => hw.step hok h)
    (fun _ _ _ _ hw h => hw.confined_iff h) (TableWithin.opened dir) requests

def ascii (s : String) : Path := s.toList.map fun c => c.toNat.toUInt8

def neighbour : Fs where
  realpath path :=
    if path = ascii "/share/../share2/secret" then some (ascii "/share2/secret") else
    if path = ascii "/share" then some path else none
  stat path :=
    if path = ascii "/share2/secret" then some ⟨4, 0⟩ else
    if path = ascii "/share" then some ⟨4096, 0⟩ else none
  fopen path := if path = ascii "/share2/secret" then some [1, 2, 3, 4] else some []

theorem not_gives_confined_neighbour :
    neighbour.realpath (ascii "/share") = some (ascii "/share") ∧
      (sharedirRequestFile neighbour (opened (ascii "/share")) (ascii "../share2/secret")).map
        Prod.fst = some (.served (ascii "/share2/secret") [1, 2, 3, 4]) ∧
      ¬sharedir.Gives (Reply.Confined (ascii "/share")) (opened (ascii "/share"))
        [(neighbour, ascii "../share2/secret")] := by
  have hserved : (sharedirRequestFile neighbour (opened (ascii "/share"))
      (ascii "../share2/secret")).map Prod.fst =
        some (.served (ascii "/share2/secret") [1, 2, 3, 4]) := by decide +kernel
  refine ⟨by decide, hserved, fun hgives => ?_⟩
  obtain ⟨⟨reply, self'⟩, hrequest, hreply⟩ := Option.map_eq_some_iff.mp hserved
  obtain ⟨hconfined, -⟩ := hgives reply self' hrequest
  rw [show reply = _ from hreply] at hconfined
  have hnot : ¬Within (ascii "/share") (ascii "/share2/secret") := by decide
  exact hnot hconfined

end Nyx.Sharedir
