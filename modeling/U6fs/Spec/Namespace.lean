import U6fs.Lib.Namespace
import U6fs.Lib.Path
import U6fs.Lib.Tree
import U6fs.Command

/-!
# What a volume is for

A volume keeps files in a tree of directories. Its users see numbered files and directories, find
them by paths, and add directories and files. Creating a name and adding a file are stated here in
these terms, with the codes that are returned; of the sectors only one thing is seen, whether a
free one is left. How the code stores all this is not mentioned.
-/
namespace U6fs

open Lib

/-- The files and directories of a volume: records are numbers and names, files hold bytes, and the
attribute is the mode. -/
abbrev Volume := Namespace UInt16 (List UInt8) (List UInt8) UInt16

/-- The code for a name that is not found. -/
def lookupErrorCode : LookupError → Int
  | .unused => errUnallocatedInode
  | .notDirectory => errInvalidDirectoryInode
  | .absent => errNoSuchFile

/-- The directories of a path, and its last component; that is empty when the path ends in a slash
or has no component. -/
def splitPath (entry : List UInt8) : List (List UInt8) × List UInt8 :=
  if trailing pathToken entry = 0 then
    ((components pathToken entry).dropLast, (components pathToken entry).getLastD [])
  else (components pathToken entry, [])

/-- An empty directory or file. -/
def emptyNode (mode : UInt16) : Node UInt16 (List UInt8) (List UInt8) UInt16 where
  attr := mode ||| 0x8000
  body := if (mode ||| 0x8000) &&& ifdir != 0 then .directory [] else .file []

namespace Volume

variable (ns : Volume)

/-- The smallest number from 1 on that is not in use, or 0. -/
def nextNumber : UInt16 :=
  match (List.range' 1 65535).find? fun n => (ns (UInt16.ofNat n)).isNone with
  | some n => UInt16.ofNat n
  | none => 0

/-- A directory has as many records as its sectors can hold. -/
def FillsSectors (parent : UInt16) : Prop := (ns.entries parent).length % 32 = 0

instance (parent : UInt16) : Decidable (ns.FillsSectors parent) :=
  inferInstanceAs (Decidable (_ = _))

/-- A name is looked up in the directory of its path; the empty name is that of the directory. -/
def lookupLast (parent : UInt16) (name : List UInt8) : Except LookupError UInt16 :=
  if name = [] then .ok parent else ns.lookup parent name

/-- A new node is recorded in a directory. Without a free sector, a record for which the directory
needs one is left out. -/
def enter (room : Bool) (parent : UInt16) (name : List UInt8) (mode : UInt16) : Int × Volume :=
  if ns.FillsSectors parent ∧ room = false then
    (errBitmapFull, ns.store ns.nextNumber (emptyNode mode))
  else ((ns.nextNumber.toNat : Int),
    (ns.store ns.nextNumber (emptyNode mode)).record parent (ns.nextNumber, name))

/-- A file or directory is created under a path: the number or the code, and the volume after
it. -/
def create (room : Bool) (entry : List UInt8) (mode : UInt16) : Int × Volume :=
  if 14 < (splitPath entry).2.length then (errFilenameTooLong, ns)
  else match ns.resolve 1 (splitPath entry).1 with
    | .error failure => (lookupErrorCode failure, ns)
    | .ok parent =>
      match ns.lookupLast parent (splitPath entry).2 with
      | .ok _ => (errFilenameAlreadyExists, ns)
      | .error .absent => ns.enter room parent (splitPath entry).2 mode
      | .error failure => (lookupErrorCode failure, ns)

/-- A file is created under a path and gets its content, if a sector is free. -/
def addfile (room : Bool) (entry : List UInt8) (mode : UInt16) (buf : List UInt8) : Int × Volume :=
  match ns.create room entry mode with
  | (code, ns) =>
    if code < 0 then (code, ns)
    else if buf = [] then (errNone, ns)
    else if room = false then (errBitmapFull, ns)
    else (errNone, ns.fill (UInt16.ofNat code.toNat) buf)

/-- What a path may be for a creation: it is a string, its last component has not exactly 14 bytes,
its directory has less than 255 records, and a number up to a bound is not in use. -/
structure Ready (last : Nat) (entry : List UInt8) : Prop where
  /-- It is a string. -/
  plain : 0 ∉ entry
  /-- Its last component is copied with its NUL, or is too long. -/
  name : (splitPath entry).2.length ≠ 14
  /-- The record leaves the directory below 4096 bytes. -/
  parent : ∀ parent, ns.resolve 1 (splitPath entry).1 = .ok parent →
    (ns.entries parent).length < 255
  /-- A number that is not in use is left. -/
  number : 1 ≤ ns.nextNumber.toNat ∧ ns.nextNumber.toNat ≤ last

/-- What holds of the number to which a path resolves can be decided. -/
instance (names : List (List UInt8)) (P : UInt16 → Prop) [DecidablePred P] :
    Decidable (∀ parent, ns.resolve 1 names = .ok parent → P parent) :=
  match ns.resolve 1 names with
  | .error _ => .isTrue fun _ wrong => by cases wrong
  | .ok parent => decidable_of_iff (P parent)
    ⟨fun holds _ same => by cases same; exact holds, fun all => all parent rfl⟩

instance (last : Nat) (entry : List UInt8) : Decidable (ns.Ready last entry) :=
  decidable_of_iff (0 ∉ entry ∧ (splitPath entry).2.length ≠ 14 ∧
      (∀ parent, ns.resolve 1 (splitPath entry).1 = .ok parent →
        (ns.entries parent).length < 255) ∧
      1 ≤ ns.nextNumber.toNat ∧ ns.nextNumber.toNat ≤ last)
    ⟨fun ⟨plain, name, parent, number⟩ => ⟨plain, name, parent, number⟩,
      fun ready => ⟨ready.plain, ready.name, ready.parent, ready.number⟩⟩

/-- What a file that is added may be: it has less than a sector of content, and with content its
record does not take a sector as well, so its directory has a partly used last sector. -/
structure ReadyFile (last : Nat) (entry buf : List UInt8) : Prop extends ns.Ready last entry where
  /-- The content has less than a sector. -/
  short : buf.length < 512
  /-- Only one of the record and the content takes a sector. -/
  single : buf ≠ [] → ∀ parent, ns.resolve 1 (splitPath entry).1 = .ok parent →
    ¬ns.FillsSectors parent

instance (last : Nat) (entry buf : List UInt8) : Decidable (ns.ReadyFile last entry buf) :=
  decidable_of_iff (ns.Ready last entry ∧ buf.length < 512 ∧
      (buf ≠ [] → ∀ parent, ns.resolve 1 (splitPath entry).1 = .ok parent →
        ¬ns.FillsSectors parent))
    ⟨fun ⟨ready, short, single⟩ => ⟨ready, short, single⟩,
      fun ready => ⟨ready.toReady, ready.short, ready.single⟩⟩

end Volume

/-- What the arguments of a process ask for. -/
inductive Request where
  /-- Nothing, or to read. -/
  | read
  /-- `mkdir`. -/
  | mkdir (entry : List UInt8)
  /-- `add`, with what was read of the source file. -/
  | add (entry buf : List UInt8)
deriving DecidableEq

/-- What a request makes: a node, and the path under which it is. -/
def Request.makes : Request → Option (List UInt8 × Node UInt16 (List UInt8) (List UInt8) UInt16)
  | .read => none
  | .mkdir entry => some (entry, emptyNode ifdir)
  | .add entry buf => some (entry, ⟨allRights ||| 0x8000, .file buf⟩)

/-- The request of a process. -/
def Environment.request (env : Environment) : Request :=
  if !env.opens then .read
  else if isCommand env.argv "mkdir" 4 then .mkdir (env.argv.getD 3 [])
  else if isCommand env.argv "add" 5 then
    match env.source.read with
    | .error _ => .read
    | .ok buff => .add (env.argv.getD 3 []) buff
  else .read

/-- The code of a process whose command returns a number or a code. -/
def exitCode (closes : Bool) (code : Int) : Int :=
  if code < 0 then code else if closes then errNone else errIo

namespace Volume

/-- The line of a node under a path, in a listing of all paths. -/
def line (body : Body UInt16 (List UInt8) (List UInt8)) (names : List (List UInt8)) : TreeLine :=
  match body with
  | .directory _ => .dir (joined pathToken names ++ [pathToken])
  | .file _ => .fil (joined pathToken names)

/-- The line of a path that leads to a number in use. -/
def pathLine (ns : Volume) (path : List (List UInt8) × UInt16) : Option TreeLine :=
  (ns path.2).map fun node => line node.body path.1

/-- The listing of all paths, depth first. -/
def treeLines (ns : Volume) : List TreeLine :=
  .dir [pathToken] :: (preorder ns.entries 65536 1).filterMap ns.pathLine

/-- The size of a file or directory: a record has 16 bytes. -/
def size (body : Body UInt16 (List UInt8) (List UInt8)) : Nat :=
  match body with
  | .directory records => 16 * records.length
  | .file content => content.length

/-- A list with an element for each number in use, in their order. -/
def listed {α : Type} (ns : Volume)
    (line : UInt16 → Node UInt16 (List UInt8) (List UInt8) UInt16 → α) : List α :=
  (List.range' 1 65535).filterMap fun n => (ns (UInt16.ofNat n)).map (line (UInt16.ofNat n))

/-- The line of a number in a listing of the inodes. -/
def inodeLine (n : UInt16) (node : Node UInt16 (List UInt8) (List UInt8) UInt16) : InodeLine where
  inr := n
  directory := match node.body with
    | .directory _ => true
    | .file _ => false
  size := size node.body

/-- The line of a number in a listing of the digests: those of the first 8 KiB of the files. -/
def shaLine (n : UInt16) (node : Node UInt16 (List UInt8) (List UInt8) UInt16) :
    UInt16 × ShaText :=
  (n, match node.body with
    | .directory _ => .directory
    | .file content => .digest (content.take utilsHashedLength))

/-- What is printed of the first sector of a file, and the code. What is printed of the inode is
more than a volume knows. -/
inductive Cats (ns : Volume) (n : UInt16) : Int → CatText → Prop
  /-- The number is not in use. -/
  | unused {code : Int} (unused : ns n = none) (negative : code < 0) : Cats ns n code (.notOpened n)
  /-- A directory. -/
  | directory {mode : UInt16} {records : List (UInt16 × List UInt8)} {text : InodeText}
    (is : ns n = some ⟨mode, .directory records⟩) (attr : text.iMode = mode.toNat)
    (size : text.size = 16 * records.length) : Cats ns n errNone (.directory n text)
  /-- A file. -/
  | file {mode : UInt16} {content : List UInt8} {text : InodeText}
    (is : ns n = some ⟨mode, .file content⟩) (attr : text.iMode = mode.toNat)
    (size : text.size = content.length) :
    Cats ns n errNone (.sector n text (content.take sectorSize))

/-- The requests that are covered, for a bound on the numbers: those that read, and the creations
whose path is ready. -/
def Admits (ns : Volume) (last : Nat) : Request → Prop
  | .read => True
  | .mkdir entry => ns.Ready last entry
  | .add entry buf => ns.ReadyFile last entry buf

instance (ns : Volume) (last : Nat) (request : Request) : Decidable (ns.Admits last request) :=
  match request with
  | .read => .isTrue trivial
  | .mkdir entry => inferInstanceAs (Decidable (ns.Ready last entry))
  | .add entry buf => inferInstanceAs (Decidable (ns.ReadyFile last entry buf))

/-- What a request does to a volume: the code of the process and the volume after it. The code of a
request that only reads is free. -/
inductive Serves (ns : Volume) (closes room : Bool) : Request → Int → Volume → Prop
  /-- Reading changes nothing, whatever its code. -/
  | read (code : Int) : Serves ns closes room .read code ns
  /-- A directory is created. -/
  | mkdir (entry : List UInt8) :
    Serves ns closes room (.mkdir entry) (exitCode closes (ns.create room entry ifdir).1)
      (ns.create room entry ifdir).2
  /-- A file is added. -/
  | add (entry buf : List UInt8) :
    Serves ns closes room (.add entry buf)
      (exitCode closes (ns.addfile room entry allRights buf).1)
      (ns.addfile room entry allRights buf).2

/-- The volumes that a creation may leave when it is cut off: the one before it, the one with a new
node that no record names yet, and the one after it. A creation that fails its checks stores
nothing. -/
def creations (ns : Volume) (room : Bool) (entry : List UInt8) (mode : UInt16) : List Volume :=
  if (ns.create true entry mode).1 < 0 then [ns]
  else [ns, ns.store ns.nextNumber (emptyNode mode), (ns.create room entry mode).2]

/-- The volumes that a request may leave when it is cut off. A file that is added may be without its
content. -/
def stages (ns : Volume) (room : Bool) : Request → List Volume
  | .read => [ns]
  | .mkdir entry => ns.creations room entry ifdir
  | .add entry buf =>
    ns.creations room entry allRights ++ [(ns.addfile room entry allRights buf).2]

end Volume

/-- What is known of a process that has run. -/
structure ServedRequest where
  /-- What it was asked for. -/
  request : Request
  /-- Whether the disk file closed. -/
  closes : Bool
  /-- Whether a sector was free. -/
  room : Bool
  /-- Its code. -/
  code : Int

namespace Volume

/-- The processes that have run on a volume, one after the other. -/
inductive Run : Volume → List ServedRequest → Volume → Prop
  /-- No process has run. -/
  | start (ns : Volume) : Run ns [] ns
  /-- One process more has run. -/
  | next {ns ns' ns'' : Volume} {log : List ServedRequest} {served : ServedRequest} {last : Nat}
    (before : Run ns log ns') (admits : ns'.Admits last served.request)
    (serves : ns'.Serves served.closes served.room served.request served.code ns'') :
    Run ns (log ++ [served]) ns''

/-- The requests that have been made of a volume, one after the other, each served or cut off. -/
inductive Life : Volume → List Request → Volume → Prop
  /-- No request has been made. -/
  | start (ns : Volume) : Life ns [] ns
  /-- One request more has been made. -/
  | next {ns ns' ns'' : Volume} {requests : List Request} {request : Request} {last : Nat}
    {room : Bool} (before : Life ns requests ns') (admits : ns'.Admits last request)
    (stage : ns'' ∈ ns'.stages room request) : Life ns (requests ++ [request]) ns''

end Volume

end U6fs
