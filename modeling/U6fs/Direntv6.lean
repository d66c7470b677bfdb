import Mathlib.Data.List.DropRight
import U6fs.Filev6

/-!
# Directories (`direntv6.c`)

Enumerating a directory, resolving a path, and creating an entry. Strings are the bytes before
their terminating NUL. As in `Filev6`, `none` is undefined behaviour: reading past the array of
records of a reader, or the copy of a name of 14 bytes, whose NUL falls behind the record.
-/
namespace U6fs

open Lib

/-- `struct directory_reader`; the records are kept as the memory that was read. -/
structure DirectoryReader where
  /-- Node of the directory. -/
  fv6 : Filev6
  /-- `dirs`, the records of the block read last. -/
  dirs : Sector
  /-- Next record to return. -/
  cur : Nat
  /-- Number of records of the block. -/
  last : Nat

/-- What `direntv6_readdir` returns. -/
inductive Readdir where
  /-- It returns 1 and stores a name and an inode number. -/
  | entry (d : DirectoryReader) (name : List UInt8) (childInr : UInt16)
  /-- It returns a code that is 0 at the end of the directory and negative on an error. -/
  | done (d : DirectoryReader) (code : Int)

/-- The bytes of a buffer up to its first NUL. -/
def cString (bytes : List UInt8) : List UInt8 := bytes.takeWhile (· ≠ 0)

/-- A string without NUL that is padded with NULs. -/
theorem cString_padded {name : List UInt8} (plain : 0 ∉ name) (count : Nat) :
    cString (name ++ List.replicate count 0) = name := by
  have all : ∀ x ∈ name, decide (x ≠ 0) = true := by
    intro x mem
    apply decide_eq_true
    rintro rfl
    exact plain mem
  rw [cString, List.takeWhile_append_of_pos all]
  cases count with
  | zero => exact List.append_nil name
  | succ count => exact List.append_nil name

/-- `direntv6_opendir`, with the records that the reader holds before. -/
def direntv6Opendir (u : UnixFilesystem) (inr : UInt16) (dirs : Sector) :
    Except Int DirectoryReader :=
  match filev6Open u inr with
  | .error ret => .error ret
  | .ok fv6 =>
    if !fv6.iNode.isDirectory then .error errInvalidDirectoryInode
    else .ok { fv6, dirs, cur := 0, last := 0 }

/-- The end of `direntv6_readdir`: return the record at the cursor. -/
def readdirEntry (d : DirectoryReader) : Option Readdir :=
  if d.cur < direntriesPerSector then
    let dirent := direntCodec.get d.dirs d.cur
    some (.entry { d with cur := d.cur + 1 } (cString dirent.dName.toList) dirent.dInumber)
  else none

/-- `direntv6_readdir`. -/
def direntv6Readdir (u : UnixFilesystem) (d : DirectoryReader) : Option Readdir :=
  if d.cur = d.last then
    match filev6Readblock u d.fv6 with
    | (bytesRead, fv6, block) =>
      if bytesRead ≤ 0 then some (.done { d with fv6, dirs := d.dirs.splice 0 block } bytesRead)
      else readdirEntry
        { fv6, dirs := d.dirs.splice 0 block, cur := 0
          last := bytesRead.toNat / direntCodec.width }
  else readdirEntry d

/-- The loop of `direntv6_dirlookup_core`: the number of the first record with the name sought,
or the code that ended the enumeration. -/
def lookupScan (u : UnixFilesystem) (soughtDir : List UInt8) :
    Nat → DirectoryReader → Option (Except Int UInt16)
  | 0, _ => none
  | fuel + 1, d =>
    match direntv6Readdir u d with
    | none => none
    | some (.done _ dirRead) => some (.error dirRead)
    | some (.entry d name childInr) =>
      if soughtDir = name then some (.ok childInr) else lookupScan u soughtDir fuel d

/-- A bound on the calls of `direntv6_readdir` that enumerate a directory. -/
def readdirBound (d : DirectoryReader) : Nat :=
  (inodeGetsize d.fv6.iNode / sectorSize + 2) * (direntriesPerSector + 1)

/-- The value that `direntv6_readdir` returns. -/
def Readdir.code : Readdir → Int
  | .entry .. => 1
  | .done _ code => code

/-- A line of a listing, without its newline. -/
inductive TreeLine where
  /-- `DIR` and a path. -/
  | dir (path : List UInt8)
  /-- `FIL` and a path. -/
  | fil (path : List UInt8)
deriving DecidableEq

/-- The line that `direntv6_print_tree` prints for the directory itself. -/
def dirLine (inr : UInt16) (pathPrefix : List UInt8) : TreeLine :=
  if inr = rootInumber.toUInt16 then .dir (pathToken :: pathPrefix)
  else .dir (pathPrefix ++ [pathToken])

/-- What `direntv6_print_tree` does with a record: the code that it gets and the lines printed. The
listing of a directory below is a parameter. -/
def printTreeRecord (u : UnixFilesystem)
    (printTree : UInt16 → List UInt8 → Option (Int × List TreeLine)) (pathPrefix : List UInt8)
    (childInr : UInt16) (name : List UInt8) : Option (Int × List TreeLine) :=
  match inodeRead u childInr Inode.zero with
  | (retInode, inode) =>
    if retInode ≠ errNone then some (retInode, [])
    else if inode.isDirectory then printTree childInr (pathPrefix ++ pathToken :: name)
    else some (errNone, [.fil (pathPrefix ++ pathToken :: name)])

/-- The loop of `direntv6_print_tree` over the records, from the result of a `direntv6_readdir`
on. -/
def printTreeLoop (u : UnixFilesystem)
    (printTree : UInt16 → List UInt8 → Option (Int × List TreeLine)) (pathPrefix : List UInt8) :
    Nat → Readdir → Option (Int × List TreeLine)
  | _, .done _ retReaddir => some (retReaddir, [])
  | 0, .entry .. => none
  | fuel + 1, .entry d name childInr =>
    match printTreeRecord u printTree pathPrefix childInr name with
    | none => none
    | some (ret, lines) =>
      if ret ≠ errNone then some (ret, lines)
      else match direntv6Readdir u d with
        | none => none
        | some next =>
          (printTreeLoop u printTree pathPrefix fuel next).map fun (ret, rest) =>
            (ret, lines ++ rest)

/-- `direntv6_print_tree`, with the lines that it prints. The fuel bounds how deep it calls itself;
without enough of it, as with undefined behaviour, there is no result. -/
def direntv6PrintTree (u : UnixFilesystem) : Nat → UInt16 → List UInt8 →
    Option (Int × List TreeLine)
  | 0, _, _ => none
  | fuel + 1, inr, pathPrefix =>
    match direntv6Opendir u inr (u.f.host.stack u.f.time) with
    | .error ret => some (ret, [])
    | .ok dReader =>
      match direntv6Readdir u dReader with
      | none => none
      | some first =>
        if first.code < 0 then some (first.code, [])
        else
          (printTreeLoop u (direntv6PrintTree u fuel) pathPrefix (readdirBound dReader) first).map
            fun (ret, lines) => (ret, dirLine inr pathPrefix :: lines)

/-- A path without the slashes it starts with. -/
def skipTokens (entry : List UInt8) : List UInt8 := entry.dropWhile (· = pathToken)

/-- `sought_dir`: a path up to its first slash. -/
def soughtDir (entry : List UInt8) : List UInt8 := entry.takeWhile (· ≠ pathToken)

/-- A path from its first slash on. -/
def afterDir (entry : List UInt8) : List UInt8 := entry.dropWhile (· ≠ pathToken)

/-- `direntv6_dirlookup_core`. Every round consumes a byte of the path, so fuel above its length
never runs out. -/
def direntv6DirlookupCore (u : UnixFilesystem) : Nat → UInt16 → List UInt8 → Option Int
  | 0, _, _ => none
  | fuel + 1, inr, entry =>
    if entry.length = 0 then some inr.toNat
    else if inr = 1 && entry = [pathToken] then some inr.toNat
    else if (skipTokens entry).isEmpty then some errNoSuchFile
    else match direntv6Opendir u inr (Block.fill sectorSize 0) with
      | .error code => some code
      | .ok d =>
        match lookupScan u (soughtDir (skipTokens entry)) (readdirBound d) d with
        | none => none
        | some (.ok childInr) =>
          direntv6DirlookupCore u fuel childInr (afterDir (skipTokens entry))
        | some (.error dirRead) => some (if dirRead = 0 then errNoSuchFile else dirRead)

/-- `direntv6_dirlookup`. -/
def direntv6Dirlookup (u : UnixFilesystem) (inr : UInt16) (entry : List UInt8) : Option Int :=
  direntv6DirlookupCore u (entry.length + 1) inr entry

/-- `split_name_direntv6_create`: the relative and the absolute name; `calloc` is taken to
succeed. -/
def splitNameDirentv6Create (entry : List UInt8) : Except Int (List UInt8 × List UInt8) :=
  let relativeName := entry.rtakeWhile (· ≠ pathToken)
  if relativeName.length > direntMaxlen then .error errFilenameTooLong
  else
    let absoluteName := (entry.take (entry.length - relativeName.length)).rdropWhile (· = pathToken)
    .ok (relativeName, absoluteName)

/-- `strcpy` of a name and its NUL into the 14 zero bytes of `d_name`. -/
def strcpyDName (name : List UInt8) : Option (Vector UInt8 direntMaxlen) :=
  if fits : name.length < direntMaxlen then
    some ⟨(name ++ List.replicate (direntMaxlen - name.length) 0).toArray, by
      simp only [List.size_toArray, List.length_append, List.length_replicate]
      omega⟩
  else none

/-- `create_dirent`. -/
def createDirent (u : UnixFilesystem) (mode : UInt16) (relativeName : List UInt8)
    (inrParent : UInt16) : Option (Int × UnixFilesystem) :=
  match filev6Create u mode { iNumber := 0, iNode := Inode.zero, offset := 0 } with
  | (createFileChild, u, fv6Child) =>
    if createFileChild < 0 then some (createFileChild, u)
    else match strcpyDName relativeName with
      | none => none
      | some dName =>
        match filev6Open u inrParent with
        | .error code => some (code, u)
        | .ok fv6Parent =>
          match filev6Writebytes u fv6Parent
              (direntCodec.encode { dInumber := fv6Child.iNumber, dName }) with
          | none => none
          | some (writebyte, u, _) =>
            if writebyte < 0 then some (writebyte, u)
            else some (fv6Child.iNumber.toNat, u)

/-- `direntv6_create`. -/
def direntv6Create (u : UnixFilesystem) (entry : List UInt8) (mode : UInt16) :
    Option (Int × UnixFilesystem) :=
  match splitNameDirentv6Create entry with
  | .error split => some (split, u)
  | .ok (relativeName, absoluteName) =>
    match direntv6Dirlookup u 1 absoluteName with
    | none => none
    | some inrParent =>
      if inrParent < 0 then some (inrParent, u)
      else match direntv6Dirlookup u (UInt16.ofNat inrParent.toNat) relativeName with
        | none => none
        | some dirLookupChild =>
          if dirLookupChild ≠ errNoSuchFile then
            if dirLookupChild ≥ 0 then some (errFilenameAlreadyExists, u)
            else some (dirLookupChild, u)
          else createDirent u mode relativeName (UInt16.ofNat inrParent.toNat)

/-- `direntv6_addfile`; `size` is the length of the buffer. -/
def direntv6Addfile (u : UnixFilesystem) (entry : List UInt8) (mode : UInt16) (buf : List UInt8) :
    Option (Int × UnixFilesystem) :=
  match direntv6Create u entry mode with
  | none => none
  | some (inr, u) =>
    if inr < 0 then some (inr, u)
    else match inodeRead u (UInt16.ofNat inr.toNat) Inode.zero with
      | (read, _) =>
        if read < 0 then some (read, u)
        else match filev6Open u (UInt16.ofNat inr.toNat) with
          | .error code => some (code, u)
          | .ok fv6 =>
            match filev6Writebytes u fv6 buf with
            | none => none
            | some (write, u, _) => some (if write < 0 then write else errNone, u)

end U6fs
