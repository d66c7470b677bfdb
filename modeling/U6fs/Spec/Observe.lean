import U6fs.Direntv6

/-!
# What a caller sees

Files are given out block by block, and directories record by record. A caller that opens a file
and reads it to its end sees the bytes up to the end or up to the first error, and the code that
stopped it; the same holds of the records of a directory. The fuel of these loops is enough, as
`Verif.Reading` shows.
-/
namespace U6fs

open Lib

/-- Calls of `filev6_readblock` until one returns no bytes: the bytes, and the code of the last
call. -/
def readBlocks (u : UnixFilesystem) : Nat → Filev6 → Option (List UInt8 × Int)
  | 0, _ => none
  | fuel + 1, fv6 =>
    match filev6Readblock u fv6 with
    | (code, fv6, block) =>
      if code ≤ 0 then some ([], code)
      else (readBlocks u fuel fv6).map fun (rest, last) => (block ++ rest, last)

/-- `filev6_open` and then `filev6_readblock` to the end. -/
def readFile (u : UnixFilesystem) (inr : UInt16) : Option (List UInt8 × Int) :=
  match filev6Open u inr with
  | .error code => some ([], code)
  | .ok fv6 => readBlocks u (inodeGetsize fv6.iNode / sectorSize + 2) fv6

/-- Calls of `direntv6_readdir` until one returns no record: the inode numbers and names, and the
code of the last call. -/
def readEntries (u : UnixFilesystem) :
    Nat → DirectoryReader → Option (List (UInt16 × List UInt8) × Int)
  | 0, _ => none
  | fuel + 1, d =>
    match direntv6Readdir u d with
    | none => none
    | some (.done _ code) => some ([], code)
    | some (.entry d name childInr) =>
      (readEntries u fuel d).map fun (rest, last) => ((childInr, name) :: rest, last)

/-- `direntv6_opendir` and then `direntv6_readdir` to the end. -/
def listDirectory (u : UnixFilesystem) (inr : UInt16) :
    Option (List (UInt16 × List UInt8) × Int) :=
  match direntv6Opendir u inr (Block.fill sectorSize 0) with
  | .error code => some ([], code)
  | .ok d => readEntries u (readdirBound d) d

end U6fs
