import U6fs.Fuse
import U6fs.Utils

/-!
# The command line (`u6fs.c` and `error.c`)

A process of `u6fs` runs one command on a disk file: it mounts the volume, calls the library and
unmounts the volume. What it is given besides the file comes from its host: the arguments, the
source file of `add`, whether files open and close, and what FUSE returns. As elsewhere, `none` is
undefined behaviour, or a listing that does not end.
-/
namespace U6fs

open Lib

/-- `ERR_FIRST`. -/
abbrev errFirst : Int := -128
/-- `ERR_INVALID_COMMAND`. -/
abbrev errInvalidCommand : Int := -127
/-- `ERR_LAST`. -/
abbrev errLast : Int := -113
/-- `MAX_SIZE`. -/
abbrev maxSize : Nat := 4 * 1024
/-- `FTELL_ERROR`. -/
abbrev ftellError : Int := -1
/-- `IFDIR`. -/
abbrev ifdir : UInt16 := 0o040000
/-- `IREAD|IEXEC|IWRITE`. -/
abbrev allRights : UInt16 := 0o700

/-- The source file of `add`, as the host gives it out. -/
structure SourceFile where
  /-- `fopen` opens it. -/
  opens : Bool
  /-- `fseek` to the end succeeds. -/
  seekEnd : Bool
  /-- What `ftell` returns then; -1 is an error. -/
  size : Int
  /-- `fseek` to the start succeeds. -/
  seekStart : Bool
  /-- The bytes that `fread` stores. -/
  bytes : List UInt8

/-- What a process is given besides the disk file. -/
structure Environment where
  /-- The arguments. -/
  argv : List (List UInt8)
  /-- `fopen` opens the disk file. -/
  opens : Bool
  /-- The source file of `add`. -/
  source : SourceFile
  /-- What `fuse_main` returns for a mounted volume. -/
  fuseMain : UnixFilesystem → Int
  /-- `fclose` of the disk file reports no error. -/
  closes : Bool

/-- What a command prints. -/
inductive Output where
  /-- Nothing. -/
  | nothing
  /-- The lines of `inode`. -/
  | inodes (lines : List InodeLine)
  /-- The superblock. -/
  | superblock
  /-- The lines of `shafiles`. -/
  | shafiles (lines : List (UInt16 × ShaText))
  /-- The text of `cat1`. -/
  | cat (text : CatText)
  /-- The lines of `tree`. -/
  | tree (lines : List TreeLine)
  /-- The bitmaps of inodes and sectors. -/
  | bitmaps (ibm fbm : BmblockArray)

/-- `isspace` of the C locale. -/
def isSpace (byte : UInt8) : Bool := byte = 32 || 9 ≤ byte && byte ≤ 13

/-- `isdigit`. -/
def isDigit (byte : UInt8) : Bool := 48 ≤ byte && byte ≤ 57

/-- The value of decimal digits. -/
def digitsValue (digits : List UInt8) : Nat :=
  digits.foldl (fun value digit => 10 * value + (digit.toNat - 48)) 0

/-- `atoi`: the value of the digits at the start of a string, after white space and a sign. A value
that is no `int` is undefined. -/
def atoi (text : List UInt8) : Option Int :=
  let text := text.dropWhile isSpace
  let digits (rest : List UInt8) : Int := digitsValue (rest.takeWhile isDigit)
  let value := match text with
    | 45 :: rest => -digits rest
    | 43 :: rest => digits rest
    | rest => digits rest
  if -2 ^ 31 ≤ value ∧ value < 2 ^ 31 then some value else none

/-- The bytes of a name in the code. -/
def literal (name : String) : List UInt8 := name.toList.map fun c => UInt8.ofNat c.toNat

/-- `CMD`: the command of the second argument, with so many arguments. -/
def isCommand (argv : List (List UInt8)) (name : String) (argc : Nat) : Bool :=
  argv[2]? = some (literal name) && argv.length = argc

/-- The command `cat1`. -/
def catCommand (u : UnixFilesystem) (number : List UInt8) : Option (Int × Output) :=
  match atoi number with
  | none => none
  | some atoided =>
    if atoided = 0 ∨ atoided = 2 ^ 31 - 1 ∨ atoided = -2 ^ 31 then
      some (errBadParameter, .nothing)
    else match utilsCatFirstSector u (UInt16.ofNat (atoided % 2 ^ 16).toNat) with
      | (error, text) => some (error, .cat text)

/-- The source file is read into the buffer of the command `add`. -/
def SourceFile.read (source : SourceFile) : Except Int (List UInt8) :=
  if !source.opens then .error errIo
  else if !source.seekEnd then .error errIo
  else if source.size = ftellError then .error errIo
  else if source.size > maxSize then .error errBadParameter
  else if !source.seekStart then .error errIo
  else if source.bytes.length < source.size then .error errIo
  else .ok (source.bytes.take source.size.toNat)

/-- The calls of a command on a mounted volume: the code, what it prints, and the volume after
them. The fuel bounds how deep `tree` calls itself. -/
def runCommand (fuel : Nat) (env : Environment) (u : UnixFilesystem) :
    Option (Int × Output × UnixFilesystem) :=
  if isCommand env.argv "inode" 3 then
    match inodeScanPrint u with
    | (error, lines) => some (error, .inodes lines, u)
  else if isCommand env.argv "sb" 3 then some (errNone, .superblock, u)
  else if isCommand env.argv "shafiles" 3 then
    (utilsPrintShaAllfiles u).map fun (error, lines) => (error, .shafiles lines, u)
  else if isCommand env.argv "cat1" 4 then
    (catCommand u (env.argv.getD 3 [])).map fun (error, text) => (error, text, u)
  else if isCommand env.argv "tree" 3 then
    (direntv6PrintTree u fuel rootInumber.toUInt16 []).map fun (error, lines) =>
      (error, .tree lines, u)
  else if isCommand env.argv "fuse" 4 then some (env.fuseMain u, .superblock, u)
  else if isCommand env.argv "bm" 3 then some (errNone, .bitmaps u.ibm u.fbm, u)
  else if isCommand env.argv "mkdir" 4 then
    (direntv6Create u (env.argv.getD 3 []) ifdir).map fun (create, u) =>
      (if create < 0 then create else errNone, .nothing, u)
  else if isCommand env.argv "add" 5 then
    match env.source.read with
    | .error error => some (error, .nothing, u)
    | .ok buff =>
      (direntv6Addfile u (env.argv.getD 3 []) allRights buff).map fun (error, u) =>
        (error, .nothing, u)
  else some (errInvalidCommand, .nothing, u)

/-- `u6fs_do_one_cmd` on a disk file: the code, what is printed, and the disk file after it. -/
def Environment.u6fsDoOneCmd (env : Environment) (fuel : Nat) (f : Disk) :
    Option (Int × Output × Disk) :=
  if env.argv.length < 3 then some (errInvalidCommand, .nothing, f)
  else if !env.opens then some (errIo, .nothing, f)
  else match mountv6 f with
    | .error error => some (error, .nothing, f)
    | .ok u =>
      match runCommand fuel env u with
      | none => none
      | some (error, output, u) =>
        some (if error = errNone then (if env.closes then errNone else errIo) else error, output,
          umountv6 u)

/-- `ERR_MESSAGES`. -/
def errMessages : List String :=
  ["", "Invalid command", "Not enough memory", "IO error", "bad boot sector",
    "inode out of range", "filename too long", "invalid directory inode", "unallocated inode",
    "filename already exists", "bitmap full", "file too large", "offset out of range",
    "bad parameter", "no such file"]

/-- What `usage` prints about a code. -/
inductive UsageText where
  /-- The list of commands. -/
  | commands
  /-- A message. -/
  | message (text : String)
  /-- The code, as an undefined error. -/
  | undefinedError (code : Int)
deriving DecidableEq

/-- `usage`; there is no text when the message is read past the end of `ERR_MESSAGES`. -/
def usage (err : Int) : Option UsageText :=
  if err = errInvalidCommand then some .commands
  else if err > errFirst ∧ err < errLast then
    errMessages[(err - errFirst).toNat]?.map .message
  else some (.undefinedError err)

/-- `main`: the code of the process, what its command prints and what `usage` prints, and the disk
file after it. -/
def Environment.main (env : Environment) (fuel : Nat) (f : Disk) :
    Option (Int × Output × Option UsageText × Disk) :=
  match env.u6fsDoOneCmd fuel f with
  | none => none
  | some (ret, output, f) =>
    if ret ≠ errNone then (usage ret).map fun text => (ret, output, some text, f)
    else some (ret, output, none, f)

end U6fs
