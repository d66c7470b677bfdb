import U6fs.Verif.Codes
import U6fs.Verif.Session

/-!
# The codes of processes

On every disk file, and however its host fails, a process whose command is not `fuse` ends with 0 or
with a code of the list of errors, whose message it prints; or it has met a negative entry of an
indirect sector, whose value it prints as an undefined error.
-/
namespace U6fs

open Lib

/-- The command `cat1` ends with 0 or a code of the list, or an entry leaks. -/
theorem catCommand_endsWith {u : UnixFilesystem} {number : List UInt8} {code : Int}
    {output : Output} (run : catCommand u number = some (code, output)) : EndsWith u code := by
  rw [catCommand] at run
  split at run
  · cases run
  · rename_i atoided value
    split at run
    · cases run
      exact .inr (.inl (by decide))
    · have ends := utilsCatFirstSector_endsWith (u := u) (UInt16.ofNat (atoided % 2 ^ 16).toNat)
      split at run
      rename_i printed
      rw [printed] at ends
      cases run
      exact ends

/-- Reading the source file fails with a code of the list. -/
theorem SourceFile.read_listed {source : SourceFile} {code : Int}
    (failed : source.read = .error code) : Listed code := by
  rw [SourceFile.read] at failed
  split_ifs at failed
  all_goals
    cases failed
    decide

/-- A command that is not `fuse` ends with 0 or a code of the list, or an entry leaks. -/
theorem runCommand_endsWith {u u' : UnixFilesystem} (ranges : Ranges u) {fuel : Nat}
    {env : Environment} (noFuse : isCommand env.argv "fuse" 4 = false) {code : Int}
    {output : Output} (run : runCommand fuel env u = some (code, output, u')) :
    EndsWith u code := by
  rw [runCommand] at run
  split at run
  · -- `inode`
    have ends := inodeScanPrint_endsWith (u := u)
    split at run
    rename_i listed
    rw [listed] at ends
    cases run
    exact ends
  split at run
  · -- `sb`
    cases run
    exact .inl rfl
  split at run
  · -- `shafiles`
    rw [Option.map_eq_some_iff] at run
    obtain ⟨⟨error, lines⟩, printed, same⟩ := run
    cases same
    exact shaSectors_endsWith _ _ _ _ printed
  split at run
  · -- `cat1`
    rw [Option.map_eq_some_iff] at run
    obtain ⟨⟨error, text⟩, printed, same⟩ := run
    cases same
    exact catCommand_endsWith printed
  split at run
  · -- `tree`
    rw [Option.map_eq_some_iff] at run
    obtain ⟨⟨error, lines⟩, printed, same⟩ := run
    cases same
    exact direntv6PrintTree_endsWith fuel _ _ _ _ printed
  rw [noFuse, if_neg Bool.false_ne_true] at run
  split at run
  · -- `bm`
    cases run
    exact .inl rfl
  split at run
  · -- `mkdir`
    rw [Option.map_eq_some_iff] at run
    obtain ⟨⟨create, u₁⟩, created, same⟩ := run
    cases same
    split
    · rename_i negative
      exact .inr (direntv6Create_failsWith ranges created negative)
    · exact .inl rfl
  split at run
  · -- `add`
    split at run
    · rename_i failed
      cases run
      exact .inr (.inl (SourceFile.read_listed failed))
    · rw [Option.map_eq_some_iff] at run
      obtain ⟨⟨error, u₁⟩, added, same⟩ := run
      cases same
      exact direntv6Addfile_endsWith ranges added
  · cases run
    exact .inr (.inl (by decide))

/-- A negative entry of an indirect sector of a disk file has the value of the code. -/
def Disk.LeaksCode (f : Disk) (code : Int) : Prop :=
  ∃ superblock, f.sectors[1]? = some superblock ∧ f.Leaks (Superblock.ofSector superblock) code

/-- Mounting fails with a code of the list, or an entry leaks. -/
theorem mountv6_failsWith {f : Disk} {code : Int} (failed : mountv6 f = .error code) :
    Listed code ∨ f.LeaksCode code := by
  rw [mountv6] at failed
  cases boot : sectorRead f bootblockSector with
  | error code' =>
    rw [boot] at failed
    cases failed
    rw [sectorRead_error boot]
    exact .inl (by decide)
  | ok table =>
    simp only [boot, bind, Except.bind] at failed
    split at failed
    · cases failed
      exact .inl (by decide)
    · cases super : sectorRead f superblockSector with
      | error code' =>
        simp only [super] at failed
        cases failed
        rw [sectorRead_error super]
        exact .inl (by decide)
      | ok superblock =>
        simp only [super] at failed
        split at failed
        · cases failed
          exact .inl (by decide)
        · split at failed
          · cases failed
            exact .inl (by decide)
          · rcases fillBitmaps_failsWith failed with listed | leaks
            · exact .inl listed
            · exact .inr ⟨superblock, sectorRead_ok super, leaks⟩

/-- A process ends with 0 or with a code of the list, or an entry leaks. -/
theorem u6fsDoOneCmd_endsWith {env : Environment} (noFuse : isCommand env.argv "fuse" 4 = false)
    {fuel : Nat} {f f' : Disk} {code : Int} {output : Output}
    (run : env.u6fsDoOneCmd fuel f = some (code, output, f')) :
    code = errNone ∨ Listed code ∨ f.LeaksCode code := by
  rw [Environment.u6fsDoOneCmd] at run
  split at run
  · cases run
    exact .inr (.inl (by decide))
  · split at run
    · cases run
      exact .inr (.inl (by decide))
    · split at run
      · rename_i failed
        cases run
        exact .inr (mountv6_failsWith failed)
      · rename_i u mounted
        obtain ⟨rfl, coherent⟩ := mountv6_coherent mounted
        obtain ⟨superblock, there, is⟩ := coherent.superblock
        split at run
        · cases run
        · rename_i error printed u' ran
          cases run
          rcases runCommand_endsWith (mountv6_ranges mounted) noFuse ran with zero | listed | leaks
          · rw [if_pos zero]
            split
            · exact .inl rfl
            · exact .inr (.inl (by decide))
          · split
            · split
              · exact .inl rfl
              · exact .inr (.inl (by decide))
            · exact .inr (.inl listed)
          · split
            · split
              · exact .inl rfl
              · exact .inr (.inl (by decide))
            · rw [← is] at leaks
              exact .inr (.inr ⟨superblock, there, leaks⟩)

/-- What a process prints about its code. -/
inductive Disk.Tells (f : Disk) : Int → Option UsageText → Prop
  /-- Nothing, when it succeeds. -/
  | success : Tells f errNone none
  /-- The list of commands, for a command that there is none of. -/
  | commands : Tells f errInvalidCommand (some .commands)
  /-- The message of the code. -/
  | message {code : Int} {text : String} (other : code ≠ errInvalidCommand)
    (is : errMessages[(code - errFirst).toNat]? = some text) (listed : Listed code) :
    Tells f code (some (.message text))
  /-- The number, when an entry leaks that is no code of the list. -/
  | leak {code : Int} (leaks : f.LeaksCode code) (unlisted : ¬Listed code) :
    Tells f code (some (.undefinedError code))

/-- The list of messages has one for every code of the list. -/
theorem usage_listed {code : Int} (listed : Listed code) (other : code ≠ errInvalidCommand) :
    ∃ text, errMessages[(code - errFirst).toNat]? = some text ∧
      usage code = some (.message text) := by
  obtain ⟨low, high⟩ := listed
  have inside : (code - errFirst).toNat < errMessages.length := by
    have length : errMessages.length = 15 := rfl
    rw [length]
    unfold errFirst errLast at *
    omega
  refine ⟨errMessages[(code - errFirst).toNat], List.getElem?_eq_getElem inside, ?_⟩
  rw [usage, if_neg other, if_pos ⟨low, high⟩, List.getElem?_eq_getElem inside, Option.map_some]

/-- On every disk file and every host, a process whose command is not `fuse` ends with 0 or with a
code of the list, and prints its message; or the code is a negative entry of an indirect sector. -/
theorem main_tells {env : Environment} (noFuse : isCommand env.argv "fuse" 4 = false)
    {fuel : Nat} {f f' : Disk} {code : Int} {output : Output}
    (run : env.u6fsDoOneCmd fuel f = some (code, output, f')) :
    ∃ text, env.main fuel f = some (code, output, text, f') ∧ f.Tells code text := by
  rw [Environment.main, run]
  by_cases zero : code = errNone
  · subst zero
    exact ⟨none, rfl, .success⟩
  · simp only [ne_eq, zero, not_false_eq_true, if_true]
    by_cases invalid : code = errInvalidCommand
    · subst invalid
      exact ⟨_, rfl, .commands⟩
    · by_cases listed : Listed code
      · obtain ⟨text, is, told⟩ := usage_listed listed invalid
        rw [told]
        exact ⟨_, rfl, .message invalid is listed⟩
      · have leaks := ((u6fsDoOneCmd_endsWith noFuse run).resolve_left zero).resolve_left listed
        have told : usage code = some (.undefinedError code) := by
          rw [usage, if_neg invalid, if_neg (show ¬(code > errFirst ∧ code < errLast) from listed)]
        rw [told]
        exact ⟨_, rfl, .leak leaks listed⟩

/-- A volume with a file of 4096 bytes, whose indirect sector has the entry 64512. -/
def leakingVolume : Disk :=
  volume 2 6 [(1, emptyDirectory), (2, fileInode 0 4096 (oneAddress 4))]
    [entrySector [64512], zeroSector, zeroSector]

/-- The arguments of `tree`. -/
def treeEnvironment : Environment :=
  workingEnvironment [literal "u6fs", literal "disk", literal "tree"] []

set_option maxRecDepth 10000 in
/-- On that volume, every command prints -1024. -/
theorem main_tells_leaking :
    ∃ text, treeEnvironment.main 0 leakingVolume = some (-1024, .nothing, text, leakingVolume) ∧
      leakingVolume.Tells (-1024) text := by
  have failed : (mountv6 leakingVolume).map (fun _ => ()) = .error (-1024) := by decide +kernel
  have run : treeEnvironment.u6fsDoOneCmd 0 leakingVolume =
      some (-1024, .nothing, leakingVolume) := by
    cases mounted : mountv6 leakingVolume with
    | ok u =>
      rw [mounted] at failed
      cases failed
    | error code =>
      rw [mounted] at failed
      cases failed
      rw [Environment.u6fsDoOneCmd, mounted]
      rfl
  exact main_tells (by decide) run

end U6fs
