import U6fs.Verif.Refinement

/-!
# Sessions of commands

Every process of `u6fs` mounts the disk file that the one before it left. On a volume in good health
it serves its request as the volume of `Spec.Namespace` does, and the disk file that it leaves can
be mounted again, in good health. So the processes of a session refine the requests on the volume,
as long as each request is one that is admitted.
-/
namespace U6fs

open Lib

/-- Processes run on a disk file, one after the other, each with a request that is admitted. -/
inductive Session (f : Disk) : List ServedRequest → Disk → Prop
  /-- No process has run. -/
  | start : Session f [] f
  /-- One process more has run. -/
  | next {log : List ServedRequest} {f' f'' : Disk} {env : Environment} {fuel : Nat} {room : Bool}
    {code : Int} {output : Output} (before : Session f log f')
    (finds : ∀ v, mountv6 f' = .ok v → HasRoom v room ∧
      (namespaceOf v).Admits v.s.lastScanned env.request)
    (run : env.u6fsDoOneCmd fuel f' = some (code, output, f'')) :
    Session f (log ++ [⟨env.request, env.closes, room, code⟩]) f''

/-- A sector is free or none is. -/
theorem exists_hasRoom (u : UnixFilesystem) : ∃ room, HasRoom u room := by
  by_cases free : ∃ x, bmGet u.fbm x = 0
  · exact ⟨true, fun _ => free, fun _ => rfl⟩
  · refine ⟨false, fun wrong => absurd wrong Bool.false_ne_true, fun there => absurd there free⟩

/-- The code of a process whose command failed or succeeded. -/
theorem exitCode_eq (closes : Bool) (code : Int) :
    (if (if code < 0 then code else errNone) = errNone then if closes then errNone else errIo
      else if code < 0 then code else errNone) = exitCode closes code := by
  unfold exitCode
  by_cases negative : code < 0
  · have other : code ≠ errNone := by
      unfold errNone
      omega
    simp only [if_pos negative, if_neg other]
  · simp only [if_neg negative, if_true]

/-- A process has one command. -/
theorem isCommand_other {argv : List (List UInt8)} {name name' : String} {argc argc' : Nat}
    (is : isCommand argv name argc = true) (other : literal name ≠ literal name') :
    isCommand argv name' argc' = false := by
  simp only [isCommand, Bool.and_eq_true, decide_eq_true_eq] at is
  simp only [isCommand, is.1, Option.some.injEq, other, decide_false, Bool.false_and]

section Commands

variable {env : Environment} {fuel : Nat} {u : UnixFilesystem}

/-- The command `mkdir` calls `direntv6_create`. -/
theorem runCommand_mkdir (is : isCommand env.argv "mkdir" 4 = true) :
    runCommand fuel env u = (direntv6Create u (env.argv.getD 3 []) ifdir).map fun (create, u) =>
      (if create < 0 then create else errNone, .nothing, u) := by
  have other {name : String} {argc : Nat} (ne : literal "mkdir" ≠ literal name) :
      isCommand env.argv name argc = false := isCommand_other is ne
  rw [runCommand]
  simp only [other (by decide : literal "mkdir" ≠ literal "inode"),
    other (by decide : literal "mkdir" ≠ literal "sb"),
    other (by decide : literal "mkdir" ≠ literal "shafiles"),
    other (by decide : literal "mkdir" ≠ literal "cat1"),
    other (by decide : literal "mkdir" ≠ literal "tree"),
    other (by decide : literal "mkdir" ≠ literal "fuse"),
    other (by decide : literal "mkdir" ≠ literal "bm"), is, Bool.false_eq_true, if_false, if_true]

/-- The command `add` calls `direntv6_addfile` with what was read of the source file. -/
theorem runCommand_add {buf : List UInt8} (is : isCommand env.argv "add" 5 = true)
    (read : env.source.read = .ok buf) :
    runCommand fuel env u =
      (direntv6Addfile u (env.argv.getD 3 []) allRights buf).map fun (error, u) =>
        (error, .nothing, u) := by
  have other {name : String} {argc : Nat} (ne : literal "add" ≠ literal name) :
      isCommand env.argv name argc = false := isCommand_other is ne
  rw [runCommand]
  simp only [other (by decide : literal "add" ≠ literal "inode"),
    other (by decide : literal "add" ≠ literal "sb"),
    other (by decide : literal "add" ≠ literal "shafiles"),
    other (by decide : literal "add" ≠ literal "cat1"),
    other (by decide : literal "add" ≠ literal "tree"),
    other (by decide : literal "add" ≠ literal "fuse"),
    other (by decide : literal "add" ≠ literal "bm"),
    other (by decide : literal "add" ≠ literal "mkdir"), is, read, Bool.false_eq_true, if_false,
    if_true]

/-- A command other than `mkdir`, and `add` without its source file, changes nothing. -/
theorem runCommand_keeps (directory : ¬isCommand env.argv "mkdir" 4 = true)
    (file : ∀ buf, isCommand env.argv "add" 5 = true → env.source.read ≠ .ok buf)
    {u' : UnixFilesystem} {code : Int} {output : Output}
    (run : runCommand fuel env u = some (code, output, u')) : u' = u := by
  rw [runCommand] at run
  split_ifs at run with inode sb shafiles cat tree fuse bm add
  · cases run
    rfl
  · cases run
    rfl
  · obtain ⟨result, -, same⟩ := Option.map_eq_some_iff.mp run
    cases same
    rfl
  · obtain ⟨result, -, same⟩ := Option.map_eq_some_iff.mp run
    cases same
    rfl
  · obtain ⟨result, -, same⟩ := Option.map_eq_some_iff.mp run
    cases same
    rfl
  · cases run
    rfl
  · cases run
    rfl
  · cases read : env.source.read with
    | error error =>
      rw [read] at run
      cases run
      rfl
    | ok buf => exact absurd read (file buf add)
  · cases run
    rfl

/-- A request to read changes nothing. -/
theorem runCommand_read (opens : env.opens = true) (reads : env.request = .read)
    {u' : UnixFilesystem} {code : Int} {output : Output}
    (run : runCommand fuel env u = some (code, output, u')) : u' = u := by
  apply runCommand_keeps _ _ run
  · intro is
    rw [Environment.request, opens, is] at reads
    cases reads
  · intro buf is read
    rw [Environment.request, opens, isCommand_other is (by decide : literal "add" ≠ _), is,
      read] at reads
    cases reads

end Commands

/-- A file that is added gets no number as a code. -/
theorem addfile_code (ns : Volume) (room : Bool) (entry : List UInt8) (mode : UInt16)
    (buf : List UInt8) : (ns.addfile room entry mode buf).1 < 0 ∨
      (ns.addfile room entry mode buf).1 = errNone := by
  unfold Volume.addfile
  cases ns.create room entry mode with
  | mk code ns' =>
    simp only
    split_ifs with negative empty full
    · exact .inl negative
    · exact .inr rfl
    · left
      have code : errBitmapFull < 0 := by decide
      exact code
    · exact .inr rfl

/-- A request to create comes from the command `mkdir`. -/
theorem request_eq_mkdir {env : Environment} {entry : List UInt8}
    (asks : env.request = .mkdir entry) : env.opens = true ∧
      isCommand env.argv "mkdir" 4 = true ∧ env.argv.getD 3 [] = entry := by
  unfold Environment.request at asks
  split_ifs at asks with closed mkdir add
  · cases asks
    refine ⟨?_, mkdir, rfl⟩
    rw [Bool.not_eq_true', Bool.not_eq_false] at closed
    exact closed
  · split at asks <;> cases asks

/-- A request to add comes from the command `add` with a source file that was read. -/
theorem request_eq_add {env : Environment} {entry buf : List UInt8}
    (asks : env.request = .add entry buf) : env.opens = true ∧
      isCommand env.argv "add" 5 = true ∧ env.argv.getD 3 [] = entry ∧
      env.source.read = .ok buf := by
  unfold Environment.request at asks
  split_ifs at asks with closed mkdir add
  split at asks
  · cases asks
  · rename_i read
    cases asks
    refine ⟨?_, add, rfl, read⟩
    rw [Bool.not_eq_true', Bool.not_eq_false] at closed
    exact closed

/-- A process that opens the disk file runs its command on the mounted volume. -/
theorem u6fsDoOneCmd_eq {env : Environment} {name : String} {argc fuel : Nat}
    {v : UnixFilesystem} (opens : env.opens = true) (is : isCommand env.argv name argc = true)
    (mounted : mountv6 v.f = .ok v) :
    env.u6fsDoOneCmd fuel v.f = (runCommand fuel env v).map fun (error, output, u) =>
      (if error = errNone then (if env.closes then errNone else errIo) else error, output,
        u.f) := by
  have there : ¬env.argv.length < 3 := by
    simp only [isCommand, Bool.and_eq_true, decide_eq_true_eq] at is
    have inside := (List.getElem?_eq_some_iff.mp is.1).1
    omega
  rw [Environment.u6fsDoOneCmd, if_neg there, opens, mounted]
  simp only [Bool.not_true, Bool.false_eq_true, if_false]
  cases runCommand fuel env v <;> rfl

/-- A request to read leaves the disk file as it is. -/
theorem u6fsDoOneCmd_reads {env : Environment} {fuel : Nat} {v : UnixFilesystem} {code : Int}
    {output : Output} {f : Disk} (mounted : mountv6 v.f = .ok v) (reads : env.request = .read)
    (run : env.u6fsDoOneCmd fuel v.f = some (code, output, f)) : f = v.f := by
  rw [Environment.u6fsDoOneCmd, mounted] at run
  by_cases short : env.argv.length < 3
  · rw [if_pos short] at run
    cases run
    rfl
  · rw [if_neg short] at run
    cases opens : env.opens with
    | false =>
      rw [opens] at run
      cases run
      rfl
    | true =>
      rw [opens] at run
      simp only [Bool.not_true, Bool.false_eq_true, if_false] at run
      cases done : runCommand fuel env v with
      | none =>
        rw [done] at run
        cases run
      | some result =>
        obtain ⟨error, printed, u'⟩ := result
        have same := runCommand_read opens reads done
        rw [done] at run
        cases run
        rw [same]
        rfl

namespace Healthy

variable {v : UnixFilesystem} (healthy : Healthy v) {env : Environment} {room : Bool}
  (free : HasRoom v room)

include healthy free

/-- The command `mkdir` creates a directory. -/
theorem mkdir_serves {entry : List UInt8} (asks : env.request = .mkdir entry)
    (ready : (namespaceOf v).Ready v.s.lastScanned entry) (fuel : Nat) :
    ∃ u', env.u6fsDoOneCmd fuel v.f =
        some (exitCode env.closes ((namespaceOf v).create room entry ifdir).1, .nothing, u'.f) ∧
      Leaves v u' ((namespaceOf v).create room entry ifdir).2 := by
  obtain ⟨opens, is, rfl⟩ := request_eq_mkdir asks
  obtain ⟨u', run, leaves⟩ := direntv6Create_creates healthy free ifdir ready
  refine ⟨u', ?_, leaves.1⟩
  rw [u6fsDoOneCmd_eq opens is healthy.mounted, runCommand_mkdir is, run, Option.map_some,
    Option.map_some]
  simp only [exitCode_eq]

/-- The command `add` adds a file. -/
theorem add_serves {entry buf : List UInt8} (asks : env.request = .add entry buf)
    (ready : (namespaceOf v).ReadyFile v.s.lastScanned entry buf) (fuel : Nat) :
    ∃ u', env.u6fsDoOneCmd fuel v.f =
        some (exitCode env.closes ((namespaceOf v).addfile room entry allRights buf).1, .nothing,
          u'.f) ∧
      Leaves v u' ((namespaceOf v).addfile room entry allRights buf).2 := by
  obtain ⟨opens, is, rfl, read⟩ := request_eq_add asks
  obtain ⟨u', run, leaves⟩ := direntv6Addfile_adds healthy free
    (by decide : (Inode.zero.created allRights).isDirectory = false) ready
  refine ⟨u', ?_, leaves⟩
  rw [u6fsDoOneCmd_eq opens is healthy.mounted, runCommand_add is read, run, Option.map_some,
    Option.map_some]
  have code := addfile_code (namespaceOf v) room (env.argv.getD 3 []) allRights buf
  generalize ((namespaceOf v).addfile room (env.argv.getD 3 []) allRights buf).1 = ret at code ⊢
  have same : (if ret < 0 then ret else errNone) = ret := by
    rcases code with negative | none
    · exact if_pos negative
    · rw [none]
      rfl
  have exit := exitCode_eq env.closes ret
  rw [same] at exit
  simp only [exit]

end Healthy

/-- One process on a volume in good health: a request that is admitted is served, and the disk file
is that of a volume in good health. -/
theorem Healthy.serves {v : UnixFilesystem} (healthy : Healthy v) {env : Environment} {fuel : Nat}
    {room : Bool} {code : Int} {output : Output} {f : Disk} (free : HasRoom v room)
    (admits : (namespaceOf v).Admits v.s.lastScanned env.request)
    (run : env.u6fsDoOneCmd fuel v.f = some (code, output, f)) :
    ∃ w, mountv6 f = .ok w ∧ w.s = v.s ∧ Healthy w ∧
      (namespaceOf v).Serves env.closes room env.request code (namespaceOf w) := by
  -- the disk file that a call leaves is mounted by the next process
  have next : ∀ {u' : UnixFilesystem} {ns : Volume}, Leaves v u' ns →
      ∃ w, mountv6 u'.f = .ok w ∧ w.s = v.s ∧ Healthy w ∧ namespaceOf w = ns := by
    intro u' ns leaves
    obtain ⟨w, mounted, disk, super, well⟩ := leaves.toWorking.mounts
    refine ⟨w, mounted, super.trans leaves.s, well, ?_⟩
    rw [namespaceOf_congr disk super, leaves.holds]
  cases asks : env.request with
  | read =>
    rw [asks] at admits
    refine ⟨v, ?_, rfl, healthy, .read code⟩
    rw [u6fsDoOneCmd_reads healthy.mounted asks run]
    exact healthy.mounted
  | mkdir entry =>
    rw [asks] at admits
    obtain ⟨u', result, leaves⟩ := healthy.mkdir_serves free asks admits fuel
    rw [result] at run
    cases run
    obtain ⟨w, mounted, super, well, holds⟩ := next leaves
    refine ⟨w, mounted, super, well, ?_⟩
    rw [holds]
    exact .mkdir entry
  | add entry buf =>
    rw [asks] at admits
    obtain ⟨u', result, leaves⟩ := healthy.add_serves free asks admits fuel
    rw [result] at run
    cases run
    obtain ⟨w, mounted, super, well, holds⟩ := next leaves
    refine ⟨w, mounted, super, well, ?_⟩
    rw [holds]
    exact .add entry buf

/-- A process with a request that is admitted, to create or to add, returns. -/
theorem Healthy.returns {v : UnixFilesystem} (healthy : Healthy v) {env : Environment}
    (admits : (namespaceOf v).Admits v.s.lastScanned env.request) (writes : env.request ≠ .read)
    (fuel : Nat) : (env.u6fsDoOneCmd fuel v.f).isSome = true := by
  obtain ⟨room, free⟩ := exists_hasRoom v
  cases asks : env.request with
  | read => exact absurd asks writes
  | mkdir entry =>
    rw [asks] at admits
    obtain ⟨u', result, -⟩ := healthy.mkdir_serves free asks admits fuel
    rw [result]
    rfl
  | add entry buf =>
    rw [asks] at admits
    obtain ⟨u', result, -⟩ := healthy.add_serves free asks admits fuel
    rw [result]
    rfl

/-- A session leaves a volume in good health, as the requests make it. -/
theorem Session.reaches {u : UnixFilesystem} (healthy : Healthy u) {log : List ServedRequest}
    {f : Disk} (session : Session u.f log f) :
    ∃ w, mountv6 f = .ok w ∧ Healthy w ∧ (namespaceOf u).Run log (namespaceOf w) := by
  induction session with
  | start => exact ⟨u, healthy.mounted, healthy, .start _⟩
  | next before finds run ih =>
    obtain ⟨v, mounted, well, run'⟩ := ih
    obtain ⟨free, admits⟩ := finds v mounted
    obtain ⟨rfl, -⟩ := mountv6_coherent mounted
    obtain ⟨w, mounted', -, well', serves⟩ := well.serves free admits run
    exact ⟨w, mounted', well', .next run' admits serves⟩

/-- On a volume in good health, the processes of a session refine the requests on the volume: the
disk file is that of a volume in good health then, with the files and directories that the requests
make, and the processes return the codes of the requests. A further process to create or to add does
not fail to return. -/
theorem session_refines {u : UnixFilesystem} (healthy : Healthy u) {log : List ServedRequest}
    {f : Disk} (session : Session u.f log f) :
    ∃ w, mountv6 f = .ok w ∧ Healthy w ∧ (namespaceOf u).Run log (namespaceOf w) ∧
      ∀ env : Environment, env.request ≠ .read →
        (namespaceOf w).Admits w.s.lastScanned env.request →
          ∀ fuel, (env.u6fsDoOneCmd fuel f).isSome = true := by
  obtain ⟨w, mounted, well, run⟩ := session.reaches healthy
  refine ⟨w, mounted, well, run, fun env writes admits fuel => ?_⟩
  obtain ⟨rfl, -⟩ := mountv6_coherent mounted
  exact well.returns admits writes fuel

set_option maxRecDepth 10000 in
/-- The empty volume is in good health. -/
theorem emptyVolume_healthy {u : UnixFilesystem} (mounted : mountv6 emptyVolume = .ok u) :
    Healthy u := by
  obtain ⟨f, s, -⟩ := mountv6_geometry emptyVolume_wellFormed.regions mounted
  have only : ∀ {inr : Nat} {inode : Inode}, u.f.Allocated u.s inr inode →
      inr = 1 ∧ inode = emptyDirectory := by
    intro inr inode allocated
    rw [f, s] at allocated
    exact emptyVolume_allocated allocated
  have none : sectorCount emptyDirectory = 0 := by decide
  refine ⟨⟨?_, ?_, ?_, ?_, ?_⟩, ?_⟩
  · rw [f, s]
    exact emptyVolume_wellFormed
  · rintro inr inode allocated
    rw [(only allocated).2, emptyDirectory_size]
    decide
  · rintro inr inode allocated k inside
    rw [(only allocated).2, none] at inside
    exact absurd inside (Nat.not_lt_zero k)
  · rintro inr ⟨inode, allocated⟩
    rw [(only allocated).1, s]
    decide
  · rintro inr inode allocated - entry mem
    have content : (fileContent u inode).1 = [] := by
      rw [(only allocated).2, fileContent, none]
      rfl
    rw [dirEntries, content] at mem
    cases mem
  · rw [f]
    exact mounted

/-- A process on a host where everything works, with a source file of some bytes. -/
def workingEnvironment (argv : List (List UInt8)) (bytes : List UInt8) : Environment where
  argv
  opens := true
  source := { opens := true, seekEnd := true, size := bytes.length, seekStart := true, bytes }
  fuseMain := fun _ => errNone
  closes := true

/-- `mkdir /a`. -/
def mkdirEnvironment : Environment :=
  workingEnvironment [literal "u6fs", literal "disk", literal "mkdir", literal "/a"] []

/-- `add /b`, with one byte of content. -/
def addEnvironment : Environment :=
  workingEnvironment
    [literal "u6fs", literal "disk", literal "add", literal "/b", literal "source"] [66]

set_option maxRecDepth 10000 in
/-- On the empty volume the directory is created, and then the file is added. -/
theorem emptyVolume_commands : ∃ u output f v output' f', mountv6 emptyVolume = .ok u ∧
    (namespaceOf u).Admits u.s.lastScanned mkdirEnvironment.request ∧
    mkdirEnvironment.u6fsDoOneCmd 0 emptyVolume = some (errNone, output, f) ∧
    mountv6 f = .ok v ∧ (namespaceOf v).Admits v.s.lastScanned addEnvironment.request ∧
    addEnvironment.u6fsDoOneCmd 0 f = some (errNone, output', f') := by
  obtain ⟨u, mounted, admits, ⟨code, output, f⟩, run, rfl, v, mounted', admits',
      ⟨code', output', f'⟩, run', rfl⟩ := mountv6_check (f := emptyVolume)
    (P := fun u => (namespaceOf u).Admits u.s.lastScanned mkdirEnvironment.request ∧
      ∃ result ∈ mkdirEnvironment.u6fsDoOneCmd 0 emptyVolume, result.1 = errNone ∧
        ∃ v ∈ (mountv6 result.2.2).toOption,
          (namespaceOf v).Admits v.s.lastScanned addEnvironment.request ∧
          ∃ result' ∈ addEnvironment.u6fsDoOneCmd 0 result.2.2, result'.1 = errNone)
    (by decide +kernel)
  exact ⟨u, output, f, v, output', f', mounted, admits, run, eq_ok_of_toOption mounted', admits',
    run'⟩

/-- A process with an admitted request makes a session longer. -/
theorem Session.serve {f₀ f f' : Disk} {log : List ServedRequest} (session : Session f₀ log f)
    {v : UnixFilesystem} (mounted : mountv6 f = .ok v) {env : Environment}
    (admits : (namespaceOf v).Admits v.s.lastScanned env.request) {fuel : Nat} {code : Int}
    {output : Output} (run : env.u6fsDoOneCmd fuel f = some (code, output, f')) :
    ∃ room, Session f₀ (log ++ [⟨env.request, env.closes, room, code⟩]) f' := by
  obtain ⟨room, free⟩ := exists_hasRoom v
  refine ⟨room, .next session ?_ run⟩
  intro w again
  rw [mounted, Except.ok.injEq] at again
  rw [← again]
  exact ⟨free, admits⟩

/-- The session on the empty volume refines its requests. -/
theorem session_refines_empty : ∃ u log f, mountv6 emptyVolume = .ok u ∧
    log.map ServedRequest.request = [.mkdir (literal "/a"), .add (literal "/b") [66]] ∧
    log.map ServedRequest.code = [errNone, errNone] ∧
    ∃ w, mountv6 f = .ok w ∧ Healthy w ∧ (namespaceOf u).Run log (namespaceOf w) ∧
      ∀ env : Environment, env.request ≠ .read →
        (namespaceOf w).Admits w.s.lastScanned env.request →
          ∀ fuel, (env.u6fsDoOneCmd fuel f).isSome = true := by
  obtain ⟨u, output, f, v, output', f', mounted, admits, run, mounted', admits', run'⟩ :=
    emptyVolume_commands
  obtain ⟨disk, -⟩ := mountv6_coherent mounted
  obtain ⟨room, session⟩ := Session.start.serve mounted admits run
  obtain ⟨room', session'⟩ := session.serve mounted' admits' run'
  rw [← disk] at session'
  exact ⟨u, _, f', mounted, rfl, rfl, session_refines (emptyVolume_healthy mounted) session'⟩

end U6fs
