import U6fs.Verif.FuseRead
import U6fs.Verif.SessionTree

/-!
# What is seen through FUSE

The three calls answer as the namespace of a sound volume has it: a path that leads nowhere is
refused by each of them for the same reason; a directory shows its names in the order of its
records, and a file its content. So what a session leaves is seen.
-/
namespace U6fs

open Lib

section Filler

variable {σ : Type} (filler : σ → List UInt8 → Int × σ)

/-- Names are handed to a filler one by one, until it refuses one. -/
def fillNames : List (List UInt8) → σ → Int × σ
  | [], buf => (errNone, buf)
  | name :: names, buf =>
    match filler buf name with
    | (fill, buf) => if fill ≠ 0 then (errNomem, buf) else fillNames names buf

/-- Behind names of which none is refused the other ones are handed on. -/
theorem fillNames_append (first second : List (List UInt8)) : ∀ buf,
    fillNames filler (first ++ second) buf =
      match fillNames filler first buf with
      | (code, buf) => if code ≠ errNone then (code, buf) else fillNames filler second buf := by
  induction first with
  | nil =>
    intro buf
    exact (if_neg (not_not.mpr rfl)).symm
  | cons name names ih =>
    intro buf
    rw [List.cons_append, fillNames, fillNames]
    by_cases refused : (filler buf name).1 ≠ 0
    · simp only [if_pos refused]
      rw [if_pos (by decide : errNomem ≠ errNone)]
    · simp only [if_neg refused]
      exact ih _

/-- An enumeration that comes to its end is followed by the two names of every directory. -/
theorem fsReaddirEnd_names (buf : σ) :
    fsReaddirEnd filler errNone buf = fillNames filler [[46], [46, 46]] buf := by
  rw [fsReaddirEnd, if_neg (by decide : ¬errNone < 0)]
  simp only [fillNames]
  by_cases refused : (filler buf [46]).1 ≠ 0
  · simp only [if_pos refused]
  · simp only [if_neg refused]
    by_cases refused' : (filler (filler buf [46]).2 [46, 46]).1 ≠ 0
    · simp only [if_pos refused']
    · simp only [if_neg refused']

/-- The loop hands on the names that a caller enumerates, and then ends. -/
theorem fsReaddirLoop_entries {u : UnixFilesystem} (fuel : Nat) :
    ∀ d entries (code : Int), readEntries u fuel d = some (entries, code) →
      ∃ next, direntv6Readdir u d = some next ∧ ∀ rounds, fuel ≤ rounds + 1 → ∀ buf,
        fsReaddirLoop u filler rounds next buf =
          some (match fillNames filler (entries.map Prod.snd) buf with
            | (ret, buf) =>
              if ret ≠ errNone then (ret, buf) else fsReaddirEnd filler code buf) := by
  induction fuel with
  | zero =>
    intro d entries code run
    cases run
  | succ fuel ih =>
    intro d entries code run
    rw [readEntries] at run
    rcases next : direntv6Readdir u d with _ | ⟨after, name, childInr⟩ | ⟨after, last⟩
    · rw [next] at run
      cases run
    · rw [next] at run
      simp only [Option.map_eq_some_iff, Prod.mk.injEq] at run
      obtain ⟨⟨rest, last⟩, run, rfl, rfl⟩ := run
      obtain ⟨next', following, loop⟩ := ih after rest last run
      refine ⟨_, rfl, fun rounds enough buf => ?_⟩
      -- the enumeration goes on, so there is a round left for it
      obtain ⟨left, rfl⟩ : ∃ left, rounds = left + 1 := by
        cases fuel with
        | zero => cases run
        | succ fuel => exact ⟨rounds - 1, by omega⟩
      rw [fsReaddirLoop, List.map_cons, fillNames]
      by_cases refused : (filler buf name).1 ≠ 0
      · simp only [if_pos refused]
        rw [if_pos (by decide : errNomem ≠ errNone)]
      · simp only [if_neg refused, following]
        exact loop left (by omega) _
    · rw [next] at run
      cases run
      refine ⟨_, rfl, fun rounds enough buf => ?_⟩
      rw [fsReaddirLoop, List.map_nil, fillNames]
      exact congrArg some (if_neg (not_not.mpr rfl)).symm

end Filler

/-- What `fs_getattr` stores for a node of a kind and a size. -/
structure Stat.Describes (stat : Stat) (inr : UInt16) (kind size : Nat) : Prop where
  /-- Its number. -/
  number : stat.stIno = inr.toNat
  /-- Its kind, with the rights that all have. -/
  mode : stat.stMode = statRights ||| kind
  /-- Its size. -/
  bytes : stat.stSize = size
  /-- Its size in blocks; an empty file has one, too. -/
  blocks : stat.stBlksize = 512 ∧ stat.stBlocks = (max 1 ((size + 511) / 512) : Nat)

/-- A path is refused. -/
structure ShowsNothing (u : UnixFilesystem) (path : List UInt8) (code : Int) : Prop where
  /-- It has no attributes. -/
  attributes : fsGetattr u path = some (code, none)
  /-- It has no names. -/
  names : ∀ (σ : Type) filler (buf : σ), fsReaddir u filler path buf = some (code, buf)
  /-- It has no content. -/
  content : ∀ size offset, fsRead u path size offset = some (code, [])

/-- A path shows a file. -/
structure ShowsFile (u : UnixFilesystem) (path : List UInt8) (inr : UInt16)
    (content : List UInt8) : Prop where
  /-- It has the size of its content. -/
  attributes : ∃ stat, fsGetattr u path = some (errNone, some stat) ∧
    stat.Describes inr sIfreg content.length
  /-- It is not listed. -/
  names : ∀ (σ : Type) filler (buf : σ), fsReaddir u filler path buf =
    some (errInvalidDirectoryInode, buf)
  /-- It is read from any sector on. -/
  content : ∀ size k, 512 * k ≤ content.length → fsRead u path size (512 * k : Nat) =
    some ((((content.drop (512 * k)).take size).length : Int), (content.drop (512 * k)).take size)

/-- A path shows a directory. -/
structure ShowsDirectory (u : UnixFilesystem) (path : List UInt8) (inr : UInt16)
    (names : List (List UInt8)) : Prop where
  /-- It has the size of its records. -/
  attributes : ∃ stat, fsGetattr u path = some (errNone, some stat) ∧
    stat.Describes inr sIfdir (16 * names.length)
  /-- Its names are listed in order, and then the two names that every directory has. -/
  names : ∀ (σ : Type) filler (buf : σ), fsReaddir u filler path buf =
    some (fillNames filler (names ++ [[46], [46, 46]]) buf)

/-- The number to which a path leads: after its components comes nothing, or the only slash behind
the root. -/
def Volume.find (ns : Volume) (path : List UInt8) : Except LookupError UInt16 :=
  match ns.resolve 1 (components pathToken path) with
  | .error failure => .error failure
  | .ok inr =>
    if trailing pathToken path = 0 ∨ trailing pathToken path = 1 ∧ inr = 1 then .ok inr
    else .error .absent

/-- What a path shows is what it leads to in a namespace, and the names that a directory lists lead
to the numbers of their records. -/
def Volume.ShownBy (ns : Volume) (u : UnixFilesystem) (path : List UInt8) : Prop :=
  match ns.find path with
  | .error failure => ShowsNothing u path (lookupErrorCode failure)
  | .ok inr =>
    match ns inr with
    | none => False
    | some ⟨_, .file content⟩ => ShowsFile u path inr content
    | some ⟨_, .directory records⟩ => ShowsDirectory u path inr (records.map Prod.snd) ∧
      ∀ record ∈ records, ns.find (path ++ pathToken :: record.2) = .ok record.1

namespace Volume

variable {ns : Volume} {path : List UInt8} {inr : UInt16}

/-- A path leads to the number to which its components are resolved, if its end is accepted. -/
theorem find_eq_ok_iff : ns.find path = .ok inr ↔
    ns.resolve 1 (components pathToken path) = .ok inr ∧
      (trailing pathToken path = 0 ∨ trailing pathToken path = 1 ∧ inr = 1) := by
  rw [find]
  cases resolved : ns.resolve 1 (components pathToken path) with
  | error failure => simp
  | ok there =>
    simp only [Except.ok.injEq]
    constructor
    · intro run
      split_ifs at run with ends
      cases run
      exact ⟨rfl, ends⟩
    · rintro ⟨rfl, ends⟩
      exact if_pos ends

/-- A name behind a path that leads to a number is looked up there. -/
theorem find_below (found : ns.find path = .ok inr) {name : List UInt8}
    (plain : pathToken ∉ name) (nonempty : name ≠ []) :
    ns.find (path ++ pathToken :: name) = ns.lookup inr name := by
  have resolved := (find_eq_ok_iff.mp found).1
  have whole : ns.resolve 1 (components pathToken (path ++ pathToken :: name)) =
      ns.lookup inr name := by
    rw [Namespace.resolve] at resolved ⊢
    rw [components_cut, components_name pathToken plain nonempty, List.foldlM_append, resolved]
    exact bind_pure (ns.lookup inr name)
  have ends : trailing pathToken (path ++ pathToken :: name) = 0 := by
    have after := trailing_after pathToken (path ++ [pathToken]) plain nonempty []
    rwa [List.append_nil, trailing_nil, List.append_assoc] at after
  rw [find, whole, ends]
  cases ns.lookup inr name with
  | error failure => rfl
  | ok there => exact if_pos (.inl rfl)

end Volume

/-- What is stored about an inode. -/
theorem Stat.ofInode_describes {inr : UInt16} {inode : Inode} {kind size : Nat}
    (is : kind = if inode.isDirectory then sIfdir else sIfreg)
    (length : inodeGetsize inode = size) :
    (Stat.ofInode (inr.toNat : Int) inode).Describes inr kind size := by
  constructor
  case number => exact Int.toNat_natCast _
  case mode =>
    rw [is]
    rfl
  case bytes =>
    rw [← length]
    rfl
  case blocks =>
    refine ⟨rfl, ?_⟩
    have blocks : (Stat.ofInode (inr.toNat : Int) inode).stBlocks =
        ((inodeGetsize inode : Int) - 1).tdiv 512 + 1 := rfl
    rw [blocks, length]
    rcases Nat.eq_zero_or_pos size with rfl | positive
    · decide
    · rw [Int.tdiv_eq_ediv_of_nonneg (by omega)]
      omega

namespace Sound

variable {u : UnixFilesystem} (sound : Sound u) {path : List UInt8}

include sound

/-- The code finds the number to which a path leads. -/
theorem direntv6Dirlookup_find : direntv6Dirlookup u 1 path =
    some (walkCode (lookupResult ((namespaceOf u).find path))) := by
  rw [direntv6Dirlookup_eq, (sound.walk_eq sound.root_used).1, Option.map_some, Volume.find]
  cases resolved : (namespaceOf u).resolve 1 (components pathToken path) with
  | error failure => rfl
  | ok inr =>
    simp only [lookupResult, lookupCode]
    split_ifs with ends
    · rfl
    · rfl

/-- A path that leads nowhere is refused by each call. -/
theorem showsNothing {failure : LookupError} (found : (namespaceOf u).find path = .error failure) :
    ShowsNothing u path (lookupErrorCode failure) := by
  have lookup := @direntv6Dirlookup_find u sound path
  rw [found] at lookup
  have root : rootInumber.toUInt16 = 1 := rfl
  have negative := lookupErrorCode_neg failure
  constructor
  case attributes =>
    rw [fsGetattr, root, lookup]
    exact if_pos negative
  case names =>
    intro σ filler buf
    rw [fsReaddir, root, lookup]
    exact if_pos negative
  case content =>
    intro size offset
    rw [fsRead, root, lookup]
    exact if_pos negative

section Found

variable {inr : UInt16} (found : (namespaceOf u).find path = .ok inr)

include found

/-- A path that leads to a number is looked up as that number. -/
theorem direntv6Dirlookup_found : direntv6Dirlookup u 1 path = some (inr.toNat : Int) := by
  rw [sound.direntv6Dirlookup_find, found]
  rfl

/-- The number is in use. -/
theorem found_used : u.f.InUse u.s inr.toNat := by
  exact (sound.walk_eq sound.root_used).2 inr (Volume.find_eq_ok_iff.mp found).1

variable {inode : Inode} (allocated : u.f.Allocated u.s inr.toNat inode)

include allocated

/-- The attributes are those of the inode. -/
theorem fsGetattr_found : fsGetattr u path =
    some (errNone, some (.ofInode (inr.toNat : Int) inode)) := by
  have works := sound.image.regions.works
  have root : rootInumber.toUInt16 = 1 := rfl
  rw [fsGetattr, root, sound.direntv6Dirlookup_found found]
  have number : UInt16.ofNat ((inr.toNat : Int)).toNat = inr := by
    rw [Int.toNat_natCast, UInt16.ofNat_toNat]
  simp only [number, inodeRead_of_allocated works allocated]
  rw [if_neg (by omega), if_neg (not_not.mpr rfl)]

/-- A path that leads to a directory shows its names. -/
theorem showsDirectory (directory : inode.isDirectory = true) :
    ShowsDirectory u path inr ((dirEntries u inode).map Prod.snd) := by
  have works := sound.image.regions.works
  have root : rootInumber.toUInt16 = 1 := rfl
  have number : UInt16.ofNat ((inr.toNat : Int)).toNat = inr := by
    rw [Int.toNat_natCast, UInt16.ofNat_toNat]
  constructor
  case attributes =>
    refine ⟨_, sound.fsGetattr_found found allocated, ?_⟩
    apply Stat.ofInode_describes
    · rw [if_pos directory]
    · have length := sound.entries_length allocated directory
      rw [List.length_map]
      omega
  case names =>
    intro σ filler buf
    have opened := direntv6Opendir_of_allocated works allocated directory
      (u.f.host.stack u.f.time)
    have entries := readEntries_eq opened (sound.image.whole _ inode allocated directory)
    simp only [sound.whole allocated] at entries
    obtain ⟨next, first, loop⟩ := fsReaddirLoop_entries filler _ _ _ _ entries
    have run := loop _ (Nat.le_succ _) buf
    rw [fsReaddir, root, sound.direntv6Dirlookup_found found]
    simp only [number, opened, first]
    rw [if_neg (by omega), run, fillNames_append]
    simp only [fsReaddirEnd_names]

/-- A path that leads to a file shows its content. -/
theorem showsFile (file : inode.isDirectory = false) :
    ShowsFile u path inr (fileContent u inode).1 := by
  have works := sound.image.regions.works
  have root : rootInumber.toUInt16 = 1 := rfl
  have number : UInt16.ofNat ((inr.toNat : Int)).toNat = inr := by
    rw [Int.toNat_natCast, UInt16.ofNat_toNat]
  have whole := sound.whole allocated
  have length := fileContent_length u inode whole
  have lookup := sound.direntv6Dirlookup_found found
  constructor
  case attributes =>
    refine ⟨_, sound.fsGetattr_found found allocated, ?_⟩
    apply Stat.ofInode_describes
    · rw [file]
      rfl
    · exact length.symm
  case names =>
    intro σ filler buf
    have refused : direntv6Opendir u inr (u.f.host.stack u.f.time) =
        .error errInvalidDirectoryInode := by
      rw [direntv6Opendir, filev6Open_of_allocated works allocated]
      simp only [file, Bool.not_false, if_true]
    rw [fsReaddir, root, lookup]
    simp only [number, refused]
    rw [if_neg (by omega)]
  case content =>
    intro size k inside
    have count := sectorCount_eq inode
    have bound := inodeGetsize_lt inode
    rw [length] at inside
    apply fsRead_part lookup (inodeRead_of_allocated works allocated Inode.zero) whole
    · split at count <;> omega
    · rw [toInt32_of_small (by omega), Nat.min_eq_left inside]

end Found

/-- What a path shows in a sound volume is what it leads to. -/
theorem shownBy (path : List UInt8) : (namespaceOf u).ShownBy u path := by
  unfold Volume.ShownBy
  cases found : (namespaceOf u).find path with
  | error failure => exact sound.showsNothing found
  | ok inr =>
    obtain ⟨inode, allocated⟩ := sound.found_used found
    by_cases directory : inode.isDirectory = true
    · have node : namespaceOf u inr = some ⟨inode.iMode, .directory (dirEntries u inode)⟩ := by
        rw [namespaceOf_of_allocated allocated, nodeOf, if_pos directory]
      simp only [node]
      refine ⟨sound.showsDirectory found allocated directory, ?_⟩
      intro record mem
      obtain ⟨-, named⟩ := sound.distinct allocated directory
      have plain := sound.plain _ inode allocated directory record mem
      have nonempty : record.2 ≠ [] := by
        intro none
        apply named
        rw [← none]
        exact List.mem_map_of_mem mem
      rw [Volume.find_below found plain nonempty,
        Namespace.lookup_eq_ok_iff (sound.names_nodup inr),
        entries_of_allocated allocated directory]
      exact mem
    · have node : namespaceOf u inr = some ⟨inode.iMode, .file (fileContent u inode).1⟩ := by
        rw [namespaceOf_of_allocated allocated, nodeOf, if_neg directory]
      simp only [node]
      exact sound.showsFile found allocated (Bool.eq_false_iff.mpr directory)

/-- A file that a path shows is the one to which the path leads. -/
theorem find_of_showsFile {path : List UInt8} {inr : UInt16} {content : List UInt8}
    (shows : ShowsFile u path inr content) : (namespaceOf u).find path = .ok inr ∧
      ∃ attr, namespaceOf u inr = some ⟨attr, .file content⟩ := by
  obtain ⟨stat, got, described⟩ := shows.attributes
  have there := sound.shownBy path
  unfold Volume.ShownBy at there
  cases found : (namespaceOf u).find path with
  | error failure =>
    rw [found] at there
    have refused := there.attributes
    rw [got, Option.some.injEq, Prod.mk.injEq] at refused
    exact absurd refused.2 (Option.some_ne_none _)
  | ok other =>
    rw [found] at there
    simp only at there
    rcases is : namespaceOf u other with _ | ⟨attr, records | content'⟩
    · simp only [is] at there
    · simp only [is] at there
      obtain ⟨stat', got', described'⟩ := there.1.attributes
      rw [got, Option.some.injEq, Prod.mk.injEq, Option.some.injEq] at got'
      have mode := described.mode
      rw [got'.2, described'.mode] at mode
      exact absurd mode (by decide)
    · simp only [is] at there
      obtain ⟨stat', got', described'⟩ := there.attributes
      rw [got, Option.some.injEq, Prod.mk.injEq, Option.some.injEq] at got'
      have number : inr = other := by
        rw [← UInt16.toNat_inj, ← described.number, got'.2, described'.number]
      -- a buffer that has room for both contents
      have read := shows.content (content.length + content'.length) 0 (Nat.zero_le _)
      rw [there.content _ 0 (Nat.zero_le _), Option.some.injEq, Prod.mk.injEq] at read
      have same := read.2
      rw [Nat.mul_zero, List.drop_zero, List.drop_zero, List.take_of_length_le (by omega),
        List.take_of_length_le (by omega)] at same
      rw [number, ← same]
      exact ⟨rfl, attr, is⟩

/-- The file to which a path leads is shown. -/
theorem showsFile_of_find {path : List UInt8} {inr attr : UInt16} {content : List UInt8}
    (found : (namespaceOf u).find path = .ok inr)
    (is : namespaceOf u inr = some ⟨attr, .file content⟩) : ShowsFile u path inr content := by
  have there := sound.shownBy path
  simp only [Volume.ShownBy, found, is] at there
  exact there

end Sound

/-- After any session on a volume in good health, each path shows what it leads to in the
namespace that the requests make, to each of the calls that FUSE serves. -/
theorem session_shown {u : UnixFilesystem} (healthy : Healthy u) {log : List ServedRequest}
    {f : Disk} (session : Session u.f log f) :
    ∃ w ns, mountv6 f = .ok w ∧ (namespaceOf u).Run log ns ∧ ∀ path, ns.ShownBy w path := by
  obtain ⟨w, mounted, well, run⟩ := session.reaches healthy
  exact ⟨w, _, mounted, run, well.shownBy⟩

/-- After the session on the empty volume, each path shows what it leads to. -/
theorem session_shown_empty : ∃ u log f, mountv6 emptyVolume = .ok u ∧
    log.map ServedRequest.request = [.mkdir (literal "/a"), .add (literal "/b") [66]] ∧
    ∃ w ns, mountv6 f = .ok w ∧ (namespaceOf u).Run log ns ∧ ∀ path, ns.ShownBy w path := by
  obtain ⟨u, output, f, v, output', f', mounted, admits, run, mounted', admits', run'⟩ :=
    emptyVolume_commands
  obtain ⟨disk, -⟩ := mountv6_coherent mounted
  obtain ⟨room, session⟩ := Session.start.serve mounted admits run
  obtain ⟨room', session'⟩ := session.serve mounted' admits' run'
  rw [← disk] at session'
  exact ⟨u, _, f', mounted, rfl, session_shown (emptyVolume_healthy mounted) session'⟩

end U6fs
