import U6fs.Verif.Healthy

/-!
# Paths in the code and in the namespace

In a sound volume the code finds a name of a directory exactly where the namespace has it,
and fails with the code of the same reason; so a path is walked as it is resolved. The checks before
a creation come to the same result in both.
-/
namespace U6fs

open Lib

section Split

/-- A path is split behind its last slash. -/
theorem splitPath_of_parts {before name : List UInt8}
    (ends : before = [] ∨ before.getLast? = some pathToken) (plain : pathToken ∉ name) :
    splitPath (before ++ name) = (components pathToken before, name) := by
  rcases ends with rfl | last
  · rw [List.nil_append, splitPath, if_pos (trailing_name pathToken plain), components_nil]
    by_cases nonempty : name = []
    · rw [nonempty, components_nil]
      rfl
    · rw [components_name pathToken plain nonempty]
      rfl
  · obtain ⟨front, rfl⟩ : ∃ front, before = front ++ [pathToken] :=
      List.getLast?_eq_some_iff.mp last
    have cut : components pathToken (front ++ [pathToken] ++ name) =
        components pathToken front ++ components pathToken name := by
      rw [List.append_assoc, List.singleton_append, components_cut]
    have none : components pathToken (front ++ [pathToken]) = components pathToken front := by
      rw [components_cut, components_nil, List.append_nil]
    rw [splitPath, cut, none]
    by_cases nonempty : name = []
    · subst nonempty
      have slash : ¬trailing pathToken (front ++ [pathToken] ++ []) = 0 := by
        rw [trailing_eq_zero_iff, List.append_nil, List.getLast?_append]
        exact not_not.mpr rfl
      rw [if_neg slash, components_nil, List.append_nil]
    · have none : trailing pathToken (front ++ [pathToken] ++ name) = 0 := by
        have after := trailing_after pathToken (front ++ [pathToken]) plain nonempty []
        rwa [List.append_nil, trailing_nil] at after
      rw [if_pos none, components_name pathToken plain nonempty, List.dropLast_concat,
        List.getLastD_concat]

/-- A path whose last component is too long is refused, and no other one. -/
theorem splitPath_tooLong {entry : List UInt8} {code : Int}
    (failed : splitNameDirentv6Create entry = .error code) :
    code = errFilenameTooLong ∧ 14 < (splitPath entry).2.length := by
  obtain ⟨before, name, rfl, ends, plain, long⟩ :=
    (splitNameDirentv6Create_spec entry).1.mp ⟨code, failed⟩
  refine ⟨?_, ?_⟩
  · rw [splitNameDirentv6Create] at failed
    split at failed
    · cases failed
      rfl
    · cases failed
  · rw [splitPath_of_parts ends plain]
    exact long

/-- Other paths are cut into the path of the directory and the last component. -/
theorem splitPath_short {entry name path : List UInt8}
    (cut : splitNameDirentv6Create entry = .ok (name, path)) :
    splitPath entry = (components pathToken path, name) ∧ name.length ≤ 14 := by
  have splits := (splitNameDirentv6Create_spec entry).2 name path cut
  obtain ⟨slashes, is, all, none⟩ := splits.parts
  have ends : path ++ slashes = [] ∨ (path ++ slashes).getLast? = some pathToken := by
    rcases List.eq_nil_or_concat' slashes with rfl | ⟨front, last, rfl⟩
    · rw [none rfl]
      exact .inl rfl
    · right
      rw [all last (List.mem_append_right _ List.mem_cons_self), ← List.append_assoc,
        List.getLast?_append]
      rfl
  have same : components pathToken (path ++ slashes) = components pathToken path := by
    have cut := @components_run _ _ pathToken path slashes all none []
    rwa [List.append_nil, components_nil, List.append_nil] at cut
  refine ⟨?_, ?_⟩
  · rw [is, splitPath_of_parts ends splits.name, same]
  · rw [splitNameDirentv6Create] at cut
    split at cut
    · cases cut
    · rename_i short
      cases cut
      exact Nat.not_lt.mp short

end Split

/-- A number, or the code of the reason why there is none. -/
def lookupResult : Except LookupError UInt16 → Except Int UInt16
  | .ok inr => .ok inr
  | .error failure => .error (lookupErrorCode failure)

/-- The search for a name is that for a record. -/
theorem findName_eq (name : List UInt8) (entries : List (UInt16 × List UInt8)) :
    findName name entries = (entries.find? fun entry => entry.2 = name).map Prod.fst := by
  have same : (fun entry : UInt16 × List UInt8 => decide (name = entry.2)) =
      fun entry => decide (entry.2 = name) := by
    funext entry
    exact decide_eq_decide.mpr eq_comm
  rw [findName, same]

namespace Sound

variable {u : UnixFilesystem} (sound : Sound u)

include sound

/-- A name of a number in use is looked up as in the namespace. -/
theorem lookupName_eq {inr : UInt16} (used : u.f.InUse u.s inr.toNat) (name : List UInt8) :
    lookupName u inr name = some (lookupResult ((namespaceOf u).lookup inr name)) := by
  have works := sound.image.regions.works
  obtain ⟨inode, allocated⟩ := used
  by_cases directory : inode.isDirectory = true
  · have node : namespaceOf u inr = some ⟨inode.iMode, .directory (dirEntries u inode)⟩ := by
      rw [namespaceOf_of_allocated allocated, nodeOf, if_pos directory]
    rw [U6fs.lookupName_eq u sound.image.whole, recordNamed_of_allocated works allocated directory,
      sound.whole allocated, if_pos rfl, findName_eq, Namespace.lookup, node]
    cases found : (dirEntries u inode).find? fun entry => decide (entry.2 = name) with
    | none => simp only [found, Option.map_none, lookupResult, lookupErrorCode]
    | some entry => simp only [found, Option.map_some, lookupResult]
  · have node : namespaceOf u inr = some ⟨inode.iMode, .file (fileContent u inode).1⟩ := by
      rw [namespaceOf_of_allocated allocated, nodeOf, if_neg directory]
    have plain : inode.isDirectory = false := Bool.eq_false_iff.mpr directory
    have refused : direntv6Opendir u inr (Block.fill sectorSize 0) =
        .error errInvalidDirectoryInode := by
      rw [direntv6Opendir, filev6Open_of_allocated works allocated]
      simp only [plain, Bool.not_false, if_true]
    rw [lookupName, refused, Namespace.lookup, node]
    rfl

/-- A path from a number in use is walked as it is resolved, and ends at a number in use. -/
theorem walk_eq {names : List (List UInt8)} : ∀ {inr : UInt16}, u.f.InUse u.s inr.toNat →
    walk (lookupName u) inr names =
        some (lookupResult ((namespaceOf u).resolve inr names)) ∧
      ∀ found, (namespaceOf u).resolve inr names = .ok found → u.f.InUse u.s found.toNat := by
  induction names with
  | nil =>
    intro inr used
    refine ⟨rfl, ?_⟩
    intro found run
    cases run
    exact used
  | cons name names ih =>
    intro inr used
    have first := sound.lookupName_eq used name
    have unfolded : (namespaceOf u).resolve inr (name :: names) =
        match (namespaceOf u).lookup inr name with
        | .ok next => (namespaceOf u).resolve next names
        | .error failure => .error failure := by
      rw [Namespace.resolve, List.foldlM_cons]
      cases (namespaceOf u).lookup inr name <;> rfl
    rw [walk, first, unfolded]
    cases found : (namespaceOf u).lookup inr name with
    | error failure =>
      refine ⟨rfl, ?_⟩
      intro found run
      cases run
    | ok next =>
      have record := (Namespace.lookup_eq_ok_iff (sound.names_nodup inr)).mp found
      obtain ⟨inode, allocated⟩ := used
      have directory : inode.isDirectory = true := by
        by_contra file
        have node : namespaceOf u inr = some ⟨inode.iMode, .file (fileContent u inode).1⟩ := by
          rw [namespaceOf_of_allocated allocated, nodeOf, if_neg file]
        rw [Namespace.entries_file node] at record
        cases record
      rw [entries_of_allocated allocated directory] at record
      exact ih (sound.live allocated directory record)

/-- The root is in use. -/
theorem root_used : u.f.InUse u.s (1 : UInt16).toNat := by
  obtain ⟨inode, allocated, -⟩ := sound.image.root
  exact ⟨inode, allocated⟩

/-- A path without a slash at its end is looked up as its components are resolved. -/
theorem direntv6Dirlookup_resolve {inr : UInt16} (used : u.f.InUse u.s inr.toNat)
    {path : List UInt8} (last : path.getLast? ≠ some pathToken) :
    direntv6Dirlookup u inr path =
      some (walkCode (lookupResult ((namespaceOf u).resolve inr (components pathToken path)))) := by
  have none := (trailing_eq_zero_iff pathToken path).mpr last
  rw [direntv6Dirlookup_eq, (sound.walk_eq used).1, none, Option.map_some, lookupCode_zero]

omit sound in
/-- The codes of names that are not found are negative. -/
theorem lookupErrorCode_neg (failure : LookupError) : lookupErrorCode failure < 0 := by
  cases failure <;> decide

/-- A name without a slash is looked up as the last component of a path. -/
theorem direntv6Dirlookup_last {parent : UInt16} (used : u.f.InUse u.s parent.toNat)
    {name : List UInt8} (plain : pathToken ∉ name) :
    direntv6Dirlookup u parent name =
      some (walkCode (lookupResult ((namespaceOf u).lookupLast parent name))) := by
  have last : name.getLast? ≠ some pathToken := fun is => plain (List.mem_of_getLast? is)
  rw [sound.direntv6Dirlookup_resolve used last, Volume.lookupLast]
  by_cases nonempty : name = []
  · rw [if_pos nonempty, nonempty, components_nil]
    rfl
  · rw [if_neg nonempty, components_name pathToken plain nonempty, Namespace.resolve,
      List.foldlM_cons]
    cases (namespaceOf u).lookup parent name <;> rfl

omit sound in
/-- The checks before a creation, once the directory is found and the name has been looked up. -/
theorem createCheck_second {entry name path : List UInt8} {parent : UInt16} {code : Int}
    (cut : splitNameDirentv6Create entry = .ok (name, path))
    (lookup : direntv6Dirlookup u 1 path = some (parent.toNat : Int))
    (second : direntv6Dirlookup u parent name = some code) :
    createCheck u entry = some (
      if code ≠ errNoSuchFile then
        if code ≥ 0 then .error errFilenameAlreadyExists else .error code
      else .ok (name, parent)) := by
  have number : UInt16.ofNat ((parent.toNat : Int)).toNat = parent := by
    rw [Int.toNat_natCast, UInt16.ofNat_toNat]
  have positive : ¬(parent.toNat : Int) < 0 := by omega
  rw [createCheck, cut]
  simp only [lookup, if_neg positive, number, second]
  split_ifs <;> rfl

/-- The checks before a creation: they fail with the code with which the creation fails in the
namespace, or the namespace enters the name in the directory that they find. -/
theorem createCheck_cases (entry : List UInt8) :
    (∃ code < 0, createCheck u entry = some (.error code) ∧
      ∀ room mode, (namespaceOf u).create room entry mode = (code, namespaceOf u)) ∨
    ∃ parent, createCheck u entry = some (.ok ((splitPath entry).2, parent)) ∧
      (namespaceOf u).resolve 1 (splitPath entry).1 = .ok parent ∧
      (splitPath entry).2.length ≤ 14 ∧ pathToken ∉ (splitPath entry).2 ∧
      ∀ room mode, (namespaceOf u).create room entry mode =
        (namespaceOf u).enter room parent (splitPath entry).2 mode := by
  rcases cut : splitNameDirentv6Create entry with code | ⟨name, path⟩
  · obtain ⟨rfl, long⟩ := splitPath_tooLong cut
    refine .inl ⟨errFilenameTooLong, by decide, ?_, ?_⟩
    · rw [createCheck, cut]
    · intro room mode
      rw [Volume.create, if_pos long]
  · obtain ⟨split, short⟩ := splitPath_short cut
    have splits := (splitNameDirentv6Create_spec entry).2 name path cut
    have lookup := sound.direntv6Dirlookup_resolve sound.root_used splits.path
    have fits : ¬14 < (splitPath entry).2.length := by
      rw [split]
      exact Nat.not_lt.mpr short
    cases resolved : (namespaceOf u).resolve 1 (components pathToken path) with
    | error failure =>
      rw [resolved] at lookup
      have negative := lookupErrorCode_neg failure
      refine .inl ⟨lookupErrorCode failure, negative, ?_, ?_⟩
      · rw [createCheck, cut]
        simp only [lookup, lookupResult, walkCode]
        rw [if_pos negative]
      · intro room mode
        rw [Volume.create, if_neg fits, split]
        simp only [resolved]
    | ok parent =>
      rw [resolved] at lookup
      have used := (sound.walk_eq sound.root_used).2 parent resolved
      have second := sound.direntv6Dirlookup_last used splits.name
      have first := createCheck_second cut lookup second
      have fits' : ¬14 < name.length := Nat.not_lt.mpr short
      cases last : (namespaceOf u).lookupLast parent name with
      | ok child =>
        have other : (child.toNat : Int) ≠ errNoSuchFile := by
          unfold errNoSuchFile
          omega
        rw [last, lookupResult, walkCode, if_pos other, if_pos (by omega)] at first
        refine .inl ⟨errFilenameAlreadyExists, by decide, first, fun room mode => ?_⟩
        simp only [Volume.create, split, if_neg fits', resolved, last]
      | error failure =>
        by_cases absent : failure = .absent
        · subst absent
          have same : walkCode (lookupResult (.error .absent)) = errNoSuchFile := rfl
          rw [last, same, if_neg (not_not.mpr rfl)] at first
          rw [split]
          refine .inr ⟨parent, first, resolved, short, splits.name, fun room mode => ?_⟩
          simp only [Volume.create, split, if_neg fits', resolved, last]
        · have code : walkCode (lookupResult (.error failure)) = lookupErrorCode failure := rfl
          have negative := lookupErrorCode_neg failure
          have other : lookupErrorCode failure ≠ errNoSuchFile := by
            cases failure with
            | absent => exact absurd rfl absent
            | unused => decide
            | notDirectory => decide
          rw [last, code, if_pos other, if_neg (Int.not_le.mpr negative)] at first
          refine .inl ⟨lookupErrorCode failure, negative, first, fun room mode => ?_⟩
          cases failure with
          | absent => exact absurd rfl absent
          | unused => simp only [Volume.create, split, if_neg fits', resolved, last]
          | notDirectory => simp only [Volume.create, split, if_neg fits', resolved, last]

end Sound

end U6fs
