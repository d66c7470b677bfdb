import U6fs.Verif.Lookup

/-!
# The existence check of a creation

`direntv6_create` splits its path into a directory and a last component, and looks the first up from
the root and the second in the directory. The split scans the path backwards, byte by byte; it reads
inside the path only, and cuts it at its last run of slashes. Cutting there commutes with the walk
along the components, so the check agrees with a lookup of the whole path.
-/
namespace U6fs

open Lib

/-- The byte at a position of a string, its NUL included; outside, the behaviour is undefined. -/
def byteAt (entry : List UInt8) (p : Int) : Option UInt8 :=
  if 0 ≤ p then (entry ++ [0])[p.toNat]? else none

/-- A loop that moves a pointer backwards as long as bytes are left and have a property: the pointer
where it stops and the number of bytes left. -/
def scanBack (entry : List UInt8) (goesOn : UInt8 → Bool) : Nat → Int → Option (Int × Nat)
  | 0, p => some (p, 0)
  | left + 1, p =>
    match byteAt entry p with
    | none => none
    | some byte => if goesOn byte then scanBack entry goesOn left (p - 1) else some (p, left + 1)

/-- `strcpy` from a position of a string on. -/
def stringFrom (entry : List UInt8) (p : Int) : Option (List UInt8) :=
  if 0 ≤ p ∧ p ≤ entry.length then some (entry.drop p.toNat) else none

/-- The two loops and the two copies of `split_name_direntv6_create`. -/
def splitNameBytes (entry : List UInt8) : Option (Except Int (List UInt8 × List UInt8)) :=
  match scanBack entry (· ≠ pathToken) entry.length (entry.length - 1) with
  | none => none
  | some (p, absoluteNameLength) =>
    if entry.length - absoluteNameLength > direntMaxlen then some (.error errFilenameTooLong)
    else match scanBack entry (· = pathToken) absoluteNameLength p with
      | none => none
      | some (_, absoluteNameLength) =>
        match stringFrom entry (p + 1) with
        | none => none
        | some relativeName => some (.ok (relativeName, entry.take absoluteNameLength))

section Split

variable (entry : List UInt8)

/-- A backward loop stops behind the bytes that do not have the property. -/
theorem scanBack_eq (goesOn : UInt8 → Bool) (left : Nat) (inside : left ≤ entry.length) :
    scanBack entry goesOn left (left - 1) =
      some ((((entry.take left).rdropWhile goesOn).length : Int) - 1,
        ((entry.take left).rdropWhile goesOn).length) := by
  induction left with
  | zero => rfl
  | succ left ih =>
    have last : entry.take (left + 1) = entry.take left ++ [entry[left]] :=
      List.take_succ_eq_append_getElem inside
    have byte : byteAt entry (((left + 1 : Nat) : Int) - 1) = some entry[left] := by
      have place : ((left + 1 : Nat) : Int) - 1 = left := by omega
      rw [byteAt, place, if_pos (Int.natCast_nonneg left), Int.toNat_natCast,
        List.getElem?_append_left inside, List.getElem?_eq_getElem inside]
    have next : ((left + 1 : Nat) : Int) - 1 - 1 = left - 1 := by omega
    rw [scanBack.eq_def]
    simp only [byte, last, List.rdropWhile_concat]
    split
    · rw [next]
      exact ih (by omega)
    · rw [← last, List.length_take, Nat.min_eq_left inside]

/-- What comes before the last component, and the last component. -/
theorem splitLast : entry.rdropWhile (· ≠ pathToken) ++ entry.rtakeWhile (· ≠ pathToken) = entry :=
  List.rdropWhile_append_rtakeWhile

/-- The bytes before the last component. -/
theorem take_beforeLast :
    entry.take (entry.length - (entry.rtakeWhile (· ≠ pathToken)).length) =
      entry.rdropWhile (· ≠ pathToken) := by
  have parts := congrArg List.length (splitLast entry)
  rw [List.length_append] at parts
  have length : entry.length - (entry.rtakeWhile (· ≠ pathToken)).length =
      (entry.rdropWhile (· ≠ pathToken)).length := by omega
  have front : (entry.rdropWhile (· ≠ pathToken) ++ entry.rtakeWhile (· ≠ pathToken)).take
      (entry.rdropWhile (· ≠ pathToken)).length = entry.rdropWhile (· ≠ pathToken) :=
    List.take_left
  rw [splitLast] at front
  rw [length, front]

/-- The loops read inside the path only, and split it as `splitNameDirentv6Create` says. -/
theorem splitNameBytes_eq : splitNameBytes entry = some (splitNameDirentv6Create entry) := by
  have parts := congrArg List.length (splitLast entry)
  rw [List.length_append] at parts
  have absolute : entry.length - (entry.rtakeWhile (· ≠ pathToken)).length =
      (entry.rdropWhile (· ≠ pathToken)).length := by omega
  have before := take_beforeLast entry
  rw [absolute] at before
  have inside : (entry.rdropWhile (· ≠ pathToken)).length ≤ entry.length := by omega
  have first := scanBack_eq entry (· ≠ pathToken) entry.length le_rfl
  rw [List.take_length] at first
  have second := scanBack_eq entry (· = pathToken) _ inside
  rw [before] at second
  have relative : entry.length - (entry.rdropWhile (· ≠ pathToken)).length =
      (entry.rtakeWhile (· ≠ pathToken)).length := by omega
  rw [splitNameBytes, splitNameDirentv6Create, first]
  simp only [relative, absolute, before]
  split
  · rfl
  · have place : ((entry.rdropWhile (· ≠ pathToken)).length : Int) - 1 + 1 =
        (entry.rdropWhile (· ≠ pathToken)).length := by omega
    have rest : entry.drop (entry.rdropWhile (· ≠ pathToken)).length =
        entry.rtakeWhile (· ≠ pathToken) := by
      have back : (entry.rdropWhile (· ≠ pathToken) ++ entry.rtakeWhile (· ≠ pathToken)).drop
          (entry.rdropWhile (· ≠ pathToken)).length = entry.rtakeWhile (· ≠ pathToken) :=
        List.drop_left
      rwa [splitLast] at back
    have copied : stringFrom entry (((entry.rdropWhile (· ≠ pathToken)).length : Int) - 1 + 1) =
        some (entry.rtakeWhile (· ≠ pathToken)) := by
      rw [place, stringFrom, if_pos (by omega), Int.toNat_natCast, rest]
    have start := (List.rdropWhile_prefix (· = pathToken)
      (entry.rdropWhile (· ≠ pathToken))).trans ⟨_, splitLast entry⟩
    have cut := (List.prefix_iff_eq_take.mp start).symm
    rw [second]
    simp only [copied, cut]

/-- The last component of a path, the run of slashes before it, and the path of its directory. -/
structure Splits (path name : List UInt8) : Prop where
  /-- They make up the path. -/
  parts : ∃ slashes, entry = path ++ slashes ++ name ∧ (∀ x ∈ slashes, x = pathToken) ∧
    (slashes = [] → path = [])
  /-- The component has no slash. -/
  name : pathToken ∉ name
  /-- The path of the directory does not end in one. -/
  path : path.getLast? ≠ some pathToken

/-- The part of a path after its last slash does not fit into a record. -/
def NameTooLong : Prop :=
  ∃ before name, entry = before ++ name ∧ (before = [] ∨ before.getLast? = some pathToken) ∧
    pathToken ∉ name ∧ direntMaxlen < name.length

/-- The part after the last slash. -/
theorem rtakeWhile_name {before name : List UInt8}
    (ends : before = [] ∨ before.getLast? = some pathToken) (plain : pathToken ∉ name) :
    (before ++ name).rtakeWhile (· ≠ pathToken) = name := by
  have all : ∀ x ∈ name.reverse, decide (x ≠ pathToken) = true := by
    intro x mem
    apply decide_eq_true
    rintro rfl
    exact plain (List.mem_reverse.mp mem)
  have none : before.rtakeWhile (· ≠ pathToken) = [] := by
    rw [List.rtakeWhile_eq_nil_iff]
    intro nonempty
    rcases ends with empty | last
    · exact absurd empty nonempty
    · rw [List.getLast?_eq_some_getLast nonempty, Option.some.injEq] at last
      rw [last]
      decide
  rw [List.rtakeWhile, List.reverse_append, List.takeWhile_append_of_pos all, List.reverse_append,
    List.reverse_reverse, ← List.rtakeWhile, none, List.nil_append]

/-- The split fails exactly when the last component is too long, and otherwise cuts the path at its
last run of slashes. -/
theorem splitNameDirentv6Create_spec :
    ((∃ code, splitNameDirentv6Create entry = .error code) ↔ NameTooLong entry) ∧
      ∀ name path, splitNameDirentv6Create entry = .ok (name, path) → Splits entry path name := by
  have ends : entry.rdropWhile (· ≠ pathToken) = [] ∨
      (entry.rdropWhile (· ≠ pathToken)).getLast? = some pathToken := by
    by_cases nonempty : entry.rdropWhile (· ≠ pathToken) = []
    · exact .inl nonempty
    · right
      have last := List.rdropWhile_last_not (· ≠ pathToken) entry nonempty
      rw [List.getLast?_eq_some_getLast nonempty]
      simpa using last
  constructor
  · constructor
    · rintro ⟨code, failed⟩
      have plain : pathToken ∉ entry.rtakeWhile (· ≠ pathToken) := by
        intro mem
        have different := List.mem_rtakeWhile_imp mem
        exact absurd rfl (of_decide_eq_true different)
      rw [splitNameDirentv6Create] at failed
      split at failed
      · rename_i long
        exact ⟨_, _, (splitLast entry).symm, ends, plain, long⟩
      · cases failed
    · rintro ⟨before, name, rfl, ends', plain', long⟩
      refine ⟨errFilenameTooLong, ?_⟩
      rw [splitNameDirentv6Create, rtakeWhile_name ends' plain']
      exact if_pos long
  · intro name path split
    have plain := splitNameDirentv6Create_name split
    rw [splitNameDirentv6Create] at split
    simp only [take_beforeLast] at split
    split at split
    · cases split
    · cases split
      refine ⟨⟨(entry.rdropWhile (· ≠ pathToken)).rtakeWhile (· = pathToken), ?_, ?_, ?_⟩,
        plain, ?_⟩
      · rw [List.rdropWhile_append_rtakeWhile, splitLast]
      · intro x mem
        have same := List.mem_rtakeWhile_imp mem
        exact of_decide_eq_true same
      · intro none
        rw [List.rdropWhile_eq_nil_iff]
        rcases ends with empty | last
        · rw [empty]
          exact fun x mem => by cases mem
        · have slashes := (trailing_eq_zero_iff pathToken _).mp (List.length_eq_zero_iff.mpr none)
          exact absurd last slashes
      · intro last
        have nonempty : (entry.rdropWhile (· ≠ pathToken)).rdropWhile (· = pathToken) ≠ [] := by
          intro empty
          rw [empty] at last
          cases last
        have other := List.rdropWhile_last_not (· = pathToken) _ nonempty
        rw [List.getLast?_eq_some_getLast nonempty, Option.some.injEq] at last
        exact other (decide_eq_true last)

end Split

/-- The part of `direntv6_create` before `create_dirent`: the code that it returns, or the name and
the directory that it passes on. -/
def createCheck (u : UnixFilesystem) (entry : List UInt8) :
    Option (Except Int (List UInt8 × UInt16)) :=
  match splitNameDirentv6Create entry with
  | .error split => some (.error split)
  | .ok (relativeName, absoluteName) =>
    match direntv6Dirlookup u 1 absoluteName with
    | none => none
    | some inrParent =>
      if inrParent < 0 then some (.error inrParent)
      else match direntv6Dirlookup u (UInt16.ofNat inrParent.toNat) relativeName with
        | none => none
        | some dirLookupChild =>
          if dirLookupChild ≠ errNoSuchFile then
            if dirLookupChild ≥ 0 then some (.error errFilenameAlreadyExists)
            else some (.error dirLookupChild)
          else some (.ok (relativeName, UInt16.ofNat inrParent.toNat))

/-- `direntv6_create` is the check and then `create_dirent`. -/
theorem direntv6Create_eq (u : UnixFilesystem) (entry : List UInt8) (mode : UInt16) :
    direntv6Create u entry mode =
      match createCheck u entry with
      | none => none
      | some (.error code) => some (code, u)
      | some (.ok (relativeName, inrParent)) => createDirent u mode relativeName inrParent := by
  rw [direntv6Create, createCheck]
  cases splitNameDirentv6Create entry with
  | error split => rfl
  | ok names =>
    simp only
    cases direntv6Dirlookup u 1 names.2 with
    | none => rfl
    | some inrParent =>
      simp only
      split
      · rfl
      · cases direntv6Dirlookup u (UInt16.ofNat inrParent.toNat) names.1 with
        | none => rfl
        | some dirLookupChild =>
          simp only
          split
          · split <;> rfl
          · rfl

/-- The check passes on the last component and the directory found for the rest of the path, when
the component is not found there. -/
theorem createCheck_eq_ok (u : UnixFilesystem) {entry name : List UInt8} {parent : UInt16} :
    createCheck u entry = some (.ok (name, parent)) ↔
      ∃ path found, splitNameDirentv6Create entry = .ok (name, path) ∧
        direntv6Dirlookup u 1 path = some found ∧ 0 ≤ found ∧ parent = UInt16.ofNat found.toNat ∧
        direntv6Dirlookup u parent name = some errNoSuchFile := by
  rw [createCheck]
  constructor
  · intro passed
    split at passed
    · cases passed
    · rename_i relativeName absoluteName cut
      split at passed
      · cases passed
      · rename_i found first
        split at passed
        · cases passed
        · rename_i positive
          split at passed
          · cases passed
          · rename_i child second
            split at passed
            · split at passed <;> cases passed
            · rename_i absent
              rw [not_not.mp absent] at second
              cases passed
              exact ⟨_, found, cut, first, Int.not_lt.mp positive, rfl, second⟩
  · rintro ⟨path, found, cut, first, positive, rfl, second⟩
    simp only [cut, first, if_neg (Int.not_lt.mpr positive), second, ne_eq, not_true, if_false]

/-- The check refuses a component that is found. -/
theorem createCheck_of_found (u : UnixFilesystem) {entry name path : List UInt8}
    {found child : Int} (cut : splitNameDirentv6Create entry = .ok (name, path))
    (first : direntv6Dirlookup u 1 path = some found) (there : ¬found < 0)
    (second : direntv6Dirlookup u (UInt16.ofNat found.toNat) name = some child)
    (positive : 0 ≤ child) : createCheck u entry = some (.error errFilenameAlreadyExists) := by
  have other : child ≠ errNoSuchFile := by
    unfold errNoSuchFile
    omega
  rw [createCheck, cut]
  simp only [first, if_neg there, second, if_pos other]
  exact if_pos positive

/-- `direntv6_create` reaches `create_dirent`: its check passes, and then it calls it and returns
what it returns (`direntv6Create_eq`). -/
def ReachesCreateDirent (u : UnixFilesystem) (entry : List UInt8) : Prop :=
  ∃ name parent, createCheck u entry = some (.ok (name, parent))

/-- Lookups of a directory and, when it is found, of a name in it. -/
def lookupTwice (u : UnixFilesystem) (inr : UInt16) (path name : List UInt8) : Option Int :=
  match direntv6Dirlookup u inr path with
  | none => none
  | some parent =>
    if parent < 0 then some parent else direntv6Dirlookup u (UInt16.ofNat parent.toNat) name

section Check

variable (u : UnixFilesystem) {entry path name : List UInt8} (splits : Splits entry path name)

include splits

/-- The lookup of a path that does not end in a slash is that of its directory and its last
component. -/
theorem direntv6Dirlookup_split (inr : UInt16) (last : entry.getLast? ≠ some pathToken) :
    direntv6Dirlookup u inr entry = lookupTwice u inr path name := by
  obtain ⟨slashes, rfl, same, apart⟩ := splits.parts
  have whole := (trailing_eq_zero_iff pathToken _).mpr last
  have before := (trailing_eq_zero_iff pathToken _).mpr splits.path
  have plain := trailing_name pathToken splits.name
  rw [direntv6Dirlookup_eq, components_run pathToken same apart, walk_append, whole, lookupTwice,
    direntv6Dirlookup_eq, before]
  cases step : walk (lookupName u) inr (components pathToken path) with
  | none => rfl
  | some result =>
    cases result with
    | error code => exact (if_pos (walk_error u inr step)).symm
    | ok parent =>
      simp only [Option.map_some, lookupCode_zero, walkCode]
      rw [if_neg (by omega), Int.toNat_natCast, UInt16.ofNat_toNat, direntv6Dirlookup_eq, plain]

/-- A component without slashes that is empty stays in its directory. -/
theorem name_nil_of_last (last : entry = [] ∨ entry.getLast? = some pathToken) : name = [] := by
  obtain ⟨slashes, rfl, -, -⟩ := splits.parts
  by_contra nonempty
  rcases last with empty | ends
  · exact nonempty (List.append_eq_nil_iff.mp empty).2
  · rw [List.getLast?_append_of_ne_nil _ nonempty] at ends
    exact splits.name (List.mem_of_getLast? ends)

end Check

/-- `direntv6_create` returns the code of its check, and changes nothing, or goes on with
`create_dirent`. The split reads inside the path, fails exactly when the last component is too long,
and cuts the path at its last run of slashes. For a path that does not end in a slash, the lookup is
that of the directory and then of the component; so `create_dirent` is reached exactly when the
directory exists and the path does not, and an existing path is refused. For other paths it is never
reached. -/
theorem createCheck_agrees (u : UnixFilesystem) (entry : List UInt8) :
    (∀ mode, direntv6Create u entry mode =
      match createCheck u entry with
      | none => none
      | some (.error code) => some (code, u)
      | some (.ok (relativeName, inrParent)) => createDirent u mode relativeName inrParent) ∧
    splitNameBytes entry = some (splitNameDirentv6Create entry) ∧
    ((∃ code, splitNameDirentv6Create entry = .error code) ↔ NameTooLong entry) ∧
    (∀ name path, splitNameDirentv6Create entry = .ok (name, path) →
      Splits entry path name ∧ (entry.getLast? ≠ some pathToken →
        direntv6Dirlookup u 1 entry = lookupTwice u 1 path name ∧
        (ReachesCreateDirent u entry ↔
          (∃ parent, 0 ≤ parent ∧ direntv6Dirlookup u 1 path = some parent) ∧
            direntv6Dirlookup u 1 entry = some errNoSuchFile) ∧
        ∀ inr, 0 ≤ inr → direntv6Dirlookup u 1 entry = some inr → ∀ mode,
          direntv6Create u entry mode = some (errFilenameAlreadyExists, u))) ∧
    (entry = [] ∨ entry.getLast? = some pathToken → ¬ReachesCreateDirent u entry) := by
  obtain ⟨fails, parts⟩ := splitNameDirentv6Create_spec entry
  refine ⟨direntv6Create_eq u entry, splitNameBytes_eq entry, fails,
    fun name path split => ⟨parts name path split, ?_⟩, ?_⟩
  · intro last
    have whole := direntv6Dirlookup_split u (parts name path split) 1 last
    refine ⟨whole, ?_, ?_⟩
    · rw [whole, lookupTwice]
      constructor
      · rintro ⟨name', parent, reached⟩
        obtain ⟨path', found, split', first, positive, rfl, second⟩ :=
          (createCheck_eq_ok u).mp reached
        rw [split] at split'
        cases split'
        refine ⟨⟨found, positive, first⟩, ?_⟩
        rw [first]
        simp only [if_neg (Int.not_lt.mpr positive), second]
      · rintro ⟨⟨found, positive, first⟩, second⟩
        rw [first] at second
        simp only [if_neg (Int.not_lt.mpr positive)] at second
        exact ⟨name, _,
          (createCheck_eq_ok u).mpr ⟨path, found, split, first, positive, rfl, second⟩⟩
    · intro inr positive found mode
      rw [whole, lookupTwice] at found
      cases first : direntv6Dirlookup u 1 path with
      | none =>
        rw [first] at found
        cases found
      | some parent =>
        rw [first] at found
        simp only at found
        split at found
        · rename_i negative
          cases found
          omega
        · rename_i there
          have refused := createCheck_of_found u split first there found positive
          rw [direntv6Create_eq, refused]
  · rintro last ⟨name, parent, reached⟩
    obtain ⟨path, found, split, -, -, -, second⟩ := (createCheck_eq_ok u).mp reached
    rw [name_nil_of_last (parts name path split) last] at second
    -- the empty name is found in every directory
    have stays : direntv6Dirlookup u parent [] = some (parent.toNat : Int) := rfl
    rw [stays, Option.some.injEq] at second
    exact absurd second (by unfold errNoSuchFile; omega)

end U6fs
