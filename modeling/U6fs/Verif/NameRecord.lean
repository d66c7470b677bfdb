import U6fs.Verif.Enumeration
import U6fs.Verif.Lookup

/-!
# The record of a name

`create_dirent` copies a name with `strcpy` into the 14 bytes at the end of a record,
`direntv6_readdir` copies these 14 bytes with `strncpy` and adds a NUL, and
`direntv6_dirlookup_core` compares what it gets with `strcmp`. The three agree on every name of 1
to 14 bytes, but the NUL that `strcpy` adds to a name of 14 bytes lands behind the record.
-/
namespace U6fs

open Lib

/-- The names that reach `create_dirent`: `split_name_direntv6_create` refuses longer ones. -/
structure Admitted (name : List UInt8) : Prop where
  /-- The name is not empty. -/
  nonempty : name ≠ []
  /-- It has at most `DIRENT_MAXLEN` bytes. -/
  short : name.length ≤ direntMaxlen
  /-- It is a string. -/
  string : 0 ∉ name
  /-- It has no slash. -/
  plain : pathToken ∉ name

/-- What `strcpy(mydirentv6.d_name, name)` stores in the memory of the record, and where: the name
and its NUL, from the field `d_name` on. -/
def strcpyStores (name : List UInt8) : List (Nat × UInt8) :=
  (name ++ [0]).mapIdx fun i byte => (Codec.u16.width + i, byte)

/-- The memory of `mydirentv6`: it is cleared, and the inode number and the name are stored. -/
def direntMemory (inumber : UInt16) (name : List UInt8) : Block direntCodec.width :=
  (Block.ofBytes _ (Codec.u16.encode inumber)).splice Codec.u16.width (name ++ [0])

/-- The buffer of a caller of `direntv6_readdir` after `strncpy` of the name of a record, which pads
it with NULs to 14 bytes, and the store of the last NUL. -/
def strncpyName (buffer : Block (direntMaxlen + 1)) (dName : Vector UInt8 direntMaxlen) :
    Block (direntMaxlen + 1) :=
  let copied := cString dName.toList
  (buffer.splice 0 (copied ++ List.replicate (direntMaxlen - copied.length) 0)).splice
    direntMaxlen [0]

/-- Record `i` of the directory `inr`, whose blocks up to there can be read, has the given bytes. -/
structure DirectoryHas (u : UnixFilesystem) (inr : UInt16) (inode : Inode) (i : Nat)
    (bytes : List UInt8) : Prop where
  /-- The inode is read. -/
  read : inodeRead u inr Inode.zero = (errNone, inode)
  /-- It is that of a directory. -/
  directory : inode.isDirectory = true
  /-- The directory has the whole record. -/
  inside : 16 * (i + 1) ≤ inodeGetsize inode
  /-- The blocks up to the record can be read. -/
  readable : ∀ k ≤ i / 32, ∃ sector, fileBlock u inode k = .ok sector
  /-- The bytes of the record. -/
  bytes : HasBytes u inode bytes (16 * i) 16

/-- The name of record `i` of a directory is another one. -/
def OtherName (u : UnixFilesystem) (inode : Inode) (name : List UInt8) (i : Nat) : Prop :=
  ∀ bytes, HasBytes u inode bytes (16 * i) 16 → (direntCodec.decode bytes).pair.2 ≠ name

/-- A name survives the record that is built for it. -/
structure NameSurvives (name : List UInt8) : Prop where
  /-- No byte outside the record is stored to. -/
  inside : ∀ store ∈ strcpyStores name, store.1 < direntCodec.width
  /-- The record is what `create_dirent` writes to the directory, whichever that is. -/
  created : ∀ u mode inrParent inr u', createDirent u mode name inrParent = some (inr, u') →
    0 ≤ inr → ∃ u₁ fv6Parent written fv6, filev6Open u₁ inrParent = .ok fv6Parent ∧
      filev6Writebytes u₁ fv6Parent (direntMemory (UInt16.ofNat inr.toNat) name).bytes =
        some (written, u', fv6)
  /-- The call of `direntv6_readdir` that comes to the record returns the number and the name. -/
  read : ∀ inumber u inr inode i,
    DirectoryHas u inr inode i (direntMemory inumber name).bytes →
      ∀ dirs d, direntv6Opendir u inr dirs = .ok d →
        (readdirCall u (readdirCalls u i d).2).1 = some (1, some (inumber, name))
  /-- The name is in the buffer of the caller then, whatever the buffer held before. -/
  buffer : ∀ inumber buffer,
    cString (strncpyName buffer (direntCodec.decode (direntMemory inumber name).bytes).dName).bytes
      = name
  /-- The record of another name reads back as another name. -/
  distinct : ∀ other, Admitted other → other ≠ name → ∀ inumber inumber',
    (direntCodec.decode (direntMemory inumber' other).bytes).pair.2 ≠
      (direntCodec.decode (direntMemory inumber name).bytes).pair.2
  /-- A lookup finds the record when no earlier one has the name. -/
  found : ∀ inumber u inr inode i,
    DirectoryHas u inr inode i (direntMemory inumber name).bytes →
      (∀ j < i, OtherName u inode name j) → direntv6Dirlookup u inr name = some inumber.toNat

section Memory

variable {name : List UInt8}

/-- The field `d_name` of a record, when the name fits without its NUL. -/
def paddedName (name : List UInt8) (fits : name.length ≤ direntMaxlen) :
    Vector UInt8 direntMaxlen :=
  ⟨(name ++ List.replicate (direntMaxlen - name.length) 0).toArray, by
    simp only [List.size_toArray, List.length_append, List.length_replicate]
    omega⟩

/-- The memory of the record is that of the structure: a NUL behind the record is lost. -/
theorem direntMemory_bytes (fits : name.length ≤ direntMaxlen) (inumber : UInt16) :
    (direntMemory inumber name).bytes =
      direntCodec.encode { dInumber := inumber, dName := paddedName name fits } := by
  have start : (Codec.u16.encode inumber).length = 2 := Codec.encode_length _ _
  have field : direntCodec.encode { dInumber := inumber, dName := paddedName name fits } =
      Codec.u16.encode inumber ++
        (name ++ List.replicate (direntMaxlen - name.length) 0).flatMap fun byte => [byte] := rfl
  have memory : (Block.ofBytes direntCodec.width (Codec.u16.encode inumber)).bytes =
      Codec.u16.encode inumber ++ List.replicate 14 0 := by
    rw [Block.ofBytes_bytes (by rw [start, direntCodec_width]; decide), start]
    rfl
  have before : (Codec.u16.encode inumber ++ List.replicate 14 0).take 2 =
      Codec.u16.encode inumber := List.take_left' start
  have behind : (Codec.u16.encode inumber ++ List.replicate 14 0).drop (2 + (name ++ [0]).length) =
      List.replicate (13 - name.length) 0 := by
    rw [← List.drop_drop, List.drop_left' start, List.drop_replicate, List.length_append]
    congr 1
    rw [List.length_singleton]
    omega
  have zeros : ([0] : List UInt8) ++ List.replicate (13 - name.length) 0 =
      List.replicate (13 - name.length + 1) 0 := rfl
  have cut : min (14 - name.length) (13 - name.length + 1) = 14 - name.length := by
    omega
  rw [field, List.flatMap_singleton', direntMemory, Block.splice]
  show List.take 16 (List.take 2 _ ++ _ ++ List.drop (2 + _) _) = _
  rw [memory, before, behind, List.append_assoc, List.append_assoc, zeros, List.take_append, start,
    List.take_of_length_le (by omega), List.take_append, List.take_of_length_le (by omega),
    List.take_replicate, cut]

/-- The record that the model builds is the memory of the structure. -/
theorem encode_strcpyDName {dName : Vector UInt8 direntMaxlen}
    (copied : strcpyDName name = some dName) (inumber : UInt16) :
    direntCodec.encode { dInumber := inumber, dName } = (direntMemory inumber name).bytes := by
  rw [strcpyDName] at copied
  split at copied
  · rename_i fits
    rw [direntMemory_bytes (Nat.le_of_lt fits)]
    cases copied
    rfl
  · cases copied

/-- The record reads back as the number and the name. -/
theorem decode_direntMemory (fits : name.length ≤ direntMaxlen) (string : 0 ∉ name)
    (inumber : UInt16) :
    (direntCodec.decode (direntMemory inumber name).bytes).pair = (inumber, name) := by
  have field : cString (paddedName name fits).toList = name := cString_padded string _
  rw [direntMemory_bytes fits, direntCodec.decode_encode, Direntv6.pair, field]

/-- The string in the buffer of a caller is the name of the record: its NULs are overwritten. -/
theorem cString_strncpyName (buffer : Block (direntMaxlen + 1))
    (dName : Vector UInt8 direntMaxlen) :
    cString (strncpyName buffer dName).bytes = cString dName.toList := by
  have string : 0 ∉ cString dName.toList := by
    intro mem
    have other := List.mem_takeWhile_imp mem
    simp at other
  have short : (cString dName.toList).length ≤ 14 := by
    have bound := (List.takeWhile_sublist (p := (· ≠ 0)) (l := dName.toList)).length_le
    rwa [Vector.length_toList] at bound
  rw [strncpyName]
  generalize cString dName.toList = text at *
  have width : (text ++ List.replicate (14 - text.length) 0).length = 14 := by
    rw [List.length_append, List.length_replicate]
    omega
  have copied : ∀ padded : List UInt8, padded.length = 14 →
      ((buffer.splice 0 padded).splice 14 [0]).bytes = padded ++ [0] := by
    intro padded length
    have first : 0 + padded.length ≤ direntMaxlen + 1 := by
      rw [length]
      decide
    have second : 14 + [(0 : UInt8)].length ≤ direntMaxlen + 1 := by
      decide
    have sized : ((buffer.splice 0 padded).splice 14 [0]).bytes.length ≤
        14 + [(0 : UInt8)].length := ((buffer.splice 0 padded).splice 14 [0]).sized.le
    have start := buffer.take_splice_end first
    have ended := (buffer.splice 0 padded).take_splice_end second
    rw [Nat.zero_add, length, List.take_zero, List.nil_append] at start
    rw [List.take_of_length_le sized, start] at ended
    exact ended
  show cString (Block.splice (Block.splice _ 0 _) 14 [0]).bytes = text
  rw [copied _ width, List.append_assoc, ← List.replicate_succ']
  exact cString_padded string _

end Memory

section Directory

variable {u : UnixFilesystem} {inode : Inode}

/-- A reader whose next record is record `i` of the directory. -/
structure AtRecord (u : UnixFilesystem) (inode : Inode) (i : Nat) (d : DirectoryReader) :
    Prop where
  /-- The cursor is inside the block. -/
  cursor : Cursor d
  /-- The inode is the one opened. -/
  same : d.fv6.iNode = inode
  /-- The next block starts behind the records that are left of this one, or the directory ends
  before the record behind them does. -/
  next : d.fv6.offset = 16 * (i + (d.last - d.cur)) ∨
    (d.fv6.offset = inodeGetsize inode ∧ inodeGetsize inode < 16 * (i + (d.last - d.cur) + 1))
  /-- The records that are left are those of the directory. -/
  records : ∀ j, d.cur + j < d.last → ∃ bytes, HasBytes u inode bytes (16 * (i + j)) 16 ∧
    direntCodec.decode bytes = direntCodec.get d.dirs (d.cur + j)

/-- The next record is returned, and the one behind it is the next one. -/
theorem AtRecord.advanced {i : Nat} {d : DirectoryReader} (stands : AtRecord u inode i d)
    (more : d.cur < d.last) : AtRecord u inode (i + 1) d.advanced := by
  have left : i + 1 + (d.last - (d.cur + 1)) = i + (d.last - d.cur) := by omega
  constructor
  case cursor => exact stands.cursor.advanced more
  case same => exact stands.same
  case next =>
    show d.fv6.offset = 16 * (i + 1 + (d.last - (d.cur + 1))) ∨ _ ∧
      inodeGetsize inode < 16 * (i + 1 + (d.last - (d.cur + 1)) + 1)
    rw [left]
    exact stands.next
  case records =>
    intro j inside
    have place : d.cur + 1 + j = d.cur + (1 + j) := Nat.add_assoc _ _ _
    have there := stands.records (1 + j) (by rw [← place]; exact inside)
    rw [← place, ← Nat.add_assoc] at there
    exact there

/-- The next block is read when no record is left. -/
theorem AtRecord.filled {i : Nat} {d : DirectoryReader} (stands : AtRecord u inode i d)
    (room : 16 * (i + 1) ≤ inodeGetsize inode) (refill : d.cur = d.last) {n : Nat}
    {bytes : List UInt8} (amount : n = min 512 (inodeGetsize inode - d.fv6.offset))
    (has : HasBytes u inode bytes d.fv6.offset n) :
    0 < n / 16 ∧ AtRecord u inode i (d.filled n bytes) := by
  have offset : d.fv6.offset = 16 * i := by
    have next := stands.next
    rw [refill, Nat.sub_self, Nat.add_zero] at next
    omega
  have length := has.1
  have first := stands.cursor.filled (n := n) bytes (by rw [stands.same]; exact amount) (by omega)
  refine ⟨by omega, ?_⟩
  constructor
  case cursor => exact ⟨Nat.zero_le _, first.high, first.place⟩
  case same => exact stands.same
  case next =>
    show d.fv6.offset + n = 16 * (i + (n / 16 - 0)) ∨ d.fv6.offset + n = _ ∧
      inodeGetsize inode < 16 * (i + (n / 16 - 0) + 1)
    omega
  case records =>
    intro j inside
    have small : 0 + j < n / 16 := inside
    have place : 16 * (i + j) = d.fv6.offset + 16 * j := by omega
    have part : HasBytes u inode (window bytes (16 * j) 16) (d.fv6.offset + 16 * j) 16 :=
      has.part (by omega)
    have fits : bytes.length ≤ sectorSize := by
      rw [sectorSize]
      omega
    refine ⟨window bytes (16 * j) 16, by rw [place]; exact part, ?_⟩
    show _ = direntCodec.get (d.dirs.splice 0 bytes) (0 + j)
    rw [Nat.zero_add, Codec.get, direntCodec_width, Nat.mul_comm j,
      d.dirs.window_splice_start fits (by omega)]

/-- A call returns the record, when its block can be read, and goes on to the next one. -/
theorem AtRecord.call {i : Nat} {d : DirectoryReader} (stands : AtRecord u inode i d)
    (room : 16 * (i + 1) ≤ inodeGetsize inode)
    (readable : ∃ sector, fileBlock u inode (i / 32) = .ok sector) :
    AtRecord u inode (i + 1) (readdirCall u d).2 ∧
      ∃ bytes, HasBytes u inode bytes (16 * i) 16 ∧
        (readdirCall u d).1 = some (1, some (direntCodec.decode bytes).pair) := by
  have first : ∀ d : DirectoryReader, AtRecord u inode i d → d.cur < d.last →
      AtRecord u inode (i + 1) d.advanced ∧ ∃ bytes, HasBytes u inode bytes (16 * i) 16 ∧
        d.record = (direntCodec.decode bytes).pair := by
    intro d stands more
    obtain ⟨bytes, has, is⟩ := stands.records 0 more
    exact ⟨stands.advanced more, bytes, has, by rw [is]; rfl⟩
  have next := stands.next
  rcases readdirCall_cases (u := u) stands.cursor with
    ⟨more, run⟩ | ⟨refill, ends, dirs, run⟩ | ⟨refill, more, code, -, dirs, failed, run⟩ |
    ⟨refill, more, n, bytes, amount, -, has, run⟩
  · obtain ⟨later, bytes, there, is⟩ := first d stands more
    rw [run, is]
    exact ⟨later, bytes, there, rfl⟩
  · rw [refill, Nat.sub_self, Nat.add_zero] at next
    rw [stands.same] at ends
    omega
  · rw [refill, Nat.sub_self, Nat.add_zero] at next
    rw [stands.same] at more failed
    have block : d.fv6.offset / 512 = i / 32 := by omega
    obtain ⟨sector, read⟩ := readable
    rw [block, read] at failed
    cases failed
  · rw [stands.same] at amount has
    obtain ⟨some, filled⟩ := stands.filled room refill amount has
    obtain ⟨later, bytes', there, is⟩ := first _ filled some
    rw [run, is]
    exact ⟨later, bytes', there, rfl⟩

/-- As many calls as there are records before a record lead to it. -/
theorem AtRecord.run {d : DirectoryReader} (start : AtRecord u inode 0 d) (i : Nat)
    (room : 16 * i ≤ inodeGetsize inode)
    (readable : ∀ k ≤ i / 32, ∃ sector, fileBlock u inode k = .ok sector) :
    AtRecord u inode i (readdirCalls u i d).2 := by
  induction i with
  | zero => exact start
  | succ i ih =>
    have before := ih (by omega) fun k inside => readable k (by omega)
    rw [readdirCalls_add, readdirCalls_one]
    exact (before.call room (readable _ (by omega))).1

/-- The scan for a name stops at the first record that has it. -/
theorem AtRecord.scan {name : List UInt8} {bytes : List UInt8} {target : Nat}
    (inside : 16 * (target + 1) ≤ inodeGetsize inode)
    (readable : ∀ k ≤ target / 32, ∃ sector, fileBlock u inode k = .ok sector)
    (there : HasBytes u inode bytes (16 * target) 16)
    (named : (direntCodec.decode bytes).pair.2 = name) (fuel : Nat) {i : Nat}
    {d : DirectoryReader} (stands : AtRecord u inode i d) (ahead : i ≤ target)
    (enough : target < fuel + i)
    (others : ∀ j, i ≤ j → j < target → OtherName u inode name j) :
    lookupScan u name fuel d = some (.ok (direntCodec.decode bytes).dInumber) := by
  induction fuel generalizing i d with
  | zero => omega
  | succ fuel ih =>
    obtain ⟨later, found, has, run⟩ := stands.call (by omega) (readable _ (by omega))
    rw [lookupScan]
    rw [readdirCall] at later run
    cases read : direntv6Readdir u d with
    | none =>
      rw [read] at run
      cases run
    | some result =>
      rw [read] at later run
      cases result with
      | done after code => cases run
      | entry after text childInr =>
        simp only [Option.some.injEq, Prod.mk.injEq, true_and] at later run
        have text' : text = (direntCodec.decode found).pair.2 := by rw [← run]
        have childInr' : childInr = (direntCodec.decode found).dInumber := by
          have number := congrArg Prod.fst run
          exact number
        rcases Nat.lt_or_eq_of_le ahead with early | rfl
        · have other : name ≠ text := by
            rw [text']
            exact fun same => others i le_rfl early found has same.symm
          simp only [if_neg other]
          exact ih later early (by omega) fun j low high => others j (by omega) high
        · have same : found = bytes := there.unique has fun _ _ _ => rfl
          rw [same] at text' childInr'
          rw [text', childInr', named]
          exact if_pos rfl

/-- The reader of a directory that was just opened. -/
theorem DirectoryHas.opened {inr : UInt16} {i : Nat} {bytes : List UInt8}
    (has : DirectoryHas u inr inode i bytes) (dirs : Sector) :
    ∃ d, direntv6Opendir u inr dirs = .ok d ∧ d.fv6.iNode = inode ∧ AtRecord u inode 0 d := by
  refine ⟨{ fv6 := { iNumber := inr, iNode := inode, offset := 0 }, dirs, cur := 0, last := 0 },
    ?_, rfl, ?_⟩
  · rw [direntv6Opendir, filev6Open, has.read]
    simp only [ne_eq, not_true_eq_false, if_false, has.directory, Bool.not_true,
      Bool.false_eq_true]
  · constructor
    case cursor => exact ⟨le_rfl, Nat.zero_le _, Nat.zero_le _, .inl rfl⟩
    case same => rfl
    case next => exact .inl rfl
    case records =>
      intro j inside
      exact absurd inside (Nat.not_lt_zero _)

/-- The call that comes to a record returns its number and its name. -/
theorem DirectoryHas.readdir {inr : UInt16} {i : Nat} {bytes : List UInt8}
    (has : DirectoryHas u inr inode i bytes) {dirs : Sector} {d : DirectoryReader}
    (opened : direntv6Opendir u inr dirs = .ok d) :
    (readdirCall u (readdirCalls u i d).2).1 =
      some (1, some (direntCodec.decode bytes).pair) := by
  have inside := has.inside
  obtain ⟨_, same, -, start⟩ := has.opened dirs
  rw [opened, Except.ok.injEq] at same
  subst same
  obtain ⟨-, found, there, run⟩ :=
    (start.run i (by omega) has.readable).call inside (has.readable _ le_rfl)
  have same : found = bytes := has.bytes.unique there fun _ _ _ => rfl
  rw [run, same]

/-- The lookup of a name finds the first record that has it. -/
theorem DirectoryHas.dirlookup {inr : UInt16} {i : Nat} {name bytes : List UInt8}
    (has : DirectoryHas u inr inode i bytes) (nonempty : name ≠ []) (plain : pathToken ∉ name)
    (named : (direntCodec.decode bytes).pair.2 = name)
    (others : ∀ j < i, OtherName u inode name j) :
    direntv6Dirlookup u inr name = some (direntCodec.decode bytes).dInumber.toNat := by
  have inside := has.inside
  obtain ⟨d, opened, same, start⟩ := has.opened (Block.fill sectorSize 0)
  have enough : i < readdirBound d + 0 := by
    rw [readdirBound, same, sectorSize, direntriesPerSector]
    omega
  have scan := start.scan inside has.readable has.bytes named (readdirBound d) (Nat.zero_le i)
    enough fun j _ below => others j below
  have step : lookupName u inr name = some (.ok (direntCodec.decode bytes).dInumber) := by
    rw [lookupName, opened]
    simp only [scan]
  rw [direntv6Dirlookup_eq, components_name pathToken plain nonempty, trailing_name pathToken plain,
    walk, step]
  rfl

end Directory

/-- What a successful `create_dirent` writes to its directory. -/
theorem createDirent_record {u u' : UnixFilesystem} {mode inrParent : UInt16} {name : List UInt8}
    {inr : Int} (run : createDirent u mode name inrParent = some (inr, u')) (done : 0 ≤ inr) :
    ∃ u₁ fv6Parent written fv6, filev6Open u₁ inrParent = .ok fv6Parent ∧
      filev6Writebytes u₁ fv6Parent (direntMemory (UInt16.ofNat inr.toNat) name).bytes =
        some (written, u', fv6) := by
  rw [createDirent] at run
  split at run
  rename_i createFileChild u₁ fv6Child created
  split at run
  · rename_i failed
    cases run
    exact absurd failed (Int.not_lt.mpr done)
  · split at run
    · cases run
    · rename_i dName copied
      split at run
      · rename_i code failed
        have unopened : direntv6Opendir u₁ inrParent (Block.fill sectorSize 0) = .error code := by
          rw [direntv6Opendir, failed]
        cases run
        exact absurd (direntv6Opendir_error unopened).1 (Int.not_lt.mpr done)
      · rename_i fv6Parent opened
        split at run
        · cases run
        · rename_i written u₂ fv6 stored
          split at run
          · rename_i failed
            cases run
            exact absurd failed (Int.not_lt.mpr done)
          · cases run
            refine ⟨u₁, fv6Parent, written, fv6, opened, ?_⟩
            rw [← encode_strcpyDName copied, Int.toNat_natCast, UInt16.ofNat_toNat]
            exact stored

/-- A name survives the record that is built for it exactly when it has less than 14 bytes. -/
theorem nameSurvives_iff {name : List UInt8} (admitted : Admitted name) :
    NameSurvives name ↔ name.length < direntMaxlen := by
  have readBack := decode_direntMemory admitted.short admitted.string
  constructor
  · intro survives
    have last : (Codec.u16.width + name.length, (0 : UInt8)) ∈ strcpyStores name := by
      rw [strcpyStores, List.mapIdx_append]
      exact List.mem_append_right _ (List.mem_singleton.mpr (by simp))
    have inside : 2 + name.length < 16 := survives.inside _ last
    rw [direntMaxlen]
    omega
  · intro fits
    constructor
    case inside =>
      intro store mem
      obtain ⟨i, small, is⟩ := List.mem_mapIdx.mp mem
      rw [List.length_append, List.length_singleton] at small
      rw [← is]
      show 2 + i < 16
      rw [direntMaxlen] at fits
      omega
    case created => exact fun u mode inrParent inr u' run done => createDirent_record run done
    case read =>
      intro inumber u inr inode i has dirs d opened
      rw [has.readdir opened, readBack]
    case buffer =>
      intro inumber buffer
      have parts := readBack inumber
      rw [Direntv6.pair, Prod.mk.injEq] at parts
      rw [cString_strncpyName]
      exact parts.2
    case distinct =>
      intro other admitted' different inumber inumber'
      rw [readBack, decode_direntMemory admitted'.short admitted'.string]
      exact different
    case found =>
      intro inumber u inr inode i has others
      have named := congrArg Prod.snd (readBack inumber)
      have number : (direntCodec.decode (direntMemory inumber name).bytes).dInumber = inumber :=
        congrArg Prod.fst (readBack inumber)
      rw [has.dirlookup admitted.nonempty admitted.plain named others, number]

/-- A name of 14 bytes. -/
def longestName : List UInt8 := List.replicate 14 97

set_option maxRecDepth 10000 in
/-- `direntv6_create` takes the path of a name of 14 bytes apart, finds that the root of a
well-formed volume has no such name, and stores a NUL behind the record. -/
theorem nameSurvives_longest :
    Admitted longestName ∧ (16, 0) ∈ strcpyStores longestName ∧ ¬NameSurvives longestName ∧
      ∃ u, mountv6 emptyVolume = .ok u ∧
        splitNameDirentv6Create (pathToken :: longestName) = .ok (longestName, []) ∧
        direntv6Dirlookup u 1 longestName = some errNoSuchFile ∧
        direntv6Create u (pathToken :: longestName) 0 = none := by
  have stored : ((16, 0) : Nat × UInt8) ∈ strcpyStores longestName := by
    decide
  refine ⟨⟨by decide, by decide, by decide, by decide⟩, stored, fun survives => ?_,
    mountv6_check (by decide +kernel)⟩
  exact absurd (survives.inside _ stored) (by decide)

set_option maxRecDepth 10000 in
/-- The name `r` survives, and so it is found in the root that has a record for it. -/
theorem nameSurvives_single :
    NameSurvives [114] ∧
      ∃ u, mountv6 singleVolume = .ok u ∧ direntv6Dirlookup u 1 [114] = some 1 := by
  have survives : NameSurvives [114] :=
    (nameSurvives_iff ⟨by decide, by decide, by decide, by decide⟩).mpr (by decide)
  obtain ⟨u, mounted, read, block, bytes⟩ := mountv6_check (f := singleVolume)
    (P := fun u => inodeRead u 1 Inode.zero = (errNone, singleDirectory) ∧
      (fileBlock u singleDirectory 0).toOption.isSome = true ∧
      ∀ j < direntCodec.width, (direntMemory 1 [114]).bytes[j]? = fileByte u singleDirectory j)
    (by decide +kernel)
  have has : DirectoryHas u 1 singleDirectory 0 (direntMemory 1 [114]).bytes := by
    refine ⟨read, by decide, by decide, fun k first => ?_, by decide, fun j small => ?_⟩
    · obtain rfl : k = 0 := by omega
      cases sector : fileBlock u singleDirectory 0 with
      | error code =>
        rw [sector] at block
        cases block
      | ok data => exact ⟨data, rfl⟩
    · rw [Nat.mul_zero, Nat.zero_add]
      exact bytes j small
  exact ⟨survives, u, mounted, survives.found 1 u 1 _ 0 has fun j none => absurd none (by omega)⟩

end U6fs
