import U6fs.Verif.DirectFile

/-!
# What an append appends

The rounds of an append take the slot that the new size selects, so a round that fills its sector
leaves the slot of that sector as it was and takes the one behind it, and all rounds write to the
same sector. The bytes of a buffer are read back behind those of the file when they fill up its
last sector and take less than one other; or take a whole one, if the slot names that sector
already. At eight sectors the file is read through its first sector, as an indirect one.
-/
namespace U6fs

open Lib

/-- The inode after some rounds that append `left` bytes behind `size` ones in sector `x`. -/
def Inode.placedAll (x : Nat) : Nat → Inode → Nat → Nat → Inode
  | 0, inode, _, _ => inode
  | rounds + 1, inode, size, left =>
    placedAll x rounds (inode.placed (size + min 512 left) x) (size + min 512 left)
      (left - min 512 left)

/-- The slot of the new size names the sector; the others are kept. -/
theorem placed_slot (inode : Inode) {size x : Nat} (word : (UInt16.ofNat x).toNat = x)
    (small : size < 4096) (k : Nat) :
    (inode.placed size x).slot k = if k = size / 512 then x else inode.slot k := by
  rw [Inode.slot, placed_addr _ _ _ small, Inode.slot]
  split
  · exact word
  · rfl

/-- The rounds take the slots from the one of the first new size on. -/
theorem placedAll_slot {x k : Nat} (rounds : Nat) :
    ∀ (inode : Inode) (size left : Nat), size + left < 4096 → k < (size + min 512 left) / 512 →
      (inode.placedAll x rounds size left).slot k = inode.slot k := by
  induction rounds with
  | zero => exact fun inode size left _ _ => rfl
  | succ rounds ih =>
    intro inode size left below early
    rw [Inode.placedAll, ih _ _ _ (by omega) (by omega), Inode.slot, placed_addr _ _ _ (by omega),
      if_neg (by omega), Inode.slot]

/-- The mode is kept. -/
theorem placedAll_iMode (x rounds : Nat) :
    ∀ (inode : Inode) (size left : Nat),
      (inode.placedAll x rounds size left).iMode = inode.iMode := by
  induction rounds with
  | zero => exact fun _ _ _ => rfl
  | succ rounds ih =>
    intro inode size left
    rw [Inode.placedAll, ih, placed_iMode]

/-- The rounds that append everything store the new size. -/
theorem placedAll_size (x rounds : Nat) :
    ∀ (inode : Inode) (size left : Nat), rounds = (left + 511) / 512 → 0 < left →
      size + left < 4096 → inodeGetsize (inode.placedAll x rounds size left) = size + left := by
  induction rounds with
  | zero =>
    intro inode size left enough more
    omega
  | succ rounds ih =>
    intro inode size left enough more below
    rw [Inode.placedAll]
    by_cases last : left ≤ 512
    · have none : rounds = 0 := by
        omega
      rw [none, Inode.placedAll, inodeGetsize_placed _ _ _ (by omega), Nat.min_eq_right last]
    · rw [ih _ _ _ (by omega) (by omega) (by omega)]
      omega

/-- What the sector of the rounds that append `left` bytes of a buffer holds after the last of
them: the bytes of the last round, and behind them what the stack held. -/
def lastContent (u : UnixFilesystem) (buf : List UInt8) (left written : Nat) : Sector :=
  (u.f.host.stack (u.f.time + 2 * ((left - 1) / 512))).splice 0
    (window buf (written + 512 * ((left - 1) / 512)) (left - 512 * ((left - 1) / 512)))

section Round

variable {u : UnixFilesystem} {fv6 : Filev6} {x : Nat} {fbm : BmblockArray}
  (search : bmFindNext u.fbm = ((x : Int), fbm))

include search

/-- The sector that a search finds is free. -/
theorem Geometry.found_free (geometry : Geometry u) :
    bmGet u.fbm x = 0 ∧ (UInt16.ofNat x).toNat = x := by
  have bound := u.s.sFsize.toNat_lt
  obtain ⟨-, ⟨y, clear, value⟩ | ⟨value, -⟩⟩ := bmFindNext_spec search
  · have data := (geometry.data_of_free clear).2
    rw [toInt32_of_small (by omega), Int.natCast_inj] at value
    rw [value, UInt16.toNat_ofNat']
    exact ⟨clear, Nat.mod_eq_of_lt (by omega)⟩
  · have negative : errBitmapFull < 0 := by decide
    omega

/-- A round of an append to a file of the table writes the sector and then the inode. -/
theorem Geometry.round (geometry : Geometry u)
    (range : inodeOutOfRange u.s fv6.iNumber = false) (chunk : List UInt8) (size : Nat) :
    ∃ v, roundStore u fbm x fv6 chunk size = (errNone, v) ∧ v.fbm = fbm ∧ Advanced u v 2 ∧
      Rewrites u v x ((u.f.host.stack u.f.time).splice 0 chunk) fv6.iNumber.toNat
        (fv6.iNode.placed size x) := by
  obtain ⟨free, -⟩ := geometry.found_free search
  have same := (bmFindNext_spec search).1
  obtain ⟨f₁, f, written, stored, advanced, rewrites⟩ := (geometry.searched same).put_rewrites
    (geometry.data_of_free free) .filev6Writesector
    ((u.f.host.stack u.f.time).splice 0 chunk) range (fv6.iNode.placed size x)
  have disk : roundDisk u x chunk = f₁ := congrArg Prod.snd written
  refine ⟨{ u with f, fbm }, ?_, rfl, ⟨rfl, advanced.host, advanced.time⟩, rewrites.geometry, rfl,
    rewrites.data, rewrites.inside, rewrites.inodeAt, rewrites.length, rewrites.sectors⟩
  rw [roundStore, disk]
  exact stored

end Round

/-- The rounds of an append that stays below 4096 bytes write one sector and the inode. -/
theorem writebytesLoop_rewrites {inodeSize : Nat} {buf : List UInt8} {x : Nat} (fuel : Nat) :
    ∀ (u : UnixFilesystem) (fv6 : Filev6) (left written : Nat), left ≤ fuel → 0 < left →
      written + left ≤ buf.length → inodeSize + written + left < 4096 → Geometry u →
      inodeOutOfRange u.s fv6.iNumber = false → (bmFindNext u.fbm).1 = x →
      ∃ u', writebytesLoop inodeSize buf fuel u fv6 left written = some (errNone, u', { fv6 with
          iNode := fv6.iNode.placedAll x ((left + 511) / 512) (inodeSize + written) left }) ∧
        Rewrites u u' x (lastContent u buf left written) fv6.iNumber.toNat
          (fv6.iNode.placedAll x ((left + 511) / 512) (inodeSize + written) left) := by
  induction fuel with
  | zero =>
    intro u fv6 left written enough more
    omega
  | succ fuel ih =>
    intro u fv6 left written enough more inBuf below geometry range found
    have search : bmFindNext u.fbm = ((x : Int), (bmFindNext u.fbm).2) := Prod.ext found rfl
    obtain ⟨v, stored, bitmap, advanced, rewrites⟩ := geometry.round search range
      (window buf written (min 512 left)) (inodeSize + written + min 512 left)
    rw [writebytesLoop_begins more inBuf (by omega) search (geometry.works.seekWrite u.f.time x),
      if_pos (by omega), stored, if_neg (Int.lt_irrefl 0)]
    obtain ⟨rounds, count⟩ : ∃ rounds, (left + 511) / 512 = rounds + 1 :=
      Nat.exists_eq_succ_of_ne_zero (by omega)
    rw [count, Inode.placedAll]
    by_cases last : left ≤ 512
    · have none : rounds = 0 := by
        omega
      have first : (left - 1) / 512 = 0 := by
        omega
      rw [lastContent, first, none, Inode.placedAll]
      rw [Nat.min_eq_right last] at rewrites ⊢
      rw [Nat.sub_self, writebytesLoop_nothing]
      exact ⟨v, rfl, rewrites⟩
    · have whole : min 512 left = 512 := by
        omega
      have later : (left - 1) / 512 = (left - 512 - 1) / 512 + 1 := by
        omega
      have again : (bmFindNext v.fbm).1 = x := by
        rw [bitmap, bmFindNext_again search (Int.natCast_nonneg x)]
      rw [whole] at rewrites ⊢
      obtain ⟨u', run, rest⟩ := ih v
        { fv6 with iNode := fv6.iNode.placed (inodeSize + written + 512) x } (left - 512)
        (written + 512) (by omega) (by omega) (by omega) (by omega) rewrites.geometry
        (by rw [advanced.s]; exact range) again
      have rounds' : (left - 512 + 511) / 512 = rounds := by
        omega
      have content : lastContent v buf (left - 512) (written + 512) =
          lastContent u buf left written := by
        have time : ∀ k, u.f.time + 2 + 2 * k = u.f.time + 2 * (k + 1) := by
          intro k
          omega
        have start : ∀ k, written + 512 + 512 * k = written + 512 * (k + 1) := by
          intro k
          omega
        have rest : ∀ k, left - 512 - 512 * k = left - 512 * (k + 1) := by
          intro k
          omega
        rw [lastContent, lastContent, later, advanced.host, advanced.time, time, start, rest]
      rw [rounds', ← Nat.add_assoc] at run rest
      rw [content] at rest
      exact ⟨u', run, rewrites.trans rest⟩

/-- An append does what it is for: it returns `ERR_NONE`, the inode on the disk has the new size,
and the file, opened again, is read to its end with the buffer behind its content. -/
def AppendReadsBack (u : UnixFilesystem) (fv6 : Filev6) (buf : List UInt8) : Prop :=
  ∃ u' fv6', filev6Writebytes u fv6 buf = some (errNone, u', fv6') ∧
    (∃ inode, u'.f.inodeAt u'.s fv6.iNumber.toNat = some inode ∧
      inodeGetsize inode = inodeGetsize fv6.iNode + buf.length) ∧
    readFile u' fv6.iNumber = some (u.f.contents fv6.iNode ++ buf, errNone)

section Lengths

variable {size len : Nat}

/-- Data that takes no sector goes into the last one. -/
theorem lengths_within (within : ¬TakesSector size len) (short : len < 2 ^ 31) :
    residualLength size len = len ∧ appendLeft size len = 0 := by
  rw [TakesSector] at within
  rw [appendLeft, toInt32_of_small short, residualLength]
  constructor
  · split <;> omega
  · split <;> omega

/-- Data that takes a sector fills up the last one. -/
theorem lengths_behind (takes : TakesSector size len) (short : len < 2 ^ 31) :
    residualLength size len = (512 - size % 512) % 512 ∧
      appendLeft size len = len - (512 - size % 512) % 512 := by
  rw [TakesSector] at takes
  rw [appendLeft, toInt32_of_small short, residualLength]
  constructor
  · split <;> omega
  · split <;> omega

end Lengths

section Run

variable {u v u' : UnixFilesystem} {fv6 : Filev6} {buf : List UInt8} {inode inode' : Inode}

/-- What is filled up depends on the bytes for the last sector only. -/
theorem filledUp_congr {buf' : List UInt8} (length : buf.length = buf'.length)
    (same : buf.take (residualLength (inodeGetsize fv6.iNode) buf.length) =
      buf'.take (residualLength (inodeGetsize fv6.iNode) buf.length)) :
    filledUp u fv6 buf = filledUp u fv6 buf' := by
  rw [filledUp, filledUp, ← length]
  by_cases whole : inodeGetsize fv6.iNode % 512 = 0
  · rw [if_pos whole, if_pos whole]
  · rw [residualLength, if_neg whole] at same
    rw [if_neg whole, if_neg whole, same]

/-- An append that comes to an end with the new size. -/
theorem appendReadsBack_iff
    (run : filev6Writebytes u fv6 buf = some (errNone, u', { fv6 with iNode := inode' }))
    (stored : u'.f.inodeAt u'.s fv6.iNumber.toNat = some inode')
    (size : inodeGetsize inode' = inodeGetsize fv6.iNode + buf.length) :
    AppendReadsBack u fv6 buf ↔
      readFile u' fv6.iNumber = some (u.f.contents fv6.iNode ++ buf, errNone) := by
  constructor
  · rintro ⟨u'', fv6'', again, -, read⟩
    rw [run, Option.some.injEq, Prod.mk.injEq, Prod.mk.injEq] at again
    rw [again.2.1]
    exact read
  · intro read
    exact ⟨u', _, run, ⟨inode', stored, size⟩, read⟩

/-- An append without a new sector ends when the last one is filled up. -/
theorem filev6Writebytes_within (few : inodeGetsize fv6.iNode ≤ 4096)
    (within : ¬TakesSector (inodeGetsize fv6.iNode) buf.length) (short : buf.length < 2 ^ 31)
    (filled : filledUp u fv6 buf = (v, { fv6 with iNode := inode })) :
    filev6Writebytes u fv6 buf = some (errNone, v, { fv6 with iNode := inode }) := by
  rw [filev6Writebytes_rounds u buf (by omega) (countsDown_of_short short), filled,
    (lengths_within within short).2]
  exact writebytesLoop_nothing ..

/-- An append with new sectors that stays below 4096 bytes goes on with the rounds. -/
theorem filev6Writebytes_behind (takes : TakesSector (inodeGetsize fv6.iNode) buf.length)
    (below : inodeGetsize fv6.iNode + buf.length < 4096)
    (filled : filledUp u fv6 buf = (v, { fv6 with iNode := inode })) (geometry : Geometry v)
    (range : inodeOutOfRange v.s fv6.iNumber = false) {x : Nat} (found : (bmFindNext v.fbm).1 = x)
    {room left : Nat} (full : (512 - inodeGetsize fv6.iNode % 512) % 512 = room)
    (rest : buf.length - room = left) :
    ∃ u', filev6Writebytes u fv6 buf = some (errNone, u', { fv6 with
        iNode := inode.placedAll x ((left + 511) / 512) (inodeGetsize fv6.iNode + room) left }) ∧
      Rewrites v u' x (lastContent v buf left room) fv6.iNumber.toNat
        (inode.placedAll x ((left + 511) / 512) (inodeGetsize fv6.iNode + room) left) := by
  obtain ⟨first, behind⟩ := lengths_behind takes (by omega)
  rw [TakesSector, full] at takes
  rw [filev6Writebytes_rounds u buf (by omega) (countsDown_of_short (by omega)), filled, first,
    behind, full, rest]
  exact writebytesLoop_rewrites buf.length v { fv6 with iNode := inode } left room (by omega)
    (by omega) (by omega) (by omega) geometry range found

end Run

/-- Below 4096 bytes, the bytes of an append are read back when they fill up the last sector and
less than one other, or one other whose number its slot has already. -/
def SlotsCover (u : UnixFilesystem) (inode : Inode) (len : Nat) : Prop :=
  len - (512 - inodeGetsize inode % 512) % 512 < 512 ∨
    (len - (512 - inodeGetsize inode % 512) % 512 = 512 ∧
      (bmFindNext u.fbm).1 = inode.slot (sectorCount inode))

/-- A buffer of zeros with one other byte at a position. -/
def probe (len pos : Nat) (byte : UInt8) : List UInt8 := (List.replicate len 0).set pos byte

/-- A search finds a sector when one is free. -/
theorem Geometry.finds {u : UnixFilesystem} (geometry : Geometry u)
    (free : ∃ x, bmGet u.fbm x = 0) : ∃ x : Nat, (bmFindNext u.fbm).1 = x := by
  obtain ⟨y, clear⟩ := free
  have bound := u.s.sFsize.toNat_lt
  obtain ⟨-, ⟨x, found, value⟩ | ⟨-, full⟩⟩ :=
    bmFindNext_spec (Prod.mk.eta (p := bmFindNext u.fbm)).symm
  · have data := (geometry.data_of_free found).2
    rw [toInt32_of_small (by omega)] at value
    exact ⟨x, value⟩
  · exact absurd clear (full y)

section Probe

variable {len pos : Nat}

/-- Its length. -/
theorem probe_length (byte : UInt8) : (probe len pos byte).length = len := by
  rw [probe, List.length_set, List.length_replicate]

/-- The byte at the position. -/
theorem probe_here (inside : pos < len) (byte : UInt8) :
    (probe len pos byte)[pos]? = some byte := by
  rw [probe, List.getElem?_set_self]
  rw [List.length_replicate]
  exact inside

/-- The bytes elsewhere do not depend on it. -/
theorem probe_other {i : Nat} (other : pos ≠ i) (byte : UInt8) :
    (probe len pos byte)[i]? = (probe len pos 0)[i]? := by
  rw [probe, probe, List.getElem?_set_ne other, List.getElem?_set_ne other]

/-- Its first bytes do not depend on the byte. -/
theorem take_probe (byte : UInt8) : (probe len pos byte).take pos = (probe len pos 0).take pos := by
  rw [probe, probe, List.take_set_of_le le_rfl, List.take_set_of_le le_rfl]

/-- Nor does what the last round writes, if it is not the round of that byte. -/
theorem lastContent_probe (u : UnixFilesystem) {left : Nat} (more : 512 < left) (byte : UInt8) :
    lastContent u (probe len pos byte) left pos = lastContent u (probe len pos 0) left pos := by
  rw [lastContent, lastContent]
  congr 1
  apply List.ext_getElem?
  intro i
  rw [window_getElem?, window_getElem?, probe_other (by omega)]

/-- What is copied into a sector varies with the byte. -/
theorem splice_varies (old : Sector) (more : 0 < len) {off : Nat} (room : off + len ≤ 512)
    (content : Option Sector) : ¬∀ byte, some (old.splice off (probe len 0 byte)) = content := by
  intro same
  have equal := (same 0).trans (same 1).symm
  have here : ∀ byte, (old.splice off (probe len 0 byte)).bytes[off]? = some byte := by
    intro byte
    have length : (probe len 0 byte).length = len := probe_length byte
    rw [Block.splice_getElem? _ (by rw [length]; exact room), if_pos (by omega), Nat.sub_self,
      probe_here more]
  have zero := here 0
  rw [Option.some.inj equal, here 1] at zero
  cases zero

end Probe

section Below

variable {u : UnixFilesystem} {fv6 : Filev6} (file : DirectFile u fv6.iNumber fv6.iNode) {len : Nat}

include file

/-- An append without a new sector is read back. -/
theorem DirectFile.within (within : ¬TakesSector (inodeGetsize fv6.iNode) len)
    (below : inodeGetsize fv6.iNode + len < 4096) {buf : List UInt8} (length : buf.length = len) :
    AppendReadsBack u fv6 buf := by
  have few := file.few
  rw [← length] at within below
  obtain ⟨content, holds⟩ := file.contents
  obtain ⟨v, inode, filled, -, -, after, -, size, held⟩ := file.filledUp buf
  obtain ⟨whole, -⟩ := lengths_within within (by omega)
  rw [whole] at size held
  have run := filev6Writebytes_within few within (by omega) filled
  have bytes := held _ content holds
  rw [List.take_length] at bytes
  rw [appendReadsBack_iff run after.allocated.1 size]
  rw [readFile_slots_iff after.geometry.works after.allocated (by omega)
    (by rw [List.length_append, content, size])]
  exact bytes

section Rounds

variable {x room left : Nat} (found : (bmFindNext u.fbm).1 = x)
  (full : (512 - inodeGetsize fv6.iNode % 512) % 512 = room) (rest : len - room = left)
  (more : 0 < left) (below : inodeGetsize fv6.iNode + len < 4096)

include found full rest more below

/-- An append with new sectors is read back when the slots name its bytes after the rounds. -/
theorem DirectFile.behind_iff {v : UnixFilesystem} {inode : Inode}
    (after : DirectFile v fv6.iNumber inode) (bitmap : v.fbm = u.fbm) {buf : List UInt8}
    (length : buf.length = len)
    (filled : U6fs.filledUp u fv6 buf = (v, { fv6 with iNode := inode })) :
    ∃ u', Rewrites v u' x (lastContent v buf left room) fv6.iNumber.toNat
        (inode.placedAll x ((left + 511) / 512) (inodeGetsize fv6.iNode + room) left) ∧
      (AppendReadsBack u fv6 buf ↔ Holds u'.f
        (inode.placedAll x ((left + 511) / 512) (inodeGetsize fv6.iNode + room) left)
        (u.f.contents fv6.iNode ++ buf)) := by
  have few := file.few
  obtain ⟨content, -⟩ := file.contents
  have takes : TakesSector (inodeGetsize fv6.iNode) buf.length := by
    rw [TakesSector]
    omega
  have behind : buf.length - room = left := by
    rw [length]
    exact rest
  obtain ⟨u', run, rewrites⟩ := filev6Writebytes_behind takes (by omega) filled after.geometry
    after.allocated.inRange (by rw [bitmap]; exact found) full behind
  have size := placedAll_size x ((left + 511) / 512) inode (inodeGetsize fv6.iNode + room) left rfl
    more (by omega)
  have mode := placedAll_iMode x ((left + 511) / 512) inode (inodeGetsize fv6.iNode + room) left
  generalize inode.placedAll x ((left + 511) / 512) (inodeGetsize fv6.iNode + room) left = inode'
    at *
  have used : inode'.isAllocated = true := (isAllocated_congr mode).trans after.allocated.2
  have grown : inodeGetsize inode' = inodeGetsize fv6.iNode + buf.length := by
    omega
  have bytes : (u.f.contents fv6.iNode ++ buf).length = inodeGetsize inode' := by
    rw [List.length_append, content, grown]
  refine ⟨u', rewrites, ?_⟩
  rw [appendReadsBack_iff run rewrites.inodeAt grown]
  exact readFile_slots_iff rewrites.geometry.works ⟨rewrites.inodeAt, used⟩ (by omega) bytes

/-- The only round of an append is read back when the slot behind the file names its sector. -/
theorem DirectFile.readsBack_one
    (one : left < 512 ∨ (left = 512 ∧ fv6.iNode.slot (sectorCount fv6.iNode) = x))
    {buf : List UInt8} (length : buf.length = len) : AppendReadsBack u fv6 buf := by
  have few := file.few
  have search : bmFindNext u.fbm = ((x : Int), (bmFindNext u.fbm).2) := Prod.ext found rfl
  obtain ⟨free, word⟩ := file.geometry.found_free search
  obtain ⟨content, holds⟩ := file.contents
  have takes : TakesSector (inodeGetsize fv6.iNode) buf.length := by
    rw [TakesSector]
    omega
  obtain ⟨first, -⟩ := lengths_behind takes (by omega)
  rw [full] at first
  obtain ⟨v, inode, filled, s, bitmap, after, slots, size, held⟩ := file.filledUp buf
  rw [first] at size held
  obtain ⟨u', rewrites, reads⟩ :=
    file.behind_iff found full rest more below after bitmap length filled
  have bytes := held _ content holds
  have split : u.f.contents fv6.iNode ++ buf =
      u.f.contents fv6.iNode ++ buf.take room ++ buf.drop room := by
    rw [List.append_assoc, List.take_append_drop]
  have rounds : (left + 511) / 512 = 1 := by
    omega
  have only : (left - 1) / 512 = 0 := by
    omega
  have window : Lib.window buf (room + 512 * 0) (left - 512 * 0) = buf.drop room := by
    apply List.take_of_length_le
    rw [List.length_drop]
    omega
  have chunk : (buf.drop room).length = left := by
    rw [List.length_drop]
    omega
  have prior : (u.f.contents fv6.iNode ++ buf.take room).length = inodeGetsize inode := by
    rw [List.length_append, content, List.length_take, size]
    omega
  have whole : inodeGetsize inode = 512 * sectorCount inode := by
    rw [size, sectorCount, size]
    omega
  have behind : sectorCount inode = sectorCount fv6.iNode := by
    rw [sectorCount, sectorCount, size]
    omega
  have least : min 512 left = left := by
    omega
  have named := placed_slot inode word
    (by omega : inodeGetsize fv6.iNode + room + left < 4096)
  rw [lastContent, only, window, rounds, Inode.placedAll, Inode.placedAll, least] at rewrites
  rw [rounds, Inode.placedAll, Inode.placedAll, least, split] at reads
  rw [reads]
  apply bytes.put after (prior.trans whole) rewrites
  · rw [bitmap]
    exact free
  · omega
  · intro k inside
    rw [named, if_neg (by omega)]
  · rw [named]
    rcases one with less | ⟨eq, slot⟩
    · rw [if_pos (by omega)]
    · rw [if_neg (by omega), behind, slots, slot]

/-- If its slot names another sector, or there are more rounds, some bytes are lost: the first byte
behind the last sector is in none that the rounds leave. -/
theorem DirectFile.losesBytes (whole : 512 ≤ left)
    (other : left = 512 → fv6.iNode.slot (sectorCount fv6.iNode) ≠ x) :
    ∃ buf : List UInt8, buf.length = len ∧ ¬AppendReadsBack u fv6 buf := by
  have few := file.few
  obtain ⟨content, -⟩ := file.contents
  by_contra all
  -- two buffers that differ in that byte
  have works : ∀ b, AppendReadsBack u fv6 (probe len room b) := by
    intro b
    by_contra fails
    exact all ⟨_, probe_length b, fails⟩
  have takes : TakesSector (inodeGetsize fv6.iNode) len := by
    rw [TakesSector]
    omega
  obtain ⟨first, -⟩ := lengths_behind takes (by omega)
  rw [full] at first
  obtain ⟨v, inode, filled, s, bitmap, after, slots, size, -⟩ := file.filledUp (probe len room 0)
  have filled' : ∀ b, U6fs.filledUp u fv6 (probe len room b) =
      (v, { fv6 with iNode := inode }) := by
    intro b
    rw [← filled]
    apply filledUp_congr
    · rw [probe_length, probe_length]
    · rw [probe_length, first, take_probe]
  have block : (inodeGetsize fv6.iNode + room) / 512 = sectorCount fv6.iNode := by
    rw [sectorCount]
    omega
  have start : (inodeGetsize fv6.iNode + room) % 512 = 0 := by
    omega
  have slot := placedAll_slot (x := x) ((left + 511) / 512) inode (inodeGetsize fv6.iNode + room)
    left (by omega) (by omega : sectorCount fv6.iNode < _)
  generalize final : inode.placedAll x ((left + 511) / 512) (inodeGetsize fv6.iNode + room) left =
    inode' at slot
  have named : inode'.slot (sectorCount fv6.iNode) = fv6.iNode.slot (sectorCount fv6.iNode) :=
    slot.trans (slots _)
  have byte : ∀ b, (if fv6.iNode.slot (sectorCount fv6.iNode) = x then
        some (lastContent v (probe len room b) left room)
      else v.f.sectorWithInode v.s fv6.iNumber.toNat inode'
        (fv6.iNode.slot (sectorCount fv6.iNode))).bind (fun sector => sector.bytes[0]?) =
      some b := by
    intro b
    obtain ⟨u', rewrites, reads⟩ :=
      file.behind_iff found full rest more below after bitmap (probe_length b) (filled' b)
    rw [final] at rewrites reads
    have holds := reads.mp (works b) (inodeGetsize fv6.iNode + room)
      (by rw [List.length_append, content, probe_length]; omega)
    rw [slotByte, block, start, named, rewrites.sectors, List.getElem?_append_right (by omega),
      content, Nat.add_sub_cancel_left, probe_here (by omega)] at holds
    exact holds
  have same : lastContent v (probe len room 1) left room =
        lastContent v (probe len room 0) left room ∨
      fv6.iNode.slot (sectorCount fv6.iNode) ≠ x := by
    by_cases one : left = 512
    · exact .inr (other one)
    · exact .inl (lastContent_probe v (by omega) 1)
  have zero := byte 0
  have one := byte 1
  rcases same with equal | apart
  · rw [equal, zero] at one
    cases one
  · rw [if_neg apart] at zero one
    rw [zero] at one
    cases one

end Rounds

/-- Below 4096 bytes, appends of a length are read back exactly when the slots cover them. -/
theorem DirectFile.below_iff (below : inodeGetsize fv6.iNode + len < 4096)
    (free : TakesSector (inodeGetsize fv6.iNode) len → ∃ x, bmGet u.fbm x = 0) :
    (∀ buf : List UInt8, buf.length = len → AppendReadsBack u fv6 buf) ↔
      SlotsCover u fv6.iNode len := by
  by_cases takes : TakesSector (inodeGetsize fv6.iNode) len
  · obtain ⟨x, found⟩ := file.geometry.finds (free takes)
    rw [TakesSector] at takes
    rw [SlotsCover, found, Int.natCast_inj]
    constructor
    · intro works
      by_contra uncovered
      rw [not_or, not_and] at uncovered
      obtain ⟨buf, length, fails⟩ := file.losesBytes found rfl rfl (by omega) below
        (by omega) fun one same => uncovered.2 one same.symm
      exact fails (works buf length)
    · intro covered buf length
      exact file.readsBack_one found rfl rfl (by omega) below
        (covered.imp_right fun one => ⟨one.1, one.2.symm⟩) length
  · refine iff_of_true (fun buf length => file.within takes below length) ?_
    rw [TakesSector] at takes
    left
    omega

end Below

/-- The first sector of a file names the sectors of the file as `inode_findsector` reads it when the
file has come to eight of them: block `k` is found in a sector that holds what sector `k` of the
file does, in the table that the append leaves. Of these the last one is written. -/
def IndexesItself (u : UnixFilesystem) (inr : Nat) (inode : Inode) (len : Nat) : Prop :=
  ∀ k : Nat, k < 8 → ∃ x : Nat, inodeFindsector u (inode.resized 4096) k = x ∧
    if len = 0 then u.f.sectors[x]? = u.f.sectors[inode.slot k]?
    else (x = inode.slot 7 ↔ k = 7) ∧
      u.f.sectorWithInode u.s inr (inode.resized 4096) x = u.f.sectors[inode.slot k]?

/-- A file of eight sectors is read to its end as its slots say exactly when every block is found in
a sector of the same content. -/
theorem DirectFile.readFile_eight_iff {u : UnixFilesystem} {inr : UInt16} {inode : Inode}
    (file : DirectFile u inr inode) (eight : inodeGetsize inode = 4096) {bytes : List UInt8}
    (length : bytes.length = inodeGetsize inode) (holds : Holds u.f inode bytes) :
    readFile u inr = some (bytes, errNone) ↔ ∀ k : Nat, k < 8 → ∃ x : Nat,
      inodeFindsector u inode k = x ∧ u.f.sectors[x]? = u.f.sectors[inode.slot k]? := by
  have count : sectorCount inode = 8 := by
    rw [sectorCount, eight]
  rw [readFile_bytes_iff file.geometry.works file.allocated length]
  constructor
  · intro read k inside
    obtain ⟨old, is⟩ : ∃ old, u.f.sectors[inode.slot k]? = some old :=
      ⟨_, List.getElem?_eq_getElem (file.present k (by omega))⟩
    have sized : ∀ sector : Sector, sector.bytes.length = 512 := fun sector => sector.sized
    have byte : ∀ j < 512, fileByte u inode (512 * k + j) = old.bytes[j]? := by
      intro j small
      have block : (512 * k + j) / 512 = k := by omega
      have place : (512 * k + j) % 512 = j := by omega
      rw [read _ (by omega), ← holds _ (by omega), slotByte, block, place, is, Option.bind_some]
    have start := byte 0 (by decide)
    rw [List.getElem?_eq_getElem (by rw [sized]; decide)] at start
    obtain ⟨x, sector, found, there⟩ := fileByte_eq_some start
    have block : (512 * k + 0) / 512 = k := by omega
    rw [block] at found
    refine ⟨x, found, ?_⟩
    rw [there, is]
    congr 1
    apply Block.ext
    apply List.ext_getElem?
    intro j
    by_cases small : j < 512
    · have place : (512 * k + j) % 512 = j := by omega
      rw [← byte j small, fileByte_of_found found (by omega), there, Option.bind_some, place]
    · rw [List.getElem?_eq_none (by rw [sized]; omega),
        List.getElem?_eq_none (by rw [sized]; omega)]
  · intro blocks i inside
    obtain ⟨x, found, same⟩ := blocks (i / 512) (by omega)
    rw [← holds i inside, fileByte_of_found found rfl, slotByte, same]

section Eight

variable {u : UnixFilesystem} {fv6 : Filev6} (file : DirectFile u fv6.iNumber fv6.iNode) {len : Nat}
  (eight : inodeGetsize fv6.iNode + len = 4096)

include file eight

/-- An append that takes a sector and comes to eight of them stores past the slots. -/
theorem DirectFile.overflows (takes : TakesSector (inodeGetsize fv6.iNode) len)
    (free : ∃ x, bmGet u.fbm x = 0) {buf : List UInt8} (length : buf.length = len) :
    filev6Writebytes u fv6 buf = none := by
  obtain ⟨x, found⟩ := file.geometry.finds free
  have works := file.geometry.works
  have addressable : ¬Unaddressable (inodeGetsize fv6.iNode) buf.length := by
    rw [Unaddressable]
    omega
  rw [filev6Writebytes_none_iff buf file.allocated.inRange file.allocated.present (by omega)
      (countsDown_of_short (by omega)),
    overflows_iff_fillsTable addressable (by omega), length]
  refine ⟨takes, eight, ?_, fun _ _ => ⟨works.seekWrite _ _, ⟨works.seek _ _, works.read _ _⟩,
    works.seekWrite _ _⟩, works.seekWrite _ _⟩
  rw [found]
  exact Int.natCast_nonneg x

/-- A file of eight sectors to which nothing is appended is read back exactly when its first sector
names its sectors. -/
theorem DirectFile.nothing_iff (none : len = 0) :
    AppendReadsBack u fv6 [] ↔ IndexesItself u fv6.iNumber.toNat fv6.iNode len := by
  have size : inodeGetsize fv6.iNode = 4096 := by
    omega
  have within : ¬TakesSector (inodeGetsize fv6.iNode) ([] : List UInt8).length :=
    Nat.not_lt_zero _
  obtain ⟨content, holds⟩ := file.contents
  have filled : U6fs.filledUp u fv6 [] = (u, { fv6 with iNode := fv6.iNode }) := by
    rw [U6fs.filledUp, if_pos (by rw [size])]
  have run := filev6Writebytes_within (by omega) within (by decide) filled
  have resized := inodeGetsize_resized fv6.iNode 4096 (by decide)
  have mode : (fv6.iNode.resized 4096).isAllocated = fv6.iNode.isAllocated :=
    isAllocated_congr (resized_iMode _ _)
  have same : ∀ k : Nat, k < 8 →
      inodeFindsector u (fv6.iNode.resized 4096) k = inodeFindsector u fv6.iNode k := by
    intro k inside
    apply inodeFindsector_same file.geometry.works file.geometry.works file.allocated.2
      (mode.trans file.allocated.2) (by omega) (by omega)
    · intro small
      omega
    · intro big
      exact ⟨by omega, by omega, fun _ => ⟨rfl, rfl⟩⟩
  rw [appendReadsBack_iff run file.allocated.1 rfl, List.append_nil,
    file.readFile_eight_iff size content holds, IndexesItself]
  apply forall₂_congr
  intro k inside
  rw [same k inside, none]
  exact Iff.rfl

/-- An append that fills up the eighth sector of a file is read back exactly when every block is
found in a sector that then has the same content. -/
theorem DirectFile.fills_iff (within : ¬TakesSector (inodeGetsize fv6.iNode) len) (some : len ≠ 0) :
    ∃ old : Sector, ∀ buf : List UInt8, buf.length = len → (AppendReadsBack u fv6 buf ↔
      ∀ k : Nat, k < 8 → ∃ x : Nat, inodeFindsector u (fv6.iNode.resized 4096) k = x ∧
        (if x = fv6.iNode.slot 7 then Option.some (old.splice (inodeGetsize fv6.iNode % 512) buf)
          else u.f.sectorWithInode u.s fv6.iNumber.toNat (fv6.iNode.resized 4096) x) =
        if k = 7 then Option.some (old.splice (inodeGetsize fv6.iNode % 512) buf)
          else u.f.sectors[fv6.iNode.slot k]?) := by
  have few := file.few
  have room : len ≤ (512 - inodeGetsize fv6.iNode % 512) % 512 := Nat.not_lt.mp within
  have last : inodeGetsize fv6.iNode / 512 = 7 := by
    omega
  have partly : inodeGetsize fv6.iNode % 512 ≠ 0 := by
    omega
  have count : sectorCount fv6.iNode = 8 := by
    rw [sectorCount]
    omega
  obtain ⟨content, holds⟩ := file.contents
  obtain ⟨first, -⟩ := lengths_within within (by omega)
  have filled : fv6.iNode.filled len = fv6.iNode.resized 4096 := by
    rw [Inode.filled, first, eight]
  obtain ⟨old, there⟩ : ∃ old, u.f.sectors[fv6.iNode.slot 7]? = Option.some old :=
    ⟨_, List.getElem?_eq_getElem (file.present 7 (by omega))⟩
  refine ⟨old, fun buf length => ?_⟩
  obtain ⟨v, inode, run, s, -, after, slots, size, held⟩ := file.filledUp buf
  obtain ⟨v', old', there', run', -, rewrites⟩ := file.filledUp_partly buf partly
  rw [run, Prod.mk.injEq, Filev6.mk.injEq] at run'
  obtain ⟨rfl, -, is, -⟩ := run'
  rw [last, there, Option.some.injEq] at there'
  rw [length, first, ← length, List.take_length, last, ← there', ← is] at rewrites
  rw [length, first] at size held
  rw [length, filled] at is
  have bytes := held _ content holds
  rw [← length, List.take_length] at bytes
  have ends := filev6Writebytes_within few (by rw [length]; exact within) (by omega) run
  have total : (u.f.contents fv6.iNode ++ buf).length = inodeGetsize inode := by
    rw [List.length_append, content, size, length]
  rw [appendReadsBack_iff ends after.allocated.1 (by rw [size, length]),
    after.readFile_eight_iff (by omega) total bytes]
  apply forall₂_congr
  intro k inside
  have apart : fv6.iNode.slot 0 ≠ fv6.iNode.slot 7 := by
    intro same
    have wrong := file.apart 0 (by omega) 7 (by omega) same
    omega
  have found : inodeFindsector v inode k = inodeFindsector u (fv6.iNode.resized 4096) k := by
    have addr : inode.iAddr = fv6.iNode.iAddr := by
      rw [is, resized_iAddr]
    rw [← is]
    exact file.found_kept rewrites (by omega) apart addr (by omega) k
  have block : v.f.sectors[inode.slot k]? =
      if k = 7 then Option.some (old.splice (inodeGetsize fv6.iNode % 512) buf)
        else u.f.sectors[fv6.iNode.slot k]? := by
    rw [slots]
    by_cases seven : k = 7
    · rw [if_pos seven, seven]
      exact rewrites.same
    · rw [if_neg seven]
      apply rewrites.kept file.geometry (file.data k (by omega))
      intro same
      exact seven (file.apart k (by omega) 7 (by omega) same)
  rw [found, block, ← is]
  apply exists_congr
  intro x
  rw [rewrites.sectors]

/-- Appends that fill up the eighth sector of a file are read back exactly when its first sector
names its sectors. -/
theorem DirectFile.fillsAll_iff (within : ¬TakesSector (inodeGetsize fv6.iNode) len)
    (more : len ≠ 0) : (∀ buf : List UInt8, buf.length = len → AppendReadsBack u fv6 buf) ↔
      IndexesItself u fv6.iNumber.toNat fv6.iNode len := by
  obtain ⟨old, reads⟩ := file.fills_iff eight within more
  rw [TakesSector] at within
  have count : sectorCount fv6.iNode = 8 := by
    rw [sectorCount]
    omega
  have room : inodeGetsize fv6.iNode % 512 + len ≤ 512 := by
    omega
  have varies := splice_varies old (Nat.pos_of_ne_zero more) room
  constructor
  · intro works k inside
    have blocks := fun byte => (reads (probe len 0 byte) (probe_length byte)).mp
      (works _ (probe_length byte)) k inside
    obtain ⟨x, found, -⟩ := blocks 0
    have block : ∀ byte, (if x = fv6.iNode.slot 7 then
          some (old.splice (inodeGetsize fv6.iNode % 512) (probe len 0 byte))
        else u.f.sectorWithInode u.s fv6.iNumber.toNat (fv6.iNode.resized 4096) x) =
        if k = 7 then some (old.splice (inodeGetsize fv6.iNode % 512) (probe len 0 byte))
          else u.f.sectors[fv6.iNode.slot k]? := by
      intro byte
      obtain ⟨y, found', same⟩ := blocks byte
      obtain rfl : y = x := Int.ofNat.inj (found'.symm.trans found)
      exact same
    refine ⟨x, found, ?_⟩
    rw [if_neg more]
    by_cases last : x = fv6.iNode.slot 7
    · by_cases seven : k = 7
      · have number := file.allocated.number.2
        rw [Superblock.inodes] at number
        refine ⟨iff_of_true last seven, ?_⟩
        rw [seven, last, sectorWithInode_other]
        exact file.geometry.data_ne_table (file.data 7 (by omega)) (by omega)
      · simp only [if_pos last, if_neg seven] at block
        exact absurd block (varies _)
    · by_cases seven : k = 7
      · simp only [if_neg last, if_pos seven] at block
        exact absurd (fun byte => (block byte).symm) (varies _)
      · have same := block 0
        rw [if_neg last, if_neg seven] at same
        exact ⟨iff_of_false last seven, same⟩
  · intro indexes buf length
    rw [reads buf length]
    intro k inside
    obtain ⟨x, found, named⟩ := indexes k inside
    rw [if_neg more] at named
    refine ⟨x, found, ?_⟩
    by_cases seven : k = 7
    · rw [if_pos (named.1.mpr seven), if_pos seven]
    · rw [if_neg fun last => seven (named.1.mp last), if_neg seven]
      exact named.2

/-- Appends that come to eight sectors are read back exactly when they take no sector and the first
sector of the file names its sectors. -/
theorem DirectFile.eight_iff
    (free : TakesSector (inodeGetsize fv6.iNode) len → ∃ x, bmGet u.fbm x = 0) :
    (∀ buf : List UInt8, buf.length = len → AppendReadsBack u fv6 buf) ↔
      ¬TakesSector (inodeGetsize fv6.iNode) len ∧
        IndexesItself u fv6.iNumber.toNat fv6.iNode len := by
  by_cases takes : TakesSector (inodeGetsize fv6.iNode) len
  · refine iff_of_false (fun works => ?_) fun both => both.1 takes
    have length : (probe len 0 0).length = len := probe_length 0
    obtain ⟨u', fv6', run, -⟩ := works _ length
    rw [file.overflows eight takes (free takes) length] at run
    cases run
  rw [and_iff_right takes]
  by_cases none : len = 0
  · rw [← file.nothing_iff eight none]
    constructor
    · intro works
      exact works [] none.symm
    · intro works buf length
      rw [none, List.length_eq_zero_iff] at length
      rw [length]
      exact works
  · exact file.fillsAll_iff eight takes none

end Eight

/-- The condition under which the bytes of an append are read back. Below 4096 bytes the slots have
to cover them. At 4096 bytes they must all go into the last sector, and the first sector of the file
must name its sectors. -/
def ReadableAppend (u : UnixFilesystem) (inr : Nat) (inode : Inode) (len : Nat) : Prop :=
  (inodeGetsize inode + len < 4096 ∧ SlotsCover u inode len) ∨
    (inodeGetsize inode + len = 4096 ∧ ¬TakesSector (inodeGetsize inode) len ∧
      IndexesItself u inr inode len)

/-- Appending a number of bytes to an opened file of a well-formed image with a sound sector bitmap,
which then has at most 8 sectors, is read back for all such bytes exactly under this condition. -/
theorem filev6Writebytes_readsBack_iff {u : UnixFilesystem} {inr : UInt16} {fv6 : Filev6}
    {len : Nat} (geometry : Geometry u) (wellFormed : u.f.WellFormed u.s)
    (sound : OwnersMarked u) (opened : filev6Open u inr = .ok fv6)
    (fits : inodeGetsize fv6.iNode + len ≤ 4096)
    (free : TakesSector (inodeGetsize fv6.iNode) len → ∃ x, bmGet u.fbm x = 0) :
    (∀ buf : List UInt8, buf.length = len → AppendReadsBack u fv6 buf) ↔
      ReadableAppend u inr.toNat fv6.iNode len := by
  obtain ⟨allocated, is⟩ := filev6Open_ok opened
  have number : fv6.iNumber = inr := by rw [is]
  rw [← number] at allocated ⊢
  have file := DirectFile.of_wellFormed geometry wellFormed sound allocated (by omega)
  rw [ReadableAppend]
  by_cases below : inodeGetsize fv6.iNode + len < 4096
  · rw [file.below_iff below free, and_iff_right below, or_iff_left]
    exact fun both => below.ne both.1
  · have eight : inodeGetsize fv6.iNode + len = 4096 := by
      omega
    rw [file.eight_iff eight free, and_iff_right eight, or_iff_right]
    exact fun both => below both.1

set_option maxRecDepth 10000 in
/-- A whole sector appended to an empty file is lost: the file is read from the boot sector. -/
theorem filev6Writebytes_readsBoot :
    ∃ u fv6, mountv6 emptyVolume = .ok u ∧ emptyVolume.WellFormed (volumeSuperblock 2 6) ∧
      OwnersMarked u ∧ filev6Open u 1 = .ok fv6 ∧
      inodeGetsize fv6.iNode + (List.replicate 512 (65 : UInt8)).length ≤ 4096 ∧
      (∃ x, bmGet u.fbm x = 0) ∧ ¬AppendReadsBack u fv6 (List.replicate 512 65) := by
  obtain ⟨u, mounted, marked, free, opened, content, read⟩ := mountv6_check (f := emptyVolume)
    (P := fun u => OwnersMarked u ∧ bmGet u.fbm 5 = 0 ∧
      filev6Open u 1 = .ok ⟨1, emptyDirectory, 0⟩ ∧ u.f.contents emptyDirectory = [] ∧
      (filev6Writebytes u ⟨1, emptyDirectory, 0⟩ (List.replicate 512 65)).map (fun result =>
        (readFile result.2.1 1).map fun read => read.1.take 1) = some (some [bootblockMagicNum]))
    (by decide +kernel)
  refine ⟨u, _, mounted, emptyVolume_wellFormed, marked, opened, by decide, ⟨5, free⟩, ?_⟩
  rintro ⟨u', fv6', run, -, back⟩
  have first : (readFile u' 1).map (fun read => read.1.take 1) = some [bootblockMagicNum] := by
    rw [run] at read
    exact Option.some.inj read
  have back' : readFile u' 1 = some (List.replicate 512 65, errNone) := by
    rw [← List.nil_append (List.replicate 512 65), ← content]
    exact back
  rw [back'] at first
  have other : [bootblockMagicNum] ≠ (List.replicate 512 (65 : UInt8)).take 1 := by decide
  exact other (Option.some.inj first).symm

set_option maxRecDepth 10000 in
/-- 600 bytes are appended to a file of 16 and take one other sector. -/
theorem filev6Writebytes_readsBack_single :
    ∃ u fv6, mountv6 singleVolume = .ok u ∧ filev6Open u 1 = .ok fv6 ∧
      ∀ buf : List UInt8, buf.length = 600 → AppendReadsBack u fv6 buf := by
  obtain ⟨u, mounted, super, marked, free, opened⟩ := mountv6_check (f := singleVolume)
    (P := fun u => u.s = volumeSuperblock 2 6 ∧ OwnersMarked u ∧ bmGet u.fbm 5 = 0 ∧
      filev6Open u 1 = .ok ⟨1, singleDirectory, 0⟩) (by decide +kernel)
  obtain ⟨file, -, -, geometry⟩ := mountv6_geometry singleVolume_wellFormed.regions mounted
  have wellFormed : u.f.WellFormed u.s := by
    rw [file, super]
    exact singleVolume_wellFormed
  have size := singleDirectory_size
  have below : inodeGetsize singleDirectory + 600 < 4096 := by
    omega
  refine ⟨u, _, mounted, opened, (filev6Writebytes_readsBack_iff geometry wellFormed marked opened
    below.le fun _ => ⟨5, free⟩).mpr (.inl ⟨below, ?_⟩)⟩
  left
  show 600 - (512 - inodeGetsize singleDirectory % 512) % 512 < 512
  omega

end U6fs
