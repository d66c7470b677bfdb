import U6fs.Spec.Volume
import U6fs.Verif.BlockMap
import U6fs.Verif.Atomic
import U6fs.Verif.InodeTable

/-!
# What the writing functions do to a disk

On a volume whose regions are disjoint, and a machine that works, each function of the write
path changes one inode of the table, or one sector of the data region and then one inode. The
results say so in terms of the table as an array of inodes and of the sectors outside of it, so
that invariants need not look into table sectors.
-/
namespace U6fs

open Lib

/-- A mounted volume with disjoint regions on a working machine. -/
structure Geometry (u : UnixFilesystem) : Prop where
  /-- Transfers work. -/
  works : u.f.host.Faultless
  /-- The inode table comes after the superblock. -/
  table : 2 ≤ u.s.sInodeStart.toNat
  /-- The table is not empty, and small enough for 16-bit inode numbers. -/
  size : 1 ≤ u.s.sIsize.toNat ∧ u.s.sIsize.toNat ≤ 4096
  /-- The data region comes after the inode table. -/
  data : u.s.sInodeStart.toNat + u.s.sIsize.toNat ≤ u.s.sBlockStart.toNat
  /-- All the sectors of the volume are in the file. -/
  inside : u.s.sFsize.toNat ≤ u.f.sectors.length
  /-- The bitmaps have their ranges. -/
  ranges : Ranges u

/-- A volume with disjoint regions is mounted with this geometry. -/
theorem mountv6_geometry {f : Disk} {s : Superblock} {u : UnixFilesystem} (regions : f.Regions s)
    (mounted : mountv6 f = .ok u) : u.f = f ∧ u.s = s ∧ Coherent u ∧ Geometry u := by
  obtain ⟨rfl, coherent⟩ := mountv6_coherent mounted
  obtain ⟨sector, there, rfl⟩ := regions.superblock
  obtain ⟨sector', there', is⟩ := coherent.superblock
  rw [there, Option.some.injEq] at there'
  subst there'
  refine ⟨rfl, is.symm, coherent, regions.works, ?_, coherent.size, ?_, ?_, mountv6_ranges mounted⟩
  · rw [← is]
    exact regions.table
  · rw [← is]
    exact regions.data
  · rw [← is]
    exact regions.inside

/-- Sector `x` of the data region was written, and then inode `inr`. -/
structure Put (f f' : Disk) (s : Superblock) (writer : Writer) (x : Nat) (content : Sector)
    (inr : Nat) (inode : Inode) : Prop where
  /-- The number is in the table. -/
  inside : 1 ≤ inr ∧ inr < s.inodes
  /-- The sector is in the data region. -/
  data : s.InData x
  /-- The sector holds the new content. -/
  same : f'.sectors[x]? = some content
  /-- The table holds the new inode. -/
  inodeAt : ∀ m, f'.inodeAt s m = if m = inr then some inode else f.inodeAt s m
  /-- Other sectors are as before. -/
  other : ∀ y, y ≠ x → y ≠ s.tableSector inr → f'.sectors[y]? = f.sectors[y]?
  /-- The file grows when the sector is the one after its end. -/
  length : f'.sectors.length = max f.sectors.length (x + 1)
  /-- The machine is the same. -/
  host : f'.host = f.host
  /-- Both writes are logged. -/
  log : f'.log = (.inodeWrite, s.tableSector inr) :: (writer, x) :: f.log

/-- A table sector, as far as inodes are concerned. -/
theorem inodeAt_congr {f f' : Disk} {s : Superblock}
    (table : ∀ x, s.sInodeStart.toNat ≤ x → x < s.sInodeStart.toNat + s.sIsize.toNat →
      f'.sectors[x]? = f.sectors[x]?) (inr : Nat) : f'.inodeAt s inr = f.inodeAt s inr := by
  unfold Disk.inodeAt
  split
  · rename_i inside
    rw [Superblock.inodes] at inside
    rw [table _ (by omega) (by omega)]
  · rfl

namespace Geometry

variable {u : UnixFilesystem} (geometry : Geometry u)

include geometry

/-- The sectors of the table are in the file. -/
theorem table_inside {k : Nat} (inside : k < u.s.sIsize.toNat) :
    u.s.sInodeStart.toNat + k < u.f.sectors.length := by
  have := geometry.data
  have := geometry.inside
  have range := u.fbm.range
  rw [geometry.ranges.fbm.1, geometry.ranges.fbm.2] at range
  omega

/-- The sectors of the table are in the file. -/
theorem tableThere : TableThere u where
  works := geometry.works
  present _ inside := geometry.table_inside inside

/-- `inode_write` stores an inode whose number is in range. -/
theorem inodeWrite_spec {inr : UInt16} (inRange : inodeOutOfRange u.s inr = false)
    (inode : Inode) :
    ∃ f', inodeWrite u inr inode = (errNone, { u with f := f' }) ∧
      Stored u.f f' u.s inr.toNat inode := by
  obtain ⟨f', run, stored, -⟩ := geometry.tableThere.inodeWrite_spec inRange inode
  exact ⟨f', run, stored⟩

/-- A sector of the data region is in the file or the one after its end. -/
theorem data_near {x : Nat} (data : u.s.InData x) : x ≤ u.f.sectors.length :=
  Nat.le_trans data.2 geometry.inside

/-- A sector of the data region is no sector of the table. -/
theorem data_ne_table {x k : Nat} (data : u.s.InData x) (inside : k < u.s.sIsize.toNat) :
    x ≠ u.s.sInodeStart.toNat + k := by
  have apart := geometry.data
  have low := data.1
  omega

/-- Writing a sector of the data region keeps the geometry. -/
theorem wrote {f' : Disk} {writer : Writer} {x : Nat} {content : Sector}
    (wrote : Wrote u.f f' writer x content) : Geometry { u with f := f' } :=
  ⟨by rw [wrote.host]; exact geometry.works, geometry.table, geometry.size, geometry.data,
    by have := geometry.inside; rw [wrote.length]; simp only; omega,
    ⟨geometry.ranges.ibm, geometry.ranges.fbm⟩⟩

/-- A sector of the data region is written, and then an inode. -/
theorem put_spec {x : Nat} (data : u.s.InData x) (writer : Writer) (content : Sector)
    {inr : UInt16} (inRange : inodeOutOfRange u.s inr = false) (inode : Inode) :
    ∃ f₁ f', sectorWrite writer u.f x content = (errNone, f₁) ∧
      inodeWrite { u with f := f₁ } inr inode = (errNone, { u with f := f' }) ∧
      Put u.f f' u.s writer x content inr.toNat inode := by
  obtain ⟨f₁, written, wrote⟩ :=
    sectorWrite_spec geometry.works writer (geometry.data_near data) content
  obtain ⟨f', stored, effect⟩ := (geometry.wrote wrote).inodeWrite_spec inRange inode
  have inside := ((inodeOutOfRange_eq_false_iff _ _).mp inRange).2
  have apart : x ≠ u.s.tableSector inr.toNat := geometry.data_ne_table data (by omega)
  refine ⟨f₁, f', written, stored, effect.inside, data, ?_, fun m => ?_, fun y ne ne' => ?_, ?_,
    ?_, ?_⟩
  · rw [effect.other x apart, wrote.same]
  · rw [effect.inodeAt m]
    congr 1
    refine inodeAt_congr (s := u.s) (fun y low high => wrote.other y ?_) m
    have := geometry.data
    have := data.1
    omega
  · rw [effect.other y ne', wrote.other y ne]
  · rw [effect.length, wrote.length]
  · rw [effect.host, wrote.host]
  · rw [effect.log, wrote.log]

/-- A sector of the data region other than the one written is kept. -/
theorem put_data {f' : Disk} {writer : Writer} {x y inr : Nat} {content : Sector} {inode : Inode}
    (put : Put u.f f' u.s writer x content inr inode) (data : u.s.InData y) (other : y ≠ x) :
    f'.sectors[y]? = u.f.sectors[y]? := by
  have inside := put.inside.2
  rw [Superblock.inodes] at inside
  exact put.other y other (geometry.data_ne_table data (by omega))

/-- A sector of the data region is kept when an inode is stored. -/
theorem stored_data {f' : Disk} {y inr : Nat} {inode : Inode}
    (stored : Stored u.f f' u.s inr inode) (data : u.s.InData y) :
    f'.sectors[y]? = u.f.sectors[y]? := by
  have inside := stored.inside.2
  rw [Superblock.inodes] at inside
  exact stored.other y (geometry.data_ne_table data (by omega))

end Geometry

end U6fs
