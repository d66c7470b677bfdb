import U6fs.Filev6

/-!
# The calls of an append

The calls that `filev6_writebytes` makes of `inode_findsector`, `sector_read`, `sector_write`,
`inode_setsize` and `inode_write`, in order, with what each of them returns. The calls are those of
the functions in `filev6.c`; no code reads this record of them.
-/
namespace U6fs

open Lib

/-- The outcome of a call that an append makes. -/
structure Outcome where
  /-- What the call returns. -/
  code : Int
  /-- An `fwrite` of the call comes short, which `sector_write` does not report. -/
  short : Bool
deriving DecidableEq

/-- A call fails when it returns an error, or when it does not write what it reports as written. -/
def Outcome.Failed (call : Outcome) : Prop := call.code < 0 ∨ call.short = true

instance (call : Outcome) : Decidable call.Failed := inferInstanceAs (Decidable (_ ∨ _))

/-- A call that returns a code and writes nothing. -/
def Outcome.returns (code : Int) : Outcome := ⟨code, false⟩

/-- A call of `sector_write` for a sector that returns a code. -/
def Outcome.writes (f : Disk) (sector : Nat) (code : Int) : Outcome :=
  ⟨code, f.host.fwriteFails f.time sector⟩

/-- A call of `inode_write`. -/
def inodeWriteCall (u : UnixFilesystem) (inr : UInt16) (inode : Inode) : Outcome :=
  .writes u.f (inodeSectorNb u.s inr) (inodeWrite u inr inode).1

/-- The calls of `filev6_writesector`. -/
def writesectorCalls (u : UnixFilesystem) (fv6 : Filev6) (buf : List UInt8) (fileSize : Nat) :
    List Outcome :=
  match bmFindNext u.fbm with
  | (freeSector, fbm) =>
    if freeSector < 0 then []
    else match sectorWrite .filev6Writesector u.f freeSector.toNat
        ((u.f.host.stack u.f.time).splice 0 buf) with
      | (err, f) =>
        .writes u.f freeSector.toNat err ::
          if err < 0 then []
          else match inodeSetsize fv6.iNode (toInt32 (fileSize + buf.length)) with
            | .error error => [.returns error]
            | .ok iNode =>
              .returns errNone ::
                if slot : inodeGetsize iNode / sectorSize < addrSmallLength then
                  [inodeWriteCall { u with fbm, f } fv6.iNumber
                    (iNode.setAddr _ (UInt16.ofNat freeSector.toNat) slot)]
                else []

/-- The calls of `filev6_writesector_residual`. -/
def residualCalls (u : UnixFilesystem) (fv6 : Filev6) (buf : List UInt8)
    (sizeInSectors residual inodeSize : Nat) : List Outcome :=
  .returns (inodeFindsector u fv6.iNode (sizeInSectors - 1 : Nat)) ::
    if inodeFindsector u fv6.iNode (sizeInSectors - 1 : Nat) < 0 then []
    else match sectorRead u.f (inodeFindsector u fv6.iNode (sizeInSectors - 1 : Nat)).toNat with
      | .error read => [.returns read]
      | .ok buffer =>
        match sectorWrite .filev6WritesectorResidual u.f
            (inodeFindsector u fv6.iNode (sizeInSectors - 1 : Nat)).toNat
            (buffer.splice residual buf) with
        | (write, f) =>
          .returns errNone ::
            .writes u.f (inodeFindsector u fv6.iNode (sizeInSectors - 1 : Nat)).toNat write ::
              if write < 0 then []
              else match inodeSetsize fv6.iNode (toInt32 (inodeSize + buf.length)) with
                | .error set =>
                  [.returns set, inodeWriteCall { u with f } fv6.iNumber fv6.iNode]
                | .ok iNode =>
                  [.returns errNone, inodeWriteCall { u with f } fv6.iNumber iNode]

/-- The calls of the loop of `filev6_writebytes`. -/
def writebytesLoopCalls (inodeSize : Nat) (buf : List UInt8) :
    Nat → UnixFilesystem → Filev6 → Int → Nat → List Outcome
  | 0, _, _, _, _ => []
  | fuel + 1, u, fv6, toWriteTotal, written =>
    if 0 < toWriteTotal then
      writesectorCalls u fv6 (window buf written (writebytesMinSize toWriteTotal))
          (inodeSize + written) ++
        match filev6Writesector u fv6 (window buf written (writebytesMinSize toWriteTotal))
            (inodeSize + written) with
        | none => []
        | some (writeSec, u, fv6) =>
          if writeSec < 0 then []
          else writebytesLoopCalls inodeSize buf fuel u fv6
            (toWriteTotal - writebytesMinSize toWriteTotal)
            (written + writebytesMinSize toWriteTotal)
    else []

/-- The calls of `filev6_writebytes`. -/
def writebytesCalls (u : UnixFilesystem) (fv6 : Filev6) (buf : List UInt8) : List Outcome :=
  if inodeGetsize fv6.iNode / sectorSize + 1 > mediumFilesysSize then []
  else if inodeGetsize fv6.iNode % sectorSize ≠ 0 then
    residualCalls u fv6
        (buf.take (toWriteSmallSector (inodeGetsize fv6.iNode) buf.length))
        (inodeGetsize fv6.iNode / sectorSize + 1) (inodeGetsize fv6.iNode % sectorSize)
        (inodeGetsize fv6.iNode) ++
      match filev6WritesectorResidual u fv6
          (buf.take (toWriteSmallSector (inodeGetsize fv6.iNode) buf.length))
          (inodeGetsize fv6.iNode / sectorSize + 1) (inodeGetsize fv6.iNode % sectorSize)
          (inodeGetsize fv6.iNode) with
      | (_, u', fv6') =>
        writebytesLoopCalls (inodeGetsize fv6.iNode) buf buf.length u' fv6'
          (toInt32 buf.length - toWriteSmallSector (inodeGetsize fv6.iNode) buf.length)
          (toWriteSmallSector (inodeGetsize fv6.iNode) buf.length)
  else writebytesLoopCalls (inodeGetsize fv6.iNode) buf buf.length u fv6 (toInt32 buf.length) 0

end U6fs
