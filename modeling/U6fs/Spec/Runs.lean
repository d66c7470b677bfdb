import Mathlib.Logic.Relation
import U6fs.Spec.Image

/-!
# Sequences of calls

A mounted volume is changed by calls of the library. A run is any finite sequence of calls, each
of which may succeed or fail; a guard says which calls are allowed in which states. An invariant
of the guarded calls holds in every state that a guarded run reaches.
-/
namespace U6fs

/-- The calls that change a mounted volume. -/
inductive Call where
  /-- `direntv6_create`. -/
  | create (entry : List UInt8) (mode : UInt16)
  /-- `direntv6_addfile`. -/
  | addfile (entry : List UInt8) (mode : UInt16) (buf : List UInt8)
  /-- `filev6_create` with a file structure whose inode is given. -/
  | fileCreate (mode : UInt16) (fv6 : Filev6)
  /-- `filev6_open` and, when it succeeds, `filev6_writebytes`. -/
  | writebytes (inr : UInt16) (buf : List UInt8)
  /-- `umountv6` and `mountv6`. -/
  | remount

/-- The result of a call and the state after it; `none` when the behaviour is undefined, or when
no volume is mounted afterwards. -/
def Call.run (u : UnixFilesystem) : Call → Option (Int × UnixFilesystem)
  | create entry mode => direntv6Create u entry mode
  | addfile entry mode buf => direntv6Addfile u entry mode buf
  | fileCreate mode fv6 =>
    match filev6Create u mode fv6 with
    | (code, u, _) => some (code, u)
  | writebytes inr buf =>
    match filev6Open u inr with
    | .error code => some (code, u)
    | .ok fv6 =>
      match filev6Writebytes u fv6 buf with
      | none => none
      | some (code, u, _) => some (code, u)
  | remount =>
    match mountv6 (umountv6 u) with
    | .error _ => none
    | .ok u => some (errNone, u)

/-- A run of calls that a guard allows, by state and call. -/
def Runs (guard : UnixFilesystem → Call → Prop) : UnixFilesystem → UnixFilesystem → Prop :=
  Relation.ReflTransGen fun u u' => ∃ call code, guard u call ∧ call.run u = some (code, u')

/-- What every allowed call keeps, every run keeps. -/
theorem Runs.invariant {guard : UnixFilesystem → Call → Prop} (Inv : UnixFilesystem → Prop)
    (step : ∀ u call code u', Inv u → guard u call → call.run u = some (code, u') → Inv u')
    {u u' : UnixFilesystem} (runs : Runs guard u u') (start : Inv u) : Inv u' := by
  induction runs with
  | refl => exact start
  | tail _ last ih =>
    obtain ⟨call, code, allowed, run⟩ := last
    exact step _ call code _ ih allowed run

end U6fs
