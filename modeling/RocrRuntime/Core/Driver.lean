import Mathlib.Data.Nat.Bitwise

/-!
# The kernel-driver interface

`core/inc/driver.h` declares `Driver`, the interface between the core runtime
and a kernel-mode driver (the XDNA driver of `amd_xdna_driver.h` is one), and
the value types it trades in. Besides the pure virtual members, which have no
body to model, the header defines two functions: the permission translation
`Driver::PermissionsToMmapFlags`, a copy of the free function of the same name
in `core/util/memory.h`, and `ShareableHandle::IsValid`.

`hsa_access_permission_t` comes from `hsa.h` and the `PROT_*` flags from
`<sys/mman.h>`, neither of them in this repository, so the model keeps their
numeric values abstract: a permission is one of the four enumerators or some
other value of the enum's type, and a protection is the set of `PROT_READ` and
`PROT_WRITE` it holds.
-/

namespace RocrRuntime.Core.Driver

/-! ## Access permissions -/

/-- `hsa_access_permission_t`: one of its four enumerators, or another value of
the enum's type, which reaches the `default:` arm of a `switch`. -/
inductive HsaAccessPermission
  | none
  | ro
  | wo
  | rw
  | other (raw : Int)
  deriving DecidableEq, Repr

/-- An `mmap` protection, as the `PROT_READ` and `PROT_WRITE` bits it holds. -/
structure MmapProt where
  read : Bool
  write : Bool
  deriving DecidableEq, Repr

def protNone : MmapProt := ⟨false, false⟩
def protRead : MmapProt := ⟨true, false⟩
def protWrite : MmapProt := ⟨false, true⟩

/-- `|` on protections: the union of their bits. -/
instance : OrOp MmapProt := ⟨fun a b => ⟨a.read || b.read, a.write || b.write⟩⟩

@[simp] theorem MmapProt.or_read (a b : MmapProt) : (a ||| b).read = (a.read || b.read) :=
  rfl

@[simp] theorem MmapProt.or_write (a b : MmapProt) :
    (a ||| b).write = (a.write || b.write) :=
  rfl

/-- `rocr::PermissionsToMmapFlags` (`core/util/memory.h`): the `mmap`
protection for an HSA access permission, no access for `NONE` and for any
value outside the enumerators. -/
def permissionsToMmapFlags : HsaAccessPermission → MmapProt
  | .ro => protRead
  | .wo => protWrite
  | .rw => protRead ||| protWrite
  | .none => protNone
  | .other _ => protNone

/-- `Driver::PermissionsToMmapFlags` (`core/inc/driver.h`), the same switch as
the free function. -/
def driverPermissionsToMmapFlags (perms : HsaAccessPermission) : MmapProt :=
  permissionsToMmapFlags perms

/-- The translation grants read exactly to `RO` and `RW`, and write exactly to
`WO` and `RW`: `NONE` and every value outside the enumerators get no access. -/
theorem permissionsToMmapFlags_read_write (perms : HsaAccessPermission) :
    ((permissionsToMmapFlags perms).read ↔ perms = .ro ∨ perms = .rw) ∧
      ((permissionsToMmapFlags perms).write ↔ perms = .wo ∨ perms = .rw) := by
  cases perms <;> simp [permissionsToMmapFlags, protNone, protRead, protWrite]

/-! ## Shareable handles -/

/-- `ShareableHandle`: a 64-bit handle for exported or imported memory,
zero-initialised. -/
structure ShareableHandle where
  handle : BitVec 64 := 0
  deriving DecidableEq, Repr

/-- `ShareableHandle::IsValid`: a handle is valid iff it is nonzero. -/
def ShareableHandle.isValid (h : ShareableHandle) : Bool := h.handle != 0

end RocrRuntime.Core.Driver
