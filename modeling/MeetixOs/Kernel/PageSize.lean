import Mathlib.Data.Nat.Init

/-!
# Sizes of the kernel

`C_KIB` and `C_MIB` of `LibHelps/src/dbg.rs`, and the `TPageSize` constants of
`Kernel/src/vm/mod.rs` for the two page sizes, `Page4KiB` and `Page2MiB`.
-/

namespace MeetixOs
namespace Kernel

/-- `C_KIB`. -/
def cKiB : Nat := 1024

/-- `C_MIB`. -/
def cMiB : Nat := cKiB * cKiB

/-- `Page4KiB::SIZE`. -/
def page4KiBSize : Nat := 4 * cKiB

/-- `Page4KiB::MASK`: `SIZE - 1`. -/
def page4KiBMask : Nat := page4KiBSize - 1

/-- `Page2MiB::SIZE`. -/
def page2MiBSize : Nat := 2 * cMiB

theorem page4KiBSize_eq : page4KiBSize = 4096 := rfl

theorem page4KiBSize_isPowerOfTwo : page4KiBSize.isPowerOfTwo := ⟨12, rfl⟩

end Kernel
end MeetixOs
