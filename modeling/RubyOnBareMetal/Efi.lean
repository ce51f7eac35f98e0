import Mathlib.Data.Nat.Notation

namespace RubyOnBareMetal

/-!
# Status codes of the firmware

The values of `boot/uefi/efi.h` that the console and the shim test for.
-/

/-- `EFI_SUCCESS`. -/
abbrev efiSuccess : UInt64 := 0

/-- `EFI_NOT_READY`. -/
abbrev efiNotReady : UInt64 := 0x8000000000000006

end RubyOnBareMetal
