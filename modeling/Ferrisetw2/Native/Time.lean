import Ferrisetw2.Lib.Slice

/-!
# Windows times

`FILETIME` and `SYSTEMTIME`, as they are copied out of the packed user data of an event.
`time.rs`.
-/

namespace Ferrisetw2

open Rust

/-- `FileTime`. -/
structure FileTime where
  dwLowDateTime : UInt32
  dwHighDateTime : UInt32
  deriving DecidableEq, Repr

/-- `SystemTime`. -/
structure SystemTime where
  wYear : UInt16
  wMonth : UInt16
  wDayOfWeek : UInt16
  wDay : UInt16
  wHour : UInt16
  wMinute : UInt16
  wSecond : UInt16
  wMilliseconds : UInt16
  deriving DecidableEq, Repr

/-- `FileTime::from_slice`, on the 8 bytes of a `FILETIME`. -/
def FileTime.fromSlice (slice : List UInt8) : FileTime where
  dwLowDateTime := UInt32.ofNat (leValue (range 0 4 slice))
  dwHighDateTime := UInt32.ofNat (leValue (range 4 8 slice))

/-- `SystemTime::from_slice`, on the 16 bytes of a `SYSTEMTIME`. -/
def SystemTime.fromSlice (slice : List UInt8) : SystemTime :=
  let readU16 (offset : ℕ) := UInt16.ofNat (leValue (range offset (offset + 2) slice))
  { wYear := readU16 0
    wMonth := readU16 2
    wDayOfWeek := readU16 4
    wDay := readU16 6
    wHour := readU16 8
    wMinute := readU16 10
    wSecond := readU16 12
    wMilliseconds := readU16 14 }

end Ferrisetw2
