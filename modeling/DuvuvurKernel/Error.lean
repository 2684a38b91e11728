import Mathlib.Init

/-!
# Error codes

`error.hpp`: the codes an operation of the kernel can fail with. The source's
`Error` carries the code together with the file and the line it was made at, for
the log only; here an operation that returns `Error` or `WithError<T>` returns
`Except Error T`, whose `ok` is `kSuccess`.
-/

namespace DuvuvurKernel

/-- `Error::Code`, without `kSuccess` and the end marker `kLastOfCode`. -/
inductive Error where
  | full
  | empty
  | noEnoughMemory
  | indexOutOfRange
  | hostControllerNotHalted
  | invalidSlotID
  | portNotConnected
  | invalidEndpointNumber
  | transferRingNotSet
  | alreadyAllocated
  | notImplemented
  | invalidDescriptor
  | bufferTooSmall
  | unknownDevice
  | noCorrespondingSetupStage
  | transferFailed
  | invalidPhase
  | unknownXHCISpeedID
  | noWaiter
  | noPCIMSI
  | unknownPixelFormat
  | noSuchTask
  | invalidFormat
  | frameTooSmall
  | invalidFile
  | isDirectory
  | noSuchEntry
  | freeTypeError
  deriving DecidableEq, Repr

/-- The error numbers the system calls return. -/
inductive Errno where
  /-- `EBADF`. -/
  | badFile
  /-- `EFAULT`. -/
  | fault
  deriving DecidableEq, Repr

end DuvuvurKernel
