/-! # Error codes (`std/src/error.rs`) -/

namespace MeowOs

/-- What a call of the kernel fails with; the line and file that an error also carries are for messages only. -/
inductive KernelErrorCode where
  | unknown | inodeNotPresent | invalidString | fileSystemInconsistency | internalFSError | notMounted
  | noEntry | unsupportedFilesystem | insufficientPermissions | unsupportedOperation | invalidPointer
  | alreadyMapped | notMapped | insufficientResources | invalidArgument | invalidOperation | timeout
  | illegalValue | invalidProcessFile | outOfMemory
  deriving DecidableEq, Repr

end MeowOs
