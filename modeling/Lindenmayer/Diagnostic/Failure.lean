namespace Lindenmayer

inductive FailureKind where
  | addressInUse
  | addressNotAvailable
  | alreadyExists
  | argumentListTooLong
  | brokenPipe
  | connectionAborted
  | connectionRefused
  | connectionReset
  | crossesDevices
  | deadlock
  | directoryNotEmpty
  | executableBusy
  | fileSystemLoop
  | fileTooLarge
  | hostUnreachable
  | inProgress
  | interrupted
  | invalidData
  | invalidFileName
  | invalidInput
  | isADirectory
  | networkDown
  | networkUnreachable
  | notADirectory
  | notConnected
  | notFound
  | notSeekable
  | other
  | outOfMemory
  | permissionDenied
  | quotaExceeded
  | readOnlyFileSystem
  | resourceBusy
  | staleNetworkFile
  | storageFull
  | timedOut
  | tooManyLinks
  | uncategorized
  | unexpectedEnd
  | unsupported
  | wouldBlock
  | writeZero
  deriving DecidableEq

structure ReadFailure where
  kind : FailureKind
  message : String
  deriving DecidableEq

namespace ReadFailure

instance : BEq ReadFailure := ⟨fun left right => left.kind == right.kind⟩

def missingFile : ReadFailure :=
  ⟨.notFound, "No such file or directory (os error 2)"⟩

def directory : ReadFailure :=
  ⟨.isADirectory, "Is a directory (os error 21)"⟩

def notUtf8 : ReadFailure :=
  ⟨.invalidData, "stream did not contain valid UTF-8"⟩

end ReadFailure

end Lindenmayer
