import ObHtap.Library.Loop

/-!
# Return codes

The return codes of the modelled functions, other than `SUCCESS`: a function that returns
`SUCCESS` returns its value here.
-/

namespace ObHtap

inductive RC where
  | empty
  | internal
  | invalidArgument
  | nobuf
  | bufferpoolOpen
  | notExist
  | genericError
  | error
  | schemaDbExist
  | schemaTableExist
  | schemaViewExist
  | schemaFieldMissing
  | schemaFieldTypeMismatch
  | schemaIndexUnique
  | schemaTableNotExist
  | recordDuplicateKey
  | recordNotExist
  | recordNomem
  | recordOpenned
  | recordEof
  | notFound
  | recordInvisible
  | recordInvalidRid
  | lockedConcurrencyConflict
  | lockedNeedWait
  | lockedUnlock
  | nomem
  | unsupported
  | unimplemented
  | ioerrOpen
  | ioerrRead
  | ioerrWrite
  | ioerrSeek
  | ioerrAccess
  | logFileFull
  | fileOpen
  deriving DecidableEq, Repr

/-- How a program can fail: with a return code, with the process (`assert`, `ASSERT`, a null
pointer), or, in the model only, for want of fuel. -/
inductive Fault where
  | rc (rc : RC)
  | abort
  | outOfFuel
  deriving DecidableEq

end ObHtap
