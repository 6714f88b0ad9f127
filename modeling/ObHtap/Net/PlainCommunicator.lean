import ObHtap.Library.PartialRun
import ObHtap.Net.BufferedWriter

/-!
# The plain protocol

`PlainCommunicator::write_result` (`plain_communicator.cpp`): the answer to a request is the header
and the rows of its result, or a line that says what has become of it, and a zero byte.  When a row
fails, what is in the buffer is thrown away; what the buffer has had no room for has been sent.
-/

namespace ObHtap

/-- `strrc`. -/
def strrc : Option RC → String
  | none => "SUCCESS"
  | some .empty => "EMPTY"
  | some .internal => "INTERNAL"
  | some .invalidArgument => "INVALID_ARGUMENT"
  | some .nobuf => "BUFFERPOOL_NOBUF"
  | some .bufferpoolOpen => "BUFFERPOOL_OPEN"
  | some .notExist => "NOT_EXIST"
  | some .genericError => "GENERIC_ERROR"
  | some .error => "ERROR"
  | some .schemaDbExist => "SCHEMA_DB_EXIST"
  | some .schemaTableExist => "SCHEMA_TABLE_EXIST"
  | some .schemaViewExist => "SCHEMA_VIEW_EXIST"
  | some .schemaFieldMissing => "SCHEMA_FIELD_MISSING"
  | some .schemaFieldTypeMismatch => "SCHEMA_FIELD_TYPE_MISMATCH"
  | some .schemaIndexUnique => "SCHEMA_INDEX_UNIQUE"
  | some .schemaTableNotExist => "SCHEMA_TABLE_NOT_EXIST"
  | some .recordDuplicateKey => "RECORD_DUPLICATE_KEY"
  | some .recordNotExist => "RECORD_NOT_EXIST"
  | some .recordNomem => "RECORD_NOMEM"
  | some .recordOpenned => "RECORD_OPENNED"
  | some .recordEof => "RECORD_EOF"
  | some .notFound => "NOTFOUND"
  | some .recordInvisible => "RECORD_INVISIBLE"
  | some .recordInvalidRid => "RECORD_INVALID_RID"
  | some .lockedConcurrencyConflict => "LOCKED_CONCURRENCY_CONFLICT"
  | some .lockedNeedWait => "LOCKED_NEED_WAIT"
  | some .lockedUnlock => "LOCKED_UNLOCK"
  | some .nomem => "NOMEM"
  | some .unsupported => "UNSUPPORTED"
  | some .unimplemented => "UNIMPLEMENTED"
  | some .ioerrOpen => "IOERR_OPEN"
  | some .ioerrRead => "IOERR_READ"
  | some .ioerrWrite => "IOERR_WRITE"
  | some .ioerrSeek => "IOERR_SEEK"
  | some .ioerrAccess => "IOERR_ACCESS"
  | some .logFileFull => "LOG_FILE_FULL"
  | some .fileOpen => "FILE_OPEN"

/-- The bytes of a text of ASCII characters. -/
def asciiBytes (text : String) : List UInt8 :=
  text.toList.map fun c => UInt8.ofNat c.toNat

/-- The rows that a result gives, one after the other or in chunks, with the last return code.  A
cell of a tuple may not be there to be had. -/
inductive ResultRows
  | tuples (tuples : List (List (Except RC (List UInt8)))) (last : RC)
  | chunks (chunks : List (List (List (List UInt8)))) (last : RC)

/-- `SqlResult`: its return code, where `none` is `SUCCESS`, its state, and the operator with what
comes of it: whether it opens, the aliases of its columns, its rows, and whether it closes. -/
structure SqlResult where
  returnCode : Option RC
  stateString : List UInt8
  hasOperator : Bool
  opens : Except RC Unit
  header : List (List UInt8)
  rows : ResultRows
  closes : Except RC Unit

/-- A request with its result and what it has noted for debugging. -/
structure SqlRequest where
  result : SqlResult
  sqlDebugOn : Bool
  debugInfos : List (List UInt8)

/-- The return code of an outcome. -/
def returnCode : Except RC Unit → Option RC
  | .ok () => none
  | .error rc => some rc

/-- The line of `write_state`, which has room for 2048 bytes. -/
def stateLine (rc : Option RC) (stateString : List UInt8) : List UInt8 :=
  if stateString = [] then
    asciiBytes (if rc = none then "SUCCESS\n" else "FAILURE\n")
  else
    (asciiBytes (strrc rc) ++ asciiBytes " > " ++ stateString.takeWhile (· ≠ 0) ++
      asciiBytes "\n").take 2047

def delim : List UInt8 := asciiBytes " | "

def newline : List UInt8 := asciiBytes "\n"

/-- `send_message_delimiter_`. -/
def sendMessageDelimiter : List UInt8 := [0]

def debugMessagePrefix : List UInt8 := asciiBytes "# "

namespace PlainCommunicator

open BufferedWriter

/-- The outcome of a program; it goes on after a failure. -/
def attempt (x : WriteM Unit) : WriteM (Except RC Unit) := fun w =>
  match x w with
  | .ok () w => .ok (.ok ()) w
  | .error rc w => .ok (.error rc) w

variable (socket : Socket)

/-- `write_state`, with `need_disconnect`. -/
def writeState (rc : Option RC) (stateString : List UInt8) : WriteM (Except RC Unit × Bool) := do
  match ← attempt (writen socket (stateLine rc stateString)) with
  | .error _ => pure (.error .ioerrWrite, true)
  | .ok () => pure (.ok (), false)

def writeDelim (first : Bool) : WriteM Unit :=
  if first then pure () else writen socket delim

/-- The loop over cells, each but the first behind a delimiter. -/
def writeCells : Bool → List (Except RC (List UInt8)) → WriteM Unit
  | _, [] => pure ()
  | first, cell :: cells => do
    writeDelim socket first
    match cell with
    | .error rc => throw rc
    | .ok cell => do
      writen socket cell
      writeCells false cells

def writeRow (cells : List (Except RC (List UInt8))) : WriteM Unit := do
  writeCells socket true cells
  writen socket newline

/-- The loop over rows, up to the last return code. -/
def writeRows : List (List (Except RC (List UInt8))) → RC → WriteM Unit
  | [], last => if last = .recordEof then pure () else throw last
  | row :: rows, last => do
    writeRow socket row
    writeRows rows last

/-- The header, if there are columns. -/
def writeHeader (header : List (List UInt8)) : WriteM Unit :=
  if header = [] then pure () else writeRow socket (header.map .ok)

/-- `write_tuple_result` and `write_chunk_result`. -/
def writeResultRows : ResultRows → WriteM Unit
  | .tuples tuples last => writeRows socket tuples last
  | .chunks chunks last => writeRows socket (chunks.flatten.map (List.map .ok)) last

/-- `write_result_internal`, with `need_disconnect`. -/
def writeResultInternal (result : SqlResult) : WriteM (Except RC Unit × Bool) :=
  if result.returnCode ≠ none ∨ result.hasOperator = false then
    writeState socket result.returnCode result.stateString
  else
    match result.opens with
    | .error rc => writeState socket (some rc) result.stateString
    | .ok () => do
      match ← attempt (writeHeader socket result.header) with
      | .error rc => pure (.error rc, true)
      | .ok () =>
        match ← attempt (writeResultRows socket result.rows) with
        | .error rc => do
          clearBuffer
          writeState socket (some rc) result.stateString
        | .ok () =>
          -- there are neither header nor rows where there are no columns
          if result.header = [] then
            writeState socket (returnCode result.closes) result.stateString
          else pure (result.closes, false)

/-- `write_debug`. -/
def writeDebug (request : SqlRequest) : WriteM Unit :=
  if request.sqlDebugOn then
    request.debugInfos.forM fun info => do
      writen socket debugMessagePrefix
      writen socket info
      writen socket newline
  else pure ()

/-- `write_result`, with `need_disconnect`. -/
def writeResult (request : SqlRequest) : WriteM (Except RC Unit × Bool) := do
  let (rc, needDisconnect) ← writeResultInternal socket request.result
  if needDisconnect then do
    let w ← get
    let _ ← attempt (flush socket w.ring.dataSize)
    pure (rc, true)
  else
    match ← attempt (writeDebug socket request) with
    | .error _ => do
      let w ← get
      let _ ← attempt (flush socket w.ring.dataSize)
      pure (rc, true)
    | .ok () =>
      match ← attempt (writen socket sendMessageDelimiter) with
      | .error rc => pure (.error rc, true)
      | .ok () => do
        let w ← get
        let _ ← attempt (flush socket w.ring.dataSize)
        pure (.ok (), false)

end PlainCommunicator

end ObHtap
