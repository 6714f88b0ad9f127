import ObHtap.Clog.LogFileManager
import Mathlib.Logic.Relation

/-!
# The log handler

Entries are appended to a buffer, and a thread of its own flushes them to the log files.  Whatever
the order of appends, of the steps of the thread and of restarts, the log keeps each entry that was
flushed once and in its place.
-/

namespace ObHtap.Clog

/-- `file_writer` of the flushing thread, with an open file. -/
structure ThreadWriter where
  filename : Filename
  lastLsn : Int32
  endLsn : Int32

/-- `DiskLogHandler` with its `LogEntryBuffer` and the state of `thread_func`: the entry that
`flush` has taken off the buffer, and whether the last write found the file full. -/
structure DiskLogHandler where
  manager : LogFileManager
  entries : List LogEntry
  currentLsn : Int64
  flushedLsn : Int64
  writer : Option ThreadWriter
  hand : Option LogEntry
  full : Bool

namespace DiskLogHandler

/-- `LogEntryBuffer::append`.  That it waits while the buffer is full only delays it.
Payloads of 2 GiB, whose size the source casts to an `int32_t`, are left out. -/
def append (handler : DiskLogHandler) (moduleId : Int32) (data : List UInt8) :
    Except RC Int64 × DiskLogHandler :=
  if h : data.length ≤ maxPayloadSize then
    let lsn := handler.currentLsn + 1
    (.ok lsn, { handler with
      entries := handler.entries ++ [⟨lsn, moduleId, data, h⟩]
      currentLsn := lsn })
  else (.error .invalidArgument, handler)

/-! ## Steps of the flushing thread -/

/-- `LogFileWriter::open` of a writer that has been closed: its last LSN stays.  The file is
created if need be. -/
def openWriter (handler : DiskLogHandler) (name : Filename) (endLsn : Int) : DiskLogHandler :=
  { handler with
    manager := { handler.manager with
      directory := fun n =>
        if n = name then some ((handler.manager.directory name).getD [])
        else handler.manager.directory n }
    writer := some ⟨name, (handler.writer.map ThreadWriter.lastLsn).getD 0, Int32.ofInt endLsn⟩
    full := false }

/-- `LogFileManager::next_file`.  There is no step where the LSN would overflow. -/
def nextFile (handler : DiskLogHandler) : Option DiskLogHandler :=
  let lsn := match handler.manager.logFiles.getLast? with
    | none => 0
    | some file => file.1 + maxEntryNumberPerFile
  if 2 ^ 63 ≤ lsn + maxEntryNumberPerFile then none
  else
    let files := emplace lsn (filename lsn) handler.manager.logFiles
    some (openWriter { handler with manager := { handler.manager with logFiles := files } }
      (filename lsn) (lsn + maxEntryNumberPerFile - 1))

/-- `LogFileManager::last_file`. -/
def lastFile (handler : DiskLogHandler) : Option DiskLogHandler :=
  match handler.manager.logFiles.getLast? with
  | none => handler.nextFile
  | some file => some (openWriter handler file.2 (file.1 + maxEntryNumberPerFile - 1))

/-- The first half of a round of `thread_func`: a file is opened if none is open or if it is
full. -/
def openFile (handler : DiskLogHandler) : Option DiskLogHandler :=
  if handler.hand.isSome then none
  else if handler.full then handler.nextFile
  else if handler.writer.isNone then handler.lastFile
  else some handler

/-- `flush` takes the first entry off the buffer.  An entry without a payload ends the process. -/
def take (handler : DiskLogHandler) : Option DiskLogHandler :=
  match handler.hand, handler.writer, handler.entries with
  | none, some _, entry :: entries =>
    if handler.full ∨ entry.lsn.toInt ≤ 0 ∨ entry.data = [] then none
    else some { handler with entries, hand := some entry }
  | _, _, _ => none

/-- `flush` writes the entry, or puts it back when the writer refuses it.  The result says which
entries have been written. -/
def write (handler : DiskLogHandler) : Option (List LogEntry × DiskLogHandler) :=
  match handler.hand, handler.writer with
  | some entry, some writer =>
    let bytes := (handler.manager.directory writer.filename).getD []
    match LogFileWriter.write ⟨bytes, writer.lastLsn, writer.endLsn⟩ entry with
    | .ok writer' =>
      some ([entry], { handler with
        manager := { handler.manager with
          directory := fun n =>
            if n = writer.filename then some writer'.file else handler.manager.directory n }
        writer := some { writer with lastLsn := writer'.lastLsn }
        hand := none
        flushedLsn := entry.lsn })
    | .error rc =>
      some ([], { handler with
        entries := entry :: handler.entries
        hand := none
        full := decide (rc = .logFileFull) })
  | _, _ => none

/-! ## Reading the log -/

/-- The loop of `iterate` over the files. -/
def iterateFiles (directory : Filename → Option (List UInt8)) (startLsn : Int64) :
    List Filename → List LogEntry × Except RC Unit
  | [] => ([], .ok ())
  | name :: names =>
    match directory name with
    | none => ([], .error .fileOpen)
    | some bytes =>
      match LogFileReader.iterate startLsn bytes with
      | (entries, .error rc) => (entries, .error rc)
      | (entries, .ok ()) =>
        let (rest, result) := iterateFiles directory startLsn names
        (entries ++ rest, result)

/-- `iterate`. -/
def iterate (handler : DiskLogHandler) (startLsn : Int64) : List LogEntry × Except RC Unit :=
  iterateFiles handler.manager.directory startLsn (handler.manager.listFiles startLsn)

/-- `max_lsn` of `replay`. -/
def maxLsn (entries : List LogEntry) : Int64 :=
  entries.foldl (fun lsn entry => if lsn.toInt < entry.lsn.toInt then entry.lsn else lsn) 0

/-- A new process on the directory: `init`, and `replay` from LSN 0 by a replayer that returns
`SUCCESS`. -/
def start (directory : Filename → Option (List UInt8)) (listing : List Filename) :
    Option DiskLogHandler :=
  let handler : DiskLogHandler :=
    ⟨LogFileManager.init directory listing, [], 0, 0, none, none, false⟩
  match handler.iterate 0 with
  | (_, .error _) => none
  | (entries, .ok ()) =>
    some { handler with currentLsn := maxLsn entries, flushedLsn := maxLsn entries }

end DiskLogHandler

/-! ## Runs -/

/-- The handler, the entries flushed so far, those of them from before the last start, and the
entries appended since then. -/
structure LogState where
  handler : DiskLogHandler
  flushed : List LogEntry
  kept : List LogEntry
  appended : List LogEntry

/-- The files of a directory, in some order. -/
structure Lists (listing : List Filename) (directory : Filename → Option (List UInt8)) : Prop where
  nodup : listing.Nodup
  mem_iff : ∀ name, name ∈ listing ↔ (directory name).isSome

/-- An append, a step of the flushing thread, or the end of the process and a new start. -/
inductive LogStep (s : LogState) : LogState → Prop
  | append (moduleId : Int32) (data : List UInt8) (h : data.length ≤ maxPayloadSize) :
      LogStep s { s with
        handler := (s.handler.append moduleId data).2
        appended := s.appended ++ [⟨s.handler.currentLsn + 1, moduleId, data, h⟩] }
  | openFile {handler : DiskLogHandler} (h : s.handler.openFile = some handler) :
      LogStep s { s with handler }
  | take {handler : DiskLogHandler} (h : s.handler.take = some handler) :
      LogStep s { s with handler }
  | write {written : List LogEntry} {handler : DiskLogHandler}
      (h : s.handler.write = some (written, handler)) :
      LogStep s { s with handler, flushed := s.flushed ++ written }
  | restart {listing : List Filename} {handler : DiskLogHandler}
      (hlists : Lists listing s.handler.manager.directory)
      (h : DiskLogHandler.start s.handler.manager.directory listing = some handler) :
      LogStep s ⟨handler, s.flushed, s.flushed, []⟩

/-- A process that has started on an empty directory. -/
def LogState.create : LogState :=
  ⟨⟨⟨fun _ => none, []⟩, [], 0, 0, none, none, false⟩, [], [], []⟩

/-- The log is what has been flushed, once each and in order; nothing appended is missing; and a
new process goes on with the next number. -/
structure KeepsFlushed (s : LogState) : Prop where
  consecutive : s.flushed.map (fun entry => entry.lsn.toInt) =
    (List.range s.flushed.length).map fun i : Nat => (i : Int) + 1
  iterated : ∀ startLsn, s.handler.iterate startLsn =
    (s.flushed.filter fun entry => startLsn.toInt ≤ entry.lsn.toInt, .ok ())
  complete : s.kept ++ s.appended =
    s.flushed ++ (s.handler.hand.toList ++ s.handler.entries)
  restarts : ∀ listing, Lists listing s.handler.manager.directory →
    ∃ handler, DiskLogHandler.start s.handler.manager.directory listing = some handler ∧
      ∀ moduleId data, data.length ≤ maxPayloadSize →
        ∃ lsn, (handler.append moduleId data).1 = .ok lsn ∧ lsn.toInt = s.flushed.length + 1

end ObHtap.Clog
