import OpenBooks.Sftp.Storage

/-!
# A session

What the daemon does with each request of one session. A session holds the open files, whole,
in memory, and the listings being read; storage is touched when a file is opened, when a
written file is closed, and by the requests that name a path.

Three kinds of guard stand before storage. A path that names an in-flight publish is answered
as if it were not there; a path in a published folder may not be written to; and the bytes and
handles a session holds are bounded. Each is a small function of the session's table of
handles, so that a handler is these checks with the calls to storage between them.
-/

namespace OpenBooks

open Checked Effect

/-! ### Replies -/

/-- The status codes of the protocol that the daemon sends. -/
inductive StatusCode where
  | OK | EOF | NO_SUCH_FILE | PERMISSION_DENIED | FAILURE | OP_UNSUPPORTED
  deriving DecidableEq

/-- A reply to a request. -/
inductive Reply where
  | status (code : StatusCode) (message : Option String)
  | attrs (isDir : Bool) (size : ℕ)
  | handle (h : ℕ)
  | data (bytes : Data)
  | names (entries : List SftpEntry)
  deriving DecidableEq

/-- A text in lower case, as a case-insensitive pattern sees it. -/
def foldCase (text : String) : List Char := text.toList.map Char.toLower

/-- Whether a word stands in a text with no letter on either side. -/
def hasWord (word : List Char) : Option Char → List Char → Bool
  | _, [] => false
  | before, c :: rest =>
    (word.isPrefixOf (c :: rest) && !(before.any Char.isAlpha) &&
        !(((c :: rest)[word.length]?).any Char.isAlpha)) ||
      hasWord word (some c) rest

/-- Which status a storage throw becomes on the wire: absence reads absent, a refusal reads
refused, and everything else reads as a failure. -/
def sftpStatusForError (e : StorageError) : StatusCode :=
  let message := foldCase e.message
  let whole := foldCase (e.code.getD "" ++ " " ++ e.name ++ " " ++ e.message)
  if "path escapes root".toList <:+: message ∨ "permission denied".toList <:+: message then
    .PERMISSION_DENIED
  else if e.code = some "ENOENT" ∨ e = .noSuchKey ∨ hasWord "nosuchkey".toList none whole ∨
      hasWord "notfound".toList none whole ∨ "no such file".toList <:+: whole then
    .NO_SUCH_FILE
  else .FAILURE

/-- The message of a failure: the operation and the error class. -/
def sftpFailureMessage (e : StorageError) (what : String) : String :=
  what ++ " failed (" ++ e.code.getD e.name ++
    ") — retry the operation, and ask your administrator if it persists"

/-- The reply to a request whose storage call threw. -/
def failReply (e : StorageError) (what : String) : Reply :=
  match sftpStatusForError e with
  | .FAILURE => .status .FAILURE (some (sftpFailureMessage e what))
  | status => .status status none

/-! ### The table of handles -/

/-- The caps of one session. -/
structure SftpSessionLimits where
  maxFileBytes : ℕ
  maxOpenHandles : ℕ
  maxSessionBufferBytes : ℕ

structure SessionConfig where
  limits : SftpSessionLimits
  readOnlyDirs : List (List Char)

/-- An open file, with its bytes. -/
structure OpenFile where
  path : List Char
  write : Bool
  append : Bool
  buf : Data

/-- An open listing, and how far it has been read. -/
structure OpenDir where
  entries : List SftpEntry
  next : ℕ

/-- The handles of a session. Handles are numbered as they are given out; a handle a client
makes up is a number that was not. -/
structure HandleTable where
  files : List (ℕ × OpenFile)
  dirs : List (ℕ × OpenDir)
  handleSeq : ℕ
  sessionBufferedBytes : ℕ

namespace HandleTable

def empty : HandleTable := ⟨[], [], 0, 0⟩

/-- Whether no more handles may be given out. -/
def overHandleCap (limits : SftpSessionLimits) (t : HandleTable) : Bool :=
  limits.maxOpenHandles ≤ t.files.length + t.dirs.length

def newHandle (t : HandleTable) : ℕ × HandleTable :=
  (t.handleSeq + 1, { t with handleSeq := t.handleSeq + 1 })

def setFile (t : HandleTable) (h : ℕ) (f : OpenFile) : HandleTable :=
  { t with files := (h, f) :: t.files.filter (·.1 ≠ h) }

def setDir (t : HandleTable) (h : ℕ) (d : OpenDir) : HandleTable :=
  { t with dirs := (h, d) :: t.dirs.filter (·.1 ≠ h) }

end HandleTable

/-! ### The flags of an open -/

def OPEN_MODE_WRITE : ℕ := 2
def OPEN_MODE_APPEND : ℕ := 4
def OPEN_MODE_CREAT : ℕ := 8
def OPEN_MODE_TRUNC : ℕ := 16

def hasFlag (flags flag : ℕ) : Bool := flags &&& flag ≠ 0

def isWriting (flags : ℕ) : Bool :=
  hasFlag flags (OPEN_MODE_WRITE ||| OPEN_MODE_CREAT ||| OPEN_MODE_TRUNC)

/-! ### Checks on the table -/

section Checks

variable (config : SessionConfig)

def handleCapRefusal : Reply :=
  .status .FAILURE (some ("too many open files (limit " ++ toString config.limits.maxOpenHandles ++
    " per session); close a handle and retry"))

/-- Refuse a path in a published folder. -/
def denyPublished (p : List Char) : Except Reply Unit :=
  refuseIf (isProtectedSftpPath config.readOnlyDirs p = true) (.status .PERMISSION_DENIED none)

/-- Refuse a path that names an in-flight publish, as absent. -/
def denyTemp (p : List Char) : Except Reply Unit :=
  refuseIf (isSftpTempName p = true) (.status .NO_SUCH_FILE none)

/-- Refuse another handle past the cap. -/
def denyOverHandleCap (t : HandleTable) : Except Reply Unit :=
  refuseIf (t.overHandleCap config.limits = true) (handleCapRefusal config)

/-- What an open is checked for before storage is asked; and its handle. -/
def admitOpen (filename : List Char) (flags : ℕ) (t : HandleTable) :
    Except Reply (ℕ × HandleTable) := do
  denyTemp filename
  denyOverHandleCap config t
  onlyIf (isWriting flags = true ∨ hasFlag flags OPEN_MODE_APPEND = true)
    (denyPublished config filename)
  return t.newHandle

/-- Refuse a file past the cap of one file. -/
def refuseOverCap (size : ℕ) : Except Reply Unit :=
  refuseIf (config.limits.maxFileBytes < size)
    (.status .FAILURE (some ("file is " ++ toString size ++ " bytes, exceeding the " ++
      toString config.limits.maxFileBytes ++ "-byte per-file SFTP limit")))

/-- Refuse bytes past the cap of the session. -/
def refuseOverSession (size : ℕ) (t : HandleTable) : Except Reply Unit :=
  refuseIf (config.limits.maxSessionBufferBytes < t.sessionBufferedBytes + size)
    (.status .FAILURE (some ("opening " ++ toString size ++ " more bytes would exceed the " ++
      toString config.limits.maxSessionBufferBytes ++
      "-byte per-session SFTP buffer limit; close a file and retry")))

/-- Enter a file that was opened, and its bytes. -/
def registerFile (h : ℕ) (f : OpenFile) (t : HandleTable) : Except Reply HandleTable := do
  refuseOverSession config f.buf.length t
  return { t.setFile h f with sessionBufferedBytes := t.sessionBufferedBytes + f.buf.length }

/-- What an open for writing does with what is at its path: start from nothing, read what is
there, or give up. -/
def writeBase (flags : ℕ) (st : Option SftpStat) : Except Reply Bool :=
  match st with
  | some st => do
    refuseIf (st.isDir = true) (failReply (.error "cannot open directory for writing") "open")
    refuseOverCap config st.size
    return true
  | none => do
    refuseIf (hasFlag flags OPEN_MODE_CREAT = false) (failReply (.error "no such file") "open")
    return false

/-- The check an open for reading makes on what is at its path, before it reads it. -/
def readBase (st : Option SftpStat) : Except Reply Unit :=
  match st with
  | some st => onlyIf (st.isDir = false) (refuseOverCap config st.size)
  | none => .ok ()

def writtenFile (filename : List Char) (flags : ℕ) (buf : Data) : OpenFile :=
  ⟨cleanPath filename, true, hasFlag flags OPEN_MODE_APPEND, buf⟩

def readingFile (filename : List Char) (buf : Data) : OpenFile :=
  ⟨cleanPath filename, false, false, buf⟩

/-- Bytes put into a buffer, which grows with zeros as far as they need. -/
def spliced (buf : Data) (position : ℕ) (bytes : Data) : Data :=
  let grown := buf ++ List.replicate (position + bytes.length - buf.length) 0
  grown.take position ++ bytes ++ grown.drop (position + bytes.length)

/-- The largest integer a number holds exactly. -/
def MAX_SAFE_INTEGER : ℕ := 9007199254740991

/-- A write into an open file. -/
def writeHandle (h : ℕ) (offset : ℕ) (bytes : Data) (t : HandleTable) :
    Except Reply HandleTable := do
  let f ← orRefuse ((t.files.lookup h).filter (·.write)) (.status .FAILURE none)
  let position := if f.append then f.buf.length else offset
  refuseIf (MAX_SAFE_INTEGER < position ∨ 0xffffffff < position + bytes.length)
    (.status .FAILURE none)
  let stop := position + bytes.length
  refuseIf (config.limits.maxFileBytes < stop)
    (.status .FAILURE (some ("write would grow the file to " ++ toString stop ++
      " bytes, exceeding the " ++ toString config.limits.maxFileBytes ++
      "-byte per-file SFTP limit")))
  let growth := stop - f.buf.length
  refuseIf (config.limits.maxSessionBufferBytes < t.sessionBufferedBytes + growth)
    (.status .FAILURE (some ("write would exceed the " ++
      toString config.limits.maxSessionBufferBytes ++
      "-byte per-session SFTP buffer limit; close a file and retry")))
  return { t.setFile h { f with buf := spliced f.buf position bytes } with
    sessionBufferedBytes := t.sessionBufferedBytes + growth }

/-- A read from an open file. -/
def readHandle (h offset length : ℕ) (t : HandleTable) : Reply :=
  match t.files.lookup h with
  | none => .status .FAILURE none
  | some f =>
    if f.write then .status .FAILURE none
    else if f.buf.length ≤ offset then .status .EOF none
    else .data ((f.buf.drop offset).take length)

/-- A handle closed: the file whose bytes go, and the table without it. -/
def closeHandle (h : ℕ) (t : HandleTable) : Option OpenFile × HandleTable :=
  match t.files.lookup h with
  | some f =>
    (some f, { t with
      files := t.files.filter (·.1 ≠ h)
      sessionBufferedBytes := t.sessionBufferedBytes - f.buf.length })
  | none => (none, { t with dirs := t.dirs.filter (·.1 ≠ h) })

/-- The check made on a written file before it is saved. -/
def refuseUnsavable (f : OpenFile) : Except Reply Unit :=
  refuseIf (config.limits.maxFileBytes < f.buf.length)
    (.status .FAILURE (some ("file is " ++ toString f.buf.length ++ " bytes, exceeding the " ++
      toString config.limits.maxFileBytes ++ "-byte per-file SFTP limit and cannot be saved")))

end Checks

/-! ### Listings -/

def MAX_READDIR_ENTRIES : ℕ := 100

def MAX_READDIR_BYTES : ℕ := 32 * 1024

/-- The long form of a name in a listing. -/
def longname (e : SftpEntry) : String :=
  let size := toString e.size
  (if e.isDir then "drwxr-xr-x" else "-rw-r--r--") ++ " 1 owner group " ++
    String.ofList (List.replicate (12 - size.length) ' ') ++ size ++ " Jan  1 00:00 " ++
    String.ofList e.name

/-- The names of one reply: up to a number of entries and of bytes, and at least one. -/
def readdirBatch (taken bytes : ℕ) : List SftpEntry → List SftpEntry
  | [] => []
  | e :: rest =>
    let estimate := (String.ofList e.name).utf8ByteSize + (longname e).utf8ByteSize + 64
    if MAX_READDIR_ENTRIES ≤ taken ∨ (0 < taken ∧ MAX_READDIR_BYTES < bytes + estimate) then []
    else e :: readdirBatch (taken + 1) (bytes + estimate) rest

/-- The next names of a listing. -/
def readdirHandle (h : ℕ) (t : HandleTable) : Reply × HandleTable :=
  match t.dirs.lookup h with
  | none => (.status .FAILURE none, t)
  | some d =>
    if d.entries.length ≤ d.next then (.status .EOF none, t)
    else
      let batch := readdirBatch 0 0 (d.entries.drop d.next)
      (.names batch, t.setDir h { d with next := d.next + batch.length })

/-! ### Requests -/

/-- A request of a client. -/
inductive Request where
  | STAT (p : List Char)
  | FSTAT (h : ℕ)
  | OPENDIR (p : List Char)
  | READDIR (h : ℕ)
  | OPEN (filename : List Char) (flags : ℕ)
  | READ (h offset length : ℕ)
  | WRITE (h offset : ℕ) (bytes : Data)
  | CLOSE (h : ℕ)
  | REMOVE (p : List Char)
  | MKDIR (p : List Char)
  | RMDIR (p : List Char)
  | RENAME (source dest : List Char)
  | SETSTAT (p : List Char)
  | FSETSTAT (h : ℕ)

/-- A session: its handles, and the store behind it. -/
structure Session (σ : Type) where
  table : HandleTable
  store : σ

section Handlers

variable {σ : Type} (backend : SftpBackend σ) (config : SessionConfig)

/-- Ask storage; a throw is the reply, and either way the store has moved on. -/
def asking {α : Type} (op : Effect σ StorageError α) (what : String) (s : Session σ)
    (next : α → Session σ → Reply × Session σ) : Reply × Session σ :=
  match op.outcome s.store with
  | (.ok a, store) => next a { s with store := store }
  | (.error e, store) => (failReply e what, { s with store := store })

/-- Carry on from a check, or reply with its refusal. -/
def checking {α : Type} (x : Except Reply α) (s : Session σ)
    (next : α → Reply × Session σ) : Reply × Session σ :=
  match x with
  | .ok a => next a
  | .error refusal => (refusal, s)

def doStat (p : List Char) (s : Session σ) : Reply × Session σ :=
  checking (denyTemp p) s fun _ =>
    asking (backend.stat p) "stat" s fun st s =>
      match st with
      | none => (.status .NO_SUCH_FILE none, s)
      | some st => (.attrs st.isDir st.size, s)

def opendir (p : List Char) (s : Session σ) : Reply × Session σ :=
  checking (denyOverHandleCap config s.table) s fun _ =>
    asking (backend.list p) "list" s fun entries s =>
      let (h, table) := s.table.newHandle
      (.handle h, { s with
        table := table.setDir h ⟨entries.filter fun e => !isSftpTempName e.name, 0⟩ })

/-- Enter a file, and hand its handle out. -/
def registering (h : ℕ) (f : OpenFile) (s : Session σ) : Reply × Session σ :=
  checking (registerFile config h f s.table) s fun table => (.handle h, { s with table := table })

def openFile (filename : List Char) (flags : ℕ) (s : Session σ) : Reply × Session σ :=
  checking (admitOpen config filename flags s.table) s fun (h, table) =>
    let s : Session σ := { s with table := table }
    if isWriting flags then
      if hasFlag flags OPEN_MODE_TRUNC then
        registering config h (writtenFile filename flags []) s
      else
        asking (backend.stat (cleanPath filename)) "open" s fun st s =>
          checking (writeBase config flags st) s fun reads =>
            if reads then
              asking (backend.read (cleanPath filename)) "open" s fun buf s =>
                registering config h (writtenFile filename flags buf) s
            else registering config h (writtenFile filename flags []) s
    else
      asking (backend.stat filename) "open" s fun st s =>
        checking (readBase config st) s fun _ =>
          asking (backend.read filename) "open" s fun buf s =>
            checking (refuseOverCap config buf.length) s fun _ =>
              registering config h (readingFile filename buf) s

def closeFile (h : ℕ) (s : Session σ) : Reply × Session σ :=
  let (closed, table) := closeHandle h s.table
  let s : Session σ := { s with table := table }
  match closed with
  | none => (.status .OK none, s)
  | some f =>
    if f.write then
      checking (refuseUnsavable config f) s fun _ =>
        asking (backend.write f.path f.buf) "save" s fun _ s => (.status .OK none, s)
    else (.status .OK none, s)

/-- A change of storage at one path, behind the guards. -/
def wrap (what : String) (op : List Char → Effect σ StorageError Unit) (p : List Char)
    (s : Session σ) : Reply × Session σ :=
  checking (denyTemp p) s fun _ =>
    checking (denyPublished config p) s fun _ =>
      asking (op p) what s fun _ s => (.status .OK none, s)

/-- As `wrap`, but a folder that is not empty is refused by name. -/
def rmdirPath (p : List Char) (s : Session σ) : Reply × Session σ :=
  checking (denyTemp p) s fun _ =>
    checking (denyPublished config p) s fun _ =>
      match (backend.rmdir p).outcome s.store with
      | (.ok _, store) => (.status .OK none, { s with store := store })
      | (.error (.directoryNotEmpty q), store) =>
        (.status .FAILURE (some (StorageError.directoryNotEmpty q).message),
          { s with store := store })
      | (.error e, store) => (failReply e "remove folder", { s with store := store })

def renamePath (source dest : List Char) (s : Session σ) : Reply × Session σ :=
  checking (denyTemp source) s fun _ =>
    checking (denyTemp dest) s fun _ =>
      checking (denyPublished config source) s fun _ =>
        checking (denyPublished config dest) s fun _ =>
          asking (backend.rename source dest) "rename" s fun _ s => (.status .OK none, s)

/-- Attributes cannot be set; of a published path they may not be. -/
def setstat (what : String) (p : Option (List Char)) (s : Session σ) : Reply × Session σ :=
  checking (p.elim (.ok ()) (denyPublished config)) s fun _ =>
    (.status .OP_UNSUPPORTED (some (what ++
      " is not supported: attributes cannot be changed; re-upload the file instead")), s)

/-- The handler of every request. -/
def dispatch (request : Request) (s : Session σ) : Reply × Session σ :=
  match request with
  | .STAT p => doStat backend p s
  | .FSTAT h =>
    match s.table.files.lookup h with
    | none => (.status .FAILURE none, s)
    | some f => (.attrs false f.buf.length, s)
  | .OPENDIR p => opendir backend config p s
  | .READDIR h =>
    let (reply, table) := readdirHandle h s.table
    (reply, { s with table := table })
  | .OPEN filename flags => openFile backend config filename flags s
  | .READ h offset length => (readHandle h offset length s.table, s)
  | .WRITE h offset bytes =>
    checking (writeHandle config h offset bytes s.table) s fun table =>
      (.status .OK none, { s with table := table })
  | .CLOSE h => closeFile backend config h s
  | .REMOVE p => wrap config "remove" backend.remove p s
  | .MKDIR p => wrap config "make folder" backend.mkdir p s
  | .RMDIR p => rmdirPath backend config p s
  | .RENAME source dest => renamePath backend config source dest s
  | .SETSTAT p => setstat config "SETSTAT" (some p) s
  | .FSETSTAT h => setstat config "FSETSTAT" ((s.table.files.lookup h).map (·.path)) s

/-- A request behind the liveness fence: a session that is no longer alive is refused with the
reason, and nothing is done. -/
def fenced (live : Except String Unit) (request : Request) (s : Session σ) : Reply × Session σ :=
  match live with
  | .ok _ => dispatch backend config request s
  | .error reason => (.status .PERMISSION_DENIED (some reason), s)

/-- The session after a sequence of requests, each with what the fence says of it. -/
def runSession (requests : List (Except String Unit × Request)) (s : Session σ) : Session σ :=
  requests.foldl (fun s r => (fenced backend config r.1 r.2 s).2) s

end Handlers

end OpenBooks
