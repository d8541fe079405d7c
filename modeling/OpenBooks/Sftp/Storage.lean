import OpenBooks.Lib.Effect
import OpenBooks.Sftp.Path

/-!
# Storage behind a session

A session works on one of two stores through the same eight operations
(`SftpBackend`). The local one is a directory on disk: a tree of places, where a
rename takes a whole subtree along and a missing parent is made on the way. The other is an
object store: a flat map from keys to bytes, where a folder is a key that ends in a slash, or
nothing at all but the keys below it.

Both are written as the calls they make, in order, on a state that also remembers every path
it was asked about; so what an operation touches can be read off the state it leaves.
-/

namespace OpenBooks

open Checked Effect

/-! ### Failures -/

/-- The error codes of a file system. -/
inductive FsCode where
  | ENOENT | ENOTDIR | EISDIR | EEXIST | ENOTEMPTY | EINVAL
  deriving DecidableEq

def FsCode.name : FsCode → String
  | .ENOENT => "ENOENT"
  | .ENOTDIR => "ENOTDIR"
  | .EISDIR => "EISDIR"
  | .EEXIST => "EEXIST"
  | .ENOTEMPTY => "ENOTEMPTY"
  | .EINVAL => "EINVAL"

def FsCode.description : FsCode → String
  | .ENOENT => "no such file or directory"
  | .ENOTDIR => "not a directory"
  | .EISDIR => "illegal operation on a directory"
  | .EEXIST => "file already exists"
  | .ENOTEMPTY => "directory not empty"
  | .EINVAL => "invalid argument"

/-- What an operation on storage throws. -/
inductive StorageError where
  /-- A file-system call, with the paths it was made on. -/
  | fs (code : FsCode) (syscall : String) (path : VirtualPath) (dest : Option VirtualPath)
  /-- A folder refused because it still holds something. -/
  | directoryNotEmpty (virtualPath : List Char)
  /-- An object that is not there. -/
  | noSuchKey
  /-- A copy of an object onto itself. -/
  | invalidRequest
  /-- A plain error. -/
  | error (message : String)
  deriving DecidableEq

/-- The `code` of a thrown error, if it has one. -/
def StorageError.code : StorageError → Option String
  | .fs code _ _ _ => some code.name
  | _ => none

/-- The `name` of a thrown error. -/
def StorageError.name : StorageError → String
  | .directoryNotEmpty _ => "SftpDirectoryNotEmptyError"
  | .noSuchKey => "NoSuchKey"
  | .invalidRequest => "InvalidRequest"
  | .fs .. | .error _ => "Error"

def StorageError.message : StorageError → String
  | .fs code syscall path dest =>
    code.name ++ ": " ++ code.description ++ ", " ++ syscall ++ " '" ++
      String.ofList (renderPath path) ++ "'" ++
      (dest.elim "" fun q => " -> '" ++ String.ofList (renderPath q) ++ "'")
  | .directoryNotEmpty p =>
    "sftp folder '" ++ String.ofList (cleanPath p) ++
      "' is not empty — move or delete its contents before removing it"
  | .noSuchKey => "The specified key does not exist."
  | .invalidRequest =>
    "This copy request is illegal because it is trying to copy an object to itself"
  | .error message => message

/-! ### The operations -/

/-- The bytes of a file. -/
abbrev Data := List UInt8

structure SftpEntry where
  name : List Char
  isDir : Bool
  size : ℕ
  deriving DecidableEq

/-- What `stat` says of a place. -/
structure SftpStat where
  isDir : Bool
  size : ℕ

/-- The operations of a store. -/
structure SftpBackend (σ : Type) where
  list : List Char → Effect σ StorageError (List SftpEntry)
  stat : List Char → Effect σ StorageError (Option SftpStat)
  read : List Char → Effect σ StorageError Data
  write : List Char → Data → Effect σ StorageError Unit
  remove : List Char → Effect σ StorageError Unit
  mkdir : List Char → Effect σ StorageError Unit
  rmdir : List Char → Effect σ StorageError Unit
  rename : List Char → List Char → Effect σ StorageError Unit

/-! ### A disk -/

/-- What a place of a disk holds. -/
inductive DiskNode where
  | file (data : Data)
  | dir
  deriving DecidableEq

/-- A disk, and every path it was asked about so far. -/
structure Disk where
  nodes : List (VirtualPath × DiskNode)
  touched : List VirtualPath

namespace Disk

/-- What is at a place; the top of the disk is always a directory. -/
def at? (d : Disk) (p : VirtualPath) : Option DiskNode :=
  if p = [] then some .dir else d.nodes.lookup p

def touch (d : Disk) (p : VirtualPath) : Disk := { d with touched := d.touched ++ [p] }

/-- Put a node at a place, over what was there. -/
def put (d : Disk) (p : VirtualPath) (node : DiskNode) : Disk :=
  { d with nodes := (p, node) :: d.nodes.filter (·.1 ≠ p) }

def erase (d : Disk) (p : VirtualPath) : Disk := { d with nodes := d.nodes.filter (·.1 ≠ p) }

/-- Whether something is below a place. -/
def hasChild (d : Disk) (p : VirtualPath) : Bool := d.nodes.any fun x => p <+: x.1 && x.1 ≠ p

/-- Make directories of a place and of all that is above it, where nothing is yet. -/
def makeDirs (d : Disk) (p : VirtualPath) : Disk :=
  p.inits.foldl (fun d q => if (d.at? q).isNone then d.put q .dir else d) d

/-- Where a key goes when a subtree is moved. -/
def movedKey (source dest key : VirtualPath) : VirtualPath :=
  if source <+: key then dest ++ key.drop source.length else key

/-- Move a subtree to a place, over the file or the empty directory there. -/
def move (d : Disk) (source dest : VirtualPath) : Disk :=
  { d with
    nodes := (d.nodes.filter (·.1 ≠ dest)).map fun x => (movedKey source dest x.1, x.2) }

/-- Why nothing is found at a place: something above it is a file, or is missing too. -/
def missing (d : Disk) (p : VirtualPath) : FsCode :=
  if p.inits.any fun q => q ≠ p && (d.at? q).any (· ≠ .dir) then .ENOTDIR else .ENOENT

/-- `fs.stat` -/
def stat (p : VirtualPath) : Effect Disk StorageError DiskNode :=
  perform fun d =>
    match d.at? p with
    | some node => (.ok node, d.touch p)
    | none => (.error (.fs (d.missing p) "stat" p none), d.touch p)

/-- `fs.readFile` -/
def readFile (p : VirtualPath) : Effect Disk StorageError Data :=
  perform fun d =>
    match d.at? p with
    | some (.file data) => (.ok data, d.touch p)
    | some .dir => (.error (.fs .EISDIR "read" p none), d.touch p)
    | none => (.error (.fs (d.missing p) "open" p none), d.touch p)

/-- `fs.readdir`, with the node of every name. -/
def readdir (p : VirtualPath) : Effect Disk StorageError (List (List Char × DiskNode)) :=
  perform fun d =>
    match d.at? p with
    | some .dir =>
      (.ok (d.nodes.filterMap fun x =>
        if p <+: x.1 then
          match x.1.drop p.length with
          | [name] => some (name, x.2)
          | _ => none
        else none), d.touch p)
    | some (.file _) => (.error (.fs .ENOTDIR "scandir" p none), d.touch p)
    | none => (.error (.fs (d.missing p) "scandir" p none), d.touch p)

/-- `fs.mkdir`, recursively. -/
def mkdir (p : VirtualPath) : Effect Disk StorageError Unit :=
  perform fun d =>
    match d.at? p with
    | some .dir => (.ok (), d.touch p)
    | some (.file _) => (.error (.fs .EEXIST "mkdir" p none), d.touch p)
    | none =>
      if d.missing p = .ENOTDIR then (.error (.fs .ENOTDIR "mkdir" p none), d.touch p)
      else (.ok (), (d.touch p).makeDirs p)

/-- `fs.unlink` -/
def unlink (p : VirtualPath) : Effect Disk StorageError Unit :=
  perform fun d =>
    match d.at? p with
    | some (.file _) => (.ok (), (d.touch p).erase p)
    | some .dir => (.error (.fs .EISDIR "unlink" p none), d.touch p)
    | none => (.error (.fs (d.missing p) "unlink" p none), d.touch p)

/-- `fs.rmdir` -/
def rmdir (p : VirtualPath) : Effect Disk StorageError Unit :=
  perform fun d =>
    match d.at? p with
    | some .dir =>
      if d.hasChild p then (.error (.fs .ENOTEMPTY "rmdir" p none), d.touch p)
      else (.ok (), (d.touch p).erase p)
    | some (.file _) => (.error (.fs .ENOTDIR "rmdir" p none), d.touch p)
    | none => (.error (.fs (d.missing p) "rmdir" p none), d.touch p)

/-- Whether one node may be renamed onto another place, as a file system decides it. -/
def renameRefusal (d : Disk) (source dest : VirtualPath) : Option FsCode :=
  match d.at? source with
  | none => some (d.missing source)
  | some node =>
    if source = dest then none
    -- Neither may be moved into the other.
    else if source <+: dest then some .EINVAL
    else if dest <+: source then some .ENOTEMPTY
    else match node, d.at? dest with
      | .file _, some .dir => some .EISDIR
      | .dir, some (.file _) => some .ENOTDIR
      | .dir, some .dir => if d.hasChild dest then some .ENOTEMPTY else none
      | _, _ => none

/-- `fs.rename` -/
def rename (source dest : VirtualPath) : Effect Disk StorageError Unit :=
  perform fun d =>
    let asked := (d.touch source).touch dest
    match d.renameRefusal source dest with
    | some code => (.error (.fs code "rename" source (some dest)), asked)
    | none => (.ok (), if source = dest then asked else asked.move source dest)

/-- A file staged beside its place and renamed onto it. -/
def publish (p : VirtualPath) (data : Data) : Effect Disk StorageError Unit :=
  perform fun d =>
    let asked := (d.touch p.dropLast).touch p
    match d.at? p with
    | some .dir => (.error (.fs .EISDIR "rename" p none), asked)
    | _ => (.ok (), asked.put p (.file data))

end Disk

/-- The operations on a directory of a disk. -/
def localBackend (rootDir : VirtualPath) : SftpBackend Disk :=
  let abs (p : List Char) : Effect Disk StorageError VirtualPath :=
    check ((absolutePath rootDir p).mapError fun e => .error e.message)
  { list := fun dir => do
      let full ← abs dir
      let entries ← perform fun d =>
        match (Disk.readdir full).outcome d with
        | (.error (.fs .ENOENT _ _ _), d') => (.ok [], d')
        | result => result
      return entries.map fun x =>
        match x with
        | (name, .dir) => ⟨name, true, 0⟩
        | (name, .file data) => ⟨name, false, data.length⟩
    stat := fun p =>
      if cleanPath p = ['/'] then pure (some ⟨true, 0⟩)
      else do
        let full ← abs p
        perform fun d =>
          match (Disk.stat full).outcome d with
          | (.ok .dir, d') => (.ok (some ⟨true, 0⟩), d')
          | (.ok (.file data), d') => (.ok (some ⟨false, data.length⟩), d')
          -- Only genuine absence reads as absent.
          | (.error (.fs .ENOENT _ _ _), d') => (.ok none, d')
          | (.error (.fs .ENOTDIR _ _ _), d') => (.ok none, d')
          | (.error e, d') => (.error e, d')
    read := fun p => do Disk.readFile (← abs p)
    write := fun p data => do
      let full ← abs p
      Disk.mkdir full.dropLast
      Disk.publish full data
    remove := fun p => do Disk.unlink (← abs p)
    mkdir := fun p => do Disk.mkdir (← abs p)
    rmdir := fun p => do
      let full ← abs p
      (Disk.rmdir full).mapFailure fun e =>
        if e.code = some "ENOTEMPTY" then .directoryNotEmpty p else e
    rename := fun source dest => do
      let full ← abs dest
      Disk.mkdir full.dropLast
      Disk.rename (← abs source) full }

/-! ### An object store -/

/-- An object store, and every key it was asked about so far. -/
structure Bucket where
  objects : List (List Char × Data)
  touched : List (List Char)

namespace Bucket

def at? (b : Bucket) (key : List Char) : Option Data := b.objects.lookup key

def touch (b : Bucket) (key : List Char) : Bucket := { b with touched := b.touched ++ [key] }

/-- `HeadObject`: the length of an object. -/
def head (key : List Char) : Effect Bucket StorageError ℕ :=
  perform fun b =>
    match b.at? key with
    | some data => (.ok data.length, b.touch key)
    | none => (.error .noSuchKey, b.touch key)

/-- `GetObject` -/
def get (key : List Char) : Effect Bucket StorageError Data :=
  perform fun b =>
    match b.at? key with
    | some data => (.ok data, b.touch key)
    | none => (.error .noSuchKey, b.touch key)

/-- `PutObject` -/
def put (key : List Char) (data : Data) : Effect Bucket StorageError Unit :=
  perform fun b =>
    (.ok (), { b.touch key with objects := (key, data) :: b.objects.filter (·.1 ≠ key) })

/-- `DeleteObject`: of a missing object too. -/
def delete (key : List Char) : Effect Bucket StorageError Unit :=
  perform fun b => (.ok (), { b.touch key with objects := b.objects.filter (·.1 ≠ key) })

/-- `CopyObject` -/
def copy (source dest : List Char) : Effect Bucket StorageError Unit :=
  perform fun b =>
    let asked := (b.touch source).touch dest
    match b.at? source with
    | none => (.error .noSuchKey, asked)
    | some data =>
      if source = dest then (.error .invalidRequest, asked)
      else (.ok (), { asked with objects := (dest, data) :: b.objects.filter (·.1 ≠ dest) })

/-- `ListObjectsV2`: every object whose key starts so. -/
def listObjects (start : List Char) : Effect Bucket StorageError (List (List Char × Data)) :=
  perform fun b => (.ok (b.objects.filter fun x => start <+: x.1), b.touch start)

end Bucket

/-- One listed key, below a folder's: a name, or the first name of a deeper key. -/
def listedEntry (start : List Char) (object : List Char × Data) : Option SftpEntry :=
  match (object.1.drop start.length).splitOn '/' with
  | [name] => if name = [] then none else some ⟨name, false, object.2.length⟩
  | name :: _ :: _ => if name = [] then none else some ⟨name, true, 0⟩
  | [] => none

/-- The operations on a key prefix of an object store. -/
def s3Backend (rootPrefix orgId : List Char) : SftpBackend Bucket :=
  let key (p : List Char) : Effect Bucket StorageError (List Char) :=
    check ((s3Key rootPrefix orgId p).mapError fun e => .error e.message)
  let dirKey (p : List Char) : Effect Bucket StorageError (List Char) := do
    let k ← key p
    return if k = [] then [] else k ++ ['/']
  { list := fun dir => do
      let start ← dirKey dir
      let objects ← Bucket.listObjects start
      let entries := objects.filterMap (listedEntry start)
      -- A folder is listed once, however many keys are below it.
      return (entries.filter (·.isDir)).dedup ++ entries.filter (!·.isDir)
    stat := fun p =>
      if cleanPath p = ['/'] then pure (some ⟨true, 0⟩)
      else do
        let k ← key p
        let start ← dirKey p
        perform fun b =>
          match (Bucket.head k).outcome b with
          | (.ok size, b') => (.ok (some ⟨false, size⟩), b')
          | (.error _, b') =>
            match (Bucket.listObjects start).outcome b' with
            | (.ok [], b'') => (.ok none, b'')
            | (.ok (_ :: _), b'') => (.ok (some ⟨true, 0⟩), b'')
            | (.error e, b'') => (.error e, b'')
    read := fun p => do Bucket.get (← key p)
    write := fun p data => do Bucket.put (← key p) data
    remove := fun p => do Bucket.delete (← key p)
    mkdir := fun p => do Bucket.put (← dirKey p) []
    rmdir := fun p => do
      let marker ← dirKey p
      let listed ← Bucket.listObjects marker
      check (refuseIf (∃ x ∈ listed.take 2, x.1 ≠ marker) (.directoryNotEmpty p))
      Bucket.delete marker
    rename := fun source dest => do
      let k ← key source
      let k' ← key dest
      Bucket.copy k k'
      Bucket.delete k }

end OpenBooks
