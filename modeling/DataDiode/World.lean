import DataDiode.Crypto
import DataDiode.FileTree

/-!
# The Operating System around the Receiver

Everything the receiver does besides computing: file-system calls and log records. `World`
holds the directory tree, the position of the one output file that can be open, the calls
made so far and the records logged so far. `Env` holds what does not change during a run:
the output directory, the libraries, and the **faults** — which calls the operating system
fails of its own accord, by position in the run and by call, and how much of the call's work
is done before it fails.

A call without a fault behaves as the tree prescribes (`DataDiode.FileTree`); paths reach
the tree through lexical resolution (`DataDiode.UnixPath`), so there are no symbolic links.
A path that textually demands a directory (`a/`, `a/.`) is not usable as a file.

Whether a call succeeds or fails, it is on record in `World.calls` (`World.call`).
-/

namespace DataDiode

open UnixPath

/-- The receiver's directory tree. -/
abbrev Tree := FileTree Name UInt8

/-! ### Log records -/

/-- A piece of formatted text. -/
inductive Piece
  /-- Text of the program itself. -/
  | lit (s : String)
  /-- A number. -/
  | nat (n : ℕ)
  /-- A string or path formatted with `{}`. -/
  | display (s : Str)
  /-- A string or path formatted with `{:?}`. -/
  | debug (s : Str)
  /-- An error of the operating system. -/
  | io (e : IoError)
  /-- An error of the Reed–Solomon library. -/
  | rs (e : RsError)
  /-- The hexadecimal SHA-256 digest of some contents. -/
  | sha256 (contents : Bytes)
  deriving DecidableEq

/-- Formatted text. Formatting a text with `{}` puts its pieces in place. -/
abbrev Text := List Piece

/-- Log levels. -/
inductive Level
  | error
  | warn
  | info
  deriving DecidableEq, Repr

/-- ASCII characters with a visible glyph. -/
def isAsciiGraphic (c : Char) : Bool := 33 ≤ c.toNat && c.toNat ≤ 126

/-- Keep only ASCII graphic characters plus space and horizontal tab. -/
def logSafe (s : Str) : Str := s.filter fun c => isAsciiGraphic c || c = ' ' || c = '\t'

/-! ### File-system calls -/

/-- The file-system calls of the receiver, with the paths they are given. -/
inductive FsCall
  | createDirAll (path : Path)
  /-- Open for writing, creating the file if needed. -/
  | openWrite (path : Path) (truncate : Bool)
  | setLen (path : Path) (size : ℕ)
  | seek (path : Path) (offset : ℕ)
  | write (path : Path) (offset length : ℕ)
  | removeFile (path : Path)
  | rename (source target : Path)
  | openRead (path : Path)
  | read (path : Path)
  | metadata (path : Path)
  deriving DecidableEq

/-- The paths a call is given. -/
def FsCall.paths : FsCall → List Path
  | .createDirAll p | .openWrite p _ | .setLen p _ | .seek p _ | .write p _ _ | .removeFile p
  | .openRead p | .read p | .metadata p => [p]
  | .rename p q => [p, q]

/-- A failure of the operating system's own: the error it reports, and how much of the work
(directories made, bytes written) is done by then. -/
structure Fault where
  error : IoError
  progress : ℕ

/-- What stays fixed while the receiver runs. -/
structure Env extends Libs where
  /-- The directory received files are written to. -/
  outputDir : Path
  /-- The location relative paths start from. -/
  cwd : Location
  /-- Whether a target port for UDP forwarding is configured. -/
  udpForwardingEnabled : Bool
  /-- The failures of the operating system, by number of calls made before and by call. -/
  faults : ℕ → FsCall → Option Fault

/-- The location a path names. -/
def Env.locate (env : Env) (p : Path) : Location := resolve env.cwd p

/-- The operating system fails nothing of its own accord. -/
def Env.NoFaults (env : Env) : Prop := ∀ n c, env.faults n c = none

/-- The state of the world outside the receiver's memory. -/
structure World where
  fs : Tree
  /-- The position of the open output file. -/
  cursor : ℕ
  /-- The file-system calls made so far. -/
  calls : List FsCall
  /-- The records logged so far. -/
  log : List (Level × Text)

/-- An open output file, known by the path it was opened under. -/
structure File where
  path : Path
  deriving DecidableEq, Repr

namespace World

/-- The world as the receiver finds it. -/
def new (fs : Tree) : World := ⟨fs, 0, [], []⟩

/-- Log a record. -/
def logAt (w : World) (level : Level) (text : Text) : World :=
  { w with log := w.log ++ [(level, text)] }

def error (w : World) (text : Text) : World := w.logAt .error text
def warn (w : World) (text : Text) : World := w.logAt .warn text
def info (w : World) (text : Text) : World := w.logAt .info text

/-- Record a call and carry it out: `act` on the tree if the operating system lets it,
`undone k` if it fails after work of amount `k`. -/
def call (env : Env) (w : World) (c : FsCall) (undone : ℕ → Tree → Tree)
    (act : Tree → Except IoError Tree) : Except IoError Unit × World :=
  match env.faults w.calls.length c with
  | some fault =>
      (.error fault.error,
        { w with calls := w.calls ++ [c], fs := undone fault.progress w.fs })
  | none =>
      match act w.fs with
      | .ok fs => (.ok (), { w with calls := w.calls ++ [c], fs := fs })
      | .error e => (.error e, { w with calls := w.calls ++ [c] })

/-- Act on the file a path names, unless its text demands a directory. -/
def onFile (env : Env) (p : Path) (act : Location → Except IoError Tree) :
    Except IoError Tree :=
  if demandsDir p then .error .notADirectory else act (env.locate p)

/-- `fs::create_dir_all`. A failing call may have made some of the directories. -/
def createDirAll (env : Env) (w : World) (p : Path) : Except IoError Unit × World :=
  w.call env (.createDirAll p)
    (fun k t => (t.mkdirAll ((env.locate p).take k)).toOption.getD t)
    (fun t => t.mkdirAll (env.locate p))

/-- `OpenOptions::new().create(true).write(true).truncate(truncate).open`. The position
starts at the front of the file. -/
def openWrite (env : Env) (w : World) (p : Path) (truncate : Bool) :
    Except IoError File × World :=
  match w.call env (.openWrite p truncate) (fun _ t => t)
      (fun t => onFile env p fun l => t.create l truncate) with
  | (.ok (), w) => (.ok ⟨p⟩, { w with cursor := 0 })
  | (.error e, w) => (.error e, w)

/-- `File::set_len`. -/
def setLen (env : Env) (w : World) (f : File) (size : ℕ) : Except IoError Unit × World :=
  w.call env (.setLen f.path size) (fun _ t => t)
    (fun t => t.modify (env.locate f.path) (Slices.resize size))

/-- `File::seek(SeekFrom::Start(offset))`. -/
def seek (env : Env) (w : World) (f : File) (offset : ℕ) : Except IoError Unit × World :=
  match w.call env (.seek f.path offset) (fun _ t => t) (fun t => .ok t) with
  | (.ok (), w) => (.ok (), { w with cursor := offset })
  | (.error e, w) => (.error e, w)

/-- Bytes put into an open file at a position. A file that was unlinked while open takes the
bytes out of sight. -/
def putAt (env : Env) (f : File) (pos : ℕ) (chunk : Bytes) (t : Tree) : Tree :=
  (t.modify (env.locate f.path) fun d => Slices.overwrite d pos chunk).toOption.getD t

/-- `File::write_all`, at the current position. A failing call may have written a prefix. -/
def writeAll (env : Env) (w : World) (f : File) (chunk : Bytes) : Except IoError Unit × World :=
  match w.call env (.write f.path w.cursor chunk.length)
      (fun k t => putAt env f w.cursor (chunk.take k) t)
      (fun t => .ok (putAt env f w.cursor chunk t)) with
  | (.ok (), w) => (.ok (), { w with cursor := w.cursor + chunk.length })
  | (.error e, w) => (.error e, w)

/-- `fs::remove_file`. -/
def removeFile (env : Env) (w : World) (p : Path) : Except IoError Unit × World :=
  w.call env (.removeFile p) (fun _ t => t) (fun t => onFile env p fun l => t.unlink l)

/-- `fs::rename` of a file. -/
def rename (env : Env) (w : World) (source target : Path) : Except IoError Unit × World :=
  w.call env (.rename source target) (fun _ t => t)
    (fun t => onFile env target fun l => t.rename (env.locate source) l)

/-- `Path::exists`. -/
def pathExists (env : Env) (w : World) (p : Path) : Bool × World :=
  match w.call env (.metadata p) (fun _ t => t) (fun t => .ok t) with
  | (.ok (), w) => ((w.fs.node (env.locate p)).isSome, w)
  | (.error _, w) => (false, w)

/-- `Path::metadata().map(|m| m.len()).unwrap_or(0)`. -/
def fileLen (env : Env) (w : World) (p : Path) : ℕ × World :=
  match w.call env (.metadata p) (fun _ t => t) (fun t => .ok t) with
  | (.ok (), w) => (((w.fs.contents (env.locate p)).map List.length).getD 0, w)
  | (.error _, w) => (0, w)

end World

end DataDiode
