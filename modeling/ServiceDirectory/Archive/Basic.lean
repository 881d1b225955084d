import ServiceDirectory.Service.Codec
import ServiceDirectory.Service.Reply
import ServiceDirectory.Text.Utf8

/-!
# The archive

Snapshots are kept on disk in a table with one row per service name and clusters
text. Rows are read in the order in which they first came in. Others may put rows
there that hold anything in any of their columns: a row whose document is no service
is passed over, but one of which some column is not even text fails the reading.
-/

namespace ServiceDirectory

/-- What stands in a column of a row. -/
inductive Cell where
  | text (text : String)
  /-- What the table takes for text, though its bytes spell none. -/
  | garbled (bytes : List UInt8) (illFormed : Text.Utf8.text? bytes = none)
  /-- Bytes that the table does not take for text. -/
  | blob (bytes : List UInt8)
  deriving DecidableEq

namespace Cell

/-- The text in a column, if there is one. -/
def text? : Cell → Option String
  | .text s => some s
  | .garbled .. | .blob _ => none

def isText (cell : Cell) : Bool := cell.text?.isSome

end Cell

structure Row where
  name : Cell
  clusters : Cell
  payload : Cell
  deriving DecidableEq

namespace Row

/-- Whether all columns are texts, whatever these say. -/
def isText (r : Row) : Bool := r.name.isText && r.clusters.isText && r.payload.isText

def sameSlot (a b : Row) : Bool := a.name == b.name && a.clusters == b.clusters

/-- The row of a snapshot, under its key. -/
def ofService (s : Service) : Row := ⟨.text s.key.name, .text s.key.clusters, .text s.print⟩

/-- The key that a row is for, in whatever spelling its clusters are. -/
def key? (r : Row) : Option ServiceKey :=
  match r.name.text?, r.clusters.text? with
  | some name, some clusters => some (ServiceKey.of name clusters)
  | _, _ => none

/-- The snapshot that a row holds, if its payload is the text of one. -/
def snapshot? (r : Row) : Option Service := r.payload.text?.bind Service.decode?

/-- What the row contributes to a reading; its key comes from the row, not from the service. -/
def reading? (r : Row) : Option (ServiceKey × Service) :=
  match r.key?, r.snapshot? with
  | some key, some service => some (key, service)
  | _, _ => none

end Row

/-- What can go wrong with the archive. -/
inductive ArchiveError where
  | createDirectory (path : String)
  | openDatabase (path : String)
  /-- The file is no database. -/
  | enableLog
  | write
  | prepare
  | collect
  deriving DecidableEq

def ArchiveError.message : ArchiveError → String
  | .createDirectory path => "Failed to create directory: " ++ path
  | .openDatabase path => "Failed to open database: " ++ path
  | .enableLog => "Failed to enable WAL mode"
  | .write => "Failed to write service"
  | .prepare => "Failed to prepare query"
  | .collect => "Failed to collect services"

/-- The table as a connection knows it. -/
inductive Table where
  | rows (rows : List Row)
  /-- Dropped by someone else; `noticed` once a statement has failed on it. -/
  | dropped (noticed : Bool)
  deriving DecidableEq

/-- An open archive. -/
structure Archive where
  table : Table := .rows []
  deriving DecidableEq

namespace Archive

/-- The rows after a snapshot is put in its slot, at the end if there is none yet. -/
def upsert (rows : List Row) (row : Row) : List Row :=
  if rows.any (·.sameSlot row) then rows.map fun r => if r.sameSlot row then row else r
  else rows ++ [row]

/-- The entries of rows; of several rows for one key the last one counts. -/
def entries (rows : List Row) : KeyMap ServiceKey Service :=
  KeyMap.ofList (rows.filterMap Row.reading?)

/-- Put a snapshot in place of the one with its key. -/
def write (archive : Archive) (s : Service) : Except ArchiveError Unit × Archive :=
  match archive.table with
  | .rows rows => (.ok (), ⟨.rows (upsert rows (Row.ofService s))⟩)
  | .dropped _ => (.error .write, ⟨.dropped true⟩)

/-- All snapshots by key. -/
def read (archive : Archive) : Except ArchiveError (KeyMap ServiceKey Service) × Archive :=
  match archive.table with
  | .rows rows =>
    if rows.all Row.isText then (.ok (entries rows), archive)
    else (.error .collect, archive)
  | .dropped noticed => (.error (if noticed then .prepare else .collect), ⟨.dropped true⟩)

/-- Put a row in its slot and at the end of the table, as others may do. -/
def putRow (archive : Archive) (row : Row) : Archive :=
  match archive.table with
  | .rows rows => ⟨.rows (rows.filter (!·.sameSlot row) ++ [row])⟩
  | .dropped _ => archive

/-- Drop the table, as others may do. -/
def dropTable (archive : Archive) : Archive :=
  match archive.table with
  | .rows _ => ⟨.dropped false⟩
  | .dropped _ => archive

end Archive

/-! ## Opening -/

/-- What stands at the place of the database file. -/
inductive Medium where
  | absent
  | directory
  /-- A file of this many bytes that is no database; one byte counts as none. -/
  | file (size : Nat)
  | database (table : Table)

/-- A place to open an archive at. -/
structure Place where
  /-- The directory of the file; `none` for an archive in memory. -/
  directory : Option String
  /-- Whether a file stands where the directory or one above it should be. -/
  blocked : Bool := false
  medium : Medium := .absent

namespace Archive

def fileName : String := "services.db"

/-- Open an archive, with an empty table unless there is one. -/
def openAt (place : Place) : Except ArchiveError Archive :=
  match place.directory with
  | none => .ok {}
  | some directory =>
    if place.blocked then .error (.createDirectory directory)
    else
      match place.medium with
      | .absent | .database (.dropped _) => .ok {}
      | .directory => .error (.openDatabase (directory ++ "/" ++ fileName))
      | .file size => if size ≤ 1 then .ok {} else .error .enableLog
      | .database (.rows rows) => .ok ⟨.rows rows⟩

/-- Close an archive and open it again: what is on disk stays, what is in memory is gone. -/
def reopen (place : Place) (archive : Archive) : Except ArchiveError Archive :=
  openAt { place with medium := .database archive.table }

end Archive

end ServiceDirectory
