import PaminMemory.Ingest.Names

/-!
# Files, their stats and their records

A record is what a file looked like when an ingest last read it.  A file whose stat is what its
record says is left unread.
-/

namespace PaminMemory
namespace Ingest

/-- A file to ingest, and the name its sections go by. -/
structure File where
  name : String
  path : String
  root : String
deriving DecidableEq, Repr

/-- A directory an ingest walked, and whether the walk read all of it. -/
structure Tree where
  name : String
  root : String
  whole : Bool
deriving DecidableEq, Repr

structure FileRecord where
  root : String
  file : String
  size : Nat
  modifiedNs : Int
  changedNs : Int
  inode : Nat
  readNs : Int
  contentHash : String
  sections : Nat
  build : String
deriving DecidableEq, Repr

/-!
## When a record is trusted
-/

structure Stat where
  size : Nat
  modifiedNs : Int
  changedNs : Int
  inode : Nat
  readNs : Int
deriving DecidableEq, Repr

def Stat.recorded (stat : Stat) (file : File) (contentHash build : String) : FileRecord :=
  { root := file.root, file := file.name, size := stat.size, modifiedNs := stat.modifiedNs
    changedNs := stat.changedNs, inode := stat.inode, readNs := stat.readNs
    contentHash := contentHash, sections := 0, build := build }

def Stat.sameFile (stat : Stat) (record : FileRecord) : Bool :=
  stat.size = record.size && stat.modifiedNs = record.modifiedNs &&
    stat.changedNs = record.changedNs && stat.inode = record.inode

def RACY_NS : Int := 2000000000

def trusted (build : String) (record : FileRecord) (stat : Stat) : Bool :=
  record.build = build && stat.sameFile record &&
    max record.modifiedNs record.changedNs < record.readNs - RACY_NS

def FileRecord.key (record : FileRecord) : String × String := (record.root, record.file)

def File.key (file : File) : String × String := (file.root, file.name)

def MAX_SECTIONS : Nat := 2147483647

def FileRecord.stored (record : FileRecord) : FileRecord :=
  { record with sections := min record.sections MAX_SECTIONS }

def FileRecord.Like (record other : FileRecord) : Prop :=
  record.key = other.key ∧ record.contentHash = other.contentHash ∧ record.build = other.build

instance (record other : FileRecord) : Decidable (record.Like other) := by
  unfold FileRecord.Like
  infer_instance

/-- Files are told apart by the roots and names their records are stored under. -/
scoped instance lawfulKeys : LawfulBEq (String × String) := inferInstance

/-!
## The records of a project
-/

abbrev Records := List FileRecord

namespace Records

def of (records : Records) (keys : List (String × String)) : Records :=
  keys.flatMap fun key => records.filter fun record => record.key = key

def startingWith (records : Records) (root start : String) : Records :=
  records.filter fun record => record.root = root && start.toList.isPrefixOf record.file.toList

def put (records new : Records) : Records :=
  (records.filter fun record => record.key ∉ new.map FileRecord.key) ++
    new.map FileRecord.stored

def forget (records : Records) (keys : List (String × String)) : Records :=
  records.filter fun record => record.key ∉ keys

def forgetFiles (records : Records) (files : List String) : Records :=
  records.filter fun record => record.file ∉ files

end Records

end Ingest
end PaminMemory
