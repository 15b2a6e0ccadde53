import PaminMemory.Foundation.Disk
import PaminMemory.Tokenizer.Describing

/-!
# Loading vocabularies

Processes of one release or another load tokenizers over one directory of built tries.  In a
process one vocabulary is loaded at a time, under a lock, and found again while any tokenizer
holds it; a trie that was built is written beside its place and renamed into it, and a trie that
is read is taken only where its own digest stands in front of it.
-/

namespace PaminMemory
namespace Tokenizer

open Foundation
open Reranking (Digest)

/-- What the place of one write is called after, in place of the last part of its format. -/
def stem (format : String) : String :=
  String.ofList
    ((('.' :: format.toList).reverse.dropWhile fun character => character ≠ '.').tail).reverse

inductive Place where
  | trie (key : Digest) (format : String)
  | beside (key : Digest) (stem : String) (pid number : Nat)
deriving DecidableEq

def sealed (sha256 : List UInt8 -> Digest) (bytes : List UInt8) : List UInt8 :=
  (sha256 bytes).val ++ bytes

def Sealed (sha256 : List UInt8 -> Digest) (content : List UInt8) : Prop :=
  content.take 32 = (sha256 (content.drop 32)).val

instance decidableSealed {sha256 : List UInt8 -> Digest} {content : List UInt8} :
    Decidable (Sealed sha256 content) := by
  unfold Sealed
  infer_instance

def readTrie (sha256 : List UInt8 -> Digest) (layout : Layout)
    (file : Option (List UInt8)) : Option Trie :=
  match file with
  | none => none
  | some content =>
      if Sealed sha256 content then layout.opened (content.drop 32) else none

/-!
## A process that loads

What is built is listed by its key while a tokenizer holds it; the list keeps what nobody holds
until the next load.
-/

/-- A vocabulary in use: how many tokenizers hold it. -/
structure Entry (Other : Type) where
  key : Digest
  model : Loaded Other
  users : Nat

/-- How far the load under the lock is. -/
inductive Phase where
  | idle
  /-- The section's vocabulary is to be looked for among those that were in use. -/
  | looking (model : Json)
  | missing (model : Json)
  /-- The trie that was built is written, so many of the file's bytes by now. -/
  | keeping (model : Json) (bytes : List UInt8) (written : Option Nat)

structure Process (Other : Type) where
  /-- The format its release names in the places of tries. -/
  format : String
  loaded : List (Entry Other)
  /-- How many tries it has begun to write. -/
  writes : Nat
  phase : Phase

structure Given (Other : Type) where
  format : String
  model : Json
  result : Option (Loaded Other)

structure Machine (Other : Type) where
  disk : Disk Place
  processes : Nat -> Option (Process Other)
  /-- Everything that was hashed. -/
  hashed : List (List UInt8)
  given : List (Given Other)

inductive Action where
  | start (pid : Nat) (format : String)
  | load (pid : Nat) (model : Json)
  | look (pid : Nat)
  /-- Builds the model; outside a load of a tokenizer no tries are kept. -/
  | build (pid : Nat) (keeps : Bool)
  | create (pid : Nat)
  | extend (pid : Nat) (written : Nat)
  | rename (pid : Nat)
  /-- The write fails; what it wrote may stay. -/
  | fail (pid : Nat) (removed : Bool)
  | release (pid : Nat) (key : Digest)
  | die (pid : Nat)
  /-- Others put something in the place of a trie. -/
  | spoil (key : Digest) (format : String) (content : List UInt8)
  | lose (place : Place)
  | powerLoss (left : Place -> Option (Nat × Nat))

section Loading

variable {Other : Type} (tools : Tools Other) (layout : String -> Layout)

def Machine.empty : Machine Other :=
  { disk := Disk.empty, processes := fun _ => none, hashed := [], given := [] }

def keyOf (model : Json) : Digest := tools.sha256 (tools.write (canonical model))

def Process.fresh (format : String) : Process Other :=
  { format := format, loaded := [], writes := 0, phase := Phase.idle }

def inUse (loaded : List (Entry Other)) : List (Entry Other) :=
  loaded.filter fun entry => 0 < entry.users

def taken (key : Digest) (loaded : List (Entry Other)) : List (Entry Other) :=
  loaded.map fun entry => if entry.key = key then { entry with users := entry.users + 1 } else entry

def released (key : Digest) (loaded : List (Entry Other)) : List (Entry Other) :=
  loaded.map fun entry => if entry.key = key then { entry with users := entry.users - 1 } else entry

variable {tools}

def Machine.withProcess (machine : Machine Other) (pid : Nat) (process : Process Other) :
    Machine Other :=
  { machine with processes := Function.update machine.processes pid (some process) }

/-- The load ends: its model is listed where there is one, and given. -/
def Machine.settle (machine : Machine Other) (pid : Nat) (process : Process Other) (key : Digest)
    (model : Json) (result : Option (Loaded Other)) : Machine Other :=
  { machine.withProcess pid
      { process with
        loaded := process.loaded ++
          (result.map fun model => { key := key, model := model, users := 1 }).toList
        phase := Phase.idle } with
    given := { format := process.format, model := model, result := result } :: machine.given }

variable (tools)

/-!
## The steps of a load

The list is cleared of what nobody holds, the section's vocabulary is looked for, and only then is
one built; tokenizers are let go at any time between.
-/

def Machine.load (machine : Machine Other) (pid : Nat) (process : Process Other) (model : Json) :
    Machine Other :=
  { machine.withProcess pid
      { process with loaded := inUse process.loaded, phase := Phase.looking model } with
    hashed := tools.write (canonical model) :: machine.hashed }

/-- Looks for the section's vocabulary, which the last tokenizer of it may have let go since. -/
def Machine.look (machine : Machine Other) (pid : Nat) (process : Process Other) (model : Json) :
    Machine Other :=
  let key := keyOf tools model
  let listed := process.loaded.find? fun entry => entry.key = key
  match listed.filter fun entry => 0 < entry.users with
  | some entry =>
      { machine.withProcess pid
          { process with loaded := taken key process.loaded, phase := Phase.idle } with
        given :=
          { format := process.format, model := model, result := some entry.model } ::
            machine.given }
  | none => machine.withProcess pid { process with phase := Phase.missing model }

def Machine.found (machine : Machine Other) (format : String) (model : Json) (keeps : Bool) :
    Option (List UInt8) :=
  if keeps && (Described.held (canonical model)).isSome then
    machine.disk.files (Place.trie (keyOf tools model) format)
  else
    none

def Machine.summing (machine : Machine Other) (file : Option (List UInt8)) : Machine Other :=
  { machine with hashed := (file.map (List.drop 32)).toList ++ machine.hashed }

def Machine.build (machine : Machine Other) (pid : Nat) (process : Process Other) (model : Json)
    (keeps : Bool) : Machine Other :=
  let file := machine.found tools process.format model keeps
  let stored := readTrie tools.sha256 (layout process.format) file
  let read := machine.summing file
  match Loaded.built (layout process.format) (canonical model) stored, keeps with
  | some bytes, true =>
      { read.withProcess pid
          { process with
            writes := process.writes + 1
            phase := Phase.keeping model bytes none } with
        hashed := bytes :: read.hashed }
  | _, _ =>
      read.settle pid process (keyOf tools model) model
        (Loaded.new tools (layout process.format) (canonical model) stored)

def Process.besides (pid : Nat) (process : Process Other) (model : Json) : Place :=
  Place.beside (keyOf tools model) (stem process.format) pid (process.writes - 1)

def Machine.kept (machine : Machine Other) (pid : Nat) (process : Process Other) (model : Json) :
    Machine Other :=
  machine.settle pid process (keyOf tools model) model
    (Loaded.new tools (layout process.format) (canonical model) none)

def advance (machine : Machine Other) (pid : Nat) (process : Process Other) :
    Action -> Option (Machine Other)
  | Action.load _ model =>
      match process.phase with
      | Phase.idle => some (machine.load tools pid process model)
      | _ => none
  | Action.look _ =>
      match process.phase with
      | Phase.looking model => some (machine.look tools pid process model)
      | _ => none
  | Action.build _ keeps =>
      match process.phase with
      | Phase.missing model => some (machine.build tools layout pid process model keeps)
      | _ => none
  | Action.create _ =>
      match process.phase with
      | Phase.keeping model bytes none =>
          some
            { machine.withProcess pid
                { process with phase := Phase.keeping model bytes (some 0) } with
              disk := machine.disk.put (process.besides tools pid model) [] }
      | _ => none
  | Action.extend _ more =>
      match process.phase with
      | Phase.keeping model bytes (some _) =>
          let place := process.besides tools pid model
          some
            { machine.withProcess pid
                { process with phase := Phase.keeping model bytes (some more) } with
              -- What is written to a file that was removed is written nowhere.
              disk :=
                match machine.disk.files place with
                | none => machine.disk
                | some _ => machine.disk.put place ((sealed tools.sha256 bytes).take more) }
      | _ => none
  | Action.rename _ =>
      match process.phase with
      | Phase.keeping model bytes (some written) =>
          if written = (sealed tools.sha256 bytes).length then
            (machine.disk.rename (process.besides tools pid model)
              (Place.trie (keyOf tools model) process.format)).map fun disk =>
                { machine with disk := disk }.kept tools layout pid process model
          else
            none
      | _ => none
  | Action.fail _ removed =>
      match process.phase with
      | Phase.keeping model _ _ =>
          let disk :=
            if removed then machine.disk.remove (process.besides tools pid model)
            else machine.disk
          some ({ machine with disk := disk }.kept tools layout pid process model)
      | _ => none
  | Action.release _ key =>
      some (machine.withProcess pid { process with loaded := released key process.loaded })
  | Action.die _ => some { machine with processes := Function.update machine.processes pid none }
  | _ => none

def Action.pid : Action -> Option Nat
  | load pid _ | look pid | build pid _ | create pid | extend pid _ | rename pid | fail pid _
  | release pid _ | die pid => some pid
  | _ => none

def step (machine : Machine Other) : Action -> Option (Machine Other)
  | Action.start pid format =>
      match machine.processes pid with
      | none => some (machine.withProcess pid (Process.fresh format))
      | some _ => none
  | Action.spoil key format content =>
      some { machine with disk := machine.disk.put (Place.trie key format) content }
  | Action.lose place => some { machine with disk := machine.disk.remove place }
  | Action.powerLoss left =>
      some { machine with disk := machine.disk.lost left, processes := fun _ => none }
  | action =>
      action.pid.bind fun pid =>
        (machine.processes pid).bind fun process =>
          advance tools layout machine pid process action

end Loading

end Tokenizer
end PaminMemory
