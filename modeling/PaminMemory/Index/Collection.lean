import PaminMemory.Foundation.Runs
import PaminMemory.Identifiers
import Mathlib.Data.List.AList
import Mathlib.Data.List.Sort
import Mathlib.Data.List.Dedup

/-!
# The engine's collection

The engine keeps one document for each span of a topic, under a key made of the topic
and the span's ordinal.  A call of the index is a list of calls to the engine, and what
stops it, an error or the end of the process, leaves the ones made before.
-/

namespace PaminMemory
namespace Index

inductive Passage where
  | content
  | named
deriving DecidableEq, Repr

/-- What a collection was created to record. -/
structure Settings where
  passage : Passage
  encodings : Bool
  headers : Bool
deriving DecidableEq, Repr

/-- A span of a topic as a write gives it. -/
structure SpanDocument (vector : Type) where
  topic : TopicId
  ordinal : Nat
  content : String
  header : Option String
  embedding : vector
deriving DecidableEq, Repr

structure Document (code : Type) where
  content : String
  header : Option String
  encoding : Option String
  embedding : code
deriving DecidableEq, Repr

abbrev Key := TopicId × Nat

def Key.next (key : Key) : Key := (key.1, key.2 + 1)

abbrev Collection (code : Type) := AList fun _ : Key => Document code

def WRITE_BATCH : Nat := 1024

section Chunks

variable {α : Type}

def chunksFrom (size : Nat) : Nat -> List α -> List (List α)
  | 0, _ => []
  | _ + 1, [] => []
  | n + 1, first :: rest =>
      (first :: rest).take size :: chunksFrom size n ((first :: rest).drop size)

def chunks (size : Nat) (entries : List α) : List (List α) :=
  chunksFrom size entries.length entries

theorem chunksFrom_flatten {size : Nat} (hsize : 0 < size) (n : Nat) (entries : List α)
    (hlength : entries.length <= n) : (chunksFrom size n entries).flatten = entries := by
  induction n generalizing entries with
  | zero =>
      cases entries with
      | nil => rfl
      | cons first rest => cases hlength
  | succ n ih =>
      cases entries with
      | nil => rfl
      | cons first rest =>
          have hshorter : ((first :: rest).drop size).length <= n := by
            rw [List.length_drop]
            simp only [List.length_cons] at hlength ⊢
            omega
          rw [chunksFrom, List.flatten_cons, ih _ hshorter, List.take_append_drop]

theorem chunks_flatten {size : Nat} (hsize : 0 < size) (entries : List α) :
    (chunks size entries).flatten = entries :=
  chunksFrom_flatten hsize _ entries (Nat.le_refl _)

theorem chunksFrom_fuel {size : Nat} (hsize : 0 < size) (n : Nat) (entries : List α)
    (hlength : entries.length <= n) : chunksFrom size n entries = chunks size entries := by
  unfold chunks
  generalize hm : entries.length = m
  have hle : entries.length <= m := Nat.le_of_eq hm
  clear hm
  induction n generalizing m entries with
  | zero =>
      cases entries with
      | nil => cases m <;> rfl
      | cons first rest => cases hlength
  | succ n ih =>
      cases entries with
      | nil => cases m <;> rfl
      | cons first rest =>
          cases m with
          | zero => cases hle
          | succ m =>
              have hshort : forall k, (first :: rest).length <= k + 1 ->
                  ((first :: rest).drop size).length <= k := by
                intro k hk
                rw [List.length_drop]
                simp only [List.length_cons] at hk ⊢
                omega
              rw [chunksFrom, chunksFrom, ih _ (hshort n hlength) m (hshort m hle)]

theorem chunks_of_ne_nil {size : Nat} (hsize : 0 < size) {entries : List α}
    (hne : entries ≠ []) :
    chunks size entries = entries.take size :: chunks size (entries.drop size) := by
  cases entries with
  | nil => exact absurd rfl hne
  | cons first rest =>
      have hlength : ((first :: rest).drop size).length <= rest.length := by
        rw [List.length_drop, List.length_cons]
        omega
      rw [← chunksFrom_fuel hsize rest.length _ hlength]
      rfl

theorem mem_of_mem_chunks {size : Nat} (hsize : 0 < size) {entries chunk : List α} {entry : α}
    (hchunk : chunk ∈ chunks size entries) (hmem : entry ∈ chunk) : entry ∈ entries := by
  rw [← chunks_flatten hsize entries]
  exact List.mem_flatten.mpr ⟨chunk, hchunk, hmem⟩

theorem chunk_nodup {size : Nat} (hsize : 0 < size) {entries chunk : List α}
    (hnodup : entries.Nodup) (hchunk : chunk ∈ chunks size entries) : chunk.Nodup := by
  rw [← chunks_flatten hsize entries] at hnodup
  exact hnodup.sublist (List.sublist_flatten_of_mem hchunk)

end Chunks

/-!
## Calls to the engine
-/

section Engine

variable {code : Type}

inductive EngineCall (code : Type) where
  | fetch (keys : List Key)
  | upsert (documents : List (Key × Document code))
  | delete (keys : List Key)

def upsertAll (documents : List (Key × Document code)) (collection : Collection code) :
    Collection code :=
  documents.foldl (fun held entry => held.insert entry.1 entry.2) collection

def deleteAll (keys : List Key) (collection : Collection code) : Collection code :=
  keys.foldl (fun held key => held.erase key) collection

def EngineCall.run (collection : Collection code) : EngineCall code -> Collection code
  | fetch _ => collection
  | upsert documents => upsertAll documents collection
  | delete keys => deleteAll keys collection

def perform (calls : List (EngineCall code)) (collection : Collection code) :
    Collection code :=
  calls.foldl EngineCall.run collection

def Held (collection : Collection code) (key : Key) : Prop :=
  (collection.lookup key).isSome

instance (collection : Collection code) : DecidablePred (Held collection) := by
  intro key
  unfold Held
  infer_instance

def given (documents : List (Key × Document code)) (key : Key) : Option (Document code) :=
  (documents.reverse.find? fun entry => entry.1 = key).map Prod.snd

variable {collection : Collection code}

theorem perform_append (first second : List (EngineCall code)) :
    perform (first ++ second) collection = perform second (perform first collection) := by
  unfold perform
  rw [List.foldl_append]

theorem lookup_deleteAll (keys : List Key) (key : Key) :
    (deleteAll keys collection).lookup key =
      if key ∈ keys then none else collection.lookup key := by
  induction keys generalizing collection with
  | nil => rfl
  | cons first rest ih =>
      unfold deleteAll at ih ⊢
      rw [List.foldl_cons, ih]
      by_cases hrest : key ∈ rest
      · simp [hrest]
      · rw [if_neg hrest]
        by_cases hfirst : key = first
        · rw [hfirst, if_pos List.mem_cons_self, AList.lookup_erase]
        · rw [AList.lookup_erase_ne hfirst, if_neg (by simp [hfirst, hrest])]

theorem given_cons (entry : Key × Document code) (rest : List (Key × Document code))
    (key : Key) : given (entry :: rest) key =
      (given rest key).or (if entry.1 = key then some entry.2 else none) := by
  unfold given
  rw [List.reverse_cons, List.find?_append]
  cases hrest : rest.reverse.find? fun other => other.1 = key with
  | some other => rfl
  | none =>
      by_cases hkey : entry.1 = key
      · simp [hkey]
      · simp [hkey]

theorem given_mem {entries : List (Key × Document code)} {key : Key} {document : Document code}
    (h : given entries key = some document) : (key, document) ∈ entries := by
  unfold given at h
  rcases Option.map_eq_some_iff.mp h with ⟨entry, hfound, rfl⟩
  have hkey : entry.1 = key := by simpa using List.find?_some hfound
  rw [← hkey]
  exact List.mem_reverse.mp (List.mem_of_find?_eq_some hfound)

theorem lookup_upsertAll (documents : List (Key × Document code)) (key : Key) :
    (upsertAll documents collection).lookup key =
      (given documents key).or (collection.lookup key) := by
  induction documents generalizing collection with
  | nil => rfl
  | cons entry rest ih =>
      unfold upsertAll at ih ⊢
      rw [List.foldl_cons, ih, given_cons]
      by_cases hkey : entry.1 = key
      · rw [← hkey, AList.lookup_insert, if_pos rfl]
        cases given rest entry.1 <;> rfl
      · have hother : key ≠ entry.1 := fun hsame => hkey hsame.symm
        rw [AList.lookup_insert_ne hother, if_neg hkey, Option.or_none]

theorem perform_upserts (documents : List (Key × Document code)) :
    perform ((chunks WRITE_BATCH documents).map EngineCall.upsert) collection =
      upsertAll documents collection := by
  have hall := chunks_flatten (show 0 < WRITE_BATCH by decide) documents
  unfold perform upsertAll
  rw [List.foldl_map]
  conv_rhs => rw [← hall, List.foldl_flatten]
  rfl

theorem perform_deletes (keys : List Key) :
    perform ((chunks WRITE_BATCH keys).map EngineCall.delete) collection =
      deleteAll keys collection := by
  have hall := chunks_flatten (show 0 < WRITE_BATCH by decide) keys
  unfold perform deleteAll
  rw [List.foldl_map]
  conv_rhs => rw [← hall, List.foldl_flatten]
  rfl

theorem perform_fetches (keys : List (List Key)) :
    perform (keys.map EngineCall.fetch) collection = collection := by
  unfold perform
  rw [List.foldl_map]
  induction keys with
  | nil => rfl
  | cons first rest ih => exact ih

/-!
## What a list of the engine's calls may change
-/

def EngineCall.Within (topics : List TopicId) : EngineCall code -> Prop
  | fetch _ => True
  | upsert documents => forall entry, entry ∈ documents -> entry.1.1 ∈ topics
  | delete keys => forall key, key ∈ keys -> key.1 ∈ topics

theorem lookup_run_other {topics : List TopicId} {call : EngineCall code}
    (h : call.Within topics) {key : Key} (hnot : key.1 ∉ topics) :
    (call.run collection).lookup key = collection.lookup key := by
  cases call with
  | fetch keys => rfl
  | upsert documents =>
      have hnone : given documents key = none := by
        unfold given
        rw [Option.map_eq_none_iff, List.find?_eq_none]
        intro entry hentry hsame
        rw [decide_eq_true_eq] at hsame
        exact hnot (hsame ▸ h entry (List.mem_reverse.mp hentry))
      rw [EngineCall.run, lookup_upsertAll, hnone]
      rfl
  | delete keys =>
      rw [EngineCall.run, lookup_deleteAll, if_neg]
      intro hmem
      exact hnot (h key hmem)

theorem lookup_perform_other {topics : List TopicId} {calls : List (EngineCall code)}
    (h : forall call, call ∈ calls -> call.Within topics) {key : Key} (hnot : key.1 ∉ topics) :
    (perform calls collection).lookup key = collection.lookup key := by
  induction calls generalizing collection with
  | nil => rfl
  | cons call rest ih =>
      have hrest : (perform rest (call.run collection)).lookup key =
          (call.run collection).lookup key :=
        ih fun other hother => h other (List.mem_cons_of_mem _ hother)
      exact hrest.trans (lookup_run_other (h call List.mem_cons_self) hnot)

theorem perform_documents {P : Key -> Document code -> Prop} {calls : List (EngineCall code)}
    (hwrites : forall documents, EngineCall.upsert documents ∈ calls ->
      forall entry, entry ∈ documents -> P entry.1 entry.2)
    (hkept : forall key document, collection.lookup key = some document -> P key document) :
    forall key document, (perform calls collection).lookup key = some document ->
      P key document := by
  induction calls generalizing collection with
  | nil => exact hkept
  | cons call rest ih =>
      apply ih fun documents hmem => hwrites documents (List.mem_cons_of_mem _ hmem)
      intro key document hlookup
      cases call with
      | fetch keys => exact hkept key document hlookup
      | upsert documents =>
          rw [EngineCall.run, lookup_upsertAll] at hlookup
          cases hgiven : given documents key with
          | none =>
              rw [hgiven] at hlookup
              exact hkept key document hlookup
          | some written =>
              rw [hgiven] at hlookup
              cases hlookup
              exact hwrites documents List.mem_cons_self _ (given_mem hgiven)
      | delete keys =>
          rw [EngineCall.run, lookup_deleteAll] at hlookup
          split at hlookup
          · cases hlookup
          · exact hkept key document hlookup

/-!
## Reading a topic
-/

def spansFrom (collection : Collection code) (topic : TopicId) :
    Nat -> Nat -> List (Document code)
  | 0, _ => []
  | n + 1, ordinal =>
      match collection.lookup (topic, ordinal) with
      | none => []
      | some document => document :: spansFrom collection topic n (ordinal + 1)

/-- The spans of a topic; each read asks for the next ordinal of the topics that had one. -/
def fetch (collection : Collection code) (topic : TopicId) : List (Document code) :=
  spansFrom collection topic collection.entries.length 0

/-- From an ordinal on, the topic's documents have no gap. -/
def Unbroken (collection : Collection code) (topic : TopicId) (ordinal : Nat) : Prop :=
  forall last, ordinal <= last -> Held collection (topic, last) ->
    forall between, ordinal <= between -> between <= last -> Held collection (topic, between)

def ReadWhole (collection : Collection code) (topic : TopicId) : Prop :=
  forall ordinal, (fetch collection topic)[ordinal]? = collection.lookup (topic, ordinal)

theorem row_le {topic : TopicId} {ordinal n : Nat}
    (h : forall k, k < n -> Held collection (topic, ordinal + k)) :
    n <= collection.entries.length := by
  have hnodup : ((List.range n).map fun k => ((topic, ordinal + k) : Key)).Nodup := by
    apply List.Nodup.map _ List.nodup_range
    intro first second hsame
    have hsame : ordinal + first = ordinal + second := congrArg Prod.snd hsame
    omega
  have hkeys : ((List.range n).map fun k => ((topic, ordinal + k) : Key)) ⊆ collection.keys := by
    intro key hkey
    rcases List.mem_map.mp hkey with ⟨k, hk, rfl⟩
    exact AList.mem_keys.mp (AList.lookup_isSome.mp (h k (List.mem_range.mp hk)))
  have hlength := List.Nodup.length_le_of_subset hnodup hkeys
  simpa [AList.keys, List.keys] using hlength

theorem getElem?_spansFrom (topic : TopicId) (n ordinal k : Nat) :
    (spansFrom collection topic n ordinal)[k]? =
      if k < n ∧ forall j, j <= k -> Held collection (topic, ordinal + j) then
        collection.lookup (topic, ordinal + k)
      else none := by
  induction n generalizing ordinal k with
  | zero => simp [spansFrom]
  | succ n ih =>
      rw [spansFrom]
      cases hread : collection.lookup (topic, ordinal) with
      | none =>
          have hmissing : ¬ Held collection (topic, ordinal + 0) := by simp [Held, hread]
          rw [if_neg fun hall => hmissing (hall.2 0 (Nat.zero_le k))]
          rfl
      | some document =>
          have hhere : Held collection (topic, ordinal) := by simp [Held, hread]
          cases k with
          | zero =>
              have hfirst : forall j, j <= 0 -> Held collection (topic, ordinal + j) := by
                intro j hj
                rw [Nat.le_zero.mp hj]
                exact hhere
              rw [if_pos ⟨Nat.succ_pos n, hfirst⟩]
              exact hread.symm
          | succ k =>
              have hshift : ordinal + 1 + k = ordinal + (k + 1) := by omega
              have hall : (k < n ∧ forall j, j <= k -> Held collection (topic, ordinal + 1 + j)) <->
                  (k + 1 < n + 1 ∧
                    forall j, j <= k + 1 -> Held collection (topic, ordinal + j)) := by
                constructor
                · rintro ⟨hlt, hrow⟩
                  refine ⟨Nat.succ_lt_succ hlt, ?_⟩
                  intro j hj
                  cases j with
                  | zero => exact hhere
                  | succ j =>
                      rw [show ordinal + (j + 1) = ordinal + 1 + j by omega]
                      exact hrow j (Nat.le_of_succ_le_succ hj)
                · rintro ⟨hlt, hrow⟩
                  refine ⟨Nat.lt_of_succ_lt_succ hlt, ?_⟩
                  intro j hj
                  rw [show ordinal + 1 + j = ordinal + (j + 1) by omega]
                  exact hrow (j + 1) (Nat.succ_le_succ hj)
              rw [List.getElem?_cons_succ, ih, hshift]
              simp only [hall]

theorem getElem?_fetch (topic : TopicId) (ordinal : Nat) :
    (fetch collection topic)[ordinal]? =
      if forall j, j <= ordinal -> Held collection (topic, j) then
        collection.lookup (topic, ordinal)
      else none := by
  unfold fetch
  rw [getElem?_spansFrom]
  simp only [Nat.zero_add]
  by_cases hrow : forall j, j <= ordinal -> Held collection (topic, j)
  · have hfirst : forall k, k < ordinal + 1 -> Held collection (topic, 0 + k) := by
      intro k hk
      rw [Nat.zero_add]
      exact hrow k (Nat.le_of_lt_succ hk)
    rw [if_pos ⟨row_le hfirst, hrow⟩, if_pos hrow, Nat.zero_add]
  · rw [if_neg fun hall => hrow hall.2, if_neg hrow]

theorem fetch_congr {other : Collection code} {topic : TopicId}
    (h : forall ordinal, other.lookup (topic, ordinal) = collection.lookup (topic, ordinal)) :
    fetch other topic = fetch collection topic := by
  apply List.ext_getElem?
  intro ordinal
  have hheld : forall j, Held other (topic, j) <-> Held collection (topic, j) := by
    intro j
    unfold Held
    rw [h j]
  rw [getElem?_fetch, getElem?_fetch, h ordinal]
  simp only [hheld]

theorem readWhole_iff {topic : TopicId} :
    ReadWhole collection topic <-> Unbroken collection topic 0 := by
  constructor
  · intro hread last _ hlast between _ hbetween
    have hsome : (fetch collection topic)[last]? ≠ none := by
      rw [hread last]
      exact Option.isSome_iff_ne_none.mp hlast
    rw [getElem?_fetch] at hsome
    split at hsome
    · next hrow => exact hrow between hbetween
    · exact absurd rfl hsome
  · intro hunbroken ordinal
    rw [getElem?_fetch]
    by_cases hheld : Held collection (topic, ordinal)
    · rw [if_pos]
      intro j hj
      exact hunbroken ordinal (Nat.zero_le _) hheld j (Nat.zero_le _) hj
    · have hmissing : collection.lookup (topic, ordinal) = none := by simpa [Held] using hheld
      rw [hmissing]
      split <;> rfl

end Engine

end Index
end PaminMemory
