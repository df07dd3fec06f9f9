import Quorum.Ascending
import Quorum.Disk.Slot
import Quorum.Replication.Entry

/-! # The log and its file

A node stores at most one entry for an index, in ascending order of the index. The last entry
that was put at an index is the one that is there. In a file the entries are records: a run of
frames, each a length of four bytes and so many bytes. What is left at the end and is no whole
frame was torn off by an interruption.
-/

/-! ## Records in a file -/

namespace Quorum.Record

/-- A record with its length in front. -/
def frame (record : Bytes) : Bytes :=
  Bytes.littleEndian 4 record.length ++ record

def frames (records : List Bytes) : Bytes :=
  records.flatMap frame

/-- The record of the frame at the front of some bytes, and the bytes after it. -/
def unframe? (bytes : Bytes) : Option (Bytes × Bytes) := do
  let (length, rest) ← bytes.splitAt? 4
  -- A frame with too few bytes behind its length is no whole frame.
  Bytes.splitAt? (Bytes.toNat length) rest

theorem length_of_unframe? {bytes record rest : Bytes} (h : unframe? bytes = some (record, rest)) :
    rest.length + record.length + 4 = bytes.length := by
  simp only [unframe?, Option.bind_eq_bind, Option.bind_eq_some_iff, Prod.exists] at h
  obtain ⟨header, body, hheader, hbody⟩ := h
  obtain ⟨rfl, hlength⟩ := Bytes.eq_append_of_splitAt? hheader
  obtain ⟨rfl, _⟩ := Bytes.eq_append_of_splitAt? hbody
  simp only [List.length_append]
  omega

/-- The records of the whole frames at the front of some bytes, and what is left. -/
def read (bytes : Bytes) : List Bytes × Bytes :=
  match _h : unframe? bytes with
  | none => ([], bytes)
  | some (record, rest) =>
      let (records, tail) := read rest
      (record :: records, tail)
termination_by bytes.length
decreasing_by
  have := length_of_unframe? _h
  omega

end Quorum.Record

namespace Quorum.Slot

/-- The records in the file, and whether something behind them was torn off. Without a file
there are none. -/
def readRecords (slot : Slot) : Except IoCause (List Bytes × Bool) :=
  match slot.read with
  | .error cause => .error cause
  | .ok none => .ok ([], false)
  | .ok (some bytes) =>
      let (records, tail) := Record.read bytes
      .ok (records, !tail.isEmpty)

/-- Adds records at the end of the file. Without records the file is left alone, and is not
made. -/
def addRecords (slot : Slot) (records : List Bytes) : Slot × Except IoCause Unit :=
  match Record.frames records with
  | [] => (slot, .ok ())
  | content => slot.append content

end Quorum.Slot

/-! ## Stored entries -/

namespace Quorum

/-- Stored entries, in ascending order. -/
structure Log where
  entries : List Entry := []
  ascending : Ascending (·.id.index) entries := by exact .nil

namespace Log

def empty : Log := {}

/-- The log with an entry at its index. -/
def insert (log : Log) (entry : Entry) : Log :=
  ⟨Ascending.put (·.id.index) entry log.entries, Ascending.ascending_put log.ascending⟩

/-- The log with some entries, one after the other. -/
def insertAll (log : Log) (entries : List Entry) : Log :=
  entries.foldl insert log

/-- The log of some entries, of which the last of an index counts. -/
def ofEntries (entries : List Entry) : Log :=
  empty.insertAll entries

def filter (log : Log) (test : Entry → Bool) : Log :=
  ⟨log.entries.filter test, log.ascending.filter test⟩

def below (log : Log) (index : UInt64) : Log :=
  log.filter (·.id.index < index)

def since (log : Log) (index : UInt64) : Log :=
  log.filter (index ≤ ·.id.index)

def get? (log : Log) (index : UInt64) : Option Entry :=
  log.entries.find? (·.id.index = index)

/-- The entry of the greatest index. -/
def last? (log : Log) : Option Entry :=
  log.entries.getLast?

/-- The entries from an index up to another one, if there is such a bound. -/
def range (log : Log) (first : UInt64) (bound : Option (UInt64 × Bool)) : List Entry :=
  log.entries.filter fun entry =>
    first ≤ entry.id.index && match bound with
      | none => true
      | some (last, true) => entry.id.index ≤ last
      | some (last, false) => entry.id.index < last

/-- The entries in the binary format, one record each. -/
def records (log : Log) : List Bytes :=
  log.entries.map Entry.format.write

end Log
end Quorum
