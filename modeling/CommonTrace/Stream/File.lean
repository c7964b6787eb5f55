import CommonTrace.Packet.Indexing
import CommonTrace.Path

/-!
# Stream files

An opened stream file: its bytes, the metadata it is read with, and the index of its
packets, all of which are of one stream class. It has at least one packet.
-/
namespace CommonTrace

/-- A file to be read as a stream: its path and its bytes, or why they cannot be read. -/
structure Input where
  path : String
  content : Except FileProblem ByteArray

/-- An opened stream file. -/
structure StreamFile where
  path : String
  bytes : ByteArray
  metadata : Metadata
  streamClass : StreamClass
  index : PacketIndex

namespace StreamFile

/-- Opens a stream file. -/
def ofInput (metadata : Metadata) (policy : LostEventsPolicy) (input : Input) :
    Except Error StreamFile := do
  let bytes ← input.content.mapError .file
  if bytes.size = 0 then
    throw (.emptyStream input.path)
  match ← PacketIndex.build metadata policy bytes with
  | (index, some streamClass) =>
    if index.entries.isEmpty then throw (.emptyStream input.path)
    return { path := input.path, bytes, metadata, streamClass, index }
  | (_, none) => throw (.emptyStream input.path)

/-- The properties of a stream by name, in the order in which they are reported. -/
def properties (f : StreamFile) : List (String × AttributeValue) :=
  let number (n : Nat) := AttributeValue.integer n
  let target := f.index.entries[0]?.map (·.target)
  ((Path.fileName? f.path).toList.map fun name => ("stream.name", .string name))
    ++ [("stream.path", .string f.path), ("stream.id", number f.streamClass.id),
      ("stream.packet_count", number f.index.entries.size)]
    ++ (f.index.timestampBegin?.toList.map fun t => ("stream.timestamp_begin", number t))
    ++ (f.index.timestampEnd?.toList.map fun t => ("stream.timestamp_end", number t))
    ++ [("stream.lost_events", number (wrap f.index.lostEvents))]
    ++ ((target.bind (·.name)).toList.map fun name => ("stream.target.name", .string name))
    ++ ((target.filter (·.isKnown)).toList.map fun t => ("stream.target.id", .integer t.id))

end StreamFile

end CommonTrace
