import CrossBuild.Archive.Entry
import CrossBuild.Archive.Gzip
import CrossBuild.Archive.Header

/-!
Writing archives. An entry whose name does not fit into its header has the name in an entry of its own
before it.
-/

namespace CrossBuild.Archive

/-- The longest name that fits into a header. -/
def headerNameSize : Nat := 100

/-- Data filled up with zeros to whole blocks. -/
def fill (data : ByteArray) : ByteArray :=
  data ++ Bytes.zeros ((blockSize - data.size % blockSize) % blockSize)

/-- An entry before it that holds its name, if that is too long for a header. -/
def longNameBytes (name : List UInt8) : ByteArray :=
  if name.length ≤ headerNameSize then .empty
  else
    (Header.make "././@LongLink".toUTF8.toList 'L' (name.length + 1) 0o644 0).block ++
      fill ⟨(name ++ [0]).toArray⟩

def entryBytes (e : Entry) : ByteArray :=
  let name := e.path.toUTF8.toList
  let type := if e.kind == .directory then '5' else '0'
  longNameBytes name ++
    (Header.make (name.take headerNameSize) type e.data.size (e.mode.getD 0o644) (e.modified.getD 0)).block ++
    fill e.data

/-- A compressed archive of some entries. -/
def encode (entries : List Entry) : ByteArray :=
  Gzip.encode ((entries.map entryBytes).foldl (· ++ ·) .empty ++ Bytes.zeros (2 * blockSize))

end CrossBuild.Archive
