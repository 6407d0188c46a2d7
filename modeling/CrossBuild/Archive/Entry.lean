import CrossBuild.Calendar.Date

/-!
Entries of archives, as far as they matter to what is unpacked.
-/

namespace CrossBuild.Archive

/-- What an entry stands for. -/
inductive EntryKind where
  | file
  | directory
  /-- Marked as a file, but with the name of a directory in a format that means a directory by it. -/
  | directoryByName
  /-- A link, a device or anything else that is never unpacked. -/
  | other
  deriving DecidableEq, Repr

structure Entry where
  path : String
  kind : EntryKind
  data : ByteArray
  /-- The modification time in seconds from the start of 1970, if the entry has a readable one. -/
  modified : Option Int
  /-- The permission bits, if the entry has readable ones. -/
  mode : Option Nat

/-- How an archive ends. -/
inductive Ending where
  | complete
  /-- What follows the last entry cannot be read. -/
  | broken
  /-- The data of one more entry ends too soon. -/
  | cut (entry : Entry)

/-- What can be read of an archive. -/
structure Contents where
  entries : List Entry
  ending : Ending

end CrossBuild.Archive
