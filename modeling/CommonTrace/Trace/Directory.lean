import CommonTrace.Schema.OfTree
import CommonTrace.Trace.Basic

/-!
# Traces in directories

A trace lies in a directory: the file `metadata` describes it, and every other file holds packets,
except for hidden files, whose names start with a dot.  The files are read in the order of their
names, and directories inside the directory are not entered.

The metadata goes through two steps before it describes anything.  Its text may have to be taken out
of packets, and a grammar, which is supplied by the caller, makes a syntax tree of the text.
-/

namespace CommonTrace

/-- What a name in a directory stands for: the bytes of a file, or another directory. -/
inductive DirectoryEntry where
  | file (data : ByteArray)
  | directory

/-- The entries of a directory by name. -/
abbrev Directory := Dictionary String DirectoryEntry

/-- What makes a syntax tree of the text of metadata, or says why it cannot. -/
abbrev Grammar := String → Except String Tsdl.Node

namespace Directory

def metadataName : String := "metadata"

def metadataBytes (directory : Directory) : Except OpenError ByteArray :=
  match directory.get? metadataName with
  | none => .error .notFound
  | some .directory => .error .isDirectory
  | some (.file data) => .ok data

def metadataText (directory : Directory) : Except OpenError String := do
  let data ← directory.metadataBytes
  (Tsdl.metadataText data.data.toList).mapError .metadataPacket

/-- The bytes of an entry that holds packets. -/
def streamData? (name : String) : DirectoryEntry → Option ByteArray
  | .file data => if name.startsWith "." || name = metadataName then none else some data
  | .directory => none

/-- The files that hold packets, in the order of their names. -/
def streamFiles (directory : Directory) : List (String × ByteArray) :=
  directory.entries.filterMap fun (name, entry) => (streamData? name entry).map (name, ·)

end Directory

def Metadata.ofText (grammar : Grammar) (text : String) : Except OpenError Metadata := do
  let tree ← (grammar text).mapError .grammar
  (Metadata.ofTree tree).mapError .schema

namespace Trace

/-- The trace in a directory, where `place` is how the directory is called. -/
def ofDirectory (place : String) (grammar : Grammar) (options : ReadOptions)
    (directory : Directory) : Except OpenError Trace := do
  let metadata ← Metadata.ofText grammar (← directory.metadataText)
  ofFiles place metadata directory.streamFiles options

/-- The trace in a directory that may not exist. -/
def openDirectory (place : String) (grammar : Grammar) (options : ReadOptions) :
    Option Directory → Except OpenError Trace
  | some directory => ofDirectory place grammar options directory
  | none => .error .notFound

end Trace

end CommonTrace
