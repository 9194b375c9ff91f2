import EvidenceExchange.IoError

namespace EvidenceExchange

inductive Node where
  | file
  | directory
  | symlink (target : String)
  | socket
  deriving DecidableEq

structure Entry where
  id : Nat
  /-- The number of the directory that the entry is in. -/
  parent : Nat
  name : String
  node : Node
  deriving DecidableEq

/-- A tree of named files. Every entry has a number of its own, which it keeps when it is renamed and which
no later entry gets. Paths start at the working directory, number zero. -/
structure FileSystem where
  entries : List Entry
  fresh : Nat
  deriving DecidableEq

/-- Where a path leads. -/
inductive Place where
  | entry (e : Entry)
  /-- A directory that the path ends in without naming it. -/
  | within (directory : Nat)
  | vacant (directory : Nat) (name : String)

namespace FileSystem

def empty : FileSystem := ⟨[], 1⟩

def workingDirectory : Nat := 0

/-- The bytes that a name in a directory may have. -/
def maxName : Nat := 255

/-- A path has fewer bytes than this. -/
def maxPath : Nat := 4096

/-- The number of symbolic links that may be followed for one path. -/
def maxLinks : Nat := 40

def find? (fs : FileSystem) (directory : Nat) (name : String) : Option Entry :=
  fs.entries.find? fun e => e.parent == directory && e.name == name

def byId? (fs : FileSystem) (id : Nat) : Option Entry :=
  fs.entries.find? (·.id == id)

/-- The directory above a directory; the working directory has none above it. -/
def above (fs : FileSystem) (directory : Nat) : Nat :=
  ((fs.byId? directory).map Entry.parent).getD workingDirectory

/-- What lies between the slashes, after the part read before, latest first. -/
def splitSlash : List Char → List Char → List (List Char)
  | earlier, [] => [earlier.reverse]
  | earlier, c :: rest =>
    if c = '/' then earlier.reverse :: splitSlash [] rest else splitSlash (c :: earlier) rest

/-- The names in a path, between its slashes. -/
def names (path : String) : List String :=
  ((splitSlash [] path.toList).filter (!·.isEmpty)).map String.ofList

def endsInSlash (path : String) : Bool :=
  path.toList.getLast? == some '/'

/-- The steps of the way that a path describes: its names, and an empty step for a slash at its end. -/
def steps (path : String) : List String :=
  names path ++ if endsInSlash path then [""] else []

/-- What is looked for at the end of a path. -/
inductive Aim where
  /-- Whatever has the last name, which may be a link. -/
  | named
  /-- What a link at the end leads to. -/
  | target
  /-- What a link at the end leads to, as a file that is made if there is none. No file is made where
  a directory is asked for, whatever may stand there. -/
  | newFile
  deriving DecidableEq

/-- Follows the steps of a way as far as the next link that has to be followed, and from there with
`jump`. -/
def walkTo (fs : FileSystem) (aim : Aim) (jump : Nat → List String → Except IoError Place)
    (directory : Nat) : List String → Except IoError Place
  | [] => .ok (.within directory)
  | name :: rest =>
    if name = "" ∨ name = "." then walkTo fs aim jump directory rest
    else if name = ".." then walkTo fs aim jump (fs.above directory) rest
    else if aim = .newFile ∧ rest = [""] then .error .directory
    else if name.utf8ByteSize > maxName then .error .nameTooLong
    else
      match fs.find? directory name with
      | none => if rest.isEmpty then .ok (.vacant directory name) else .error .noEntry
      | some e =>
        match e.node with
        | .directory =>
          if rest.isEmpty then .ok (.entry e) else walkTo fs aim jump e.id rest
        | .file | .socket => if rest.isEmpty then .ok (.entry e) else .error .notDirectory
        | .symlink target =>
          if rest.isEmpty ∧ aim = .named then .ok (.entry e)
          else if target.isEmpty then .error .noEntry
          else jump directory (steps target ++ rest)

/-- Follows the steps of a way, where each of at most so many links gives way to the steps of its
target. -/
def walk (fs : FileSystem) (aim : Aim) : Nat → Nat → List String → Except IoError Place
  | 0 => walkTo fs aim fun _ _ => .error .tooManyLinks
  | links + 1 => walkTo fs aim (walk fs aim links)

/-- Where a way from the working directory leads. -/
def follow (fs : FileSystem) (aim : Aim) (way : List String) : Except IoError Place :=
  fs.walk aim maxLinks workingDirectory way

def hasNul (path : String) : Bool := path.toList.contains '\x00'

/-- What has to hold of any path. -/
def checkPath (path : String) : Except IoError Unit :=
  if hasNul path then .error .nameHasNul
  else if path.isEmpty then .error .noEntry
  else if path.utf8ByteSize ≥ maxPath then .error .nameTooLong
  else .ok ()

/-- Where a path leads. A slash at its end asks for a directory. -/
def resolve (fs : FileSystem) (aim : Aim) (path : String) : Except IoError Place := do
  checkPath path
  fs.follow aim (steps path)

/-- A name in a directory, where something may stand or not. -/
structure Spot where
  directory : Nat
  name : String

/-- The spot that a way ends at, if its last step is a name. -/
def spotOf? (fs : FileSystem) (way : List String) : Except IoError (Option Spot) :=
  match way.getLast? with
  | none => .ok none
  | some name =>
    match fs.follow .target (way.dropLast ++ [""]) with
    | .error e => .error e
    | .ok (.within directory) =>
      if name = "." ∨ name = ".." then .ok none
      else if name.utf8ByteSize > maxName then .error .nameTooLong
      else .ok (some ⟨directory, name⟩)
    | .ok _ => .error .notDirectory

/-- The spot that a path ends at, whether or not a slash follows the name. -/
def spot? (fs : FileSystem) (path : String) : Except IoError (Option Spot) := do
  checkPath path
  fs.spotOf? (names path)

def occupant? (fs : FileSystem) (p : Spot) : Option Entry := fs.find? p.directory p.name

def create (fs : FileSystem) (directory : Nat) (name : String) (node : Node) : FileSystem :=
  ⟨fs.entries ++ [⟨fs.fresh, directory, name, node⟩], fs.fresh + 1⟩

/-- The numbers of the directories that an entry is in, the nearest first, ending with the working
directory if the entry can be reached from there. -/
def enclosing (fs : FileSystem) : Nat → Nat → List Nat
  | 0, _ => []
  | fuel + 1, directory =>
    if directory = workingDirectory then [directory]
    else
      match fs.byId? directory with
      | some e => directory :: enclosing fs fuel e.parent
      | none => [directory]

def isInside (fs : FileSystem) (id : Nat) (e : Entry) : Bool :=
  (fs.enclosing (fs.entries.length + 1) e.parent).contains id

def isDirectory (e : Entry) : Bool := e.node == .directory

/-- Without what is inside a directory. -/
def clear (fs : FileSystem) (directory : Nat) : FileSystem :=
  { fs with entries := fs.entries.filter fun e => !fs.isInside directory e }

/-- Without an entry and all that is inside it. -/
def erase (fs : FileSystem) (id : Nat) : FileSystem :=
  { fs with entries := fs.entries.filter fun e => e.id != id && !fs.isInside id e }

/-- Opens a regular file for writing, which is made if there is none; links are followed. -/
def openFile (fs : FileSystem) (path : String) : Except IoError (Nat × FileSystem) :=
  match fs.resolve .newFile path with
  | .error e => .error e
  | .ok (.within _) => .error .directory
  | .ok (.vacant directory name) => .ok (fs.fresh, fs.create directory name .file)
  | .ok (.entry e) =>
    match e.node with
    | .file => .ok (e.id, fs)
    | .directory => .error .directory
    | .socket => .error .noDevice
    | .symlink _ => .error .tooManyLinks

/-- What stands at a path, a link at its end not followed. -/
def entryAt? (fs : FileSystem) (path : String) : Option Entry :=
  match fs.resolve .named path with
  | .ok (.entry e) => some e
  | _ => none

/-- Makes an entry where nothing stands yet. A slash after its name asks for a directory, which it is
not. -/
def place (fs : FileSystem) (path : String) (node : Node) : Except IoError (Nat × FileSystem) :=
  match fs.spot? path with
  | .error e => .error e
  | .ok none => .error .alreadyExists
  | .ok (some p) =>
    if (fs.occupant? p).isSome then .error .alreadyExists
    else if endsInSlash path then .error .noEntry
    else .ok (fs.fresh, fs.create p.directory p.name node)

/-- Removes what is no directory; a link is removed itself. -/
def unlink (fs : FileSystem) (path : String) : Except IoError FileSystem :=
  match fs.spot? path with
  | .error e => .error e
  | .ok none => .error .directory
  | .ok (some p) =>
    match fs.occupant? p with
    | none => .error .noEntry
    | some e =>
      if isDirectory e then .error .directory
      else if endsInSlash path then .error .notDirectory
      else .ok (fs.erase e.id)

/-- Removes an empty directory. -/
def removeDirectory (fs : FileSystem) (path : String) : Except IoError FileSystem :=
  match fs.spot? path with
  | .error e => .error e
  | .ok none => .error .invalidArgument
  | .ok (some p) =>
    match fs.occupant? p with
    | none => .error .noEntry
    | some e =>
      if !isDirectory e then .error .notDirectory
      else if fs.entries.any (·.parent == e.id) then .error .notEmpty
      else .ok (fs.erase e.id)

/-- Removes what is inside a directory and then the directory itself, which a path that ends in a dot
or a link does not allow. -/
def removeTree (fs : FileSystem) (directory : Nat) (path : String) : Bool × FileSystem :=
  let fs := fs.clear directory
  match fs.removeDirectory path with
  | .ok fs => (true, fs)
  | .error e => (e == .noEntry, fs)

/-- Removes what stands at a path, a directory with all that is inside it, and says whether that
succeeded. -/
def removeAll (fs : FileSystem) (path : String) : Bool × FileSystem :=
  match fs.resolve .named path with
  | .ok (.within directory) => fs.removeTree directory path
  | .ok (.entry e) =>
    if isDirectory e then fs.removeTree e.id path
    else
      match fs.unlink path with
      | .ok fs => (true, fs)
      | .error _ => (false, fs)
  | _ => (false, fs)

/-- Makes a link. Its target is any path, whether or not that leads anywhere. -/
def link (fs : FileSystem) (path target : String) : Except IoError FileSystem := do
  checkPath target
  let (_, fs) ← fs.place path (.symlink target)
  return fs

/-- Makes one directory. -/
def makeDirectory (fs : FileSystem) (way : List String) : Except IoError FileSystem :=
  match fs.spotOf? way with
  | .error e => .error e
  | .ok none => .error .alreadyExists
  | .ok (some p) =>
    if (fs.occupant? p).isSome then .error .alreadyExists
    else .ok (fs.create p.directory p.name .directory)

def leadsToDirectory (fs : FileSystem) (way : List String) : Bool :=
  match fs.follow .target way with
  | .ok (.within _) => true
  | .ok (.entry e) => isDirectory e
  | _ => false

/-- Makes one directory, and says whether there is one now. -/
def makeOrKeep (fs : FileSystem) (way : List String) : Bool × FileSystem :=
  match fs.makeDirectory way with
  | .ok fs => (true, fs)
  | .error _ => (fs.leadsToDirectory way, fs)

/-- Makes a directory, and before it those that it is in, the nearest of which comes first in the list,
if one of them is missing. Those that were made stay when a later one fails. -/
def makeWithin (fs : FileSystem) (way : List String) : List (List String) → Bool × FileSystem
  | [] => fs.makeOrKeep way
  | outer :: further =>
    match fs.makeDirectory way with
    | .ok fs => (true, fs)
    | .error e =>
      if e = .noEntry then
        match makeWithin fs outer further with
        | (true, fs) => fs.makeOrKeep way
        | (false, fs) => (false, fs)
      else (fs.leadsToDirectory way, fs)

/-- The ways to the directories that a way leads through, the last one first. A dot is none of its own
unless the way begins with it. -/
def outerWays (way : List String) : List (List String) :=
  let places := way.take 1 ++ (way.drop 1).filter (· ≠ ".")
  (List.range (places.length - 1)).reverse.map fun i => places.take (i + 1)

/-- Makes a directory and those that it is in, as far as they are missing, and says whether there is
such a directory now. -/
def makeDirectories (fs : FileSystem) (path : String) : Bool × FileSystem :=
  if path.isEmpty then (true, fs)
  else
    match checkPath path with
    | .error _ => (false, fs)
    | .ok () => fs.makeWithin (names path) (outerWays (names path))

/-- Moves an entry to a path, where it takes the place of an entry of its kind; a directory takes
only the place of an empty one, and never goes into itself. Only of a directory may a slash follow the
name. -/
def rename? (fs : FileSystem) (path target : String) : Option FileSystem := do
  let source ← (fs.spot? path).toOption.join
  let destination ← (fs.spot? target).toOption.join
  let e ← fs.occupant? source
  let move (fs : FileSystem) : FileSystem :=
    { fs with entries := fs.entries.map fun x =>
        if x.id = e.id then { x with parent := destination.directory, name := destination.name } else x }
  if !isDirectory e && (endsInSlash path || endsInSlash target) then none
  else
    match fs.occupant? destination with
    | none =>
      if isDirectory e && (fs.enclosing (fs.entries.length + 1) destination.directory).contains e.id then
        none
      else some (move fs)
    | some old =>
      if old.id = e.id then some fs
      else if isDirectory e != isDirectory old then none
      else if isDirectory old && fs.entries.any (·.parent == old.id) then none
      else if isDirectory e && fs.isInside e.id old then none
      else some (move (fs.erase old.id))

/-- The path of an entry from the working directory, if it can be reached from there. -/
def pathOf? (fs : FileSystem) : Nat → Entry → Option String
  | 0, _ => none
  | fuel + 1, e =>
    if e.parent = workingDirectory then some e.name
    else do
      let parent ← fs.byId? e.parent
      let path ← pathOf? fs fuel parent
      return path ++ "/" ++ e.name

/-- Every path with what stands there. -/
def listing (fs : FileSystem) : List (String × Node) :=
  fs.entries.filterMap fun e => (fs.pathOf? (fs.entries.length + 1) e).map (·, e.node)

end FileSystem

end EvidenceExchange
