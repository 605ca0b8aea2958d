import Larder.Disk.OsError
import Larder.Disk.Path

/-! The files and directories below one root. Looking up, making directories and creating files
fail as the system makes them fail, in its order: parts are walked from left to right, each in a
directory, and the last one decides between what is there and what is to be made. -/

namespace Larder

/-- The names on the way from the root. -/
abbrev Location := List Bytes

inductive Node
  | file (bytes : Bytes)
  | directory (entries : List (Bytes × Node))

namespace Node

def isDirectory : Node → Bool
  | .file _ => false
  | .directory _ => true

def child? : Node → Bytes → Option Node
  | .file _, _ => none
  | .directory entries, n => entries.lookup n

def at? : Node → Location → Option Node
  | node, [] => some node
  | node, n :: rest =>
    match node.child? n with
    | none => none
    | some node => node.at? rest

def setChild (n : Bytes) (node : Node) (entries : List (Bytes × Node)) : List (Bytes × Node) :=
  (n, node) :: entries.filter fun (k, _) => k ≠ n

/-- Puts a node in its place; below a file there is none. -/
def put : Node → Location → Node → Node
  | _, [], node => node
  | .file bytes, _ :: _, _ => .file bytes
  | .directory entries, n :: rest, node =>
    .directory (setChild n (((entries.lookup n).getD (.directory [])).put rest node) entries)

end Node

structure Tree where
  root : Node

namespace Tree

def empty : Tree := ⟨.directory []⟩

def node? (t : Tree) (l : Location) : Option Node := t.root.at? l

def put (t : Tree) (l : Location) (node : Node) : Tree := ⟨t.root.put l node⟩

/-- The bytes of a file; none if there is no file. -/
def content (t : Tree) (l : Location) : Bytes :=
  match t.node? l with
  | some (.file bytes) => bytes
  | _ => []

/-- The nodes a walk has gone into, the last one first; without any it stands at the root. -/
abbrev Trail := List (Bytes × Node)

def Trail.location (trail : Trail) : Location := (trail.map Prod.fst).reverse

def nodeAt (t : Tree) (trail : Trail) : Node := (trail.head?.map Prod.snd).getD t.root

def enter (t : Tree) (trail : Trail) (n : Bytes) : Except OsError Trail :=
  if Path.nameLimit < n.length then .error .nameTooLong
  else
    match (t.nodeAt trail).child? n with
    | none => .error .notFound
    | some node => .ok ((n, node) :: trail)

def walkFrom (t : Tree) : Trail → List Path.Part → Except OsError Trail
  | trail, [] => .ok trail
  | trail, part :: rest =>
    if !(t.nodeAt trail).isDirectory then .error .notDirectory
    else
      match part with
      | .here => t.walkFrom trail rest
      | .up => t.walkFrom trail.tail rest
      | .name n =>
        match t.enter trail n with
        | .error e => .error e
        | .ok trail => t.walkFrom trail rest

def walk (t : Tree) (parts : List Path.Part) : Except OsError Trail := t.walkFrom [] parts

/-- The directory in which a last name is to be looked up. -/
def walkToDirectory (t : Tree) (parts : List Path.Part) : Except OsError Trail :=
  match t.walk parts with
  | .error e => .error e
  | .ok trail => if (t.nodeAt trail).isDirectory then .ok trail else .error .notDirectory

/-- What a path leads to. -/
def find (t : Tree) (p : Path) : Except OsError (Location × Node) :=
  match p.obstacle? with
  | some e => .error e
  | none =>
    if p.bytes = [] then .error .notFound
    else
      match t.walk p.parts with
      | .error e => .error e
      | .ok trail =>
        let node := t.nodeAt trail
        if p.endsInSlash && !node.isDirectory then .error .notDirectory
        else .ok (trail.location, node)

def leadsToDirectory (t : Tree) (p : Path) : Bool :=
  match t.find p with
  | .ok (_, node) => node.isDirectory
  | .error _ => false

/-- Where a new directory would stand. -/
def newDirectory (t : Tree) (parts : List Path.Part) : Except OsError Location :=
  match parts.getLast? with
  | some (.name n) =>
    match t.walkToDirectory parts.dropLast with
    | .error e => .error e
    | .ok trail =>
      match t.enter trail n with
      | .ok _ => .error .exists
      | .error .notFound => .ok (trail.location ++ [n])
      | .error e => .error e
  | _ =>
    match t.walk parts with
    | .error e => .error e
    | .ok _ => .error .exists

/-- A directory that was made or is there already. -/
def makeDirectory (t : Tree) (p : Path) : Except OsError Unit × Tree :=
  match p.obstacle? with
  | some e => (.error e, t)
  | none =>
    match t.newDirectory p.parts with
    | .ok l => (.ok (), t.put l (.directory []))
    | .error e => (if t.leadsToDirectory p then .ok () else .error e, t)

/-- Makes a directory and before it, only if they are missing, those it stands in. The first
argument bounds how many of the last parts may be missing. -/
def makeDirectoriesFrom (t : Tree) : Nat → Path → Except OsError Unit × Tree
  | 0, _ => (.ok (), t)
  | fuel + 1, p =>
    if p.bytes = [] then (.ok (), t)
    else
      match t.makeDirectory p with
      | (.error .notFound, t) =>
        match t.makeDirectoriesFrom fuel p.parent with
        | (.error e, t) => (.error e, t)
        | (.ok _, t) => t.makeDirectory p
      | result => result

def makeDirectories (t : Tree) (p : Path) : Except OsError Unit × Tree :=
  t.makeDirectoriesFrom (p.parts.length + 1) p

/-- Finds the file that the parts lead to or creates it. -/
def createAt (t : Tree) (parts : List Path.Part) (endsInSlash : Bool) :
    Except OsError Location × Tree :=
  match parts.getLast? with
  | none => (.error (if endsInSlash then .isDirectory else .notFound), t)
  | some (.name n) =>
    match t.walkToDirectory parts.dropLast with
    | .error e => (.error e, t)
    | .ok trail =>
      if endsInSlash then (.error .isDirectory, t)
      else
        let l := trail.location ++ [n]
        match t.enter trail n with
        | .ok trail => (if (t.nodeAt trail).isDirectory then .error .isDirectory else .ok l, t)
        | .error .notFound => (.ok l, t.put l (.file []))
        | .error e => (.error e, t)
  | some _ =>
    match t.walk parts with
    | .error e => (.error e, t)
    | .ok _ => (.error .isDirectory, t)

/-- Finds the file at a path or creates it, in a directory that has to be there. -/
def createFile (t : Tree) (p : Path) : Except OsError Location × Tree :=
  match p.obstacle? with
  | some e => (.error e, t)
  | none => t.createAt p.parts p.endsInSlash

/-- Makes the directories a file is to stand in, and then finds or creates it. -/
def createWithParents (t : Tree) (p : Path) : Except OsError Location × Tree :=
  match t.makeDirectories p.parent with
  | (.error e, t) => (.error e, t)
  | (.ok _, t) => t.createFile p

mutual

/-- Everything below a node, with the paths to it; `path` leads to the node itself. -/
def below (path : Bytes) : Node → List (Bytes × Node)
  | .file _ => []
  | .directory entries => belowEntries path entries

def belowEntries (path : Bytes) : List (Bytes × Node) → List (Bytes × Node)
  | [] => []
  | (n, node) :: rest =>
    let inner := if path = [] then n else path ++ 47 :: n
    (inner, node) :: (below inner node ++ belowEntries path rest)

end

/-- Everything below the root with the path to it, in the order of the bytes of the paths. -/
def listing (t : Tree) : List (Bytes × Node) :=
  (below [] t.root).mergeSort fun a b => decide (a.1 ≤ b.1)

end Tree

end Larder
