import SweepReport.FileTree.Path
import SweepReport.FileTree.Place

/-! Files and folders as a value. Every file and folder is kept under its place; relative paths start
at the working folder. -/
namespace SweepReport

inductive IoFault where
  | notFound
  | alreadyThere
  | notFolder
  | isFolder
  | nameTooLong
  | notText
  | nul
  | nulInWord
  | denied
  deriving DecidableEq, Repr

def IoFault.message : IoFault → String
  | .notFound => "No such file or directory (os error 2)"
  | .alreadyThere => "File exists (os error 17)"
  | .notFolder => "Not a directory (os error 20)"
  | .isFolder => "Is a directory (os error 21)"
  | .nameTooLong => "File name too long (os error 36)"
  | .notText => "stream did not contain valid UTF-8"
  | .nul => "file name contained an unexpected NUL byte"
  | .nulInWord => "nul byte found in provided data"
  | .denied => "Permission denied (os error 13)"

inductive Entry where
  | folder
  | file (content : ByteArray)

def Entry.isFolder : Entry → Bool
  | .folder => true
  | .file _ => false

structure FileTree where
  /-- In the order the system lists them, which follows no rule. -/
  entries : List (Place × Entry)
  /-- Nothing is there twice. -/
  distinct : (entries.map Prod.fst).Nodup
  /-- The working folder. -/
  here : Place

namespace FileTree

def start : FileTree :=
  let work := Place.top.child "work"
  ⟨[(work, .folder)], by simp, work⟩

def find? (place : Place) : List (Place × Entry) → Option Entry
  | [] => none
  | (p, e) :: es => if p = place then some e else find? place es

def at? (t : FileTree) (place : Place) : Option Entry :=
  if place = .top then some .folder else find? place t.entries

def nameLimit : Nat := 255

def pathLimit : Nat := 4095

def step (t : FileTree) (place : Place) (name : OsString) : Except IoFault Place :=
  match t.at? place with
  | none => .error .notFound
  | some (.file _) => .error .notFolder
  | some .folder =>
    if name = Path.here then .ok place
    else if name = Path.up then .ok place.parent
    else if nameLimit < name.size then .error .nameTooLong
    else .ok (place.child name)

def walk (t : FileTree) : Place → List OsString → Except IoFault Place
  | place, [] => .ok place
  | place, name :: names =>
    match t.step place name with
    | .error e => .error e
    | .ok next => walk t next names

def origin (t : FileTree) (p : Path) : Place := if p.isAbsolute then .top else t.here

/-- The place a path names, whether something is there or not. A slash at the end asks for a
folder. -/
def resolve (t : FileTree) (p : Path) : Except IoFault Place :=
  if p.raw.isEmpty then .error .notFound
  else if p.raw.hasNul then .error .nul
  else if pathLimit < p.raw.size then .error .nameTooLong
  else t.walk (t.origin p) (p.parts ++ if p.endsInSlash then [Path.here] else [])

def fetch (t : FileTree) (p : Path) : Except IoFault Entry :=
  match t.resolve p with
  | .error e => .error e
  | .ok place => (t.at? place).elim (.error .notFound) .ok

def has (t : FileTree) (p : Path) : Bool := (t.fetch p).isOk

def isFolder (t : FileTree) (p : Path) : Bool :=
  match t.fetch p with
  | .ok e => e.isFolder
  | .error _ => false

def readText (t : FileTree) (p : Path) : Except IoFault String :=
  match t.fetch p with
  | .error e => .error e
  | .ok .folder => .error .isFolder
  | .ok (.file content) => (String.fromUTF8? content).elim (.error .notText) .ok

def list (t : FileTree) (p : Path) : Except IoFault (List (OsString × Entry)) :=
  match t.resolve p with
  | .error e => .error e
  | .ok place =>
    match t.at? place with
    | none => .error .notFound
    | some (.file _) => .error .notFolder
    | some .folder =>
      .ok (t.entries.filterMap fun (p, e) => (place.nameIn? p).map fun name => (name, e))

end FileTree
end SweepReport
