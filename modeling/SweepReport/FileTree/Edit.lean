import SweepReport.FileTree

/-! Changes of a file tree. -/
namespace SweepReport.FileTree

/-- Puts an entry in the stead of the one at its place, or else after all others. -/
def put (place : Place) (e : Entry) : List (Place × Entry) → List (Place × Entry)
  | [] => [(place, e)]
  | (p, d) :: es => if p = place then (p, e) :: es else (p, d) :: put place e es

theorem mem_put {place p : Place} {e : Entry} {es : List (Place × Entry)}
    (h : p ∈ (put place e es).map Prod.fst) : p = place ∨ p ∈ es.map Prod.fst := by
  induction es with
  | nil => simpa [put] using h
  | cons d es ih =>
    unfold put at h
    split at h <;> grind

theorem nodup_put (place : Place) (e : Entry) {es : List (Place × Entry)}
    (h : (es.map Prod.fst).Nodup) : ((put place e es).map Prod.fst).Nodup := by
  induction es with
  | nil => simp [put]
  | cons d es ih =>
    have hd := List.nodup_cons.mp h
    unfold put
    split
    · exact h
    · rename_i hne
      refine List.nodup_cons.mpr ⟨fun hm => ?_, ih hd.2⟩
      rcases mem_put hm with he | hm
      · exact hne he
      · exact hd.1 hm

def set (t : FileTree) (place : Place) (e : Entry) : FileTree :=
  ⟨put place e t.entries, nodup_put place e t.distinct, t.here⟩

def write (t : FileTree) (p : Path) (content : ByteArray) : Except IoFault FileTree :=
  match t.resolve p with
  | .error e => .error e
  | .ok place =>
    match t.at? place with
    | some .folder => .error .isFolder
    | _ => .ok (t.set place (.file content))

/-- Makes every folder of the way that is missing; what was made stays when a later step fails. What
dots alone follow is looked for and not made. -/
def makeWay (t : FileTree) (place : Place) : List OsString → FileTree × Option IoFault
  | [] => (t, none)
  | name :: names =>
    let onlyDots := !names.isEmpty && names.all (· = Path.here)
    match t.step place name with
    | .error e => (t, some e)
    | .ok next =>
      match t.at? next with
      | some .folder => makeWay t next names
      | some (.file _) => (t, some (if onlyDots then .notFolder else .alreadyThere))
      | none => if onlyDots then (t, some .notFound) else makeWay (t.set next .folder) next names

/-- Makes a folder and those above it. The empty path needs none. A way that leads through a file is
refused as a whole, unless something is missing on it before the file. -/
def makeFolders (t : FileTree) (p : Path) : FileTree × Option IoFault :=
  if p.raw.hasNul then (t, some .nul)
  else if pathLimit < p.raw.size then (t, some .nameTooLong)
  else match t.walk (t.origin p) p.parts with
    | .error .notFound => t.makeWay (t.origin p) p.parts
    | .error e => (t, some e)
    | .ok _ => t.makeWay (t.origin p) p.parts

def append (t : FileTree) (p : Path) (content : ByteArray) : Except IoFault FileTree :=
  match t.fetch p with
  | .ok (.file old) => t.write p (old ++ content)
  | _ => t.write p content

def without (t : FileTree) (place : Place) : FileTree :=
  ⟨t.entries.filter fun e => !place.isAbove e.1,
    t.distinct.sublist (List.filter_sublist.map _), t.here⟩

def remove (t : FileTree) (p : Path) : Except IoFault FileTree :=
  match t.resolve p with
  | .error e => .error e
  | .ok place =>
    match t.at? place with
    | none => .error .notFound
    | some _ => .ok (t.without place)

end SweepReport.FileTree
