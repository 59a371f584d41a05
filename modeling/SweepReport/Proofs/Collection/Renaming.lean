import SweepReport.Proofs.FileTree.Rename
import SweepReport.Proofs.Collection.Matching

/-! Collections under other folder names. The names of the configuration folders tell nothing about
the configurations: what a table holds is the same after they are renamed. -/
namespace SweepReport
open FileTree (pathLimit)

/-- The result roots are two folders, neither of which lies in the other. -/
structure RootsApart (t : FileTree) (s : Settings) (places : Metric → Place) : Prop where
  resolved : ∀ metric, t.resolve (s.root metric) = .ok (places metric)
  folders : ∀ metric, t.at? (places metric) = some .folder
  apart : ∀ metric other, metric ≠ other → ¬ (places metric).isAbove (places other)

/-- A file below a folder, on a way that does not go up. -/
structure Inside (file : Path) : Prop where
  relative : file.isAbsolute = false
  notUp : Path.up ∉ file.parts

/-- New names for what is directly in the roots; all else keeps its name. -/
def newName (places : Metric → Place) (rename : Metric → OsString → OsString) (p : Place)
    (name : OsString) : OsString :=
  if p = places .runtime then rename .runtime name
  else if p = places .throughput then rename .throughput name
  else name

/-- Only configuration folders are renamed, to names that such a folder can have and that nothing else
in the root has. -/
structure Renames (t : FileTree) (s : Settings) (places : Metric → Place)
    (rename : Metric → OsString → OsString) : Prop where
  others : ∀ metric name, ¬ Configures t (s.root metric) name → rename metric name = name
  ordinary : ∀ metric name, Configures t (s.root metric) name → Ordinary (rename metric name)
  notSummary : ∀ metric name, Configures t (s.root metric) name → rename metric name ≠ summaryDir
  apart : ∀ metric a b d e, t.at? ((places metric).child a) = some d →
    t.at? ((places metric).child b) = some e → rename metric a = rename metric b → a = b

/-- No folder gets a path beyond the limit, and the path of its sample file is beyond it exactly where
it was before. -/
structure WithinLimit (t : FileTree) (s : Settings) (rename : Metric → OsString → OsString) : Prop where
  dirs : ∀ metric name, Configures t (s.root metric) name →
    (s.root metric / (⟨rename metric name⟩ : Path)).raw.size ≤ pathLimit
  files : ∀ metric name, Configures t (s.root metric) name →
    ((s.samplesFileIn (s.root metric / ⟨rename metric name⟩)).raw.size ≤ pathLimit ↔
      (s.samplesFileIn (s.root metric / ⟨name⟩)).raw.size ≤ pathLimit)

/-- By either settings a collection sees the folders in the roots alike, but for their names. -/
structure Likewise (t : FileTree) (s s' : Settings) (places : Metric → Place)
    (rename : Metric → OsString → OsString) : Prop where
  ordinary : ∀ metric name e, t.at? ((places metric).child name) = some e →
    Ordinary (rename metric name)
  summary : ∀ metric name, t.at? ((places metric).child name) = some .folder →
    (rename metric name = summaryDir ↔ name = summaryDir)
  dirs : ∀ metric name, t.at? ((places metric).child name) = some .folder →
    ((s'.root metric / (⟨rename metric name⟩ : Path)).raw.size ≤ pathLimit ↔
      (s.root metric / (⟨name⟩ : Path)).raw.size ≤ pathLimit)
  files : ∀ metric name, t.at? ((places metric).child name) = some .folder →
    ((s'.samplesFileIn (s'.root metric / ⟨rename metric name⟩)).raw.size ≤ pathLimit ↔
      (s.samplesFileIn (s.root metric / ⟨name⟩)).raw.size ≤ pathLimit)

section
variable {t t' : FileTree} {s s' : Settings} {places : Metric → Place}
  {rename : Metric → OsString → OsString}

namespace RootsApart

theorem place_eq_iff (h : RootsApart t s places) {metric other : Metric} :
    places metric = places other ↔ metric = other := by
  constructor
  · intro heq
    by_contra hne
    exact h.apart metric other hne (heq ▸ Place.isAbove_self _)
  · exact congrArg places

theorem newName_root (h : RootsApart t s places) (metric : Metric) (name : OsString) :
    newName places rename (places metric) name = rename metric name := by
  cases metric <;> simp [newName, h.place_eq_iff]

theorem newName_of_ne {p : Place} (hp : ∀ metric, p ≠ places metric) (name : OsString) :
    newName places rename p name = name := by
  simp [newName, hp]

theorem not_below (h : RootsApart t s places) (metric other : Metric) (name : OsString) :
    ¬ ((places metric).child name).isAbove (places other) := by
  intro habove
  by_cases hsame : metric = other
  · exact Place.not_child_isAbove _ name (hsame ▸ habove)
  · exact h.apart metric other hsame (Place.isAbove_of_child habove)

theorem relabel_place (h : RootsApart t s places) (rename : Metric → OsString → OsString)
    (metric : Metric) :
    (places metric).relabel (newName places rename) = places metric := by
  refine Place.relabel_eq_self fun q name habove => newName_of_ne (fun other heq => ?_) name
  exact h.not_below other metric name (heq ▸ habove)

theorem newName_below (h : RootsApart t s places) {metric : Metric} {name : OsString} {q : Place}
    (hq : ((places metric).child name).isAbove q) (other : OsString) :
    newName places rename q other = other := by
  refine newName_of_ne (fun kind heq => ?_) other
  exact h.not_below metric kind name (heq ▸ hq)

theorem relabel_child (h : RootsApart t s places) (metric : Metric) (name : OsString) :
    ((places metric).child name).relabel (newName places rename) =
      (places metric).child (rename metric name) := by
  rw [Place.relabel_child, h.relabel_place, h.newName_root]

theorem folders_renamed (h : RootsApart t s places)
    (hrenamed : t.Renamed (newName places rename) t') (metric : Metric) :
    t'.at? (places metric) = some .folder := by
  rw [← h.relabel_place rename]
  exact hrenamed.at?_relabel (h.folders metric)

theorem exists_old (h : RootsApart t s places) (hproper : t.Proper)
    (hrenamed : t.Renamed (newName places rename) t') {metric : Metric} {name : OsString} {e : Entry}
    (he : t'.at? ((places metric).child name) = some e) :
    ∃ old, t.at? ((places metric).child old) = some e ∧ rename metric old = name := by
  rw [← h.relabel_place rename] at he
  obtain ⟨old, hold, hname⟩ := hrenamed.exists_child hproper (h.folders metric) he
  exact ⟨old, hold, by rw [← hname, h.newName_root]⟩

theorem at?_of_configures (h : RootsApart t s places) (hproper : t.Proper) {metric : Metric}
    {name : OsString} (hname : Configures t (s.root metric) name) :
    Ordinary name ∧ t.at? ((places metric).child name) = some .folder := by
  obtain ⟨e, he⟩ := hname.exists_at? (h.resolved metric)
  have hordinary := (hproper _ name e he).1
  have hconfigures := configures_iff_at? (h.resolved metric) (h.folders metric) hordinary
  exact ⟨hordinary, (hconfigures.mp hname).1⟩

end RootsApart

section
variable (hproper : t.Proper) (hroots : RootsApart t s places)
  (hroots' : ∀ metric, t'.resolve (s'.root metric) = .ok (places metric))
  (hlike : Likewise t s s' places rename) (h : t.Renamed (newName places rename) t')
include hproper hroots hroots' hlike h

theorem configures_renamed_iff {metric : Metric} {name : OsString} :
    Configures t' (s'.root metric) name ↔
      ∃ old, Configures t (s.root metric) old ∧ rename metric old = name := by
  have hbefore {old : OsString} (hold : Ordinary old) :=
    configures_iff_at? (hroots.resolved metric) (hroots.folders metric) hold
  have hafter {new : OsString} (hnew : Ordinary new) :=
    configures_iff_at? (hroots' metric) (hroots.folders_renamed h metric) hnew
  constructor
  · intro hname
    obtain ⟨e, he⟩ := hname.exists_at? (hroots' metric)
    obtain ⟨old, hold, heq⟩ := hroots.exists_old hproper h he
    rw [← heq] at hname
    obtain ⟨hat, hsummary, hlength⟩ := (hafter (hlike.ordinary metric old e hold)).mp hname
    -- What was there under the old name is what is there now: a folder.
    rw [heq, he] at hat
    rw [hat] at hold
    have hsummary' := (hlike.summary metric old hold).not.mp hsummary
    have hlength' := (hlike.dirs metric old hold).mp hlength
    exact ⟨old, (hbefore (hproper _ old _ hold).1).mpr ⟨hold, hsummary', hlength'⟩, heq⟩
  · intro hname
    obtain ⟨old, hold, heq⟩ := hname
    obtain ⟨hordinary, hat⟩ := hroots.at?_of_configures hproper hold
    obtain ⟨-, hsummary, hlength⟩ := (hbefore hordinary).mp hold
    have hat' := h.at?_relabel hat
    rw [hroots.relabel_child] at hat'
    have hsummary' := (hlike.summary metric old hat).not.mpr hsummary
    have hlength' := (hlike.dirs metric old hat).mpr hlength
    rw [← heq]
    exact (hafter (hlike.ordinary metric old _ hat)).mpr ⟨hat', hsummary', hlength'⟩

theorem fetch_renamed (hsame : s'.samplesFile = s.samplesFile) (hfile : Inside s.samplesFile)
    {metric : Metric} {name : OsString} (hname : Configures t (s.root metric) name) :
    t'.fetch (s'.samplesFileIn (s'.root metric / ⟨rename metric name⟩)) =
      t.fetch (s.samplesFileIn (s.root metric / ⟨name⟩)) := by
  obtain ⟨-, hat⟩ := hroots.at?_of_configures hproper hname
  have hroot' := hroots' metric
  rw [← hroots.relabel_place rename] at hroot'
  have hlength := hlike.files metric name hat
  have hfetch := h.fetch_below hproper (s'.root metric) s.samplesFile (hroots.resolved metric)
    hroot' (hroots.folders metric) hat
  rw [hroots.newName_root] at hfetch
  rw [Settings.samplesFileIn, Settings.samplesFileIn, hsame] at hlength ⊢
  exact hfetch (hlike.ordinary metric name _ hat) (fun q other hq => hroots.newName_below hq other)
    hfile.relative hfile.notUp hlength.symm

theorem matches_of_renamed (hsame : s'.samplesFile = s.samplesFile)
    (hfile : Inside s.samplesFile) : Matches t s t' s' rename where
  listed metric := by simp [FileTree.list, hroots.resolved, hroots.folders]
  listed' metric := by simp [FileTree.list, hroots', hroots.folders_renamed h]
  folders metric name := configures_renamed_iff hproper hroots hroots' hlike h
  apart metric a b ha hb heq := by
    have hata := (hroots.at?_of_configures hproper ha).2
    have hatb := (hroots.at?_of_configures hproper hb).2
    refine (Place.child_inj (h.injective hata hatb ?_)).2
    rw [hroots.relabel_child, hroots.relabel_child, heq]
  files metric name hname := fetch_renamed hproper hroots hroots' hlike h hsame hfile hname

end

theorem Renames.likewise (hproper : t.Proper) (hroots : RootsApart t s places)
    (h : Renames t s places rename) (hlimit : WithinLimit t s rename) :
    Likewise t s s places rename := by
  have hat {metric : Metric} {name : OsString} {e : Entry}
      (he : t.at? ((places metric).child name) = some e) :
      Configures t (s.root metric) name ↔ t.at? ((places metric).child name) = some .folder ∧
        name ≠ summaryDir ∧ (s.root metric / (⟨name⟩ : Path)).raw.size ≤ pathLimit :=
    configures_iff_at? (hroots.resolved metric) (hroots.folders metric) (hproper _ name e he).1
  refine ⟨fun metric name e he => ?_, fun metric name he => ?_, fun metric name he => ?_,
    fun metric name he => ?_⟩
  -- A folder that a collection does not see keeps its name, whatever the limit.
  all_goals by_cases hname : Configures t (s.root metric) name
  · exact h.ordinary metric name hname
  · rw [h.others metric name hname]
    exact (hproper _ name e he).1
  · exact iff_of_false (h.notSummary metric name hname) ((hat he).mp hname).2.1
  · rw [h.others metric name hname]
  · exact iff_of_true (hlimit.dirs metric name hname) ((hat he).mp hname).2.2
  · rw [h.others metric name hname]
  · exact hlimit.files metric name hname
  · rw [h.others metric name hname]

theorem Renames.tellsApart (hroots : RootsApart t s places) (h : Renames t s places rename) :
    t.TellsApart (newName places rename) := by
  intro p a b d e ha hb hab
  by_cases hp : ∃ metric, p = places metric
  · obtain ⟨metric, hplace⟩ := hp
    rw [hplace, hroots.newName_root, hroots.newName_root] at hab
    exact h.apart metric a b d e (hplace ▸ ha) (hplace ▸ hb) hab
  · have hne (metric : Metric) : p ≠ places metric := fun heq => hp ⟨metric, heq⟩
    rwa [RootsApart.newName_of_ne hne, RootsApart.newName_of_ne hne] at hab

/-- Whatever names the configuration folders of either root are given, the same table comes out, or
none as before, as long as the ways to the roots do not lead through them and no path of theirs gets
beyond the limit or back. There is a tree where they are so named. -/
theorem table_ignores_folder_names (hproper : t.Proper) (hroots : RootsApart t s places)
    (hfile : Inside s.samplesFile) (hrenames : Renames t s places rename)
    (hlimit : WithinLimit t s rename)
    (hways : ∀ metric, t.keeps (newName places rename) (t.origin (s.root metric))
      (s.root metric).parts) :
    (∃ t', t.Renamed (newName places rename) t') ∧
      ∀ t', t.Renamed (newName places rename) t' → ∀ table,
        (gatherTable t' s).result = .ok table ↔ (gatherTable t s).result = .ok table := by
  refine ⟨FileTree.exists_renamed hproper (hrenames.tellsApart hroots), fun t' h table => ?_⟩
  have hroots' (metric : Metric) : t'.resolve (s.root metric) = .ok (places metric) := by
    rw [← hroots.relabel_place rename]
    exact h.resolve_eq_ok (hroots.resolved metric) (hroots.folders metric) (hways metric)
  exact (matches_of_renamed hproper hroots hroots' (hrenames.likewise hproper hroots hlimit) h rfl
    hfile).gatherTable_iff table

end

theorem pairTree_proper : pairTree.Proper := by
  refine FileTree.proper_of_entries ?_
  simp only [pairTree, List.forall_mem_cons]
  refine ⟨⟨.top, "r", rfl, by constructor <;> decide, rfl⟩,
    ⟨.ofNames ["r"], "g", rfl, by constructor <;> decide, rfl⟩,
    ⟨.ofNames ["g", "r"], "t", rfl, by constructor <;> decide, rfl⟩,
    ⟨.ofNames ["t", "g", "r"], "a", rfl, by constructor <;> decide, rfl⟩,
    ⟨.ofNames ["a", "t", "g", "r"], "s", rfl, by constructor <;> decide, rfl⟩,
    ⟨.ofNames ["g", "r"], "p", rfl, by constructor <;> decide, rfl⟩,
    ⟨.ofNames ["p", "g", "r"], "a", rfl, by constructor <;> decide, rfl⟩,
    ⟨.ofNames ["a", "p", "g", "r"], "s", rfl, by constructor <;> decide, rfl⟩, by simp⟩

def pairPlaces : Metric → Place
  | .runtime => .ofNames ["t", "g", "r"]
  | .throughput => .ofNames ["p", "g", "r"]

def pairNames (metric : Metric) (name : OsString) : OsString :=
  if name = "a" then match metric with
    | .runtime => "bb"
    | .throughput => "c"
  else name

def otherPair : FileTree :=
  let sample (elapsed : String) : Entry := .file
    ("value,throughput_num,sample_measured_value,iteration_count\n\"2, 8 files\",1," ++ elapsed ++
      ",1\n").toUTF8
  ⟨[(.ofNames ["r"], .folder), (.ofNames ["g", "r"], .folder), (.ofNames ["t", "g", "r"], .folder),
    (.ofNames ["bb", "t", "g", "r"], .folder), (.ofNames ["s", "bb", "t", "g", "r"], sample "5"),
    (.ofNames ["p", "g", "r"], .folder), (.ofNames ["c", "p", "g", "r"], .folder),
    (.ofNames ["s", "c", "p", "g", "r"], sample "0")], by decide, .top⟩

theorem pair_renamed : pairTree.Renamed (newName pairPlaces pairNames) otherPair := by
  refine ⟨List.Perm.of_eq ?_, rfl⟩
  rfl

theorem pair_at? {metric : Metric} {name : OsString} {e : Entry}
    (h : pairTree.at? ((pairPlaces metric).child name) = some e) : name = "a" := by
  rw [FileTree.at?_eq_some_iff (Place.child_ne_top _ name)] at h
  cases metric <;> simp [pairTree, pairPlaces, Place.child, Place.ofNames] at h <;> tauto

theorem pair_roots_apart {s : Settings}
    (hroots : ∀ metric, pairTree.resolve (s.root metric) = .ok (pairPlaces metric)) :
    RootsApart pairTree s pairPlaces := by
  refine ⟨hroots, fun metric => ?_, fun metric other => ?_⟩
  · cases metric <;> rfl
  · cases metric <;> cases other <;> decide

theorem configures_pairTree {s : Settings}
    (hroots : ∀ metric, pairTree.resolve (s.root metric) = .ok (pairPlaces metric))
    (hlength : ∀ metric, (s.root metric / (⟨"a"⟩ : Path)).raw.size ≤ pathLimit)
    {metric : Metric} {name : OsString} : Configures pairTree (s.root metric) name ↔ name = "a" := by
  constructor
  · intro hname
    obtain ⟨e, he⟩ := hname.exists_at? (hroots metric)
    exact pair_at? he
  · intro hname
    rw [hname, configures_iff_at? (hroots metric) (by cases metric <;> rfl)
      (by constructor <;> decide)]
    refine ⟨?_, by decide, hlength metric⟩
    cases metric <;> rfl

/-- However the roots of the pair are written, its two folders get other names. -/
theorem pair_renames {s : Settings}
    (hroots : ∀ metric, pairTree.resolve (s.root metric) = .ok (pairPlaces metric))
    (hlength : ∀ metric, (s.root metric / (⟨"a"⟩ : Path)).raw.size ≤ pathLimit) :
    Renames pairTree s pairPlaces pairNames := by
  refine ⟨fun metric name hname => ?_, fun metric name hname => ?_, fun metric name hname => ?_,
    fun metric a b d e ha hb _ => ?_⟩
  · exact if_neg (mt (configures_pairTree hroots hlength).mpr hname)
  · rw [(configures_pairTree hroots hlength).mp hname]
    cases metric <;> constructor <;> decide
  · rw [(configures_pairTree hroots hlength).mp hname]
    cases metric <;> decide
  · rw [pair_at? ha, pair_at? hb]

theorem pair_within_limit {s : Settings}
    (hroots : ∀ metric, pairTree.resolve (s.root metric) = .ok (pairPlaces metric))
    (hlength : ∀ metric, (s.root metric / (⟨"a"⟩ : Path)).raw.size ≤ pathLimit)
    (hdir : ∀ metric,
      (s.root metric / (⟨pairNames metric "a"⟩ : Path)).raw.size ≤ pathLimit)
    (hfile : ∀ metric,
      (s.samplesFileIn (s.root metric / ⟨pairNames metric "a"⟩)).raw.size ≤ pathLimit ↔
        (s.samplesFileIn (s.root metric / ⟨"a"⟩)).raw.size ≤ pathLimit) :
    WithinLimit pairTree s pairNames := by
  refine ⟨fun metric name hname => ?_, fun metric name hname => ?_⟩
  · rw [(configures_pairTree hroots hlength).mp hname]
    exact hdir metric
  · rw [(configures_pairTree hroots hlength).mp hname]
    exact hfile metric

theorem pair_file : Inside pairSettings.samplesFile :=
  ⟨by decide, by decide⟩

theorem pair_roots (metric : Metric) :
    pairTree.resolve (pairSettings.root metric) = .ok (pairPlaces metric) := by
  cases metric <;> rfl

theorem pair_keeps_table :
    ∃ table, (gatherTable pairTree pairSettings).result = .ok table ∧
      (gatherTable otherPair pairSettings).result = .ok table := by
  have hlength (metric : Metric) :
      (pairSettings.root metric / (⟨"a"⟩ : Path)).raw.size ≤ pathLimit := by
    cases metric <;> decide +kernel
  have hlimit : WithinLimit pairTree pairSettings pairNames :=
    pair_within_limit pair_roots hlength (by intro metric; cases metric <;> decide +kernel)
      (by intro metric; cases metric <;> decide +kernel)
  have hways (metric : Metric) : pairTree.keeps (newName pairPlaces pairNames)
      (pairTree.origin (pairSettings.root metric)) (pairSettings.root metric).parts := by
    cases metric <;> decide +kernel
  obtain ⟨-, hsame⟩ := table_ignores_folder_names pairTree_proper (pair_roots_apart pair_roots)
    pair_file (pair_renames pair_roots hlength) hlimit hways
  obtain ⟨table, htable, -⟩ := pair_gathered
  exact ⟨table, htable, (hsame otherPair pair_renamed table).mpr htable⟩

/-- The pair, by a way to the runtimes that leads through their folder and back. -/
def waySettings : Settings := { pairSettings with runtimeDir := "t/a/.." }

def slashes : Nat → OsString
  | 0 => "r"
  | n + 1 => slashes n ++ "/"

def slashSettings (n : Nat) : Settings := { pairSettings with resultsDir := ⟨slashes n⟩ }

section
variable {n : Nat}

theorem size_slashes (n : Nat) : (slashes n).size = n + 1 := by
  induction n with
  | zero => rfl
  | succ n ih =>
    rw [slashes, OsString.size_append, ih]
    rfl

theorem endsInSlash_slashes (n : Nat) : (⟨slashes (n + 1)⟩ : Path).endsInSlash = true := by
  simp [Path.endsInSlash, Path.bytes, Path.slash, slashes]

theorem sameWay_slashes (n : Nat) : SameWay ⟨"r"⟩ ⟨slashes n⟩ := by
  induction n with
  | zero => exact ⟨rfl, rfl, by decide, by decide⟩
  | succ n ih =>
    have hbytes : (⟨slashes (n + 1)⟩ : Path).bytes = (⟨slashes n⟩ : Path).bytes ++ Path.slash :: [] := by
      rw [Path.bytes, slashes, OsString.bytes_append]
      rfl
    refine ⟨?_, ?_, fun hempty => ?_, ?_⟩
    · rw [Path.parts, hbytes, Path.splitSlash_append, List.filter_append, List.map_append, ← ih.parts]
      exact List.append_nil _
    · rw [Path.isAbsolute_of_prefix ih.nonempty ⟨_, hbytes.symm⟩, ih.absolute]
    · have hsize := size_slashes (n + 1)
      dsimp only at hempty
      rw [hempty] at hsize
      contradiction
    · rw [hbytes]
      simpa [Path.slash] using ih.noNul

theorem root_slashSettings (n : Nat) (metric : Metric) :
    SameWay (pairSettings.root metric) ((slashSettings (n + 1)).root metric) ∧
      ((slashSettings (n + 1)).root metric).endsInSlash = false ∧
      ((slashSettings (n + 1)).root metric).raw.size = n + 5 := by
  have hbase := sameWay_slashes (n + 1)
  have hg : Ordinary "g" := by constructor <;> decide
  have hgroup := hbase.div (by decide) hg
  have hroot (dir : OsString) (hdir : Ordinary dir) (hsize : dir.size = 1) :
      SameWay (⟨"r"⟩ / ⟨"g"⟩ / ⟨dir⟩) (⟨slashes (n + 1)⟩ / ⟨"g"⟩ / ⟨dir⟩) ∧
        (⟨slashes (n + 1)⟩ / ⟨"g"⟩ / ⟨dir⟩ : Path).endsInSlash = false ∧
        (⟨slashes (n + 1)⟩ / ⟨"g"⟩ / ⟨dir⟩ : Path).raw.size = n + 5 := by
    refine ⟨hgroup.div (by decide) hdir, hdir.endsInSlash_div hgroup.nonempty, ?_⟩
    rw [hdir.size_div hgroup.nonempty, hg.size_div hbase.nonempty, hg.endsInSlash_div hbase.nonempty,
      endsInSlash_slashes, size_slashes, hsize]
    rfl
  cases metric with
  | runtime => exact hroot "t" (by constructor <;> decide) rfl
  | throughput => exact hroot "p" (by constructor <;> decide) rfl

theorem size_slashRoot (n : Nat) (metric : Metric) {name : OsString} (h : Ordinary name) :
    ((slashSettings (n + 1)).root metric / (⟨name⟩ : Path)).raw.size =
        n + 6 + name.size ∧
      ((slashSettings (n + 1)).samplesFileIn
        ((slashSettings (n + 1)).root metric / ⟨name⟩)).raw.size =
          n + 8 + name.size := by
  obtain ⟨hway, hslash, hsize⟩ := root_slashSettings n metric
  have hs : Ordinary "s" := by constructor <;> decide
  have hdir := h.size_div hway.nonempty
  have hfile := hs.size_div (h.raw_div_ne_empty hway.nonempty)
  rw [hslash, hsize] at hdir
  rw [h.endsInSlash_div hway.nonempty, hdir] at hfile
  refine ⟨hdir.trans (by simp), hfile.trans ?_⟩
  have hone : ("s" : OsString).size = 1 := rfl
  simp only [hone, Bool.false_eq_true, if_false]
  omega

theorem resolve_slashRoot {t : FileTree} (hn : n = 4086) {metric : Metric} {place : Place}
    (h : t.resolve (pairSettings.root metric) = .ok place) :
    t.resolve ((slashSettings (n + 1)).root metric) = .ok place := by
  obtain ⟨hway, hslash, hsize⟩ := root_slashSettings n metric
  refine FileTree.resolve_eq_of_sameWay hway ?_ ?_ h
  · rw [hslash]
    cases metric <;> rfl
  · rw [hsize, hn]
    decide

/-- With so many slashes the paths of the pair are as long as paths can be. -/
theorem slashes_gathered (hn : n = 4086) :
    ∃ table, (gatherTable pairTree (slashSettings (n + 1))).result = .ok table := by
  have hnames (p : Place) (name : OsString) : newName pairPlaces (fun _ name => name) p name = name := by
    simp [newName]
  have ha : Ordinary "a" := by constructor <;> decide
  have hone : ("a" : OsString).size = 1 := rfl
  have hlike : Likewise pairTree pairSettings (slashSettings (n + 1)) pairPlaces fun _ name => name := by
    refine ⟨fun metric name e he => (pairTree_proper _ name e he).1, fun _ _ _ => Iff.rfl,
      fun metric name he => ?_, fun metric name he => ?_⟩
    all_goals
      rw [pair_at? he]
      obtain ⟨hdir, hfile⟩ := size_slashRoot n metric ha
    · rw [hdir, hone, hn]
      exact iff_of_true (by decide) (by cases metric <;> decide +kernel)
    · rw [hfile, hone, hn]
      exact iff_of_true (by decide) (by cases metric <;> decide +kernel)
  have hroots (metric : Metric) := resolve_slashRoot (t := pairTree) hn (pair_roots metric)
  have hmatches := matches_of_renamed pairTree_proper (pair_roots_apart pair_roots) hroots hlike
    (FileTree.renamed_self _ hnames) rfl pair_file
  obtain ⟨table, htable, -⟩ := pair_gathered
  exact ⟨table, (hmatches.gatherTable_iff table).mpr htable⟩

/-- One letter more is too much. -/
theorem slashes_lost (hn : n = 4086) :
    ¬ ∃ table, (gatherTable otherPair (slashSettings (n + 1))).result = .ok table := by
  intro h
  have hbb : Ordinary "bb" := by constructor <;> decide
  have htwo : ("bb" : OsString).size = 2 := rfl
  obtain ⟨hdir, hfile⟩ := size_slashRoot n .runtime hbb
  have hroot : otherPair.resolve ((slashSettings (n + 1)).root .runtime) = .ok (pairPlaces .runtime) :=
    resolve_slashRoot hn rfl
  have hconfigures : Configures otherPair ((slashSettings (n + 1)).root .runtime) "bb" := by
    refine (configures_iff_at? hroot rfl hbb).mpr ⟨rfl, by decide, ?_⟩
    rw [hdir, htwo, hn]
    decide
  obtain ⟨l, samples, hm⟩ := (exists_gatherTable_iff.mp h).measured .runtime "bb" hconfigures
  obtain ⟨content, hfetch, -⟩ := samplesIn_eq_ok_iff.mp hm.read
  rw [FileTree.fetch] at hfetch
  cases hresolve : otherPair.resolve ((slashSettings (n + 1)).samplesFileIn
      ((slashSettings (n + 1)).root .runtime / ⟨"bb"⟩)) with
  | error cause => simp [hresolve] at hfetch
  | ok place =>
    have hlength := (FileTree.resolve_eq_ok_iff.mp hresolve).2.2.1
    rw [hfile, htwo, hn] at hlength
    exact absurd hlength (by decide)

end

/-- A way to a root through one of its folders is lost when the folder gets another name, and so is a
sample file when its path gets too long. -/
theorem ways_and_limits_matter :
    pairTree.Proper ∧ pairTree.Renamed (newName pairPlaces pairNames) otherPair ∧
    (RootsApart pairTree waySettings pairPlaces ∧ Inside waySettings.samplesFile ∧
      Renames pairTree waySettings pairPlaces pairNames ∧
      WithinLimit pairTree waySettings pairNames ∧
      (∃ table, (gatherTable pairTree waySettings).result = .ok table) ∧
      ¬ ∃ table, (gatherTable otherPair waySettings).result = .ok table) ∧
    RootsApart pairTree (slashSettings 4087) pairPlaces ∧ Inside (slashSettings 4087).samplesFile ∧
      Renames pairTree (slashSettings 4087) pairPlaces pairNames ∧
      (∀ metric, pairTree.keeps (newName pairPlaces pairNames)
        (pairTree.origin ((slashSettings 4087).root metric)) ((slashSettings 4087).root metric).parts) ∧
      (∃ table, (gatherTable pairTree (slashSettings 4087)).result = .ok table) ∧
      ¬ ∃ table, (gatherTable otherPair (slashSettings 4087)).result = .ok table := by
  have hway (metric : Metric) :
      pairTree.resolve (waySettings.root metric) = .ok (pairPlaces metric) := by
    cases metric <;> rfl
  have hwayLength (metric : Metric) :
      (waySettings.root metric / (⟨"a"⟩ : Path)).raw.size ≤ pathLimit := by
    cases metric <;> decide +kernel
  have hwayLimit : WithinLimit pairTree waySettings pairNames :=
    pair_within_limit hway hwayLength (by intro metric; cases metric <;> decide +kernel)
      (by intro metric; cases metric <;> decide +kernel)
  refine ⟨pairTree_proper, pair_renamed, ⟨pair_roots_apart hway, pair_file,
    pair_renames hway hwayLength, hwayLimit, ?_, ?_⟩, ?_⟩
  · exact exists_eq_ok_iff.mpr (by decide +kernel)
  · exact mt exists_eq_ok_iff.mp (by decide +kernel)
  · obtain ⟨n, hn, hslashes⟩ : ∃ n, n = 4086 ∧ 4087 = n + 1 := ⟨4086, rfl, rfl⟩
    rw [hslashes]
    have hroots (metric : Metric) := resolve_slashRoot (t := pairTree) hn (pair_roots metric)
    have hlength (metric : Metric) :
        ((slashSettings (n + 1)).root metric / (⟨"a"⟩ : Path)).raw.size ≤ pathLimit := by
      rw [(size_slashRoot n metric (by constructor <;> decide)).1, hn]
      decide
    refine ⟨pair_roots_apart hroots, pair_file, pair_renames hroots hlength,
      fun metric => ?_, slashes_gathered hn, slashes_lost hn⟩
    obtain ⟨hsame, -, -⟩ := root_slashSettings n metric
    rw [hsame.parts, FileTree.origin, hsame.absolute]
    cases metric <;> decide +kernel

end SweepReport
