import BuildGraph.CommandLine.Run
import BuildGraph.Proofs.AddedConfigs

/-!
# Runs keep trees

Whatever a run does to files, they remain a tree: directories and files are put where nothing is,
or in the place of what is no directory, and nothing is taken away.  A generation creates configs
(`Config.isTree_create`), one after the other, and touches files in no other way
(`Generated.isTree_ofFile`); a build file is written into a directory that may have to be made
(`Graph.isTree_save`).  A run is made of such steps, and ends in a tree also if one of them fails
(`CommandLine.Host.isTree_run`).
-/

namespace BuildGraph

open Deploy

variable {fs fs' : Files} {p : String}

/-! ## Steps -/

namespace Files.IsTree

/-- An entry that is put in a place where no directory is leaves a tree. -/
theorem insert_place (ht : fs.IsTree) {dir : Location} {name : String} {slash : Bool}
    (h : fs.place p = .ok (some (dir, name, slash)))
    (hfree : fs.lookup (dir ++ [name]) ≠ some .directory) (e : Entry) :
    (fs.insert (dir ++ [name]) e).IsTree :=
  have hplaced := Placed.of_place h
  ht.insert hplaced.directory hplaced.isEntryName hfree e

theorem createDirectory (ht : fs.IsTree) (h : fs.createDirectory p = .ok fs') : fs'.IsTree := by
  rw [Files.createDirectory] at h
  split at h
  · cases h
  · cases h
  · next hplace =>
      split at h
      · cases h
      · next hnone =>
          obtain rfl := Except.ok.inj h
          exact ht.insert_place hplace (by simp [hnone]) _

/-- The directories made on the way leave a tree, also if the last one cannot be made. -/
theorem createPath (ht : fs.IsTree) (depth : Nat) (p : String) :
    (fs.createPath depth p).2.IsTree := by
  fun_induction Files.createPath fs depth p with
  | case1 => exact ht
  | case2 depth p hp fs' hcreate => exact ht.createDirectory hcreate
  | case3 p hp depth above habove hcreate e fs' hpath ih =>
      rw [hpath] at ih
      exact ih
  | case4 p hp depth above habove hcreate u fs' hpath fs'' hcreate' ih =>
      rw [hpath] at ih
      exact IsTree.createDirectory ih hcreate'
  | case5 p hp depth above habove hcreate u fs' hpath e hcreate' ih =>
      rw [hpath] at ih
      exact ih
  | case6 => exact ht

theorem createDirectories (ht : fs.IsTree) (p : String) : (fs.createDirectories p).2.IsTree :=
  ht.createPath _ p

theorem writeNew (ht : fs.IsTree) {content : String} (h : fs.writeNew p content = .ok fs') :
    fs'.IsTree := by
  unfold Files.writeNew at h
  split at h
  · cases h
  · split at h
    · cases h
    · cases h
    · next hplace =>
        split at h
        · cases h
        · next hnone =>
            split at h
            · cases h
            · obtain rfl := Except.ok.inj h
              exact ht.insert_place hplace (by simp [hnone]) _

theorem replace (ht : fs.IsTree) {content : String} (h : fs.replace p content = .ok fs') :
    fs'.IsTree := by
  unfold Files.replace at h
  split at h
  · cases h
  · split at h
    · cases h
    · cases h
    · next hplace =>
        split at h
        · cases h
        · split at h
          · cases h
          · next hfree =>
              obtain rfl := Except.ok.inj h
              exact ht.insert_place hplace (by simpa [isDirectoryAt] using hfree) _

end Files.IsTree

/-! ## Generations -/

theorem Deploy.Config.isTree_create (ht : fs.IsTree) {dst : String}
    (h : Config.create fs p dst = .ok fs') : fs'.IsTree := by
  rw [Config.create] at h
  cases hwrite : fs.writeNew p (text dst) with
  | error e =>
      rw [hwrite] at h
      cases h
  | ok made =>
      rw [hwrite] at h
      obtain rfl := Except.ok.inj h
      exact ht.writeNew hwrite

theorem Deployment.isTree_edges (t : Deployment) {s : Session} (ht : s.files.IsTree) :
    (t.edges.run s).2.files.IsTree := by
  have htemplate := t.dstDir.composed_compose.composes
  rw [t.files_edges]
  cases hexists : s.files.pathExists (t.configPath s.keywords) with
  | true =>
      rw [Destination.obtain_of_pathExists hexists]
      exact ht
  | false =>
      rw [Destination.obtain_of_not_pathExists hexists htemplate]
      split
      · exact ht
      · next files hcreate => exact Config.isTree_create ht hcreate

theorem Target.isTree_edges (t : Target) {s : Session} (ht : s.files.IsTree) :
    (t.edges.run s).2.files.IsTree := by
  cases hdeploys : t.deployment? with
  | none => rwa [t.keeps_files_edges hdeploys s]
  | some u =>
      obtain rfl := Target.deployment?_eq_some_iff.1 hdeploys
      rw [Target.edges_rsync]
      exact u.isTree_edges ht

theorem Target.isTree_each (ts : List Target) {s : Session} (ht : s.files.IsTree) :
    ((Build.each Target.edges ts).run s).2.files.IsTree := by
  induction ts generalizing s with
  | nil => exact ht
  | cons t ts ih => exact ih (t.isTree_edges ht)

theorem Description.isTree_graph (d : Description) {s : Session} (ht : s.files.IsTree) :
    (d.graph.run s).2.files.IsTree := by
  have hgraph : (d.graph.run s).2.files
      = ((Build.each Target.edges d.targets).run (d.registerRules.run s).2).2.files :=
    keeps_withRegeneration Session.besideRules_files (d.outline.run s).1 (d.outline.run s).2
  rw [hgraph]
  refine Target.isTree_each d.targets ?_
  rwa [d.keeps_files_registerRules s]

theorem Generated.isTree_ofFile {modulePath cwd file command : String} {tools : Toolset}
    {g : Generated} (ht : fs.IsTree)
    (h : Generated.ofFile fs modulePath cwd file command tools = .ok g) : g.files.IsTree := by
  obtain ⟨d, hload⟩ := exists_load_of_ofFile h
  rw [ofFile_of_load hload] at h
  obtain rfl := Except.ok.inj h
  exact d.isTree_graph ht

theorem Graph.isTree_save (g : Graph) (ht : fs.IsTree) (path : String) :
    (g.save fs path).2.IsTree := by
  have hdirs := ht.createDirectories (Path.directoryOf path)
  unfold Graph.save
  split
  · next hmade => rwa [hmade] at hdirs
  · next hmade =>
      rw [hmade] at hdirs
      split
      · exact hdirs
      · next hreplace => exact Files.IsTree.replace hdirs hreplace

/-! ## Runs -/

namespace CommandLine

variable {α β : Type}

/-- A step of a run leaves a tree, whether the run goes on after it or ends. -/
inductive LeavesTree (files : α → Files) : Except Outcome α → Prop where
  | ok {a : α} (h : (files a).IsTree) : LeavesTree files (.ok a)
  | error {o : Outcome} (h : o.files.IsTree) : LeavesTree files (.error o)

namespace LeavesTree

theorem bind {files : α → Files} {files' : β → Files} {x : Except Outcome α}
    {f : α → Except Outcome β} (hx : LeavesTree files x)
    (hf : ∀ a, (files a).IsTree → LeavesTree files' (f a)) : LeavesTree files' (x >>= f) := by
  cases hx with
  | ok h => exact hf _ h
  | error h => exact .error h

theorem settle {x : Except Outcome Outcome} (hx : LeavesTree Outcome.files x) :
    (Host.settle x).files.IsTree := by
  cases hx with
  | ok h => exact h
  | error h => exact h

end LeavesTree

namespace Host

variable (h : Host)

theorem isTree_generation (ht : fs.IsTree) (file : String) :
    LeavesTree Generated.files (h.generation fs file) := by
  unfold generation
  cases hmade : Generated.ofFile fs h.modulePath h.cwd file h.executable h.tools with
  | error e => exact .error ht
  | ok g =>
      have hg := Generated.isTree_ofFile ht hmade
      simp only
      split
      · exact .ok hg
      · exact .error hg

theorem isTree_writeGraph {g : Generated} (hg : g.files.IsTree) (notes : List Note)
    (path : String) : LeavesTree id (writeGraph g notes path) := by
  have hsaved := g.graph.isTree_save hg path
  unfold writeGraph
  split
  · next hsave =>
      rw [hsave] at hsaved
      exact .ok hsaved
  · next hsave =>
      rw [hsave] at hsaved
      exact .error hsaved

theorem isTree_generate (ht : h.files.IsTree) (file : String) (outDir : Option String)
    (format : Format) : LeavesTree Outcome.files (h.generate file outDir format) := by
  refine (h.isTree_generation ht file).bind fun g hg => ?_
  cases format with
  | json => exact .ok hg
  | text =>
      cases outDir with
      | none => exact .ok hg
      | some dir => exact (isTree_writeGraph hg _ _).bind fun fs hfs => .ok hfs

/-! ## Builds -/

theorem isTree_makeDirectory (ht : h.files.IsTree) (path : String) :
    LeavesTree id (h.makeDirectory path) := by
  have hmade := ht.createDirectories path
  unfold makeDirectory
  split
  · next hdirs =>
      rw [hdirs] at hmade
      exact .ok hmade
  · next hdirs =>
      rw [hdirs] at hmade
      exact .error hmade

theorem isTree_ensureBuildFile (ht : fs.IsTree) (file : String) :
    LeavesTree Prod.fst (h.ensureBuildFile fs file) := by
  unfold ensureBuildFile
  split
  · exact .ok ht
  · refine (h.isTree_generation ht file).bind fun g hg => ?_
    exact (isTree_writeGraph hg _ _).bind fun fs hfs => .ok hfs

theorem isTree_build (start : Starter) (ht : h.files.IsTree) (file : String)
    (targets : List String) : LeavesTree Outcome.files (h.build start file targets) := by
  refine (h.isTree_makeDirectory ht _).bind fun fs hfs => ?_
  refine (h.isTree_ensureBuildFile hfs file).bind fun (made, notes) hmade => ?_
  dsimp only
  split
  · exact .error hmade
  · split
    · exact .ok hmade
    · exact .error hmade

/-! ## Command lines -/

/-- A deployment leaves the files as they are, whatever its transport wrote. -/
theorem files_syncOutcome (notes : List Note) (r : Deploy.Request)
    (written : Programs.Shell.Written) (result : Except Deploy.Error Unit) :
    (h.syncOutcome notes r written result).files = h.files := by
  rcases result with (_ | _ | _) | _ <;> rfl

theorem files_rsync (r : Deploy.Request) : (h.rsync r).files = h.files :=
  h.files_syncOutcome _ r _ _

/-- A run leaves a tree of files that form one, however it ends and whatever builder it starts. -/
theorem isTree_runWith (start : Starter) (ht : h.files.IsTree) (args : List String) :
    (h.runWith start args).files.IsTree := by
  unfold runWith
  split
  · next line _ =>
      let logged : Host := { h with verbose := line.verbose }
      cases line.request with
      | generate file outDir format => exact (logged.isTree_generate ht file outDir format).settle
      | build file targets => exact (logged.isTree_build start ht file targets).settle
      | deploy file => exact (logged.isTree_build start ht file [deployAlias]).settle
      | rsync src dst inputs =>
          exact (logged.files_rsync { inputs, srcDir := src, dstDir := dst }).symm ▸ ht
  · exact ht
  · exact ht
  · exact ht

theorem isTree_run (ht : h.files.IsTree) (args : List String) : (h.run args).files.IsTree :=
  h.isTree_runWith Programs.run ht args

end Host

end CommandLine

end BuildGraph
