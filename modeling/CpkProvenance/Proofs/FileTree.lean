import CpkProvenance.FileTree
import CpkProvenance.Proofs.Path
import CpkProvenance.Proofs.Traced

/-!
# Replaced files

Replacing a file either fails and leaves the tree as it was, or puts the new
content where the path leads and changes nothing else. In between there is a
temporary file, which no path of the tree can lead to before, and which is gone in
both cases.

Where a path leads depends on the directories of the tree alone. Files come and go
on the way to a replaced file, but no directory does, so that the path leads to the
same place throughout.
-/

namespace CpkProvenance.FileTree

variable {t u : FileTree} {place other : Location} {node : FileNode} {path : String}

section Nodes

theorem lookup_filter_ne (nodes : List (Location × FileNode)) (h : other ≠ place) :
    (nodes.filter (·.1 ≠ place)).lookup other = nodes.lookup other := by
  induction nodes with
  | nil => rfl
  | cons entry nodes ih =>
      by_cases hentry : entry.1 = place
      · have hne : (other == entry.1) = false := by
          rw [hentry]
          exact beq_eq_false_iff_ne.mpr h
        rw [List.filter_cons_of_neg (by simp [hentry]), ih, List.lookup_cons, hne]
      · rw [List.filter_cons_of_pos (by simp [hentry]), List.lookup_cons, List.lookup_cons, ih]

theorem node?_of_above (h : place <+: t.workingDirectory) : t.node? place = some .directory := by
  rw [node?, if_pos (List.isPrefixOf_iff_prefix.mpr h)]

theorem node?_of_not_above (h : ¬ place <+: t.workingDirectory) :
    t.node? place = t.nodes.lookup place := by
  rw [node?, if_neg fun hprefix => h (List.isPrefixOf_iff_prefix.mp hprefix)]

theorem not_above_of_node? (h : t.node? place ≠ some .directory) :
    ¬ place <+: t.workingDirectory :=
  fun habove => h (node?_of_above habove)

theorem node?_insert_self (h : ¬ place <+: t.workingDirectory) (node : FileNode) :
    (t.insert place node).node? place = some node :=
  (node?_of_not_above (t := t.insert place node) h).trans List.lookup_cons_self

theorem node?_insert_of_ne (t : FileTree) (node : FileNode) (h : other ≠ place) :
    (t.insert place node).node? other = t.node? other := by
  have hlookup : (t.insert place node).nodes.lookup other = t.nodes.lookup other := by
    have hne : (other == place) = false := beq_eq_false_iff_ne.mpr h
    rw [insert, List.lookup_cons, hne]
    exact lookup_filter_ne t.nodes h
  rw [node?, node?, hlookup]
  rfl

theorem insert_insert (t : FileTree) (place : Location) (first second : FileNode) :
    (t.insert place first).insert place second = t.insert place second := by
  rw [insert, insert, insert, List.filter_cons_of_neg (by simp), List.filter_filter]
  simp only [Bool.and_self]

/-- Nothing stands at a place, and nothing is noted about it. -/
structure IsFresh (t : FileTree) (place : Location) : Prop where
  notAbove : ¬ place <+: t.workingDirectory
  notNoted : ∀ entry ∈ t.nodes, entry.1 ≠ place

/-- A node at a fresh place can be taken away again without a trace. -/
theorem erase_insert_of_isFresh (h : t.IsFresh place) (node : FileNode) :
    (t.insert place node).erase place = t := by
  have hnodes : t.nodes.filter (·.1 ≠ place) = t.nodes :=
    List.filter_eq_self.mpr fun entry hentry => by simp [h.notNoted entry hentry]
  rw [insert, erase, List.filter_cons_of_neg (by simp), hnodes, hnodes]

theorem node?_of_isFresh (h : t.IsFresh place) : t.node? place = none := by
  rw [node?_of_not_above h.notAbove, List.lookup_eq_none_iff]
  intro entry hentry
  exact bne_iff_ne.mpr fun he => h.notNoted entry hentry he.symm

end Nodes

section Temporary

theorem le_foldl_max (names : List String) (start : Nat) :
    start ≤ names.foldl (fun n name => max n name.length) start ∧
      ∀ name ∈ names, name.length ≤ names.foldl (fun n name => max n name.length) start := by
  induction names generalizing start with
  | nil => simp
  | cons first names ih =>
      obtain ⟨hstart, hnames⟩ := ih (max start first.length)
      rw [List.foldl_cons]
      refine ⟨by omega, fun name hname => ?_⟩
      obtain rfl | hname := List.mem_cons.mp hname
      · omega
      · exact hnames name hname

/-- The name of a temporary file is longer than any name in the tree. -/
theorem length_lt_freshName {name : String}
    (h : name ∈ t.workingDirectory ++ t.nodes.flatMap (·.1)) :
    name.length < t.freshName.length := by
  have hle := (le_foldl_max (t.workingDirectory ++ t.nodes.flatMap (·.1)) 0).2 name h
  rw [freshName, String.length_ofList, List.length_cons, List.length_replicate]
  omega

theorem freshName_not_mem (t : FileTree) :
    t.freshName ∉ t.workingDirectory ++ t.nodes.flatMap (·.1) :=
  fun h => Nat.lt_irrefl _ (length_lt_freshName h)

theorem isFresh_temporary (t : FileTree) (directory : Location) :
    t.IsFresh (directory ++ [t.freshName]) := by
  have hmem : t.freshName ∈ directory ++ [t.freshName] :=
    List.mem_append_right directory List.mem_cons_self
  constructor
  · intro habove
    exact t.freshName_not_mem (List.mem_append_left _ (habove.subset hmem))
  · intro entry hentry heq
    rw [← heq] at hmem
    exact t.freshName_not_mem
      (List.mem_append_right _ (List.mem_flatMap.mpr ⟨entry, hentry, hmem⟩))

end Temporary

section Directories

/-- The same directories in two trees, with the same one to work in. -/
structure SameDirectories (t u : FileTree) : Prop where
  workingDirectory : t.workingDirectory = u.workingDirectory
  directory : ∀ place, t.node? place = some .directory ↔ u.node? place = some .directory

/-- A file in place of a file, or of nothing, leaves the directories as they are. -/
theorem sameDirectories_insert (h : t.node? place ≠ some .directory) (content : Bytes) :
    (t.insert place (.file content)).SameDirectories t := by
  refine ⟨rfl, fun other => ?_⟩
  by_cases hother : other = place
  · subst hother
    rw [node?_insert_self (not_above_of_node? h)]
    simp [h]
  · rw [node?_insert_of_ne t _ hother]

theorem enter_eq_ok_iff {found : Location} :
    t.enter place = .ok found ↔ t.node? place = some .directory ∧ found = place := by
  rw [enter]
  cases t.node? place with
  | none => simp
  | some node =>
      cases node with
      | file content => simp
      | directory => simp [eq_comm]

theorem step_eq_ok_iff {step : Path.Step} {next : Location} :
    t.step place step = .ok next ↔ t.node? place = some .directory ∧ next = place.move step ∧
      ∀ name, step = .down name → Path.size name ≤ Path.longestName := by
  rw [FileTree.step]
  cases hplace : t.enter place with
  | error e =>
      have hnot : t.node? place ≠ some .directory := fun h => by
        rw [enter_eq_ok_iff.mpr ⟨h, rfl⟩] at hplace
        cases hplace
      simp [hnot]
  | ok directory =>
      obtain ⟨hdirectory, rfl⟩ := enter_eq_ok_iff.mp hplace
      cases step with
      | stay => simp [hdirectory, eq_comm]
      | up => simp [hdirectory, eq_comm]
      | down name =>
          by_cases hlong : Path.longestName < Path.size name
          · simp [hlong]
          · simp [hlong, hdirectory, Location.move, eq_comm, Nat.le_of_not_lt hlong]

theorem SameDirectories.step_eq_ok_iff (h : t.SameDirectories u) {step : Path.Step}
    {next : Location} : t.step place step = .ok next ↔ u.step place step = .ok next := by
  rw [FileTree.step_eq_ok_iff, FileTree.step_eq_ok_iff, h.directory]

theorem walk_cons_eq_ok_iff {step : Path.Step} {steps : List Path.Step} {last : Location} :
    t.walk place (step :: steps) = .ok last ↔
      ∃ next, t.step place step = .ok next ∧ t.walk next steps = .ok last := by
  rw [walk]
  cases t.step place step with
  | error e => simp
  | ok next => simp

theorem walk_append_eq_ok_iff {front back : List Path.Step} {last : Location} :
    t.walk place (front ++ back) = .ok last ↔
      ∃ middle, t.walk place front = .ok middle ∧ t.walk middle back = .ok last := by
  induction front generalizing place with
  | nil => simp [walk]
  | cons step front ih =>
      rw [List.cons_append, walk_cons_eq_ok_iff]
      simp only [ih, walk_cons_eq_ok_iff]
      constructor
      · rintro ⟨next, hnext, middle, hmiddle, hlast⟩
        exact ⟨middle, ⟨next, hnext, hmiddle⟩, hlast⟩
      · rintro ⟨middle, ⟨next, hnext, hmiddle⟩, hlast⟩
        exact ⟨next, hnext, middle, hmiddle, hlast⟩

/-- Where steps lead is up to the directories. -/
theorem SameDirectories.walk_eq_ok_iff (h : t.SameDirectories u) {steps : List Path.Step}
    {last : Location} : t.walk place steps = .ok last ↔ u.walk place steps = .ok last := by
  induction steps generalizing place with
  | nil => exact Iff.rfl
  | cons step steps ih =>
      rw [walk_cons_eq_ok_iff, walk_cons_eq_ok_iff]
      simp only [h.step_eq_ok_iff, ih]

theorem SameDirectories.start_eq (h : t.SameDirectories u) (path : String) :
    t.start path = u.start path := by
  rw [start, start, h.workingDirectory]

end Directories

section Target

theorem locate_eq_ok_iff :
    t.locate path = .ok place ↔
      checkPath path = .ok () ∧ t.walk (t.start path) (Path.steps path) = .ok place := by
  rw [locate]
  cases checkPath path <;> simp

theorem lookup_eq_ok_iff :
    t.lookup path = .ok node ↔ ∃ place, t.locate path = .ok place ∧ t.node? place = some node := by
  rw [lookup]
  cases t.locate path with
  | error e => simp
  | ok place => cases hplace : t.node? place <;> simp [hplace]

theorem read_eq_ok_iff {content : Bytes} :
    t.read path = .ok content ↔
      ∃ place, t.locate path = .ok place ∧ t.node? place = some (.file content) := by
  rw [read, ← lookup_eq_ok_iff]
  cases t.lookup path with
  | error e => simp
  | ok node => cases node <;> simp

theorem ne_empty_of_checkPath (h : checkPath path = .ok ()) : path ≠ "" := by
  rintro rfl
  revert h
  decide

/-- The path of a file in a directory leads into that directory. -/
theorem eq_of_locate_join {output name : String} {directory : Location}
    (houtput : t.locate output = .ok directory) (hname : Path.steps name = [.down name])
    (hjoin : t.locate (Path.join output name) = .ok place) : place = directory ++ [name] := by
  obtain ⟨hcheck, hwalk⟩ := locate_eq_ok_iff.mp houtput
  obtain ⟨_, hplace⟩ := locate_eq_ok_iff.mp hjoin
  have hne := ne_empty_of_checkPath hcheck
  obtain ⟨front, hfront, hsteps⟩ := Path.steps_join hne name
  rw [hsteps, hname, start, Path.isAbsolute_join hne, ← start, walk_append_eq_ok_iff] at hplace
  obtain ⟨middle, hmiddle, hlast⟩ := hplace
  have hstep (step : Path.Step) {last : Location} (h : t.walk middle [step] = .ok last) :
      last = middle.move step := by
    obtain ⟨next, hnext, hend⟩ := walk_cons_eq_ok_iff.mp h
    obtain rfl := Except.ok.inj hend
    exact (step_eq_ok_iff.mp hnext).2.1
  have hdirectory : directory = middle := by
    obtain hfront | hfront := hfront
    · rw [hfront, hmiddle] at hwalk
      exact (Except.ok.inj hwalk).symm
    · rw [hfront, walk_append_eq_ok_iff] at hwalk
      obtain ⟨same, hsame, hstay⟩ := hwalk
      rw [hmiddle] at hsame
      obtain rfl := Except.ok.inj hsame
      exact hstep .stay hstay
  rw [hdirectory]
  exact hstep (.down name) hlast

theorem bind_error_ne_ok {α β ε : Type} (x : Except ε α) (e : ε) (b : β) :
    (x.bind fun _ => .error e) ≠ .ok b := by
  cases x <;> rintro ⟨⟩

/-- A path names a file if it does not end in a slash, and ends in a step down in a
directory. -/
theorem target_eq_ok_iff {whenDirectory : FileError} :
    t.target path whenDirectory = .ok place ↔
      checkPath path = .ok () ∧ Path.dropSlashes path = path ∧
        ∃ name directory, (Path.steps path).getLast? = some (.down name) ∧
          t.walk (t.start path) (Path.steps path).dropLast = .ok directory ∧
          t.step directory (.down name) = .ok place := by
  rw [target]
  cases checkPath path with
  | error e => simp
  | ok _ =>
      by_cases hslash : Path.dropSlashes path = path
      · simp only [hslash, ne_eq, not_true_eq_false, if_false, true_and]
        cases t.walk (t.start path) (Path.steps path).dropLast with
        | error e => simp
        | ok directory =>
            cases (Path.steps path).getLast? with
            | none => simp [bind_error_ne_ok]
            | some last => cases last <;> simp [bind_error_ne_ok]
      · simp only [hslash, ne_eq, not_false_eq_true, if_true, false_and, and_false, iff_false]
        split
        · simp
        · exact bind_error_ne_ok _ _ _
        · exact bind_error_ne_ok _ _ _

theorem SameDirectories.target_eq_ok_iff (h : t.SameDirectories u) {whenDirectory : FileError} :
    t.target path whenDirectory = .ok place ↔ u.target path whenDirectory = .ok place := by
  rw [FileTree.target_eq_ok_iff, FileTree.target_eq_ok_iff, h.start_eq]
  simp only [h.walk_eq_ok_iff, h.step_eq_ok_iff]

/-- The place of the file that a path names is where the path leads. -/
theorem locate_of_target {whenDirectory : FileError}
    (h : t.target path whenDirectory = .ok place) : t.locate path = .ok place := by
  obtain ⟨hcheck, _, name, directory, hlast, hwalk, hstep⟩ := target_eq_ok_iff.mp h
  have hsteps : Path.steps path = (Path.steps path).dropLast ++ [.down name] :=
    (List.dropLast_append_getLast? _ hlast).symm
  refine locate_eq_ok_iff.mpr ⟨hcheck, ?_⟩
  rw [hsteps, walk_append_eq_ok_iff]
  exact ⟨directory, hwalk, walk_cons_eq_ok_iff.mpr ⟨place, hstep, rfl⟩⟩

end Target

section Replace

/-- A path whose file can be replaced: there is a directory for the temporary file, and the
path names a file, which need not be there, and no directory. -/
structure IsReplaceable (t : FileTree) (path : String) (place : Location) : Prop where
  temporary : ∃ directory, t.temporaryDirectory path = .ok directory
  target : t.target path .notDirectory = .ok place
  noDirectory : t.node? place ≠ some .directory

/-- A tree after the file that a path leads to was replaced: the path leads to the same place,
where the content is, and all else stands as it stood. -/
structure IsReplaced (t u : FileTree) (path : String) (content : Bytes) (place : Location) :
    Prop where
  before : t.locate path = .ok place
  after : u.locate path = .ok place
  content : u.node? place = some (.file content)
  others : ∀ other, other ≠ place → u.node? other = t.node? other
  workingDirectory : u.workingDirectory = t.workingDirectory

theorem IsReplaceable.isReplaced_insert (h : t.IsReplaceable path place) (content : Bytes) :
    t.IsReplaced (t.insert place (.file content)) path content place where
  before := locate_of_target h.target
  after := locate_of_target
    ((sameDirectories_insert h.noDirectory content).target_eq_ok_iff.mpr h.target)
  content := node?_insert_self (not_above_of_node? h.noDirectory) (.file content)
  others := fun _ hother => node?_insert_of_ne t (.file content) hother
  workingDirectory := rfl

theorem IsReplaced.read {content : Bytes} (h : t.IsReplaced u path content place) :
    u.read path = .ok content :=
  read_eq_ok_iff.mpr ⟨place, h.after, h.content⟩

theorem rename_eq_ok_iff {source : Location} :
    t.rename source place = .ok u ↔ t.node? place ≠ some .directory ∧
      ∃ node, t.node? source = some node ∧ u = (t.erase source).insert place node := by
  rw [rename]
  split
  · next h => simp [h]
  · next h =>
      have hplace : t.node? place ≠ some .directory := h
      cases t.node? source with
      | none => simp
      | some node => simp [hplace, eq_comm]

theorem moveTemporary_eq_ok_iff {temporary : Location} {content : Bytes}
    (hfresh : t.IsFresh temporary) :
    (t.insert temporary (.file content)).moveTemporary temporary path = .ok u ↔
      ∃ place, t.target path .notDirectory = .ok place ∧ t.node? place ≠ some .directory ∧
        u = t.insert place (.file content) := by
  have hnone : t.node? temporary ≠ some .directory := by
    rw [node?_of_isFresh hfresh]
    rintro ⟨⟩
  have hsame := sameDirectories_insert hnone content
  have hnode := node?_insert_self hfresh.notAbove (.file content)
  refine bind_eq_ok_iff.trans (exists_congr fun place => ?_)
  rw [hsame.target_eq_ok_iff, rename_eq_ok_iff, ne_eq, hsame.directory, hnode,
    erase_insert_of_isFresh hfresh]
  simp

section Faults

variable {faults : Faults} {content : Bytes}

/-- The device fails no stage. -/
def Faults.IsClear (faults : Faults) : Prop :=
  ∀ stage, faults.reason? stage = Option.none

theorem Faults.pass_eq_ok_iff {stage : Stage} {done : Unit} :
    faults.pass stage = .ok done ↔ faults.reason? stage = Option.none := by
  rw [Faults.pass]
  cases faults.reason? stage <;> simp

/-- A new temporary file has a place of its own in a directory. -/
theorem makeTemporary_eq_ok_iff {temporary : Location} :
    t.makeTemporary faults path = .ok temporary ↔ faults.reason? .make = Option.none ∧
      ∃ directory, t.temporaryDirectory path = .ok directory ∧
        temporary = directory ++ [t.freshName] := by
  simp only [makeTemporary, bind_eq_ok_iff, mapError_eq_ok_iff, Faults.pass_eq_ok_iff, pure,
    Except.pure, Except.ok.injEq, eq_comm (a := temporary), exists_const]

theorem settleTemporary_eq_ok_iff {temporary : Location} :
    t.settleTemporary faults temporary path = .ok u ↔
      faults.reason? .flush = Option.none ∧ faults.reason? .sync = Option.none ∧
        faults.reason? .move = Option.none ∧ t.moveTemporary temporary path = .ok u := by
  simp only [settleTemporary, bind_eq_ok_iff, mapError_eq_ok_iff, Faults.pass_eq_ok_iff,
    exists_const]

/-- The tree that a replacement leads to if all its stages are passed. -/
def replaced (t : FileTree) (faults : Faults) (path : String) (content : Bytes) :
    Except ReplaceError FileTree := do
  let temporary ← t.makeTemporary faults path
  faults.pass .write
  (t.insert temporary (.file content)).settleTemporary faults temporary path

/-- However far a replacement gets, it leaves no trace unless it passes all stages. -/
theorem replace_eq (t : FileTree) (faults : Faults) (path : String) (content : Bytes) :
    t.replace faults path content =
      match t.replaced faults path content with
      | .error e => (.error e, t)
      | .ok rest => (.ok (), rest) := by
  rw [replace, replaced]
  cases hmake : t.makeTemporary faults path with
  | error e => rfl
  | ok temporary =>
      obtain ⟨_, directory, _, rfl⟩ := makeTemporary_eq_ok_iff.mp hmake
      have hfresh := isFresh_temporary t directory
      -- Whatever the temporary file holds when a stage fails, nothing is noted under its place
      -- in `t`, so that taking it away gives `t` again.
      simp only [fillTemporary, insert_insert, ok_bind]
      cases faults.pass .write with
      | error e => simp only [erase_insert_of_isFresh hfresh, bind, Except.bind]
      | ok _ =>
          rw [ok_bind]
          cases (t.insert (directory ++ [t.freshName]) (.file content)).settleTemporary faults
              (directory ++ [t.freshName]) path with
          | error e => simp only [erase_insert_of_isFresh hfresh]
          | ok rest => rfl

theorem replaced_eq_ok_iff :
    t.replaced faults path content = .ok u ↔
      faults.IsClear ∧
        ∃ place, t.IsReplaceable path place ∧ u = t.insert place (.file content) := by
  simp only [replaced, bind_eq_ok_iff, Faults.pass_eq_ok_iff, exists_const,
    makeTemporary_eq_ok_iff, settleTemporary_eq_ok_iff]
  constructor
  · rintro ⟨temporary, ⟨hmake, directory, hdirectory, rfl⟩, hwrite, hflush, hsync, hmove, h⟩
    obtain ⟨place, htarget, hplace, rfl⟩ :=
      (moveTemporary_eq_ok_iff (isFresh_temporary t directory)).mp h
    refine ⟨fun stage => ?_, place, ⟨⟨directory, hdirectory⟩, htarget, hplace⟩, rfl⟩
    cases stage with
    | make => exact hmake
    | write => exact hwrite
    | flush => exact hflush
    | sync => exact hsync
    | move => exact hmove
  · rintro ⟨hclear, place, ⟨⟨directory, hdirectory⟩, htarget, hplace⟩, rfl⟩
    refine ⟨_, ⟨hclear .make, directory, hdirectory, rfl⟩, hclear .write, hclear .flush,
      hclear .sync, hclear .move, ?_⟩
    exact (moveTemporary_eq_ok_iff (isFresh_temporary t directory)).mpr
      ⟨place, htarget, hplace, rfl⟩

end Faults

/-- **Replacing a file is all or nothing.** The tree is as it was, or differs by the new
content at the place that the path leads to. -/
theorem replace_cases (t : FileTree) (faults : Faults) (path : String) (content : Bytes) :
    (∃ e, t.replace faults path content = (.error e, t) ∧
      ¬ (faults.IsClear ∧ ∃ place, t.IsReplaceable path place)) ∨
    ∃ place, t.replace faults path content = (.ok (), t.insert place (.file content)) ∧
      faults.IsClear ∧ t.IsReplaceable path place := by
  rw [replace_eq]
  cases hreplaced : t.replaced faults path content with
  | error e =>
      refine .inl ⟨e, rfl, ?_⟩
      rintro ⟨hclear, place, hplace⟩
      have hok : t.replaced faults path content = .ok _ :=
        replaced_eq_ok_iff.mpr ⟨hclear, place, hplace, rfl⟩
      rw [hreplaced] at hok
      cases hok
  | ok rest =>
      obtain ⟨hclear, place, hplace, rfl⟩ := replaced_eq_ok_iff.mp hreplaced
      exact .inr ⟨place, rfl, hclear, hplace⟩

end Replace

end CpkProvenance.FileTree
