import Tapgres.Lib.Files
import Tapgres.Net

/-!
# Saving must not overwrite what is replayed

`ensure_distinct_files` (`main.rs`), which runs before `--replay FILE --save FILE` opens anything: the files
are compared by their real names, and by their inodes if the output is there.

* `ensure_exact` — whatever links, dots and hard links the paths have, the check accepts an output exactly
  when creating it does not open the input;
* `replay_input_kept` — so the input is read as it was, whatever is written to the output.
-/

namespace Tapgres.Distinct

open Tapgres.Net Tapgres.Lib.Files

inductive DistinctError where
  /-- A path that does not lead to anything. -/
  | io
  | invalidInput (message : String)
  deriving DecidableEq, Repr

def overwrites : DistinctError := .invalidInput "--save must not overwrite the --replay input file"

section Code

variable {α : Type} (disk : Disk α)

def canonicalize (path : Path) : Except DistinctError (List String) :=
  match disk.canonicalize path with
  | some names => .ok names
  | none => .error .io

/-- The device and the inode of a path without links. -/
def metadata (names : List String) : Except DistinctError ℕ :=
  match disk.resolve (.ofNames names) with
  | some place => .ok (disk.inode place)
  | none => .error .io

def filesShareIdentity (left right : List String) : Except DistinctError Bool := do
  let left ← metadata disk left
  let right ← metadata disk right
  return left = right

/-- The directory in front of the last component. -/
def parentOrDot (path : Path) : Path := (path.parent.filter fun parent => !parent.isEmpty).getD .dot

/-- The real name of the output; of one that is not there, that it will have. -/
def outputNames (output : Path) : Except DistinctError (List String) :=
  if (disk.resolve output).isSome then canonicalize disk output
  else
    match output.fileName with
    | none => .error (.invalidInput "invalid --save path")
    | some name => do
      let parent ← canonicalize disk (parentOrDot output)
      return parent ++ [name]

def ensureDistinctFiles (input output : Path) : Except DistinctError Unit := do
  let inputNames ← canonicalize disk input
  let outputExists := (disk.resolve output).isSome
  let outputNames ← outputNames disk output
  if inputNames = outputNames then .error overwrites
  else if outputExists then
    if (← filesShareIdentity disk inputNames outputNames) then .error overwrites else .ok ()
  else .ok ()

end Code

/-! ### An output that is not there -/

section Free

variable {α : Type} {fs : FileSystem α} {output : Path} {place : Place} {name : String}

/-- The last component is a name, and what is in front of it leads to a directory. -/
theorem free_parent (h : fs.target output = some (.free place name)) :
    ∃ links front last, output.fileName = some last ∧ fs.Real front ∧
      fs.canonicalize (parentOrDot output) = some (names front) ∧
      Walks fs.toDisk links front [.name last] (.free place name) := by
  obtain ⟨hempty, hwalk⟩ := target_eq_some.mp h
  have hcomponents := hwalk.dotless (components_dotless output)
  rcases List.eq_nil_or_concat output.components with hnil | ⟨front, last, hconcat⟩
  · rw [hnil] at hcomponents
    cases hcomponents
  · rw [List.concat_eq_append] at hconcat
    rw [hconcat] at hcomponents
    obtain ⟨links, mid, hfront, hlast⟩ := hcomponents.split rfl (by simp)
    have hreal : fs.Real mid := hfront.real (fs.sound.start output)
    obtain ⟨last, rfl⟩ : ∃ last', last = .name last' := by
      cases hlast with
      | here _ hrest => cases hrest
      | up _ hrest => cases hrest
      | free => exact ⟨_, rfl⟩
      | link => exact ⟨_, rfl⟩
      | enter => exact ⟨_, rfl⟩
    refine ⟨links, mid, last, ?_, hreal, ?_, hlast⟩
    · rw [Path.fileName, hconcat, List.getLast?_concat]
    · have hparent : output.parent = some { output with parts := front } := by
        rw [Path.parent, hconcat, List.dropLast_concat]
        simp
      suffices hresolve : fs.resolve (parentOrDot output) = some mid by
        rw [Disk.canonicalize, hresolve]
        rfl
      rw [parentOrDot, hparent]
      by_cases hdot : Path.isEmpty { output with parts := front } = true
      · -- a name alone: the directory is the working directory
        rw [Option.filter_some, if_neg (by rw [hdot]; decide), Option.getD_none]
        rw [Path.isEmpty, Bool.and_eq_true, Bool.not_eq_true', List.isEmpty_iff] at hdot
        obtain ⟨habsolute, rfl⟩ := hdot
        have hstart : fs.start output = fs.cwd := by
          rw [Disk.start, habsolute]
          rfl
        cases hfront
        obtain ⟨entries, hdir⟩ := fs.sound.cwdDir
        rw [hstart]
        exact resolve_eq_some.mpr (target_eq_some.mpr ⟨rfl, .here hdir (.nil _ _)⟩)
      · rw [Option.filter_some, if_pos (by simpa using hdot), Option.getD_some]
        exact resolve_eq_some.mpr (target_eq_some.mpr ⟨by simpa using hdot, hfront⟩)

/-- **A name that is free is not that of the input.** -/
theorem free_ne {links : ℕ} {front In : Place} {last : String} (hfront : fs.Real front) (hin : fs.Real In)
    (hlast : Walks fs.toDisk links front [.name last] (.free place name)) : names In ≠ names front ++ [last] := by
  intro hnames
  cases In with
  | nil => exact absurd hnames (by simp [names])
  | cons top below =>
    obtain ⟨inName, i⟩ := top
    obtain ⟨hbelow, entries, node, hdir, hentry, hnode, hreal⟩ := hin
    rw [names_cons] at hnames
    obtain ⟨hsame, hname⟩ := List.append_inj' hnames rfl
    obtain rfl := names_inj hbelow hfront hsame
    obtain rfl : inName = last := List.singleton_inj.mp hname
    have hfound := Walks.enter hdir hentry hnode hreal (.nil links ((inName, i) :: below))
    cases hfound.unique hlast

end Free

/-! ### The check -/

section Check

variable {α : Type} {fs : FileSystem α} {input output : Path} {In place : Place}

theorem metadata_names (hin : fs.Real In) : metadata fs.toDisk (names In) = .ok (fs.inode In) := by
  rw [metadata, resolve_canonical hin]

theorem canonicalize_resolve (h : fs.resolve input = some In) :
    canonicalize fs.toDisk input = .ok (names In) := by
  rw [canonicalize, Disk.canonicalize, h]
  rfl

/-- Two files that are there are told apart by their inodes. -/
theorem ensure_found (hinput : fs.resolve input = some In) (houtput : fs.resolve output = some place) :
    ensureDistinctFiles fs.toDisk input output
      = if fs.inode place = fs.inode In then .error overwrites else .ok () := by
  have hin : fs.Real In := resolve_real fs.sound hinput
  have hout : fs.Real place := resolve_real fs.sound houtput
  have houtputNames : outputNames fs.toDisk output = .ok (names place) := by
    rw [outputNames, houtput, Option.isSome_some, if_pos rfl, canonicalize_resolve houtput]
  have hshare : filesShareIdentity fs.toDisk (names In) (names place)
      = .ok (decide (fs.inode In = fs.inode place)) := by
    rw [filesShareIdentity, metadata_names hin, metadata_names hout]
    rfl
  rw [ensureDistinctFiles, canonicalize_resolve hinput, houtput, houtputNames]
  show (if names In = names place then .error overwrites
    else if (some place).isSome then
      filesShareIdentity fs.toDisk (names In) (names place) >>= fun same =>
        if same then .error overwrites else .ok ()
    else .ok ()) = _
  rw [hshare]
  by_cases hsame : In = place
  · rw [if_pos (by rw [hsame]), if_pos (by rw [hsame])]
  · rw [if_neg fun hnames => hsame (names_inj hin hout hnames)]
    by_cases hinode : fs.inode place = fs.inode In
    · rw [if_pos hinode, hinode, decide_eq_true rfl]
      rfl
    · rw [if_neg hinode, decide_eq_false (Ne.symm hinode)]
      rfl

/-- An output that is not there is accepted. -/
theorem ensure_free {name : String} (hinput : fs.resolve input = some In)
    (houtput : fs.target output = some (.free place name)) :
    ensureDistinctFiles fs.toDisk input output = .ok () := by
  obtain ⟨links, front, last, hname, hfront, hparent, hlast⟩ := free_parent houtput
  have hresolve : fs.resolve output = none := by
    rw [Disk.resolve, houtput]
  have houtputNames : outputNames fs.toDisk output = .ok (names front ++ [last]) := by
    rw [outputNames, hresolve, Option.isSome_none, if_neg Bool.false_ne_true, hname]
    dsimp only
    rw [canonicalize, hparent]
    rfl
  rw [ensureDistinctFiles, canonicalize_resolve hinput, hresolve, houtputNames]
  show (if names In = names front ++ [last] then _ else _) = _
  rw [if_neg (free_ne hfront (resolve_real fs.sound hinput) hlast)]
  rfl

/-- The check looks at the file that would be opened. -/
theorem ensure_create {after : Disk α} {empty : α} {i : ℕ} (hinput : fs.resolve input = some In)
    (hcreate : fs.toDisk.create output empty = some (after, i)) :
    ensureDistinctFiles fs.toDisk input output = if i = fs.inode In then .error overwrites else .ok () := by
  rcases create_cases fs.sound hcreate with ⟨place, _, houtput, rfl, _, _⟩ |
    ⟨place, name, _, houtput, rfl, _, _, _⟩
  · exact ensure_found hinput houtput
  · obtain ⟨node, hnode⟩ := (resolve_real fs.sound hinput).node fs.sound
    have hlt := fs.sound.lt_next hnode
    rw [if_neg (Nat.ne_of_gt hlt)]
    exact ensure_free hinput houtput

/-- **The check is exact**: of the outputs that can be created, it accepts those that do not open the input,
and any other would be emptied.  The paths may have dots and links in them, and the two files may be hard
links to one. -/
theorem ensure_exact (fs after : FileSystem α) (input output : Path) (In : Place) (empty : α) (i : ℕ)
    (hinput : fs.resolve input = some In) (hcreate : fs.create output empty = some (after, i)) :
    ensureDistinctFiles fs.toDisk input output
        = (if i = fs.inode In then .error overwrites else .ok ()) ∧
      (i = fs.inode In → after.read input = some empty) := by
  have hdisk := FileSystem.create_eq hcreate
  refine ⟨ensure_create hinput hdisk, ?_⟩
  intro hi
  have hgrows := create_grows fs.sound hdisk
  refine read_eq_some.mpr ⟨In, hgrows.resolve hinput, ?_⟩
  rw [hgrows.inode, ← hi]
  exact (create_nodes fs.sound hdisk).1

/-- A directory with a file and a link to it. -/
def linkedDisk : Disk Bytes where
  nodes
    | 0 => some (.dir fun name => if name = "f" then some 1 else if name = "l" then some 2 else none)
    | 1 => some (.file [1, 2])
    | 2 => some (.link ⟨false, [.name "f"]⟩)
    | _ => none
  root := 0
  cwd := []
  next := 3

def linked : FileSystem Bytes where
  toDisk := linkedDisk
  sound :=
    { free := by
        intro i hi
        obtain ⟨k, rfl⟩ := Nat.exists_eq_add_of_le hi
        rw [Nat.add_comm]
        rfl
      rooted := ⟨_, rfl⟩
      cwd := trivial
      cwdDir := ⟨_, rfl⟩ }

theorem walks_f (links : ℕ) : Walks linkedDisk links [] [.name "f"] (.found [("f", 1)]) :=
  .enter rfl rfl rfl (fun _ hlink => (by cases hlink)) (.nil _ _)

theorem resolve_f : linked.resolve ⟨true, [.name "f"]⟩ = some [("f", 1)] :=
  resolve_eq_some.mpr (target_eq_some.mpr ⟨rfl, walks_f maxLinks⟩)

theorem target_l : linkedDisk.target ⟨true, [.name "l"]⟩ = some (.found [("f", 1)]) :=
  target_eq_some.mpr ⟨rfl, .link rfl rfl rfl (walks_f 39)⟩

/-- The link is refused: it would be followed, and the file emptied. -/
theorem ensure_exact_link :
    ensureDistinctFiles linked.toDisk ⟨true, [.name "f"]⟩ ⟨true, [.name "l"]⟩ = .error overwrites := by
  have hcreate : linked.toDisk.create ⟨true, [.name "l"]⟩ [] = some (linkedDisk.put 1 (.file []), 1) := by
    show linkedDisk.create ⟨true, [.name "l"]⟩ [] = _
    rw [Disk.create, target_l]
    rfl
  obtain ⟨after, hafter, _⟩ := FileSystem.exists_create hcreate
  exact (ensure_exact linked after _ _ _ [] 1 resolve_f hafter).1

/-- Append to an open file, one text after the other. -/
def appendAll (i : ℕ) (fs : FileSystem Bytes) (writes : List Bytes) : FileSystem Bytes :=
  writes.foldl (fun fs bytes => fs.write i (· ++ bytes)) fs

theorem appendAll_spec {i : ℕ} {after : FileSystem Bytes} {content : Bytes}
    (hfile : after.nodes i = some (.file content)) (writes : List Bytes) :
    Grows after.toDisk (appendAll i after writes).toDisk ∧
      (appendAll i after writes).nodes i = some (.file (content ++ writes.flatten)) ∧
      ∀ j, j ≠ i → (appendAll i after writes).nodes j = after.nodes j := by
  induction writes generalizing after content with
  | nil =>
    rw [List.flatten_nil, List.append_nil]
    exact ⟨.refl _, hfile, fun _ _ => rfl⟩
  | cons bytes writes ih =>
    have hwrite : (after.write i (· ++ bytes)).nodes i = some (.file (content ++ bytes)) :=
      write_nodes after.toDisk i _ hfile
    obtain ⟨hgrows, hnode, hother⟩ := ih hwrite
    refine ⟨(write_grows after.toDisk i _).trans hgrows, ?_, fun j hj => ?_⟩
    · rw [List.flatten_cons, ← List.append_assoc]
      exact hnode
    · exact (hother j hj).trans (write_nodes_of_ne after.toDisk _ hj)

/-- **A replay that is accepted reads its input as it was**, whatever is written to the output meanwhile; and
the output has just what is written. -/
theorem replay_input_kept (fs after : FileSystem Bytes) (input output : Path) (i : ℕ)
    (hensure : ensureDistinctFiles fs.toDisk input output = .ok ())
    (hcreate : fs.create output [] = some (after, i)) (writes : List Bytes) :
    (∀ content, fs.read input = some content → (appendAll i after writes).read input = some content) ∧
      (appendAll i after writes).nodes i = some (.file writes.flatten) := by
  have hdisk := FileSystem.create_eq hcreate
  obtain ⟨hempty, hkeeps⟩ := create_nodes fs.sound hdisk
  obtain ⟨hgrows, hnode, hother⟩ := appendAll_spec hempty writes
  refine ⟨?_, hnode⟩
  intro content hread
  obtain ⟨In, hinput, hcontent⟩ := read_eq_some.mp hread
  have hne : fs.inode In ≠ i := by
    intro hi
    rw [ensure_create hinput hdisk, if_pos hi.symm] at hensure
    cases hensure
  have hall := (create_grows fs.sound hdisk).trans hgrows
  refine read_eq_some.mpr ⟨In, hall.resolve hinput, ?_⟩
  rw [hall.inode, hother _ hne]
  exact hkeeps _ content hne hcontent

/-- A new name is accepted, and the file beside it is kept. -/
theorem replay_input_kept_new : ∃ after, linked.create ⟨true, [.name "g"]⟩ [] = some (after, 3) ∧
    (appendAll 3 after [[7], [8]]).read ⟨true, [.name "f"]⟩ = some [1, 2] ∧
      (appendAll 3 after [[7], [8]]).nodes 3 = some (.file [7, 8]) := by
  have htarget : linkedDisk.target ⟨true, [.name "g"]⟩ = some (.free [] "g") :=
    target_eq_some.mpr ⟨rfl, .free rfl rfl⟩
  obtain ⟨disk, hcreate⟩ : ∃ disk, linked.toDisk.create ⟨true, [.name "g"]⟩ [] = some (disk, 3) := by
    show ∃ disk, linkedDisk.create ⟨true, [.name "g"]⟩ [] = some (disk, 3)
    rw [Disk.create, htarget]
    exact ⟨_, rfl⟩
  obtain ⟨after, hafter, _⟩ := FileSystem.exists_create hcreate
  obtain ⟨hread, hnode⟩ := replay_input_kept linked after ⟨true, [.name "f"]⟩ ⟨true, [.name "g"]⟩ 3
    (ensure_free resolve_f htarget) hafter [[7], [8]]
  exact ⟨after, hafter, hread _ (read_eq_some.mpr ⟨_, resolve_f, rfl⟩), hnode⟩

end Check

end Tapgres.Distinct
