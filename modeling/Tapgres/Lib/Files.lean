import Mathlib.Data.List.Basic
import Mathlib.Tactic.Common

/-!
# Files, directories and symbolic links

A disk is a table of nodes under inode numbers.  A path is walked part by part from the root or the working
directory, following links up to a limit; what is reached is a `Place`, the names from the root with their
inodes.  Nothing is denied, and nobody else changes the files.

* `Walks`, `walk_eq_some` — a walk as a relation, with one rule for each kind of part;
* `Walks.append`, `Walks.split` — a path is walked a part at a time;
* `Walks.real`, `walk_names` — the names of what a path leads to are no links, and lead there again;
* `Walks.dotless` — dots may be left out, as long as something is found or free at the end;
* `Grows`, `Grows.resolve` — while files only change their contents and directories only gain entries, a path
  leads to what it led to;
* `create_grows`, `create_other` — so it is when a file is created, and no other file changes its content.

Nothing here names a concrete program.
-/

namespace Tapgres.Lib.Files

/-! ### Paths -/

/-- A part of a path, as it is written. -/
inductive Part where
  /-- A dot, or nothing behind a slash. -/
  | here
  | up
  | name (name : String)
  deriving DecidableEq, Repr

structure Path where
  absolute : Bool
  parts : List Part
  deriving DecidableEq, Repr

/-- The empty path, which leads nowhere. -/
def Path.isEmpty (path : Path) : Bool := !path.absolute && path.parts.isEmpty

/-- The parts without dots, but for one in front of a relative path. -/
def Path.components (path : Path) : List Part :=
  match path.absolute, path.parts with
  | false, .here :: parts => .here :: parts.filter (· ≠ .here)
  | _, parts => parts.filter (· ≠ .here)

/-- The path without its last component. -/
def Path.parent (path : Path) : Option Path :=
  if path.components.isEmpty then none else some { path with parts := path.components.dropLast }

/-- The last component, if it is a name. -/
def Path.fileName (path : Path) : Option String :=
  match path.components.getLast? with
  | some (.name name) => some name
  | _ => none

/-- The path of the working directory. -/
def Path.dot : Path := ⟨false, [.here]⟩

/-! ### Disks -/

variable {α : Type*}

inductive Node (α : Type*) where
  | file (content : α)
  | dir (entries : String → Option ℕ)
  | link (target : Path)

/-- Where a path leads: the names from the root with their inodes, the last one first. -/
abbrev Place := List (String × ℕ)

/-- The names of a place, from the root. -/
def names (place : Place) : List String := (place.map Prod.fst).reverse

structure Disk (α : Type*) where
  nodes : ℕ → Option (Node α)
  root : ℕ
  /-- The working directory. -/
  cwd : Place
  /-- No inode is in use from here on. -/
  next : ℕ

/-- What a path leads to: something that is there, or a name that is free in a directory. -/
inductive Target where
  | found (place : Place)
  | free (place : Place) (name : String)
  deriving DecidableEq, Repr

section Disk

variable (disk : Disk α)

def Disk.inode : Place → ℕ
  | [] => disk.root
  | (_, i) :: _ => i

/-- The directory at a place. -/
def Disk.dir (place : Place) : Option (String → Option ℕ) :=
  match disk.nodes (disk.inode place) with
  | some (.dir entries) => some entries
  | _ => none

/-- Walk a path from a place; `links` is how many links may still be followed. -/
def Disk.walk : ℕ → Place → List Part → Option Target
  | _, place, [] => some (.found place)
  | links, place, part :: parts =>
    match disk.dir place with
    | none => none
    | some entries =>
      match part with
      | .here => Disk.walk links place parts
      | .up => Disk.walk links place.tail parts
      | .name name =>
        match entries name with
        | none => if parts.isEmpty then some (.free place name) else none
        | some i =>
          match disk.nodes i with
          | none => none
          | some (.link target) =>
            match links with
            | 0 => none
            | links + 1 => Disk.walk links (if target.absolute then [] else place) (target.parts ++ parts)
          | some _ => Disk.walk links ((name, i) :: place) parts
  termination_by links _ parts => (links, parts.length)

/-- How many links are followed on the way. -/
def maxLinks : ℕ := 40

/-- Where a path leads. -/
def Disk.target (path : Path) : Option Target :=
  if path.isEmpty then none else disk.walk maxLinks (if path.absolute then [] else disk.cwd) path.parts

/-- What is there under the path. -/
def Disk.resolve (path : Path) : Option Place :=
  match disk.target path with
  | some (.found place) => some place
  | _ => none

/-- The absolute path without links. -/
def Disk.canonicalize (path : Path) : Option (List String) := (disk.resolve path).map names

/-- The content of the file under the path. -/
def Disk.read (path : Path) : Option α :=
  match (disk.resolve path).bind fun place => disk.nodes (disk.inode place) with
  | some (.file content) => some content
  | _ => none

/-- A path of names only, from the root. -/
def Path.ofNames (names : List String) : Path := ⟨true, names.map .name⟩

end Disk

/-! ### Walks -/

/-- The rules of a walk. -/
inductive Walks (disk : Disk α) : ℕ → Place → List Part → Target → Prop
  | nil (links : ℕ) (place : Place) : Walks disk links place [] (.found place)
  | here {links : ℕ} {place : Place} {parts : List Part} {target : Target} {entries : String → Option ℕ}
      (hdir : disk.dir place = some entries) (h : Walks disk links place parts target) :
      Walks disk links place (.here :: parts) target
  | up {links : ℕ} {place : Place} {parts : List Part} {target : Target} {entries : String → Option ℕ}
      (hdir : disk.dir place = some entries) (h : Walks disk links place.tail parts target) :
      Walks disk links place (.up :: parts) target
  | free {links : ℕ} {place : Place} {name : String} {entries : String → Option ℕ}
      (hdir : disk.dir place = some entries) (hname : entries name = none) :
      Walks disk links place [.name name] (.free place name)
  | link {links : ℕ} {place : Place} {name : String} {parts : List Part} {target : Target}
      {entries : String → Option ℕ} {i : ℕ} {path : Path} (hdir : disk.dir place = some entries)
      (hname : entries name = some i) (hnode : disk.nodes i = some (.link path))
      (h : Walks disk links (if path.absolute then [] else place) (path.parts ++ parts) target) :
      Walks disk (links + 1) place (.name name :: parts) target
  | enter {links : ℕ} {place : Place} {name : String} {parts : List Part} {target : Target}
      {entries : String → Option ℕ} {i : ℕ} {node : Node α} (hdir : disk.dir place = some entries)
      (hname : entries name = some i) (hnode : disk.nodes i = some node) (hreal : ∀ path, node ≠ .link path)
      (h : Walks disk links ((name, i) :: place) parts target) :
      Walks disk links place (.name name :: parts) target

variable {disk : Disk α} {links : ℕ} {place : Place} {parts : List Part} {target : Target}

theorem Walks.walk (h : Walks disk links place parts target) : disk.walk links place parts = some target := by
  induction h with
  | nil => rw [Disk.walk]
  | here hdir _ ih => rw [Disk.walk, hdir]; exact ih
  | up hdir _ ih => rw [Disk.walk, hdir]; exact ih
  | free hdir hname =>
    rw [Disk.walk, hdir]
    simp only [hname]
    rfl
  | link hdir hname hnode _ ih =>
    rw [Disk.walk, hdir]
    simp only [hname, hnode]
    exact ih
  | @enter _ _ _ _ _ _ _ node hdir hname hnode hreal _ ih =>
    rw [Disk.walk, hdir]
    simp only [hname, hnode]
    cases node with
    | link path => exact absurd rfl (hreal path)
    | _ => exact ih

theorem walks_of_walk (h : disk.walk links place parts = some target) : Walks disk links place parts target := by
  fun_induction disk.walk links place parts with
  | case1 =>
    cases h
    exact .nil _ _
  | case3 _ _ _ _ hdir ih => exact .here hdir (ih h)
  | case4 _ _ _ _ hdir ih => exact .up hdir (ih h)
  | case5 _ _ _ _ hdir name hname hlast =>
    cases h
    rw [List.isEmpty_iff.mp hlast]
    exact .free hdir hname
  | case9 _ _ _ hdir _ _ hname _ hnode _ ih => exact .link hdir hname hnode (ih h)
  | case10 _ _ _ _ hdir _ _ hname _ hreal hnode ih => exact .enter hdir hname hnode hreal (ih h)
  | _ => cases h

/-- A path leads to one thing. -/
theorem Walks.unique {target' : Target} (h : Walks disk links place parts target)
    (h' : Walks disk links place parts target') : target = target' :=
  Option.some.inj (h.walk.symm.trans h'.walk)

/-- Behind what is found, the walk goes on. -/
theorem Walks.append (h : Walks disk links place parts target) {mid : Place} (hmid : target = .found mid)
    (more : List Part) :
    ∃ links', ∀ last, Walks disk links' mid more last → Walks disk links place (parts ++ more) last := by
  induction h with
  | nil links place =>
    cases hmid
    exact ⟨links, fun _ h => h⟩
  | here hdir _ ih =>
    obtain ⟨links', h⟩ := ih hmid
    exact ⟨links', fun last hlast => .here hdir (h last hlast)⟩
  | up hdir _ ih =>
    obtain ⟨links', h⟩ := ih hmid
    exact ⟨links', fun last hlast => .up hdir (h last hlast)⟩
  | free => cases hmid
  | link hdir hname hnode _ ih =>
    obtain ⟨links', h⟩ := ih hmid
    refine ⟨links', fun last hlast => .link hdir hname hnode ?_⟩
    have hnext := h last hlast
    rwa [List.append_assoc] at hnext
  | enter hdir hname hnode hreal _ ih =>
    obtain ⟨links', h⟩ := ih hmid
    exact ⟨links', fun last hlast => .enter hdir hname hnode hreal (h last hlast)⟩

/-- Every front part of a walk finds something. -/
theorem Walks.split (h : Walks disk links place parts target) {front more : List Part}
    (hparts : parts = front ++ more) (hmore : more ≠ []) :
    ∃ links' mid, Walks disk links place front (.found mid) ∧ Walks disk links' mid more target := by
  induction h generalizing front with
  | nil => exact absurd (List.append_eq_nil_iff.mp hparts.symm).2 hmore
  | here hdir h ih =>
    rcases List.cons_eq_append_iff.mp hparts with ⟨rfl, rfl⟩ | ⟨front, rfl, hrest⟩
    · exact ⟨_, _, .nil _ _, .here hdir h⟩
    · obtain ⟨links', mid, hfront, hlast⟩ := ih hrest
      exact ⟨links', mid, .here hdir hfront, hlast⟩
  | up hdir h ih =>
    rcases List.cons_eq_append_iff.mp hparts with ⟨rfl, rfl⟩ | ⟨front, rfl, hrest⟩
    · exact ⟨_, _, .nil _ _, .up hdir h⟩
    · obtain ⟨links', mid, hfront, hlast⟩ := ih hrest
      exact ⟨links', mid, .up hdir hfront, hlast⟩
  | free hdir hname =>
    rcases List.cons_eq_append_iff.mp hparts with ⟨rfl, rfl⟩ | ⟨front, rfl, hrest⟩
    · exact ⟨0, _, .nil _ _, .free hdir hname⟩
    · exact absurd (List.append_eq_nil_iff.mp hrest.symm).2 hmore
  | link hdir hname hnode h ih =>
    rcases List.cons_eq_append_iff.mp hparts with ⟨rfl, rfl⟩ | ⟨front, rfl, hrest⟩
    · exact ⟨_, _, .nil _ _, .link hdir hname hnode h⟩
    · obtain ⟨links', mid, hfront, hlast⟩ := ih (by rw [hrest, List.append_assoc])
      exact ⟨links', mid, .link hdir hname hnode hfront, hlast⟩
  | enter hdir hname hnode hreal h ih =>
    rcases List.cons_eq_append_iff.mp hparts with ⟨rfl, rfl⟩ | ⟨front, rfl, hrest⟩
    · exact ⟨_, _, .nil _ _, .enter hdir hname hnode hreal h⟩
    · obtain ⟨links', mid, hfront, hlast⟩ := ih hrest
      exact ⟨links', mid, .enter hdir hname hnode hreal hfront, hlast⟩

/-! ### Dots -/

/-- The second path is the first without some of its dots. -/
inductive Dotless : List Part → List Part → Prop
  | nil : Dotless [] []
  | drop {parts parts' : List Part} (h : Dotless parts parts') : Dotless (.here :: parts) parts'
  | keep (part : Part) {parts parts' : List Part} (h : Dotless parts parts') :
      Dotless (part :: parts) (part :: parts')

theorem Dotless.prepend {parts' : List Part} (h : Dotless parts parts') (front : List Part) :
    Dotless (front ++ parts) (front ++ parts') := by
  induction front with
  | nil => exact h
  | cons part front ih => exact .keep part ih

theorem dotless_filter (parts : List Part) : Dotless parts (parts.filter (· ≠ .here)) := by
  induction parts with
  | nil => exact .nil
  | cons part parts ih =>
    by_cases hpart : part = .here
    · subst hpart
      rw [List.filter_cons_of_neg (by simp)]
      exact .drop ih
    · rw [List.filter_cons_of_pos (by simpa using hpart)]
      exact .keep part ih

theorem components_dotless (path : Path) : Dotless path.parts path.components := by
  unfold Path.components
  split
  · rename_i parts _ hparts
    rw [hparts]
    exact .keep .here (dotless_filter parts)
  · exact dotless_filter _

/-- **Dots may be left out** of a path that leads somewhere. -/
theorem Walks.dotless (h : Walks disk links place parts target) {parts' : List Part}
    (hdots : Dotless parts parts') : Walks disk links place parts' target := by
  induction h generalizing parts' with
  | nil =>
    cases hdots
    exact .nil _ _
  | here hdir _ ih =>
    cases hdots with
    | drop hdots => exact ih hdots
    | keep _ hdots => exact .here hdir (ih hdots)
  | up hdir _ ih =>
    cases hdots with
    | keep _ hdots => exact .up hdir (ih hdots)
  | free hdir hname =>
    cases hdots with
    | keep _ hdots =>
      cases hdots
      exact .free hdir hname
  | link hdir hname hnode _ ih =>
    cases hdots with
    | keep _ hdots => exact .link hdir hname hnode (ih (hdots.prepend _))
  | enter hdir hname hnode hreal _ ih =>
    cases hdots with
    | keep _ hdots => exact .enter hdir hname hnode hreal (ih hdots)

/-! ### Places -/

/-- Every name of the place is in the directory in front of it, and is no link. -/
def Disk.Real (disk : Disk α) : Place → Prop
  | [] => True
  | (name, i) :: below => Disk.Real disk below ∧ ∃ entries node, disk.dir below = some entries ∧
      entries name = some i ∧ disk.nodes i = some node ∧ ∀ path, node ≠ .link path

/-- And a free name is free. -/
def Disk.RealTarget (disk : Disk α) : Target → Prop
  | .found place => disk.Real place
  | .free place name => disk.Real place ∧ ∃ entries, disk.dir place = some entries ∧ entries name = none

/-- **A path leads to real names.** -/
theorem Walks.real (h : Walks disk links place parts target) (hplace : disk.Real place) :
    disk.RealTarget target := by
  induction h with
  | nil => exact hplace
  | here _ _ ih => exact ih hplace
  | @up _ place _ _ _ _ _ ih =>
    refine ih ?_
    cases place with
    | nil => trivial
    | cons top below => exact hplace.1
  | free hdir hname => exact ⟨hplace, _, hdir, hname⟩
  | link _ _ _ _ ih =>
    refine ih ?_
    split
    · trivial
    · exact hplace
  | enter hdir hname hnode hreal _ ih => exact ih ⟨hplace, _, _, hdir, hname, hnode, hreal⟩

@[simp] theorem names_cons (name : String) (i : ℕ) (below : Place) :
    names ((name, i) :: below) = names below ++ [name] := List.reverse_cons

/-- The names of a place lead to it, and on from there. -/
theorem Walks.from_names (hplace : disk.Real place) (h : Walks disk links place parts target) :
    Walks disk links [] ((names place).map .name ++ parts) target := by
  induction place generalizing parts with
  | nil => exact h
  | cons top below ih =>
    obtain ⟨name, i⟩ := top
    obtain ⟨hbelow, entries, node, hdir, hname, hnode, hreal⟩ := hplace
    have hnext := ih hbelow (.enter hdir hname hnode hreal h)
    rwa [names_cons, List.map_append, List.append_assoc]

theorem walk_names (hplace : disk.Real place) (links : ℕ) :
    Walks disk links [] ((names place).map .name) (.found place) := by
  have hnames := Walks.from_names hplace (.nil links place)
  rwa [List.append_nil] at hnames

/-- **Real names tell the place.** -/
theorem names_inj {place' : Place} (hplace : disk.Real place) (hplace' : disk.Real place')
    (hnames : names place = names place') : place = place' := by
  have hwalk := walk_names hplace 0
  rw [hnames] at hwalk
  exact Target.found.inj (hwalk.unique (walk_names hplace' 0))

/-! ### File systems -/

structure Disk.Sound (disk : Disk α) : Prop where
  free : ∀ i, disk.next ≤ i → disk.nodes i = none
  rooted : ∃ entries, disk.nodes disk.root = some (.dir entries)
  cwd : disk.Real disk.cwd
  cwdDir : ∃ entries, disk.dir disk.cwd = some entries

/-- A disk whose root and working directory are directories. -/
structure FileSystem (α : Type*) extends Disk α where
  sound : toDisk.Sound

theorem Disk.dir_iff {entries : String → Option ℕ} :
    disk.dir place = some entries ↔ disk.nodes (disk.inode place) = some (.dir entries) := by
  unfold Disk.dir
  constructor
  · intro h
    split at h
    · rename_i hnode
      cases h
      exact hnode
    · cases h
  · intro h
    rw [h]

/-- What stands at a real place. -/
theorem Disk.Real.node (hsound : disk.Sound) (hplace : disk.Real place) :
    ∃ node, disk.nodes (disk.inode place) = some node := by
  cases place with
  | nil =>
    obtain ⟨entries, hroot⟩ := hsound.rooted
    exact ⟨_, hroot⟩
  | cons top below =>
    obtain ⟨_, _, node, _, _, hnode, _⟩ := hplace
    exact ⟨node, hnode⟩

theorem Disk.Sound.lt_next (hsound : disk.Sound) {i : ℕ} {node : Node α} (hnode : disk.nodes i = some node) :
    i < disk.next := by
  by_contra hge
  rw [hsound.free i (Nat.le_of_not_lt hge)] at hnode
  cases hnode

theorem resolve_eq_some {path : Path} :
    disk.resolve path = some place ↔ disk.target path = some (.found place) := by
  unfold Disk.resolve
  constructor
  · intro h
    split at h
    · rename_i htarget
      cases h
      exact htarget
    · cases h
  · intro h
    rw [h]

/-- Where a walk for a path starts. -/
def Disk.start (disk : Disk α) (path : Path) : Place := if path.absolute then [] else disk.cwd

theorem Disk.Sound.start (hsound : disk.Sound) (path : Path) : disk.Real (disk.start path) := by
  unfold Disk.start
  split
  · trivial
  · exact hsound.cwd

theorem target_eq_some {path : Path} : disk.target path = some target ↔
    path.isEmpty = false ∧ Walks disk maxLinks (disk.start path) path.parts target := by
  unfold Disk.target
  constructor
  · intro h
    split at h
    · cases h
    · rename_i hempty
      exact ⟨by simpa using hempty, walks_of_walk h⟩
  · rintro ⟨hempty, h⟩
    rw [hempty]
    exact h.walk

theorem read_eq_some {path : Path} {content : α} : disk.read path = some content ↔
    ∃ place, disk.resolve path = some place ∧ disk.nodes (disk.inode place) = some (.file content) := by
  unfold Disk.read
  cases disk.resolve path with
  | none => simp
  | some place =>
    rw [Option.bind_some]
    constructor
    · intro h
      split at h
      · rename_i hnode
        cases h
        exact ⟨place, rfl, hnode⟩
      · cases h
    · rintro ⟨_, hplace, hnode⟩
      cases hplace
      rw [hnode]

theorem resolve_real (hsound : disk.Sound) {path : Path} (h : disk.resolve path = some place) :
    disk.Real place :=
  (target_eq_some.mp (resolve_eq_some.mp h)).2.real (hsound.start path)

/-- **What a path leads to is found again under its real names.** -/
theorem resolve_canonical (hplace : disk.Real place) : disk.resolve (.ofNames (names place)) = some place :=
  resolve_eq_some.mpr (target_eq_some.mpr ⟨rfl, walk_names hplace maxLinks⟩)

/-! ### Growing -/

def Node.Grows : Node α → Node α → Prop
  | .file _, .file _ => True
  | .dir entries, .dir entries' => ∀ name i, entries name = some i → entries' name = some i
  | .link path, .link path' => path = path'
  | _, _ => False

/-- Files only change their contents, and directories only gain entries. -/
structure Grows (disk disk' : Disk α) : Prop where
  root : disk'.root = disk.root
  cwd : disk'.cwd = disk.cwd
  nodes : ∀ i node, disk.nodes i = some node → ∃ node', disk'.nodes i = some node' ∧ node.Grows node'

section Grows

variable {disk' disk'' : Disk α}

theorem Node.Grows.refl (node : Node α) : node.Grows node := by
  cases node with
  | file => trivial
  | dir => exact fun _ _ h => h
  | link => rfl

theorem Node.Grows.trans {node node' node'' : Node α} (h : node.Grows node') (h' : node'.Grows node'') :
    node.Grows node'' := by
  cases node with
  | file =>
    cases node' with
    | file =>
      cases node'' with
      | file => trivial
      | _ => exact absurd h' id
    | _ => exact absurd h id
  | dir entries =>
    cases node' with
    | dir entries' =>
      cases node'' with
      | dir entries'' => exact fun name i hname => h' name i (h name i hname)
      | _ => exact absurd h' id
    | _ => exact absurd h id
  | link path =>
    cases node' with
    | link path' =>
      obtain rfl : path = path' := h
      exact h'
    | _ => exact absurd h id

theorem Grows.refl (disk : Disk α) : Grows disk disk := ⟨rfl, rfl, fun _ node h => ⟨node, h, .refl node⟩⟩

theorem Grows.trans (h : Grows disk disk') (h' : Grows disk' disk'') : Grows disk disk'' where
  root := h'.root.trans h.root
  cwd := h'.cwd.trans h.cwd
  nodes := by
    intro i node hnode
    obtain ⟨node', hnode', hgrows⟩ := h.nodes i node hnode
    obtain ⟨node'', hnode'', hgrows'⟩ := h'.nodes i node' hnode'
    exact ⟨node'', hnode'', hgrows.trans hgrows'⟩

theorem Grows.inode (h : Grows disk disk') (place : Place) : disk'.inode place = disk.inode place := by
  cases place with
  | nil => exact h.root
  | cons => rfl

theorem Grows.dir (h : Grows disk disk') {entries : String → Option ℕ} (hdir : disk.dir place = some entries) :
    ∃ entries', disk'.dir place = some entries' ∧ ∀ name i, entries name = some i → entries' name = some i := by
  obtain ⟨node', hnode', hgrows⟩ := h.nodes _ _ (Disk.dir_iff.mp hdir)
  cases node' with
  | dir entries' =>
    refine ⟨entries', Disk.dir_iff.mpr ?_, hgrows⟩
    rw [h.inode]
    exact hnode'
  | file => exact absurd hgrows id
  | link => exact absurd hgrows id

/-- An entry that is no link stays one. -/
theorem Grows.entry (h : Grows disk disk') {i : ℕ} {node : Node α} (hnode : disk.nodes i = some node)
    (hreal : ∀ path, node ≠ .link path) :
    ∃ node', disk'.nodes i = some node' ∧ ∀ path, node' ≠ .link path := by
  obtain ⟨node', hnode', hgrows⟩ := h.nodes i node hnode
  refine ⟨node', hnode', ?_⟩
  rintro path rfl
  cases node with
  | link path => exact hreal path rfl
  | _ => exact hgrows

theorem Grows.walks (h : Grows disk disk') (hwalk : Walks disk links place parts target) {mid : Place}
    (hmid : target = .found mid) : Walks disk' links place parts target := by
  induction hwalk with
  | nil => exact .nil _ _
  | here hdir _ ih =>
    obtain ⟨_, hdir', _⟩ := h.dir hdir
    exact .here hdir' (ih hmid)
  | up hdir _ ih =>
    obtain ⟨_, hdir', _⟩ := h.dir hdir
    exact .up hdir' (ih hmid)
  | free => cases hmid
  | @link _ _ _ _ _ _ _ path hdir hname hnode _ ih =>
    obtain ⟨_, hdir', hgrows⟩ := h.dir hdir
    obtain ⟨node', hnode', hlink⟩ := h.nodes _ _ hnode
    cases node' with
    | link path' =>
      obtain rfl : path = path' := hlink
      exact .link hdir' (hgrows _ _ hname) hnode' (ih hmid)
    | file => exact absurd hlink id
    | dir => exact absurd hlink id
  | enter hdir hname hnode hreal _ ih =>
    obtain ⟨_, hdir', hgrows⟩ := h.dir hdir
    obtain ⟨_, hnode', hreal'⟩ := h.entry hnode hreal
    exact .enter hdir' (hgrows _ _ hname) hnode' hreal' (ih hmid)

/-- **A path leads to what it led to.** -/
theorem Grows.resolve (h : Grows disk disk') {path : Path} (hpath : disk.resolve path = some place) :
    disk'.resolve path = some place := by
  obtain ⟨hempty, hwalk⟩ := target_eq_some.mp (resolve_eq_some.mp hpath)
  refine resolve_eq_some.mpr (target_eq_some.mpr ⟨hempty, ?_⟩)
  rw [Disk.start, h.cwd]
  exact h.walks hwalk rfl

theorem Grows.real (h : Grows disk disk') (hplace : disk.Real place) : disk'.Real place := by
  induction place with
  | nil => trivial
  | cons top below ih =>
    obtain ⟨hbelow, entries, node, hdir, hname, hnode, hreal⟩ := hplace
    obtain ⟨entries', hdir', hgrows⟩ := h.dir hdir
    obtain ⟨node', hnode', hreal'⟩ := h.entry hnode hreal
    exact ⟨ih hbelow, entries', node', hdir', hgrows _ _ hname, hnode', hreal'⟩

theorem Grows.sound (h : Grows disk disk') (hsound : disk.Sound)
    (hfree : ∀ i, disk'.next ≤ i → disk'.nodes i = none) : disk'.Sound where
  free := hfree
  rooted := by
    obtain ⟨entries, hroot⟩ := hsound.rooted
    have hdir : disk.dir [] = some entries := Disk.dir_iff.mpr hroot
    obtain ⟨entries', hdir', _⟩ := h.dir hdir
    exact ⟨entries', Disk.dir_iff.mp hdir'⟩
  cwd := by
    rw [h.cwd]
    exact h.real hsound.cwd
  cwdDir := by
    obtain ⟨entries, hdir⟩ := hsound.cwdDir
    obtain ⟨entries', hdir', _⟩ := h.dir hdir
    rw [h.cwd]
    exact ⟨entries', hdir'⟩

end Grows

/-! ### Creating and writing files -/

/-- A node is written to the disk. -/
def Disk.put (disk : Disk α) (i : ℕ) (node : Node α) : Disk α :=
  { disk with
      nodes := fun j => if j = i then some node else disk.nodes j
      next := max disk.next (i + 1) }

/-- Open a file for writing: it is emptied if it is there, and created if the last name is free. -/
def Disk.create (disk : Disk α) (path : Path) (empty : α) : Option (Disk α × ℕ) :=
  match disk.target path with
  | some (.found place) =>
    match disk.nodes (disk.inode place) with
    | some (.file _) => some (disk.put (disk.inode place) (.file empty), disk.inode place)
    | _ => none
  | some (.free place name) =>
    match disk.dir place with
    | some entries =>
      let entries' := fun other => if other = name then some disk.next else entries other
      some ((disk.put disk.next (.file empty)).put (disk.inode place) (.dir entries'), disk.next)
    | none => none
  | none => none

section Create

variable {disk' : Disk α} {path : Path} {empty : α} {i : ℕ}

theorem put_nodes_self (disk : Disk α) (i : ℕ) (node : Node α) : (disk.put i node).nodes i = some node :=
  if_pos rfl

theorem put_nodes_of_ne (disk : Disk α) {i j : ℕ} (node : Node α) (h : j ≠ i) :
    (disk.put i node).nodes j = disk.nodes j := if_neg h

theorem put_free (disk : Disk α) (hfree : ∀ j, disk.next ≤ j → disk.nodes j = none) (i : ℕ) (node : Node α) :
    ∀ j, (disk.put i node).next ≤ j → (disk.put i node).nodes j = none := by
  intro j hj
  have hmax : max disk.next (i + 1) ≤ j := hj
  rw [put_nodes_of_ne disk node (by omega)]
  exact hfree j (by omega)

/-- A node that is not in use is written, or one that grows. -/
theorem put_grows (disk : Disk α) {i : ℕ} {node : Node α} (h : ∀ old, disk.nodes i = some old → old.Grows node) :
    Grows disk (disk.put i node) where
  root := rfl
  cwd := rfl
  nodes := by
    intro j old hold
    by_cases hj : j = i
    · subst hj
      exact ⟨node, put_nodes_self disk j node, h old hold⟩
    · exact ⟨old, (put_nodes_of_ne disk node hj).trans hold, .refl old⟩

/-- **What creating a file does**, in full. -/
theorem create_cases (hsound : disk.Sound) (h : disk.create path empty = some (disk', i)) :
    (∃ place content, disk.resolve path = some place ∧ i = disk.inode place ∧
        disk.nodes i = some (.file content) ∧ disk' = disk.put i (.file empty)) ∨
      ∃ place name entries, disk.target path = some (.free place name) ∧ i = disk.next ∧
        disk.nodes (disk.inode place) = some (.dir entries) ∧ entries name = none ∧
        disk' = (disk.put i (.file empty)).put (disk.inode place)
          (.dir fun other => if other = name then some i else entries other) := by
  unfold Disk.create at h
  cases htarget : disk.target path with
  | none =>
    rw [htarget] at h
    cases h
  | some target =>
    rw [htarget] at h
    cases target with
    | found place =>
      dsimp only at h
      split at h
      · rename_i content hnode
        cases h
        exact .inl ⟨place, content, resolve_eq_some.mpr htarget, rfl, hnode, rfl⟩
      · cases h
    | free place name =>
      obtain ⟨_, hwalk⟩ := target_eq_some.mp htarget
      obtain ⟨_, entries, hdir, hname⟩ := hwalk.real (hsound.start path)
      dsimp only at h
      rw [hdir] at h
      cases h
      exact .inr ⟨place, name, entries, rfl, rfl, Disk.dir_iff.mp hdir, hname, rfl⟩

/-- **Creating a file takes nothing away.** -/
theorem create_grows (hsound : disk.Sound) (h : disk.create path empty = some (disk', i)) : Grows disk disk' := by
  rcases create_cases hsound h with ⟨place, content, _, _, hnode, rfl⟩ |
    ⟨place, name, entries, _, rfl, hdir, hname, rfl⟩
  · refine put_grows disk ?_
    intro old hold
    rw [hnode] at hold
    cases hold
    trivial
  · have hfile : Grows disk (disk.put disk.next (.file empty)) := by
      refine put_grows disk ?_
      intro old hold
      rw [hsound.free _ (Nat.le_refl _)] at hold
      cases hold
    refine hfile.trans (put_grows _ ?_)
    intro old hold
    have hlt := hsound.lt_next hdir
    rw [put_nodes_of_ne disk _ (Nat.ne_of_lt hlt), hdir] at hold
    cases hold
    intro other j hother
    have hne : other ≠ name := by
      rintro rfl
      rw [hname] at hother
      cases hother
    show (if other = name then some disk.next else entries other) = some j
    rw [if_neg hne]
    exact hother

/-- **No other file changes**, and the one that is opened is empty. -/
theorem create_nodes (hsound : disk.Sound) (h : disk.create path empty = some (disk', i)) :
    disk'.nodes i = some (.file empty) ∧
      ∀ j content, j ≠ i → disk.nodes j = some (.file content) → disk'.nodes j = some (.file content) := by
  rcases create_cases hsound h with ⟨place, content, _, _, hnode, rfl⟩ |
    ⟨place, name, entries, _, rfl, hdir, hname, rfl⟩
  · refine ⟨put_nodes_self _ _ _, ?_⟩
    intro j content hj hfile
    rwa [put_nodes_of_ne disk _ hj]
  · have hlt := hsound.lt_next hdir
    refine ⟨?_, ?_⟩
    · rw [put_nodes_of_ne _ _ (Nat.ne_of_gt hlt)]
      exact put_nodes_self _ _ _
    · intro j content hj hfile
      have hplace : j ≠ disk.inode place := by
        rintro rfl
        rw [hdir] at hfile
        cases hfile
      rw [put_nodes_of_ne _ _ hplace, put_nodes_of_ne _ _ hj]
      exact hfile

theorem create_sound (hsound : disk.Sound) (h : disk.create path empty = some (disk', i)) : disk'.Sound := by
  refine (create_grows hsound h).sound hsound ?_
  rcases create_cases hsound h with ⟨_, _, _, _, _, rfl⟩ | ⟨_, _, _, _, _, _, _, rfl⟩
  · exact put_free disk hsound.free _ _
  · exact put_free _ (put_free disk hsound.free _ _) _ _

end Create

/-- Write a file that is open. -/
def Disk.write (disk : Disk α) (i : ℕ) (f : α → α) : Disk α :=
  match disk.nodes i with
  | some (.file content) => disk.put i (.file (f content))
  | _ => disk

section Write

variable {i : ℕ} {f : α → α}

theorem write_grows (disk : Disk α) (i : ℕ) (f : α → α) : Grows disk (disk.write i f) := by
  unfold Disk.write
  split
  · rename_i hnode
    refine put_grows disk ?_
    intro old hold
    rw [hnode] at hold
    cases hold
    trivial
  · exact .refl disk

theorem write_nodes (disk : Disk α) (i : ℕ) (f : α → α) {content : α} (hnode : disk.nodes i = some (.file content)) :
    (disk.write i f).nodes i = some (.file (f content)) := by
  rw [Disk.write, hnode]
  exact put_nodes_self disk i _

theorem write_nodes_of_ne (disk : Disk α) (f : α → α) {j : ℕ} (h : j ≠ i) :
    (disk.write i f).nodes j = disk.nodes j := by
  unfold Disk.write
  split
  · exact put_nodes_of_ne disk _ h
  · rfl

theorem write_sound (hsound : disk.Sound) (i : ℕ) (f : α → α) : (disk.write i f).Sound := by
  refine (write_grows disk i f).sound hsound ?_
  unfold Disk.write
  split
  · exact put_free disk hsound.free _ _
  · exact hsound.free

end Write

/-- A file system with a file opened for writing. -/
def FileSystem.create (fs : FileSystem α) (path : Path) (empty : α) : Option (FileSystem α × ℕ) :=
  match h : fs.toDisk.create path empty with
  | some (disk, i) => some (⟨disk, create_sound fs.sound h⟩, i)
  | none => none

def FileSystem.write (fs : FileSystem α) (i : ℕ) (f : α → α) : FileSystem α :=
  ⟨fs.toDisk.write i f, write_sound fs.sound i f⟩

theorem FileSystem.create_eq {fs after : FileSystem α} {path : Path} {empty : α} {i : ℕ}
    (h : fs.create path empty = some (after, i)) : fs.toDisk.create path empty = some (after.toDisk, i) := by
  unfold FileSystem.create at h
  split at h
  · rename_i hcreate
    cases h
    exact hcreate
  · cases h

theorem FileSystem.exists_create {fs : FileSystem α} {path : Path} {empty : α} {disk : Disk α} {i : ℕ}
    (h : fs.toDisk.create path empty = some (disk, i)) :
    ∃ after, fs.create path empty = some (after, i) ∧ after.toDisk = disk := by
  unfold FileSystem.create
  split
  · rename_i disk' i' hcreate
    rw [h] at hcreate
    cases hcreate
    exact ⟨_, rfl, rfl⟩
  · rename_i hnone
    rw [h] at hnone
    cases hnone

end Tapgres.Lib.Files
