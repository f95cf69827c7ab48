import WereraChess.Program
import WereraChess.Text.Fields
/-!
# Files in memory

A run of the program over given files, without touching a disk. A path is followed name by name from
the directory in which the run starts, or from the root if a slash comes first. Each name is looked
up in a directory that is there: an empty name and `.` stay in it, `..` leaves it. The main
statement says that a file is read back under the path under which it was put.
-/

namespace WereraChess

/-- A place in the tree by the names on the way to it from the root. -/
abbrev Place := List (List Char)

structure FileTree where
  directories : List Place
  files : List (Place × FileText)

namespace FileTree

/-- Where a run starts. A slash stands in its last name, so that no path spells it out. -/
def workingDirectory : Place := [['t', 'm', 'p'], ['/']]

/-- The directories of a usual system, and the file that is always empty. -/
def bare : FileTree where
  directories := [] :: workingDirectory :: ["bin", "boot", "dev", "etc", "home", "lib", "media",
    "mnt", "opt", "proc", "root", "run", "sbin", "srv", "sys", "tmp", "usr", "var"].map
      fun n => [n.toList]
  files := [([['d', 'e', 'v'], ['n', 'u', 'l', 'l']], .text "")]

/-- The names on a path. No path is empty, longer than 4095 bytes or with a zero character in it. -/
def names? (path : String) : Option (List (List Char)) :=
  if path = "" ∨ 4095 < path.utf8ByteSize ∨ '\x00' ∈ path.toList then none
  else some (Text.splitWhere (· = '/') path.toList)

def start (names : List (List Char)) : Place :=
  if names.head? = some [] then [] else workingDirectory

def isOwnName : List Char → Bool
  | [] | ['.'] | ['.', '.'] => false
  | _ => true

/-- The place of a name in a directory; names of more than 255 bytes have none. -/
def step? (t : FileTree) (p : Place) (name : List Char) : Option Place :=
  if p ∈ t.directories ∧ (String.ofList name).utf8ByteSize ≤ 255 then
    some <| match name with
      | [] | ['.'] => p
      | ['.', '.'] => p.dropLast
      | _ => p ++ [name]
  else none

/-- The place to which a path leads, where there may be nothing yet. -/
def place? (t : FileTree) (path : String) : Option Place := do
  let names ← names? path
  names.foldlM t.step? (start names)

def read (t : FileTree) (path : String) : FileText :=
  match t.place? path with
  | none => .missing
  | some p => if p ∈ t.directories then .unreadable else (t.files.lookup p).getD .missing

/-- Enters the directory of a name, which is made if there is nothing. -/
def enter? (here : FileTree × Place) (name : List Char) : Option (FileTree × Place) := do
  let (t, p) := here
  let q ← t.step? p name
  if q ∈ t.directories then return (t, q)
  else if (t.files.lookup q).isSome then none
  else return ({ t with directories := q :: t.directories }, q)

/-- Puts a file under a path and makes the directories that lead to it. Nothing can be put where a
directory is, on a way that leads through a file, or under a path that does not end in the name of a
place. -/
def put? (t : FileTree) (path : String) (text : FileText) : Option FileTree := do
  let names ← names? path
  let last ← names.getLast?
  if !isOwnName last then none
  let (t, p) ← names.dropLast.foldlM enter? (t, start names)
  let q ← t.step? p last
  if q ∈ t.directories then none
  else return { t with files := (q, text) :: t.files }

/-- The tree of the files that are there. -/
def ofList (files : List (String × FileText)) : FileTree :=
  (files.filter (·.2 ≠ .missing)).foldl (fun t (path, text) => (t.put? path text).getD t) bare

/-- The outcome of a run whose settings are kept under the given path. -/
def run (t : FileTree) (settingsPath : String) (ids : Nat → Uuid) (now : Instant)
    (args : List String) : Program.Outcome :=
  let r := Program.run { settingsPath, file := t.read, ids, now } args
  match r.write with
  | none => r.outcome
  | some (path, text) =>
    if (t.put? path (.text text)).isSome then r.outcome else Program.unwritten

private theorem step?_mono {t u : FileTree} (h : ∀ p ∈ t.directories, p ∈ u.directories)
    {p q : Place} {name : List Char} (hq : t.step? p name = some q) : u.step? p name = some q := by
  unfold step? at hq ⊢
  split at hq
  · next fits => rw [if_pos ⟨h p fits.1, fits.2⟩]; exact hq
  · cases hq

private theorem step?_of_enter? {t u : FileTree} {p q : Place} {name : List Char}
    (h : enter? (t, p) name = some (u, q)) :
    (∀ d ∈ t.directories, d ∈ u.directories) ∧ t.step? p name = some q := by
  simp only [enter?, Option.bind_eq_bind, Option.bind_eq_some_iff] at h
  obtain ⟨r, hr, h⟩ := h
  split at h
  · cases h; exact ⟨fun _ hd => hd, hr⟩
  · split at h
    · cases h
    · cases h; exact ⟨fun _ hd => List.mem_cons_of_mem _ hd, hr⟩

private theorem foldlM_step?_of_enter? {names : List (List Char)} {t u : FileTree} {p q : Place}
    (h : names.foldlM enter? (t, p) = some (u, q)) :
    (∀ d ∈ t.directories, d ∈ u.directories) ∧ names.foldlM u.step? p = some q := by
  induction names generalizing t p with
  | nil => cases h; exact ⟨fun _ hd => hd, rfl⟩
  | cons name names ih =>
    obtain ⟨⟨v, r⟩, hv, h⟩ := Option.bind_eq_some_iff.1 h
    obtain ⟨grown, first⟩ := step?_of_enter? hv
    obtain ⟨later, rest⟩ := ih h
    refine ⟨fun d hd => later d (grown d hd), ?_⟩
    have first' := step?_mono (fun d hd => later d (grown d hd)) first
    simp [List.foldlM_cons, first', rest]

/-- A file is read back under the path under which it was put. -/
theorem read_put? {t u : FileTree} {path : String} {text : FileText}
    (h : t.put? path text = some u) : u.read path = text := by
  simp only [put?, Option.bind_eq_bind, Option.bind_eq_some_iff] at h
  obtain ⟨names, hnames, last, hlast, h⟩ := h
  split at h
  · simp at h
  · obtain ⟨⟨v, p⟩, hv, h⟩ := Option.bind_eq_some_iff.1 h
    obtain ⟨q, hq, h⟩ := Option.bind_eq_some_iff.1 h
    split at h
    · simp at h
    · next free =>
      simp only [Option.pure_def, Option.some.injEq] at h
      subst h
      obtain ⟨-, way⟩ := foldlM_step?_of_enter? hv
      have whole : names.dropLast ++ [last] = names := by
        obtain ⟨initial, rfl⟩ := List.getLast?_eq_some_iff.1 hlast
        rw [List.dropLast_concat]
      have place : place? v path = some q := by
        simp only [place?, hnames, Option.bind_eq_bind, Option.bind_some]
        rw [← whole, List.foldlM_append]
        simp [whole, way, hq]
      have same : place? { v with files := (q, text) :: v.files } path = some q := place
      simp [read, same, free]

end FileTree

end WereraChess
